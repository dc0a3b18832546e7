import OaasIot.Odgm.LayerEquivalence
import OaasIot.Odgm.RaftStateMachine

/-!
# The applied index when storage fails (`state_machine.rs`)

`apply` notes the id of an entry as the last one applied before it applies it, and returns at the first entry whose
request fails. Here every call of the storage may fail. The sibling `install_snapshot` (`:286`) updates what it tracks
after the storage has succeeded.
-/

namespace Odgm

open List

/-! ## A storage whose calls may fail -/

structure FallibleStorage where
  data : Store
  failures : List (Option StorageError)

namespace FallibleStorage

def attempt {α : Type} (s : FallibleStorage) (f : Store → α × Store) : Except StorageError α × FallibleStorage :=
  match s.failures with
  | some e :: failures => (.error e, ⟨s.data, failures⟩)
  | none :: failures => (.ok (f s.data).1, ⟨(f s.data).2, failures⟩)
  | [] => (.ok (f s.data).1, ⟨(f s.data).2, []⟩)

def put (backend : Backend) (s : FallibleStorage) (key value : Bytes) : Except StorageError Bool × FallibleStorage :=
  s.attempt fun m => (backend.putFlag (m.get key).isSome, m.insert key value)

def get (s : FallibleStorage) (key : Bytes) : Except StorageError (Option Bytes) × FallibleStorage :=
  s.attempt fun m => (m.get key, m)

def delete (s : FallibleStorage) (key : Bytes) : Except StorageError Unit × FallibleStorage :=
  s.attempt fun m => ((), m.erase key)

def applyBatch (backend : Backend) : List Operation → FallibleStorage → Option String × FallibleStorage
  | [], s => (none, s)
  | .write key value _ :: operations, s =>
    match s.put backend key value with
    | (.ok _, s') => applyBatch backend operations s'
    | (.error e, s') => (some e.message, s')
  | .read key :: operations, s =>
    match s.get key with
    | (.ok _, s') => applyBatch backend operations s'
    | (.error e, s') => (some e.message, s')
  | .delete key :: operations, s =>
    match s.delete key with
    | (.ok _, s') => applyBatch backend operations s'
    | (.error e, s') => (some e.message, s')
  | .batch _ :: _, s => (some "nested batch unsupported", s)

def applyShardRequest (backend : Backend) (s : FallibleStorage) :
    Operation → Except StorageError ReplicationResponse × FallibleStorage
  | .write key value _ =>
    match s.put backend key value with
    | (.ok out, s') => (.ok ⟨.applied, none, .write out⟩, s')
    | (.error e, s') => (.error e, s')
  | .read key =>
    match s.get key with
    | (.ok val, s') => (.ok ⟨.applied, val, .none⟩, s')
    | (.error e, s') => (.error e, s')
  | .delete key =>
    match s.delete key with
    | (.ok _, s') => (.ok .applied, s')
    | (.error e, s') => (.error e, s')
  | .batch operations =>
    match applyBatch backend operations s with
    | (none, s') => (.ok .applied, s')
    | (some err, s') => (.ok ⟨.failed err, none, .none⟩, s')

theorem attempt_cases {α : Type} (s : FallibleStorage) (f : Store → α × Store) :
    (∃ e failures, s.attempt f = (.error e, ⟨s.data, failures⟩)) ∨
      ∃ failures, s.attempt f = (.ok (f s.data).1, ⟨(f s.data).2, failures⟩) := by
  unfold attempt
  match s.failures with
  | some e :: failures => exact .inl ⟨e, failures, rfl⟩
  | none :: failures => exact .inr ⟨failures, rfl⟩
  | [] => exact .inr ⟨[], rfl⟩

variable (backend : Backend)

theorem data_of_error {s s' : FallibleStorage} {operation : Operation} {e : StorageError}
    (h : s.applyShardRequest backend operation = (.error e, s')) : s'.data = s.data := by
  cases operation with
  | write key value returnOld =>
    rcases attempt_cases s fun m => (backend.putFlag (m.get key).isSome, m.insert key value) with
      ⟨e', failures, hput⟩ | ⟨failures, hput⟩
    · rw [applyShardRequest, put, hput] at h
      cases h
      rfl
    · rw [applyShardRequest, put, hput] at h
      cases h
  | read key =>
    rcases attempt_cases s fun m => (m.get key, m) with ⟨e', failures, hget⟩ | ⟨failures, hget⟩
    · rw [applyShardRequest, get, hget] at h
      cases h
      rfl
    · rw [applyShardRequest, get, hget] at h
      cases h
  | delete key =>
    rcases attempt_cases s fun m => ((), m.erase key) with ⟨e', failures, hdelete⟩ | ⟨failures, hdelete⟩
    · rw [applyShardRequest, delete, hdelete] at h
      cases h
      rfl
    · rw [applyShardRequest, delete, hdelete] at h
      cases h
  | batch operations =>
    rw [applyShardRequest] at h
    rcases hbatch : applyBatch backend operations s with ⟨_ | err, s₁⟩
    · rw [hbatch] at h
      cases h
    · rw [hbatch] at h
      cases h

/-! ### Without failures -/

theorem applyBatch_healthy (operations : List Operation) {n : Node} (hf : n.faults = []) :
    applyBatch backend operations ⟨n.app, []⟩ =
      ((Odgm.applyBatch operations n).1, ⟨(Odgm.applyBatch operations n).2.app, []⟩) := by
  induction operations generalizing n with
  | nil => rfl
  | cons operation operations ih =>
    cases operation with
    | write key value returnOld =>
      rw [Odgm.applyBatch, put_ok hf]
      exact ih (n := { n with app := n.app.insert key value }) hf
    | read key => exact ih hf
    | delete key => exact ih (n := n.delete key) hf
    | batch inner => rfl

theorem applyShardRequest_healthy (m : Store) (operation : Operation) :
    ∃ response, applyShardRequest backend ⟨m, []⟩ operation = (.ok response, ⟨applyEntry m operation, []⟩) := by
  cases operation with
  | write key value returnOld | read key | delete key => exact ⟨_, rfl⟩
  | batch operations =>
    have hbatch := applyBatch_healthy backend operations (n := ⟨m, .empty, [], []⟩) rfl
    rw [applyShardRequest, hbatch, applyEntry, Odgm.applyShardRequest]
    rcases Odgm.applyBatch operations ⟨m, .empty, [], []⟩ with ⟨_ | err, n'⟩
    · exact ⟨_, rfl⟩
    · exact ⟨_, rfl⟩

end FallibleStorage

/-! ## The loop -/

structure ShardStateMachine (M : Type) where
  app : FallibleStorage
  own : Applied M

namespace ShardStateMachine

variable {M : Type}

def applyOne (backend : Backend) (sm : ShardStateMachine M) (entry : Entry (EntryPayload M)) :
    Except StorageError ReplicationResponse × ShardStateMachine M :=
  let own := { sm.own with lastAppliedLogId := some entry.logId }
  match entry.payload with
  | .blank => (.ok .applied, { sm with own })
  | .normal request =>
    ((sm.app.applyShardRequest backend request).1, ⟨(sm.app.applyShardRequest backend request).2, own⟩)
  | .membership m => (.ok .applied, { sm with own := { own with lastMembership := ⟨some entry.logId, m⟩ } })

def applyLoop (backend : Backend) : List (Entry (EntryPayload M)) → ShardStateMachine M → List ReplicationResponse →
    Except StorageError (List ReplicationResponse) × ShardStateMachine M
  | [], sm, responses => (.ok responses, sm)
  | entry :: entries, sm, responses =>
    match sm.applyOne backend entry with
    | (.ok response, sm') => applyLoop backend entries sm' (responses ++ [response])
    | (.error e, sm') => (.error e, sm')

def apply (backend : Backend) (entries : List (Entry (EntryPayload M))) (sm : ShardStateMachine M) :
    Except StorageError (List ReplicationResponse) × ShardStateMachine M :=
  match applyLoop backend entries sm [] with
  | (.ok responses, sm') =>
    (.ok responses,
      if entries.isEmpty then sm' else { sm' with own := { sm'.own with currentSnapshot := none } })
  | (.error e, sm') => (.error e, sm')

variable (backend : Backend)

theorem applyOne_healthy (m : Store) (own : Applied M) (entry : Entry (EntryPayload M)) :
    ∃ response, applyOne backend ⟨⟨m, []⟩, own⟩ entry =
      (.ok response, ⟨⟨(Odgm.applyOne (m, own) entry).1, []⟩, (Odgm.applyOne (m, own) entry).2⟩) := by
  unfold applyOne Odgm.applyOne
  cases entry.payload with
  | blank | membership x => exact ⟨_, rfl⟩
  | normal request =>
    obtain ⟨response, hrequest⟩ := FallibleStorage.applyShardRequest_healthy backend m request
    exact ⟨response, by dsimp only; rw [hrequest]⟩

variable (backend : Backend) (entries : List (Entry (EntryPayload M))) (sm : ShardStateMachine M)

theorem applyLoop_healthy (s : Store × Applied M) (responses : List ReplicationResponse) :
    ∃ responses', applyLoop backend entries ⟨⟨s.1, []⟩, s.2⟩ responses =
      (.ok responses', ⟨⟨(entries.foldl Odgm.applyOne s).1, []⟩, (entries.foldl Odgm.applyOne s).2⟩) := by
  induction entries generalizing s responses with
  | nil => exact ⟨responses, rfl⟩
  | cons entry entries ih =>
    obtain ⟨response, hone⟩ := applyOne_healthy backend s.1 s.2 entry
    rw [applyLoop, hone]
    exact ih (Odgm.applyOne s entry) (responses ++ [response])

theorem apply_healthy (s : Store × Applied M) : ∃ responses, apply backend entries ⟨⟨s.1, []⟩, s.2⟩ =
      (.ok responses, ⟨⟨(applyEntries s entries).1, []⟩, (applyEntries s entries).2⟩) := by
  obtain ⟨responses, hloop⟩ := applyLoop_healthy backend entries s []
  refine ⟨responses, ?_⟩
  rw [apply, hloop, applyEntries]
  cases entries with
  | nil | cons entry entries => rfl

/-! ## What is in storage -/

def entryEffect (entry : Entry (EntryPayload M)) (m : Store) : Store :=
  match entry.payload with
  | .normal request => request.effect m
  | _ => m

def LeavesEffect (entry : Entry (EntryPayload M)) : Prop :=
  (sm.applyOne backend entry).2.app.data = entryEffect entry sm.app.data

instance (backend : Backend) (sm : ShardStateMachine M) (entry : Entry (EntryPayload M)) :
    Decidable (LeavesEffect backend sm entry) := inferInstanceAs (Decidable (_ = _))

/-- The last entry whose effect is fully in storage, of those the loop comes to; `known` before the first of them. -/
def lastInStorage (backend : Backend) :
    List (Entry (EntryPayload M)) → ShardStateMachine M → Option LogId → Option LogId
  | [], _, known => known
  | entry :: entries, sm, known =>
    let known' := if LeavesEffect backend sm entry then some entry.logId else known
    match sm.applyOne backend entry with
    | (.ok _, sm') => lastInStorage backend entries sm' known'
    | (.error _, _) => known'

/-- On success there is one response per entry, and the last entry is the last one applied; on error the last one
applied is the last one in storage. -/
def AppliedIndexHonest : Prop :=
  match apply backend entries sm with
  | (.ok responses, sm') =>
    responses.length = entries.length ∧
      sm'.own.lastAppliedLogId = (entries.getLast?.map Entry.logId).or sm.own.lastAppliedLogId
  | (.error _, sm') => sm'.own.lastAppliedLogId = lastInStorage backend entries sm sm.own.lastAppliedLogId

structure Halt (M : Type) where
  entry : Entry (EntryPayload M)
  sm : ShardStateMachine M
  known : Option LogId

def halt (backend : Backend) :
    List (Entry (EntryPayload M)) → ShardStateMachine M → Option LogId → Option (Halt M)
  | [], _, _ => none
  | entry :: entries, sm, known =>
    match sm.applyOne backend entry with
    | (.ok _, sm') =>
      halt backend entries sm' (if LeavesEffect backend sm entry then some entry.logId else known)
    | (.error _, _) => some ⟨entry, sm, known⟩

/-! ## The index -/

theorem lastApplied_applyOne (entry : Entry (EntryPayload M)) :
    (sm.applyOne backend entry).2.own.lastAppliedLogId = some entry.logId := by
  unfold applyOne
  cases entry.payload <;> rfl

theorem data_of_applyOne_error {backend : Backend} {sm sm' : ShardStateMachine M} {entry : Entry (EntryPayload M)}
    {e : StorageError} (h : sm.applyOne backend entry = (.error e, sm')) : sm'.app.data = sm.app.data := by
  unfold applyOne at h
  cases hpayload : entry.payload with
  | blank | membership m =>
    rw [hpayload] at h
    cases h
  | normal request =>
    rw [hpayload] at h
    obtain ⟨hout, rfl⟩ := Prod.mk.inj h
    exact FallibleStorage.data_of_error backend (Prod.ext hout rfl)

/-- **The loop**: without a halt it answers every entry and notes the last; with one it notes the entry it halts at. -/
theorem applyLoop_spec (known : Option LogId) (responses : List ReplicationResponse) :
    (halt backend entries sm known = none →
      ∃ responses' sm', applyLoop backend entries sm responses = (.ok responses', sm') ∧
        responses'.length = responses.length + entries.length ∧
        sm'.own.lastAppliedLogId = (entries.getLast?.map Entry.logId).or sm.own.lastAppliedLogId) ∧
    ∀ h, halt backend entries sm known = some h → (∃ e sm', applyLoop backend entries sm responses = (.error e, sm') ∧
        sm'.own.lastAppliedLogId = some h.entry.logId) ∧ lastInStorage backend entries sm known =
        if entryEffect h.entry h.sm.app.data = h.sm.app.data then some h.entry.logId else h.known := by
  induction entries generalizing sm known responses with
  | nil => exact ⟨fun _ => ⟨responses, sm, rfl, rfl, rfl⟩, fun h hhalt => by cases hhalt⟩
  | cons entry entries ih =>
    have hlast := lastApplied_applyOne backend sm entry
    rw [halt, applyLoop, lastInStorage]
    rcases hone : sm.applyOne backend entry with ⟨e | response, sm'⟩
    · rw [hone] at hlast
      refine ⟨fun h => ?_, fun h hhalt => ?_⟩
      · cases h
      · obtain rfl : Halt.mk entry sm known = h := Option.some.inj hhalt
        refine ⟨⟨e, sm', rfl, hlast⟩, ?_⟩
        simp only [LeavesEffect, hone, data_of_applyOne_error hone, eq_comm]
    · obtain ⟨hnone, hsome⟩ := ih sm' (if LeavesEffect backend sm entry then some entry.logId else known)
        (responses ++ [response])
      refine ⟨fun h => ?_, hsome⟩
      obtain ⟨responses', sm'', hrun, hlength, hlast'⟩ := hnone h
      refine ⟨responses', sm'', hrun, ?_, ?_⟩
      · rw [hlength, length_append, length_cons, length_cons, length_nil]
        omega
      · rw [hone] at hlast
        rw [hlast', hlast, getLast?_cons]
        cases entries.getLast? <;> rfl

/-- **Applied index**: honest if the loop does not halt, or halts at an entry that would have changed nothing. -/
theorem applied_index_iff : AppliedIndexHonest backend entries sm ↔
      ∀ h, halt backend entries sm sm.own.lastAppliedLogId = some h →
        entryEffect h.entry h.sm.app.data = h.sm.app.data ∨ h.known = some h.entry.logId := by
  obtain ⟨hnone, hsome⟩ := applyLoop_spec backend entries sm sm.own.lastAppliedLogId []
  unfold AppliedIndexHonest apply
  cases hhalt : halt backend entries sm sm.own.lastAppliedLogId with
  | none =>
    obtain ⟨responses, sm', hrun, hlength, hlast⟩ := hnone hhalt
    rw [hrun]
    refine iff_of_true ⟨hlength.trans (Nat.zero_add _), ?_⟩ (fun h hh => by cases hh)
    rw [← hlast]
    split <;> rfl
  | some h =>
    obtain ⟨⟨e, sm', hrun, hlast⟩, hstored⟩ := hsome h hhalt
    rw [hrun]
    dsimp only
    rw [hlast, hstored]
    simp only [Option.some.injEq, forall_eq']
    by_cases heffect : entryEffect h.entry h.sm.app.data = h.sm.app.data
    · rw [if_pos heffect]
      exact iff_of_true rfl (.inl heffect)
    · rw [if_neg heffect, eq_comm]
      exact (or_iff_right heffect).symm

def putFails : ShardStateMachine Unit := ⟨⟨.empty, [some (.backend "disk full")]⟩, ⟨none, ⟨none, ()⟩, 0, none⟩⟩

/-- The put of the only entry fails, and the entry is noted as applied. -/
theorem failed_entry_noted_as_applied :
    (apply .memory oneWrite putFails).1 = .error (.backend "disk full") ∧
      (apply .memory oneWrite putFails).2.own.lastAppliedLogId = some ⟨⟨1, 1⟩, 1⟩ ∧
      (apply .memory oneWrite putFails).2.app.data = .empty ∧
      lastInStorage .memory oneWrite putFails none = none ∧
      ¬ AppliedIndexHonest .memory oneWrite putFails := by
  refine ⟨rfl, rfl, rfl, rfl, ?_⟩
  intro honest
  cases honest

end ShardStateMachine

end Odgm
