import OaasIot.Odgm.RaftGroup
import OaasIot.Odgm.RaftLog
import OaasIot.Odgm.SnapshotBuffer

/-!
# Building snapshots of the Raft state machine (`state_machine.rs`)

`get_snapshot_builder` clones the state machine: the clone has its own copy of what was applied last, and shares the
application storage. The data of a snapshot is read from that storage, its `last_log_id` is the clone's, and other calls
run between the two.
-/

namespace Odgm

open List

inductive EntryPayload (M : Type)
  | blank
  | normal (request : Operation)
  | membership (m : M)

structure StoredMembership (M : Type) where
  logId : Option LogId
  membership : M

structure SnapshotMeta (M : Type) where
  lastLogId : Option LogId
  lastMembership : StoredMembership M
  snapshotId : String

structure RaftSnapshot (M : Type) where
  metadata : SnapshotMeta M
  snapshot : StreamingSnapshotBuffer

structure Applied (M : Type) where
  lastAppliedLogId : Option LogId
  lastMembership : StoredMembership M
  snapshotIdx : Nat
  currentSnapshot : Option Store

section
variable {M : Type}

def applyOne (s : Store × Applied M) (e : Entry (EntryPayload M)) : Store × Applied M :=
  let own := { s.2 with lastAppliedLogId := some e.logId }
  match e.payload with
  | .blank => (s.1, own)
  | .normal request => (applyEntry s.1 request, own)
  | .membership m => (s.1, { own with lastMembership := ⟨some e.logId, m⟩ })

def applyEntries (s : Store × Applied M) (entries : List (Entry (EntryPayload M))) : Store × Applied M :=
  let s := entries.foldl applyOne s
  if entries.isEmpty then s else (s.1, { s.2 with currentSnapshot := none })

def stateAfter (start : Store) (entries : List (Entry (EntryPayload M))) : Store :=
  entries.foldl
    (fun s e =>
      match e.payload with
      | .normal request => applyEntry s request
      | _ => s) start

variable (leaderText : LeaderId → String) (log : List (Entry (EntryPayload M)))

def createRaftSnapshot (data : Store) (own : Applied M) : RaftSnapshot M where
  metadata :=
    { lastLogId := own.lastAppliedLogId
      lastMembership := own.lastMembership
      snapshotId :=
        match own.lastAppliedLogId with
        | some last => leaderText last.leaderId ++ "-" ++ toString last.index ++ "-" ++ toString own.snapshotIdx
        | none => "--" ++ toString own.snapshotIdx }
  snapshot := .withStream (.new data.toList)

/-! ## Interleavings -/

structure Builder (M : Type) where
  own : Applied M
  building : Bool

structure System (M : Type) where
  app : Store
  own : Applied M
  applied : Nat
  builders : List (Builder M)
  built : List (RaftSnapshot M)

inductive Step
  | apply (n : Nat)
  | getBuilder
  | create (i : Nat)

def System.new (app : Store) (membership : StoredMembership M) : System M :=
  ⟨app, ⟨none, membership, 0, none⟩, 0, [], []⟩

def System.createNext (s : System M) (i : Nat) (b : Builder M) : System M :=
  if b.building then
    { s with
      builders := s.builders.set i { b with building := false }
      built := s.built ++ [createRaftSnapshot leaderText s.app b.own] }
  else
    { s with builders := s.builders.set i ⟨{ b.own with currentSnapshot := some s.app }, true⟩ }

def System.step (s : System M) : Step → System M
  | .apply n =>
    let r := applyEntries (s.app, s.own) ((log.drop s.applied).take n)
    { s with app := r.1, own := r.2, applied := min (s.applied + n) log.length }
  | .getBuilder =>
    let own := { s.own with snapshotIdx := s.own.snapshotIdx + 1 }
    { s with own, builders := s.builders ++ [⟨own, false⟩] }
  | .create i =>
    match s.builders[i]? with
    | none => s
    | some b => s.createNext leaderText i b

def System.run (s : System M) (steps : List Step) : System M := steps.foldl (System.step leaderText log) s

/-! ## What was applied -/

def upTo : Option LogId → List (Entry (EntryPayload M))
  | none => []
  | some id => log.filter fun e => e.logId.index ≤ id.index

def Increasing : Prop :=
  log.Pairwise fun e e' => e.logId.index < e'.logId.index

theorem foldl_applyOne (entries : List (Entry (EntryPayload M))) (s : Store × Applied M) :
    (entries.foldl applyOne s).1 = stateAfter s.1 entries ∧
      (entries.foldl applyOne s).2.lastAppliedLogId =
        (entries.getLast?.map Entry.logId).or s.2.lastAppliedLogId := by
  induction entries generalizing s with
  | nil => exact ⟨rfl, rfl⟩
  | cons e entries ih =>
    obtain ⟨happ, hlast⟩ := ih (applyOne s e)
    have hown : (applyOne s e).2.lastAppliedLogId = some e.logId := by
      unfold applyOne
      cases e.payload <;> rfl
    have hstore : (applyOne s e).1 = stateAfter s.1 [e] := by
      unfold applyOne stateAfter
      cases he : e.payload <;> simp [he]
    refine ⟨?_, ?_⟩
    · rw [foldl_cons, happ, hstore]
      rfl
    · rw [foldl_cons, hlast, hown, getLast?_cons]
      cases entries.getLast? <;> rfl

variable {log : List (Entry (EntryPayload M))}

theorem upTo_take (hlog : Increasing log) (k : Nat) :
    upTo log ((log.take k).getLast?.map Entry.logId) = log.take k := by
  rcases eq_nil_or_concat (log.take k) with h | ⟨init, e, h⟩
  · rw [h]
    rfl
  · have hsplit : log = (init ++ [e]) ++ log.drop k := by rw [← concat_eq_append, ← h, take_append_drop]
    have hpair := hlog
    rw [Increasing, hsplit, pairwise_append, pairwise_append] at hpair
    obtain ⟨⟨_, _, hinit⟩, _, hrest⟩ := hpair
    rw [h, concat_eq_append, getLast?_concat, Option.map_some, upTo]
    conv_lhs => rw [hsplit]
    rw [filter_append, filter_eq_self.2, filter_eq_nil_iff.2, append_nil]
    · intro x hx
      simpa using hrest e (by simp) x hx
    · intro x hx
      rcases mem_append.1 hx with hx | hx
      · exact decide_eq_true (UInt64.le_of_lt (hinit x hx e (by simp)))
      · rw [mem_singleton.1 hx]
        simp

theorem stateAfter_append (start : Store) (l l' : List (Entry (EntryPayload M))) :
    stateAfter start (l ++ l') = stateAfter (stateAfter start l) l' := foldl_append

/-- The storage is a replay of the log; machine and builders know up to where, as of their last look. -/
structure Tracked (start : Store) (log : List (Entry (EntryPayload M))) (s : System M) : Prop where
  applied_le : s.applied ≤ log.length
  app_eq : s.app = stateAfter start (log.take s.applied)
  last_eq : s.own.lastAppliedLogId = (log.take s.applied).getLast?.map Entry.logId
  builders : ∀ b ∈ s.builders, ∃ k ≤ s.applied, b.own.lastAppliedLogId = (log.take k).getLast?.map Entry.logId

theorem tracked_new (start : Store) (log : List (Entry (EntryPayload M))) (membership : StoredMembership M) :
    Tracked start log (.new start membership) := ⟨Nat.zero_le _, rfl, rfl, by simp [System.new]⟩

variable {s : System M} {start : Store}

theorem Tracked.setBuilder (h : Tracked start log s) {i : Nat} {b : Builder M} (hb : s.builders[i]? = some b)
    (b' : Builder M) (hown : b'.own.lastAppliedLogId = b.own.lastAppliedLogId) (built : List (RaftSnapshot M)) :
    Tracked start log { s with builders := s.builders.set i b', built } := by
  refine ⟨h.applied_le, h.app_eq, h.last_eq, ?_⟩
  intro b₁ hb₁
  rcases mem_or_eq_of_mem_set hb₁ with hb₁ | rfl
  · exact h.builders b₁ hb₁
  · rw [hown]
    exact h.builders b (mem_of_getElem? hb)

variable (leaderText : LeaderId → String)

theorem Tracked.step (h : Tracked start log s) (step : Step) : Tracked start log (s.step leaderText log step) := by
  cases step with
  | apply n =>
    have hle := h.applied_le
    have htake : log.take (min (s.applied + n) log.length) =
        log.take s.applied ++ (log.drop s.applied).take n := by
      rw [← take_eq_take_min, take_add]
    obtain ⟨happ, hlast⟩ := foldl_applyOne ((log.drop s.applied).take n) (s.app, s.own)
    refine ⟨Nat.min_le_right _ _, ?_, ?_, ?_⟩
    · show (applyEntries (s.app, s.own) ((log.drop s.applied).take n)).1 =
        stateAfter start (log.take (min (s.applied + n) log.length))
      rw [htake, stateAfter_append, ← h.app_eq, ← happ, applyEntries]
      split <;> rfl
    · show (applyEntries (s.app, s.own) ((log.drop s.applied).take n)).2.lastAppliedLogId =
        (log.take (min (s.applied + n) log.length)).getLast?.map Entry.logId
      rw [htake, getLast?_append, Option.map_or, ← h.last_eq, ← hlast, applyEntries]
      split <;> rfl
    · intro b hb
      obtain ⟨k, hk, hbk⟩ := h.builders b hb
      exact ⟨k, le_min (by omega) (by omega), hbk⟩
  | getBuilder =>
    refine ⟨h.applied_le, h.app_eq, h.last_eq, ?_⟩
    intro b hb
    rcases mem_append.1 hb with hb | hb
    · exact h.builders b hb
    · rw [mem_singleton.1 hb]
      exact ⟨s.applied, Nat.le_refl _, h.last_eq⟩
  | create i =>
    rw [System.step]
    cases hb : s.builders[i]? with
    | none => exact h
    | some b =>
      dsimp only
      rw [System.createNext]
      split
      · exact h.setBuilder hb { b with building := false } rfl _
      · exact h.setBuilder hb ⟨{ b.own with currentSnapshot := some s.app }, true⟩ rfl s.built

theorem Tracked.run (h : Tracked start log s) (steps : List Step) : Tracked start log (s.run leaderText log steps) := by
  induction steps generalizing s with
  | nil => exact h
  | cons step steps ih => exact ih (h.step leaderText step)

def appliedSince (log : List (Entry (EntryPayload M))) (s : System M) (b : Builder M) :
    List (Entry (EntryPayload M)) :=
  (log.take s.applied).drop (upTo log b.own.lastAppliedLogId).length

theorem Tracked.app_eq_since (hlog : Increasing log) (h : Tracked start log s) {b : Builder M} (hb : b ∈ s.builders) :
    s.app = stateAfter (stateAfter start (upTo log b.own.lastAppliedLogId)) (appliedSince log s b) := by
  obtain ⟨k, hk, hbk⟩ := h.builders b hb
  have hup : upTo log b.own.lastAppliedLogId = log.take k := by rw [hbk, upTo_take hlog]
  have hle := h.applied_le
  have hprefix : log.take k = (log.take s.applied).take k := by rw [take_take, Nat.min_eq_left hk]
  have hlen : (log.take k).length = k := by rw [length_take]; omega
  rw [appliedSince, hup, hlen, h.app_eq, ← stateAfter_append, hprefix, take_append_drop]

/-- **Snapshot consistency**: what was applied since the builder was taken has changed nothing. -/
theorem snapshot_consistent_iff {log : List (Entry (EntryPayload M))}
    (hlog : Increasing log) (start : Store) (membership : StoredMembership M) (steps : List Step) {i : Nat}
    {b : Builder M} (hb : ((System.new start membership).run leaderText log steps).builders[i]? = some b)
    (hbuilding : b.building = true) : let s := (System.new start membership).run leaderText log steps
    ∃ r, (s.step leaderText log (.create i)).built = s.built ++ [r] ∧
      r.metadata.lastLogId = b.own.lastAppliedLogId ∧
      (r.snapshot = .withStream (.new (stateAfter start (upTo log r.metadata.lastLogId)).toList) ↔
        stateAfter (stateAfter start (upTo log b.own.lastAppliedLogId)) (appliedSince log s b) =
          stateAfter start (upTo log b.own.lastAppliedLogId)) := by
  intro s
  have htracked : Tracked start log s := (tracked_new start log membership).run leaderText steps
  have happ := htracked.app_eq_since hlog (mem_of_getElem? hb)
  refine ⟨createRaftSnapshot leaderText s.app b.own, ?_, rfl, ?_⟩
  · have hb : s.builders[i]? = some b := hb
    simp only [System.step, hb, System.createNext, if_pos hbuilding]
  · show StreamingSnapshotBuffer.withStream (.new s.app.toList) = _ ↔ _
    rw [← happ]
    constructor
    · intro h
      simp only [StreamingSnapshotBuffer.withStream, KvStreamingReader.new,
        StreamingSnapshotBuffer.mk.injEq, Option.some.injEq, KvStreamingReader.mk.injEq] at h
      exact OrdMap.ext_toList h.2.2.2.2.1
    · intro h
      rw [h]
      rfl

end

def oneWrite : List (Entry (EntryPayload Unit)) := [⟨⟨⟨1, 1⟩, 1⟩, .normal (.write [107] [118] false)⟩]

theorem snapshot_consistent_one_write :
    ∃ r, ((System.new .empty ⟨none, ()⟩).run (fun _ => "") oneWrite
        [.apply 1, .getBuilder, .create 0, .create 0]).built = [r] ∧
      r.metadata.lastLogId = some ⟨⟨1, 1⟩, 1⟩ ∧ r.snapshot = .withStream (.new [([107], [118])]) := by
  obtain ⟨r, hbuilt, hlast, hiff⟩ := snapshot_consistent_iff (fun _ => "")
    (pairwise_singleton _ _ : Increasing oneWrite) .empty ⟨none, ()⟩ [.apply 1, .getBuilder, .create 0] (i := 0)
    rfl rfl
  refine ⟨r, hbuilt, hlast, (hiff.2 rfl).trans ?_⟩
  rw [hlast]
  rfl

/-- The snapshot has the write, and says that nothing was applied. -/
theorem snapshot_ahead_of_its_id :
    ∃ r, ((System.new .empty ⟨none, ()⟩).run (fun _ => "") oneWrite
        [.getBuilder, .apply 1, .create 0, .create 0]).built = [r] ∧
      r.metadata.lastLogId = none ∧ r.snapshot = .withStream (.new [([107], [118])]) ∧
      stateAfter .empty (upTo oneWrite none) = .empty :=
  ⟨_, rfl, rfl, rfl, rfl⟩

end Odgm
