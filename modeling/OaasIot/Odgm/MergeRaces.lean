import OaasIot.Lib.Points
import OaasIot.Odgm.AppliedIndex

/-!
# Local writes against page merges (`mst_layer.rs`, `mst_network.rs`)

A local `set_raw` and the merge of a fetched item get what is stored under a key, put the merge of it and their own
value, and upsert that into the tree. Nothing holds the three steps together. Both are given the id of the shard
(`mst_layer.rs:173`), and every call of the storage may fail.
-/

namespace Odgm

open List

/-! ## Calls -/

def FallibleStorage.nextFailure (s : FallibleStorage) : Option StorageError := s.failures.head?.join

theorem FallibleStorage.attempt_eq {α : Type} (s : FallibleStorage) (f : Store → α × Store) :
    s.attempt f = match s.nextFailure with
      | some e => (.error e, ⟨s.data, s.failures.tail⟩)
      | none => (.ok (f s.data).1, ⟨(f s.data).2, s.failures.tail⟩) := by
  obtain ⟨data, failures⟩ := s
  match failures with
  | [] | some e :: failures | none :: failures => rfl

structure MergeReplica (T : Type) where
  app : FallibleStorage
  tree : OrdMap Bytes T

inductive MergeStep (T : Type)
  | get (key : Bytes)
  | put (key value : Bytes)
  | upsert (key : Bytes) (entry : T)

def MergeStep.Reply {T : Type} : MergeStep T → Type
  | .get _ => Except StorageError (Option Bytes)
  | .put _ _ => Except StorageError Unit
  | .upsert _ _ => Unit

def mergeInterface (T : Type) : Interface := ⟨MergeStep T, MergeStep.Reply⟩

def FallibleStorage.putUnit (s : FallibleStorage) (key value : Bytes) : Except StorageError Unit × FallibleStorage :=
  s.attempt fun m => ((), m.insert key value)

def handleMerge {T : Type} : Handler (mergeInterface T) (MergeReplica T)
  | .get key, s => ((s.app.get key).1, { s with app := (s.app.get key).2 })
  | .put key value, s => ((s.app.putUnit key value).1, { s with app := (s.app.putUnit key value).2 })
  | .upsert key entry, s => ((), { s with tree := s.tree.insert key entry })

inductive MergeError
  | storage (e : StorageError)
  | mst (message : String)
  deriving DecidableEq

inductive MergeCall (T : Type)
  | setRaw (entry : T)
  | pageItem (remoteValue : T)

namespace MergeCall

variable {T : Type}

def entry : MergeCall T → T
  | .setRaw entry => entry
  | .pageItem remoteValue => remoteValue

def fail : MergeCall T → StorageError → MergeError
  | .setRaw _, e => .storage e
  | .pageItem _, e => .mst e.message

def existing : MergeCall T → Except StorageError (Option Bytes) → Except StorageError (Option Bytes)
  | .setRaw _, reply => reply
  | .pageItem _, .ok raw => .ok raw
  | .pageItem _, .error _ => .ok none

end MergeCall

section
variable {T : Type} (config : MstConfig T) (shardId : UInt64)

def decodeExisting : Option Bytes → Except StorageError (Option T)
  | none => .ok none
  | some bytes => (config.deserialize bytes).map some

def mergedOver : Option T → T → T
  | none, entry => entry
  | some old, entry => config.mergeFunction old entry shardId

def MergeCall.prepare (call : MergeCall T) (reply : Except StorageError (Option Bytes)) :
    Except StorageError (Option T × Bytes) :=
  match call.existing reply with
  | .error e => .error e
  | .ok raw =>
    match decodeExisting config raw with
    | .error e => .error e
    | .ok old => (config.serialize (mergedOver config shardId old call.entry)).map fun bytes => (old, bytes)

variable (key : Bytes)

def upsertFinal (final : T) : Prog (mergeInterface T) (Except MergeError Unit) :=
  .call (.upsert key final) fun _ => .done (.ok ())

def MergeCall.settle (call : MergeCall T) (final : T) :
    Except StorageError Unit → Prog (mergeInterface T) (Except MergeError Unit)
  | .error e => .done (.error (call.fail e))
  | .ok () => upsertFinal key final

def putFinal (call : MergeCall T) (final : T) (bytes : Bytes) : Prog (mergeInterface T) (Except MergeError Unit) :=
  .call (.put key bytes) (call.settle key final)

def MergeCall.proceed (call : MergeCall T) :
    Except StorageError (Option T × Bytes) → Prog (mergeInterface T) (Except MergeError Unit)
  | .error e => .done (.error (call.fail e))
  | .ok (old, bytes) => putFinal key call (mergedOver config shardId old call.entry) bytes

def MergeCall.prog (call : MergeCall T) : Prog (mergeInterface T) (Except MergeError Unit) :=
  .call (.get key) fun reply => call.proceed config shardId key (call.prepare config shardId reply)

end

/-! ## Points -/

inductive MergePoint (T : Type)
  | called (call : MergeCall T)
  | read (call : MergeCall T) (old : Option T) (bytes : Bytes)
  | written (call : MergeCall T) (final : T)
  | returned (call : MergeCall T)
  | failed (call : MergeCall T) (e : MergeError)

namespace MergePoint

section
variable {T : Type} (config : MstConfig T) (shardId : UInt64) (key : Bytes)

def prog : MergePoint T → Prog (mergeInterface T) (Except MergeError Unit)
  | .called call => call.prog config shardId key
  | .read call old bytes => putFinal key call (mergedOver config shardId old call.entry) bytes
  | .written _ final => upsertFinal key final
  | .returned _ => .done (.ok ())
  | .failed _ e => .done (.error e)

def next (pt : MergePoint T) (s : MergeReplica T) : MergePoint T × MergeReplica T :=
  match pt with
  | .called call =>
    match call.prepare config shardId (s.app.get key).1 with
    | .error e => (.failed call (call.fail e), { s with app := (s.app.get key).2 })
    | .ok (old, bytes) => (.read call old bytes, { s with app := (s.app.get key).2 })
  | .read call old bytes =>
    match (s.app.putUnit key bytes).1 with
    | .error e => (.failed call (call.fail e), { s with app := (s.app.putUnit key bytes).2 })
    | .ok () => (.written call (mergedOver config shardId old call.entry), { s with app := (s.app.putUnit key bytes).2 })
  | .written call final => (.returned call, { s with tree := s.tree.insert key final })
  | .returned call => (.returned call, s)
  | .failed call e => (.failed call e, s)

theorem follows : Standing.Follows (prog config shardId key) handleMerge (next config shardId key) := by
  intro pt s
  cases pt with
  | called call =>
    change (call.proceed config shardId key (call.prepare config shardId (s.app.get key).1), _) = _
    rw [next]
    cases call.prepare config shardId (s.app.get key).1 <;> rfl
  | read call old bytes =>
    rw [next]
    change (call.settle key (mergedOver config shardId old call.entry) (s.app.putUnit key bytes).1, _) = _
    cases (s.app.putUnit key bytes).1 <;> rfl
  | written call final | returned call | failed call e => rfl

end

variable {T : Type}

def call : MergePoint T → MergeCall T
  | .called call => call
  | .read call _ _ => call
  | .written call _ => call
  | .returned call => call
  | .failed call _ => call

def contribution : MergePoint T → Option T
  | .written call _ => some call.entry
  | .returned call => some call.entry
  | _ => none

def Pending : MergePoint T → Prop
  | .written _ _ => True
  | _ => False

end MergePoint

def storedValue {T : Type} (config : MstConfig T) (key : Bytes) (s : MergeReplica T) : Except StorageError (Option T) :=
  decodeExisting config (s.app.data.get key)

/-! ### What one step can be -/

inductive MergeMove {T : Type} (config : MstConfig T) (shardId : UInt64) (key : Bytes) (s : MergeReplica T) :
    MergePoint T → MergePoint T → MergeReplica T → Prop
  | failedGet (call : MergeCall T) (e : MergeError) (failures : List (Option StorageError)) :
    MergeMove config shardId key s (.called call) (.failed call e) { s with app := ⟨s.app.data, failures⟩ }
  | get (call : MergeCall T) (old : Option T) (bytes : Bytes) (failures : List (Option StorageError))
      (hold : old = none ∨ storedValue config key s = .ok old)
      (hbytes : config.serialize (mergedOver config shardId old call.entry) = .ok bytes) :
    MergeMove config shardId key s (.called call) (.read call old bytes) { s with app := ⟨s.app.data, failures⟩ }
  | failedPut (call : MergeCall T) (old : Option T) (bytes : Bytes) (e : StorageError)
      (failures : List (Option StorageError)) (hfail : s.app.nextFailure = some e) :
    MergeMove config shardId key s (.read call old bytes) (.failed call (call.fail e))
      { s with app := ⟨s.app.data, failures⟩ }
  | put (call : MergeCall T) (old : Option T) (bytes : Bytes) (failures : List (Option StorageError))
      (hfail : s.app.nextFailure = none) :
    MergeMove config shardId key s (.read call old bytes) (.written call (mergedOver config shardId old call.entry))
      { s with app := ⟨s.app.data.insert key bytes, failures⟩ }
  | upsert (call : MergeCall T) (final : T) :
    MergeMove config shardId key s (.written call final) (.returned call) { s with tree := s.tree.insert key final }
  | returned (call : MergeCall T) : MergeMove config shardId key s (.returned call) (.returned call) s
  | failed (call : MergeCall T) (e : MergeError) : MergeMove config shardId key s (.failed call e) (.failed call e) s

section
variable {T : Type} {config : MstConfig T} {shardId : UInt64} {key : Bytes}

theorem old_of_prepare {call : MergeCall T} {s : MergeReplica T} {old : Option T} {bytes : Bytes}
    (h : call.prepare config shardId (s.app.get key).1 = .ok (old, bytes)) :
    (old = none ∨ storedValue config key s = .ok old) ∧
      config.serialize (mergedOver config shardId old call.entry) = .ok bytes := by
  rw [MergeCall.prepare] at h
  cases hexisting : call.existing (s.app.get key).1 with
  | error e => rw [hexisting] at h; cases h
  | ok raw =>
    rw [hexisting] at h
    dsimp only at h
    cases hdecode : decodeExisting config raw with
    | error e => rw [hdecode] at h; cases h
    | ok old' =>
      rw [hdecode] at h
      dsimp only at h
      cases hbytes : config.serialize (mergedOver config shardId old' call.entry) with
      | error e => rw [hbytes] at h; cases h
      | ok bytes' =>
        rw [hbytes] at h
        cases h
        refine ⟨?_, hbytes⟩
        rw [FallibleStorage.get, FallibleStorage.attempt_eq] at hexisting
        cases hfail : s.app.nextFailure with
        | none =>
          rw [hfail] at hexisting
          right
          have hraw : raw = s.app.data.get key := by
            cases call <;> exact (Except.ok.inj hexisting).symm
          rw [storedValue, ← hraw]
          exact hdecode
        | some e =>
          rw [hfail] at hexisting
          left
          cases call with
          | setRaw entry => cases hexisting
          | pageItem remoteValue =>
            cases hexisting
            cases hdecode
            rfl

theorem move_next (pt : MergePoint T) (s : MergeReplica T) :
    MergeMove config shardId key s pt (pt.next config shardId key s).1 (pt.next config shardId key s).2 := by
  cases pt with
  | called call =>
    have hdata : (s.app.get key).2 = ⟨s.app.data, s.app.failures.tail⟩ := by
      rw [FallibleStorage.get, FallibleStorage.attempt_eq]
      cases s.app.nextFailure <;> rfl
    rw [MergePoint.next, hdata]
    cases hprepare : call.prepare config shardId (s.app.get key).1 with
    | error e => exact .failedGet call (call.fail e) _
    | ok p =>
      obtain ⟨hold, hbytes⟩ := old_of_prepare hprepare
      exact .get call p.1 p.2 _ hold hbytes
  | read call old bytes =>
    rw [MergePoint.next, FallibleStorage.putUnit, FallibleStorage.attempt_eq]
    cases hfail : s.app.nextFailure with
    | some e => exact .failedPut call old bytes e _ hfail
    | none => exact .put call old bytes _ hfail
  | written call final => exact .upsert call final
  | returned call => exact .returned call
  | failed call e => exact .failed call e

end

/-! ## Lost updates -/

section
variable {T : Type} (config : MstConfig T) (shardId : UInt64) (key : Bytes)

def MstConfig.RoundTrips : Prop :=
  ∀ entry bytes, config.serialize entry = .ok bytes → config.deserialize bytes = .ok entry

structure MstConfig.MergeLaws : Prop where
  assoc : ∀ a b c, config.mergeFunction (config.mergeFunction a b shardId) c shardId =
    config.mergeFunction a (config.mergeFunction b c shardId) shardId
  comm : ∀ a b, config.mergeFunction a b shardId = config.mergeFunction b a shardId
  idem : ∀ a, config.mergeFunction a a shardId = a

def mergeAll (first : Option T) (values : List T) : Option T :=
  values.foldl (fun current v => some (mergedOver config shardId current v)) first

def Absorbs : Option T → Option T → Prop
  | _, none => True
  | none, some _ => False
  | some b, some a => config.mergeFunction a b shardId = b

def NonePending (points : List (MergePoint T)) : Prop := ∀ pt ∈ points, ¬ pt.Pending

def OthersIndexed (points : List (MergePoint T)) (i : Nat) : Prop :=
  ∀ j pt, j ≠ i → points[j]? = some pt → ¬ pt.Pending

def mergedSoFar (first : Option T) (st : Standing (MergePoint T) (MergeReplica T)) : Option T :=
  mergeAll config shardId first (st.points.filterMap MergePoint.contribution)

/-- **Nothing is lost**: what was put is merged in the stored value, and in the tree when no upsert is due. -/
structure NothingLost (first : Option T) (st : Standing (MergePoint T) (MergeReplica T)) : Prop where
  stored : storedValue config key st.state = .ok (mergedSoFar config shardId first st)
  indexed : NonePending st.points → st.state.tree.get key = mergedSoFar config shardId first st

def MergeUndisturbed (st : Standing (MergePoint T) (MergeReplica T)) (i : Nat) : Prop :=
  match st.points[i]? with
  | some (.read call old _) =>
    st.state.app.nextFailure = none → ∀ current, storedValue config key st.state = .ok (some current) →
      config.mergeFunction current (mergedOver config shardId old call.entry) shardId =
        mergedOver config shardId old call.entry
  | some (.written _ final) => OthersIndexed st.points i → storedValue config key st.state = .ok (some final)
  | _ => True

structure Untorn (first : Option T) (st : Standing (MergePoint T) (MergeReplica T)) : Prop where
  nothingLost : NothingLost config shardId key first st
  encoded : ∀ call old bytes, MergePoint.read call old bytes ∈ st.points →
    config.serialize (mergedOver config shardId old call.entry) = .ok bytes
  covered : ∀ call old bytes, MergePoint.read call old bytes ∈ st.points →
    Absorbs config shardId (mergedSoFar config shardId first st) old

def TurnsTo (first : Option T) (st : Standing (MergePoint T) (MergeReplica T)) (i : Nat)
    (st' : Standing (MergePoint T) (MergeReplica T)) : Prop :=
  (NothingLost config shardId key first st' ↔ MergeUndisturbed config shardId key st i) ∧
    (MergeUndisturbed config shardId key st i → Untorn config shardId key first st')

end

/-! ### Merges -/

section
variable {T : Type} {config : MstConfig T} {shardId : UInt64}

theorem absorbs_none (b : Option T) : Absorbs config shardId b none := by
  cases b <;> trivial

variable (h : config.MergeLaws shardId)
include h

theorem absorbs_refl (a : Option T) : Absorbs config shardId a a := by
  cases a with
  | none => trivial
  | some a => exact h.idem a

theorem Absorbs.merged {a b : Option T} (hab : Absorbs config shardId b a) (entry : T) :
    Absorbs config shardId (some (mergedOver config shardId b entry)) a := by
  cases a with
  | none => trivial
  | some a =>
    cases b with
    | none => cases hab
    | some b =>
      have hb : config.mergeFunction a b shardId = b := hab
      change config.mergeFunction a (config.mergeFunction b entry shardId) shardId = config.mergeFunction b entry shardId
      rw [← h.assoc, hb]

theorem mergedOver_eq_iff {old current : Option T} (hold : Absorbs config shardId current old) (entry : T) :
    mergedOver config shardId old entry = mergedOver config shardId current entry ↔
      ∀ c, current = some c → config.mergeFunction c (mergedOver config shardId old entry) shardId =
        mergedOver config shardId old entry := by
  cases current with
  | none =>
    cases old with
    | none => exact iff_of_true rfl (by simp)
    | some a => cases hold
  | some c =>
    have habsorb : config.mergeFunction c (mergedOver config shardId old entry) shardId =
        config.mergeFunction c entry shardId := by
      cases old with
      | none => rfl
      | some a =>
        have hac : config.mergeFunction a c shardId = c := hold
        change config.mergeFunction c (config.mergeFunction a entry shardId) shardId = _
        rw [← h.assoc, h.comm c a, hac]
    simp only [Option.some.injEq, forall_eq', habsorb]
    exact eq_comm

theorem mergedOver_right_comm :
    RightCommutative fun (current : Option T) (v : T) => some (mergedOver config shardId current v) where
  right_comm current a b := by
    cases current with
    | none => exact congrArg some (h.comm a b)
    | some c =>
      refine congrArg some ?_
      change config.mergeFunction (config.mergeFunction c a shardId) b shardId =
        config.mergeFunction (config.mergeFunction c b shardId) a shardId
      rw [h.assoc, h.comm a b, ← h.assoc]

end

/-! ### Steps -/

section
variable {T : Type} {points : List (MergePoint T)} {i : Nat} {pt : MergePoint T}

theorem nonePending_set_iff (hget : points[i]? = some pt) (pt' : MergePoint T) :
    NonePending (points.set i pt') ↔ ¬ pt'.Pending ∧ OthersIndexed points i := by
  obtain ⟨hlt, _⟩ := List.getElem?_eq_some_iff.1 hget
  constructor
  · intro h
    refine ⟨h pt' (List.mem_set hlt pt'), fun j x hne hj => h x ?_⟩
    refine List.mem_of_getElem? (i := j) ?_
    rw [List.getElem?_set_ne (Ne.symm hne), hj]
  · rintro ⟨hpt', hothers⟩ x hx
    obtain ⟨j, hj⟩ := List.mem_iff_getElem?.1 hx
    by_cases hne : j = i
    · subst hne
      rw [List.getElem?_set_self hlt] at hj
      obtain rfl := Option.some.inj hj
      exact hpt'
    · rw [List.getElem?_set_ne (Ne.symm hne)] at hj
      exact hothers j x hne hj

theorem nonePending_iff (hget : points[i]? = some pt) : NonePending points ↔ ¬ pt.Pending ∧ OthersIndexed points i := by
  obtain ⟨hlt, rfl⟩ := List.getElem?_eq_some_iff.1 hget
  have hset := nonePending_set_iff hget points[i]
  rw [List.set_getElem_self] at hset
  exact hset

variable {config : MstConfig T} {shardId : UInt64} {key : Bytes} {first : Option T}
  {st : Standing (MergePoint T) (MergeReplica T)}

theorem mergedSoFar_set_of_eq (hget : st.points[i]? = some pt) (pt' : MergePoint T)
    (h : pt'.contribution = pt.contribution) (s : MergeReplica T) :
    mergedSoFar config shardId first ⟨st.points.set i pt', s⟩ = mergedSoFar config shardId first st := by
  rw [mergedSoFar, filterMap_set_of_eq hget h, mergedSoFar]

theorem mergedSoFar_put (h : config.MergeLaws shardId) (hget : st.points[i]? = some pt) (hpt : pt.contribution = none)
    (call : MergeCall T) (final : T) (s : MergeReplica T) :
    mergedSoFar config shardId first ⟨st.points.set i (.written call final), s⟩ =
      some (mergedOver config shardId (mergedSoFar config shardId first st) call.entry) :=
  haveI := mergedOver_right_comm h
  foldl_filterMap_set (fun (current : Option T) v => some (mergedOver config shardId current v)) hget hpt rfl first

theorem not_pending_of_contribution {pt : MergePoint T} (h : pt.contribution = none) : ¬ pt.Pending := by
  cases pt with
  | written call final => cases h
  | _ => exact id

variable (h : Untorn config shardId key first st)
include h

theorem Untorn.of_nothingLost {pt' : MergePoint T} {s : MergeReplica T}
    (hlost : NothingLost config shardId key first ⟨st.points.set i pt', s⟩)
    (hpt' : ∀ call old bytes, pt' ≠ .read call old bytes)
    (hcover : ∀ old, Absorbs config shardId (mergedSoFar config shardId first st) old →
      Absorbs config shardId (mergedSoFar config shardId first ⟨st.points.set i pt', s⟩) old) :
    Untorn config shardId key first ⟨st.points.set i pt', s⟩ := by
  have hmem : ∀ call old bytes, .read call old bytes ∈ st.points.set i pt' → .read call old bytes ∈ st.points := by
    intro call old bytes hmem
    exact (mem_or_eq_of_mem_set hmem).resolve_right fun heq => hpt' call old bytes heq.symm
  exact ⟨hlost, fun call old bytes hread => h.encoded call old bytes (hmem call old bytes hread),
    fun call old bytes hread => hcover old (h.covered call old bytes (hmem call old bytes hread))⟩

variable (hlaws : config.MergeLaws shardId)
include hlaws

theorem Untorn.quiet
    (hget : st.points[i]? = some pt) (hpt : pt.contribution = none) (pt' : MergePoint T) (hpt' : pt'.contribution = none)
    (hread : ∀ call old bytes, pt' = .read call old bytes →
      (old = none ∨ storedValue config key st.state = .ok old) ∧
        config.serialize (mergedOver config shardId old call.entry) = .ok bytes)
    (failures : List (Option StorageError)) :
    Untorn config shardId key first ⟨st.points.set i pt', { st.state with app := ⟨st.state.app.data, failures⟩ }⟩ := by
  have hsame : mergedSoFar config shardId first
      ⟨st.points.set i pt', { st.state with app := ⟨st.state.app.data, failures⟩ }⟩ =
      mergedSoFar config shardId first st := mergedSoFar_set_of_eq hget pt' (hpt'.trans hpt.symm) _
  refine ⟨⟨?_, ?_⟩, ?_, ?_⟩
  · rw [hsame]
    exact h.nothingLost.stored
  · intro hnone
    rw [hsame]
    have hothers := ((nonePending_set_iff hget pt').1 hnone).2
    exact h.nothingLost.indexed ((nonePending_iff hget).2 ⟨not_pending_of_contribution hpt, hothers⟩)
  · intro call old bytes hmem
    rcases mem_or_eq_of_mem_set hmem with hmem | heq
    · exact h.encoded call old bytes hmem
    · exact (hread call old bytes heq.symm).2
  · intro call old bytes hmem
    rw [hsame]
    rcases mem_or_eq_of_mem_set hmem with hmem | heq
    · exact h.covered call old bytes hmem
    · rcases (hread call old bytes heq.symm).1 with rfl | hstored
      · exact absorbs_none _
      · obtain rfl := Except.ok.inj (h.nothingLost.stored.symm.trans hstored)
        exact absorbs_refl hlaws _

theorem Untorn.put_iff (hround : config.RoundTrips) {call : MergeCall T} {old : Option T} {bytes : Bytes}
    (hget : st.points[i]? = some (.read call old bytes)) (hfail : st.state.app.nextFailure = none)
    {st' : Standing (MergePoint T) (MergeReplica T)} {failures : List (Option StorageError)}
    (hst' : st' = ⟨st.points.set i (.written call (mergedOver config shardId old call.entry)),
      { st.state with app := ⟨st.state.app.data.insert key bytes, failures⟩ }⟩) :
    TurnsTo config shardId key first st i st' := by
  have hmem := mem_of_getElem? hget
  have hstored : storedValue config key st'.state = .ok (some (mergedOver config shardId old call.entry)) := by
    rw [hst', storedValue, OrdMap.get_insert_self, decodeExisting,
      hround _ _ (h.encoded call old bytes hmem)]
    rfl
  have hmerged : mergedSoFar config shardId first st' =
      some (mergedOver config shardId (mergedSoFar config shardId first st) call.entry) := by
    rw [hst', mergedSoFar_put hlaws hget rfl]
  have hpending : ¬ NonePending st'.points := by
    rw [hst', nonePending_set_iff hget]
    exact fun hnone => hnone.1 trivial
  have hund : MergeUndisturbed config shardId key st i ↔
      mergedOver config shardId old call.entry =
        mergedOver config shardId (mergedSoFar config shardId first st) call.entry := by
    rw [mergedOver_eq_iff hlaws (h.covered call old bytes hmem), MergeUndisturbed, hget]
    simp only [hfail, forall_const, h.nothingLost.stored, Except.ok.injEq]
  have hlost : NothingLost config shardId key first st' ↔
      mergedOver config shardId old call.entry =
        mergedOver config shardId (mergedSoFar config shardId first st) call.entry := by
    constructor
    · intro hn
      exact Option.some.inj ((Except.ok.inj (hstored.symm.trans hn.stored)).trans hmerged)
    · intro heq
      refine ⟨?_, fun hnone => absurd hnone hpending⟩
      rw [hstored, hmerged, heq]
  refine ⟨hlost.trans hund.symm, fun hu => ?_⟩
  subst hst'
  refine h.of_nothingLost (hlost.2 (hund.1 hu)) (by simp) fun old' hcovered => ?_
  rw [hmerged]
  exact hcovered.merged hlaws call.entry

omit hlaws in
theorem Untorn.upsert_iff {call : MergeCall T} {final : T}
    (hget : st.points[i]? = some (.written call final)) {st' : Standing (MergePoint T) (MergeReplica T)}
    (hst' : st' = ⟨st.points.set i (.returned call), { st.state with tree := st.state.tree.insert key final }⟩) :
    TurnsTo config shardId key first st i st' := by
  have hmerged : mergedSoFar config shardId first st' = mergedSoFar config shardId first st := by
    rw [hst']
    exact mergedSoFar_set_of_eq hget (.returned call) rfl _
  have hstored : storedValue config key st'.state = .ok (mergedSoFar config shardId first st) := by
    rw [hst']
    exact h.nothingLost.stored
  have htree : st'.state.tree.get key = some final := by
    rw [hst']
    exact OrdMap.get_insert_self _ _ _
  have hnone : NonePending st'.points ↔ OthersIndexed st.points i := by
    rw [hst', nonePending_set_iff hget]
    exact and_iff_right id
  have hiff : NothingLost config shardId key first st' ↔ MergeUndisturbed config shardId key st i := by
    rw [MergeUndisturbed, hget]
    dsimp only
    rw [h.nothingLost.stored, ← hnone, Except.ok.injEq]
    constructor
    · intro hn hothers
      rw [← hmerged, ← hn.indexed hothers, htree]
    · intro hu
      refine ⟨hstored.trans (congrArg Except.ok hmerged.symm), fun hothers => ?_⟩
      rw [htree, hmerged, hu hothers]
  refine ⟨hiff, fun hu => ?_⟩
  subst hst'
  refine h.of_nothingLost (hiff.2 hu) (by simp) fun old' hcovered => ?_
  rw [hmerged]
  exact hcovered

theorem Untorn.turn_iff (hround : config.RoundTrips) (i : Nat) :
    TurnsTo config shardId key first st i (st.turn (MergePoint.next config shardId key) i) := by
  have hturns : ∀ {st'}, Untorn config shardId key first st' → MergeUndisturbed config shardId key st i →
      TurnsTo config shardId key first st i st' := fun hst' hund => ⟨iff_of_true hst'.nothingLost hund, fun _ => hst'⟩
  cases hget : st.points[i]? with
  | none =>
    rw [Standing.turn_of_none hget]
    exact hturns h (by rw [MergeUndisturbed, hget]; trivial)
  | some pt =>
    obtain ⟨pt', s', hturn, hmove⟩ : ∃ pt' s', st.turn (MergePoint.next config shardId key) i =
        ⟨st.points.set i pt', s'⟩ ∧ MergeMove config shardId key st.state pt pt' s' :=
      ⟨_, _, Standing.turn_of_get hget, move_next pt st.state⟩
    cases hmove with
    | put call old bytes failures hfail => exact h.put_iff hlaws hround hget hfail hturn
    | upsert call final => exact h.upsert_iff hget hturn
    | failedGet call e failures =>
      rw [hturn]
      exact hturns (h.quiet hlaws hget rfl _ rfl (by simp) failures) (by rw [MergeUndisturbed, hget]; trivial)
    | get call old bytes failures hold hbytes =>
      have hread := h.quiet hlaws hget rfl (.read call old bytes) rfl (by rintro _ _ _ ⟨⟩; exact ⟨hold, hbytes⟩) failures
      rw [hturn]
      exact hturns hread (by rw [MergeUndisturbed, hget]; trivial)
    | failedPut call old bytes e failures hfail =>
      rw [hturn]
      refine hturns (h.quiet hlaws hget rfl _ rfl (by simp) failures) ?_
      rw [MergeUndisturbed, hget]
      exact fun hnone => by cases hfail.symm.trans hnone
    | returned call | failed call e =>
      rw [show st.turn (MergePoint.next config shardId key) i = st from Standing.turn_of_fixed hget rfl]
      exact hturns h (by rw [MergeUndisturbed, hget]; trivial)

end

/-! ## Runs -/

section
variable {T : Type} (config : MstConfig T) (shardId : UInt64) (key : Bytes)

def merging (calls : List (MergeCall T)) (s : MergeReplica T) : Standing (MergePoint T) (MergeReplica T) :=
  ⟨calls.map .called, s⟩

def mergeCalls (calls : List (MergeCall T)) (s : MergeReplica T) :
    Prog.Pool (mergeInterface T) (MergeReplica T) (Except MergeError Unit) :=
  ⟨calls.map (MergeCall.prog config shardId key), s⟩

variable {config} {shardId} {key}

theorem untorn_start {s : MergeReplica T} {first : Option T} (hfirst : storedValue config key s = .ok first)
    (hindex : s.tree.get key = first) (calls : List (MergeCall T)) :
    Untorn config shardId key first (merging calls s) := by
  have hnone : (merging calls s).points.filterMap MergePoint.contribution = [] :=
    filterMap_map_of_none (fun _ => rfl) calls
  have hmerged : mergedSoFar config shardId first (merging calls s) = first := by
    rw [mergedSoFar, hnone]
    rfl
  have hread : ∀ call old bytes, MergePoint.read call old bytes ∉ (merging calls s).points := by
    intro call old bytes hmem
    obtain ⟨_, _, heq⟩ := mem_map.1 hmem
    cases heq
  refine ⟨⟨?_, fun _ => ?_⟩, fun call old bytes hmem => absurd hmem (hread call old bytes),
    fun call old bytes hmem => absurd hmem (hread call old bytes)⟩
  · rw [hmerged]
    exact hfirst
  · rw [hmerged]
    exact hindex

theorem MergeMove.call_eq {s s' : MergeReplica T} {pt pt' : MergePoint T}
    (h : MergeMove config shardId key s pt pt' s') : pt'.call = pt.call := by
  cases h <;> rfl

theorem returned_of_results {st : Standing (MergePoint T) (MergeReplica T)} {calls : List (MergeCall T)}
    (h : (st.pool (MergePoint.prog config shardId key)).results = (calls.map fun _ => Except.ok ()).map some)
    {pt : MergePoint T} (hpt : pt ∈ st.points) : pt = .returned pt.call := by
  obtain ⟨answer, hmem, hdone⟩ := Standing.done_of_results h hpt
  obtain ⟨_, _, rfl⟩ := mem_map.1 hmem
  cases pt with
  | returned call => rfl
  | called call | read call old bytes | written call final | failed call e => cases hdone

theorem merges_final (hlaws : config.MergeLaws shardId) (hround : config.RoundTrips) {s : MergeReplica T}
    {first : Option T} (hfirst : storedValue config key s = .ok first) (hindex : s.tree.get key = first)
    {calls : List (MergeCall T)} {schedule : List Nat}
    (hrun : AlongRun (Standing.turn (MergePoint.next config shardId key)) (MergeUndisturbed config shardId key)
      (merging calls s) schedule)
    (h : ((mergeCalls config shardId key calls s).schedule handleMerge schedule).results =
      (calls.map fun _ => Except.ok ()).map some) :
    storedValue config key ((mergeCalls config shardId key calls s).schedule handleMerge schedule).state =
        .ok (mergeAll config shardId first (calls.map MergeCall.entry)) ∧
      ((mergeCalls config shardId key calls s).schedule handleMerge schedule).state.tree.get key =
        mergeAll config shardId first (calls.map MergeCall.entry) := by
  have hstart : (merging calls s).pool (MergePoint.prog config shardId key) = mergeCalls config shardId key calls s :=
    Standing.pool_map (fun _ => rfl) calls s
  rw [← hstart, ← (MergePoint.follows config shardId key).pool_run] at h ⊢
  have hend := hrun.invariant (Untorn config shardId key first) (fun st i hst => (hst.turn_iff hlaws hround i).2)
      (untorn_start hfirst hindex calls)
  have hcalls : ((merging calls s).run (MergePoint.next config shardId key) schedule).points.map MergePoint.call =
      calls := by
    rw [Standing.map_run fun pt s => (move_next pt s).call_eq, merging, map_map]
    exact map_id calls
  have hmerged : mergedSoFar config shardId first ((merging calls s).run (MergePoint.next config shardId key) schedule) =
      mergeAll config shardId first (calls.map MergeCall.entry) := by
    rw [mergedSoFar, filterMap_of_forall (g := fun pt => pt.call.entry) fun pt hpt => by
      rw [returned_of_results h hpt]; rfl]
    conv_rhs => rw [← hcalls, map_map]
    rfl
  have hnone : NonePending ((merging calls s).run (MergePoint.next config shardId key) schedule).points := by
    intro pt hpt
    rw [returned_of_results h hpt]
    exact id
  rw [← hmerged]
  exact ⟨hend.nothingLost.stored, hend.nothingLost.indexed hnone⟩

/-- **No lost update** at any step: every put covers what is stored by then, and the last upsert due is of the stored
value. Once all calls have returned, the merge is complete and the tree holds it. -/
theorem merge_races_iff (config : MstConfig T) (shardId : UInt64) (hlaws : config.MergeLaws shardId)
    (hround : config.RoundTrips) (key : Bytes) (s : MergeReplica T) (first : Option T)
    (hfirst : storedValue config key s = .ok first) (hindex : s.tree.get key = first) (calls : List (MergeCall T))
    (schedule : List Nat) :
    (AlongRun (Standing.turn (MergePoint.next config shardId key))
        (fun st i => NothingLost config shardId key first (st.turn (MergePoint.next config shardId key) i))
        (merging calls s) schedule ↔
      AlongRun (Standing.turn (MergePoint.next config shardId key)) (MergeUndisturbed config shardId key)
        (merging calls s) schedule) ∧
    (AlongRun (Standing.turn (MergePoint.next config shardId key)) (MergeUndisturbed config shardId key)
        (merging calls s) schedule →
      ((mergeCalls config shardId key calls s).schedule handleMerge schedule).results =
        (calls.map fun _ => Except.ok ()).map some →
      storedValue config key ((mergeCalls config shardId key calls s).schedule handleMerge schedule).state =
          .ok (mergeAll config shardId first (calls.map MergeCall.entry)) ∧
        ((mergeCalls config shardId key calls s).schedule handleMerge schedule).state.tree.get key =
          mergeAll config shardId first (calls.map MergeCall.entry)) := by
  refine ⟨?_, fun hrun h => merges_final hlaws hround hfirst hindex hrun h⟩
  refine alongRun_iff_of_step (Untorn config shardId key first) ?_ (untorn_start hfirst hindex calls) schedule
  intro st i hst
  exact hst.turn_iff hlaws hround i

end

def flagsConfig : MstConfig UInt8 where
  extractTimestamp _ := 0
  mergeFunction a b _ := a ||| b
  serialize v := .ok [v]
  deserialize
    | [v] => .ok v
    | _ => .error (.serialization "not one byte")

theorem flagsConfig_mergeLaws (shardId : UInt64) : flagsConfig.MergeLaws shardId :=
  ⟨UInt8.or_assoc, UInt8.or_comm, fun _ => UInt8.or_self⟩

theorem flagsConfig_roundTrips : flagsConfig.RoundTrips := by
  rintro entry bytes ⟨⟩
  rfl

theorem merge_races_one_after_the_other :
    storedValue flagsConfig [107] ((mergeCalls flagsConfig 0 [107] [.setRaw 1, .pageItem 2]
        ⟨⟨.empty, []⟩, .empty⟩).schedule handleMerge [0, 0, 0, 1, 1, 1]).state = .ok (some 3) ∧
      ((mergeCalls flagsConfig 0 [107] [.setRaw 1, .pageItem 2] ⟨⟨.empty, []⟩, .empty⟩).schedule
        handleMerge [0, 0, 0, 1, 1, 1]).state.tree.get [107] = some 3 := by
  refine (merge_races_iff flagsConfig 0 (flagsConfig_mergeLaws 0) flagsConfig_roundTrips [107] ⟨⟨.empty, []⟩, .empty⟩ none
    rfl rfl [.setRaw 1, .pageItem 2] [0, 0, 0, 1, 1, 1]).2 ?_ ?_
  · refine ⟨trivial, ?_, fun _ => rfl, trivial, ?_, fun _ => rfl, trivial⟩
    · rintro _ current ⟨⟩
    · rintro _ current ⟨⟩
      rfl
  · decide

/-- Both have read before either puts; or the later put is upserted first. -/
theorem merge_races_lose_update :
    (((mergeCalls flagsConfig 0 [107] [.setRaw 1, .pageItem 2] ⟨⟨.empty, []⟩, .empty⟩).schedule handleMerge
        [0, 1, 1, 0, 1, 0]).results = [some (.ok ()), some (.ok ())] ∧
      storedValue flagsConfig [107] ((mergeCalls flagsConfig 0 [107] [.setRaw 1, .pageItem 2]
        ⟨⟨.empty, []⟩, .empty⟩).schedule handleMerge [0, 1, 1, 0, 1, 0]).state = .ok (some 1)) ∧
    ((mergeCalls flagsConfig 0 [107] [.setRaw 1, .pageItem 2] ⟨⟨.empty, []⟩, .empty⟩).schedule handleMerge
        [0, 0, 1, 1, 1, 0]).results = [some (.ok ()), some (.ok ())] ∧
      storedValue flagsConfig [107] ((mergeCalls flagsConfig 0 [107] [.setRaw 1, .pageItem 2]
        ⟨⟨.empty, []⟩, .empty⟩).schedule handleMerge [0, 0, 1, 1, 1, 0]).state = .ok (some 3) ∧
      ((mergeCalls flagsConfig 0 [107] [.setRaw 1, .pageItem 2] ⟨⟨.empty, []⟩, .empty⟩).schedule handleMerge
        [0, 0, 1, 1, 1, 0]).state.tree.get [107] = some 1 := by
  decide

end Odgm
