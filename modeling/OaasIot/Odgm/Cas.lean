import OaasIot.Odgm.ReadYourWrites

/-!
# Concurrent batches with one expected version

`batch_set_entries` reads the metadata, checks `expected_version` against it and replicates the batch, with
an `await` after each; nothing holds the version in between. Calls that all read before any of them
writes all pass the check.
-/

namespace Odgm

open List

section
variable {Ev : Type} {c : Codec Ev} {kind : ReplicationKind} {cfg : ShardConfig}

/-! ## One call, step by step -/

def decodeMetadata (raw : Option Bytes) : ShardM Ev (Option ObjectMetadata) :=
  match raw with
  | none => pure none
  | some value =>
    match ObjectMetadata.fromBytes value with
    | some m => pure (some m)
    | none => throw (.err .invalidMetadata)

def batchAfterMetadata (c : Codec Ev) (cfg : ShardConfig) (id : Str) (values : ValueMap) (expected : Option UInt64)
    (m : ObjectMetadata) : ShardM Ev UInt64 :=
  if values.toList = [] then pure m.objectVersion
  else
    match Shard.versionMatches expected m with
    | .error e => throw e
    | .ok () => Shard.writeBatch c cfg id values.toList m

variable {α : Type}

theorem getRaw_step (key : Bytes) (f : Option Bytes → ShardM Ev α) (sh : Shard Ev) :
    (ExceptT.run (Shard.getRaw key >>= f)).step (Shard.handle c kind) sh =
      (ExceptT.run (f (sh.node.app.get key)), sh) :=
  Prog.step_ask_bind (Shard.handle c kind) (ShardCall.get key) f sh

theorem batchSetEntries_first (id : Str) (values : ValueMap) (expected : Option UInt64) :
    Shard.batchSetEntries c cfg id values expected =
      Shard.getRaw (buildMetadataKey id) >>= fun raw =>
        decodeMetadata raw >>= fun metadata =>
          batchAfterMetadata c cfg id values expected (metadata.getD .default) := by
  unfold Shard.batchSetEntries Shard.metadataOrDefault Shard.getMetadata
  simp only [bind_assoc, pure_bind]
  rfl

theorem batchSetEntries_step {id : Str} {sh : Shard Ev} {metadata : Option ObjectMetadata}
    (hm : getMetadata sh.node.app id = .ok metadata) (values : ValueMap) (expected : Option UInt64) :
    (ExceptT.run (Shard.batchSetEntries c cfg id values expected)).step (Shard.handle c kind) sh =
      (ExceptT.run (batchAfterMetadata c cfg id values expected (metadata.getD .default)), sh) := by
  rw [batchSetEntries_first, getRaw_step]
  have hdec : (decodeMetadata (sh.node.app.get (buildMetadataKey id)) : ShardM Ev _) = pure metadata := by
    unfold getMetadata at hm
    unfold decodeMetadata
    cases hget : sh.node.app.get (buildMetadataKey id) with
    | none =>
      rw [hget] at hm
      cases hm
      rfl
    | some value =>
      rw [hget] at hm
      dsimp only at hm ⊢
      cases hd : ObjectMetadata.fromBytes value with
      | none =>
        rw [hd] at hm
        cases hm
      | some m =>
        rw [hd] at hm
        cases hm
        rfl
  rw [hdec, pure_bind]

variable {m : ObjectMetadata}

theorem batchAfterMetadata_done {id : Str} {values : ValueMap} {expected : Option UInt64}
    (h : values.toList = [] ∨ Shard.versionMatches expected m ≠ .ok ()) :
    ExceptT.run (batchAfterMetadata c cfg id values expected m) =
      Prog.done (batchOutcome m values.toList expected) := by
  unfold batchAfterMetadata batchOutcome
  by_cases hv : values.toList = []
  · simp only [if_pos hv]
    rfl
  · simp only [if_neg hv]
    cases hmatch : Shard.versionMatches expected m with
    | error e => rfl
    | ok _ => exact absurd hmatch (h.resolve_left hv)

/-! ## Several calls -/

def concurrently (c : Codec Ev) (cfg : ShardConfig) (id : Str) (expected : UInt64) (calls : List ValueMap)
    (sh : Shard Ev) : Prog.Pool (shardInterface Ev) (Shard Ev) (Result UInt64) :=
  ⟨calls.map fun values => ExceptT.run (Shard.batchSetEntries c cfg id values (some expected)), sh⟩

def isOk : Result UInt64 → Bool
  | .ok _ => true
  | .error _ => false

def OneWinner (expected : UInt64) (results : List (Result UInt64)) : Prop :=
  results.countP isOk ≤ 1 ∧
    ∀ r ∈ results, isOk r = true ∨ ∃ actual, r = .error (.err (.versionMismatch expected actual))

def Exclusive (c : Codec Ev) (kind : ReplicationKind) (cfg : ShardConfig) (id : Str) (expected : UInt64)
    (calls : List ValueMap) (sh : Shard Ev) : Prop :=
  ∀ (schedule : List Nat) (results : List (Result UInt64)),
    ((concurrently c cfg id expected calls sh).schedule (Shard.handle c kind) schedule).results = results.map some →
      OneWinner expected results

def storedVersion (s : Store) (id : Str) : UInt64 :=
  match getMetadata s id with
  | .ok metadata => (metadata.getD .default).objectVersion
  | .error _ => 0

variable {id : ObjectId}

theorem storedVersion_eq {s : Store} {metadata : Option ObjectMetadata} (hm : getMetadata s id = .ok metadata) :
    storedVersion s id = (metadata.getD .default).objectVersion := by
  rw [storedVersion, hm]

theorem storedVersion_congr {s s' : Store} (h : s'.get (buildMetadataKey id) = s.get (buildMetadataKey id)) :
    storedVersion s' id = storedVersion s id := by
  rw [storedVersion, getMetadata_congr h, storedVersion]

theorem storedVersion_putMetadata (hm : m.Encodable) (s : Store) :
    storedVersion (s.insert (buildMetadataKey id) m.toBytes) id = m.objectVersion := by
  have hget : getMetadata (s.insert (buildMetadataKey id) m.toBytes) id = .ok (some m) := by
    unfold getMetadata
    rw [OrdMap.get_insert_self]
    simp only [ObjectMetadata.fromBytes_toBytes hm]
  exact storedVersion_eq hget

def isEmptyMap (values : ValueMap) : Bool := values.toList.isEmpty

theorem isEmptyMap_iff {values : ValueMap} : isEmptyMap values = true ↔ values.toList = [] := isEmpty_iff

theorem versionMatches_some_iff {expected : UInt64} :
    Shard.versionMatches (some expected) m = .ok () ↔ m.objectVersion = expected := by
  unfold Shard.versionMatches
  split <;> simp_all

theorem batchOutcome_mismatch (m : ObjectMetadata) (values : List (Str × ObjectVal)) (expected : UInt64) :
    isOk (batchOutcome m values (some expected)) = true ∨
      ∃ actual, batchOutcome m values (some expected) = .error (.err (.versionMismatch expected actual)) := by
  unfold batchOutcome Shard.versionMatches
  by_cases hv : values = []
  · left
    rw [if_pos hv]
    rfl
  · rw [if_neg hv]
    by_cases he : m.objectVersion = expected
    · left
      simp only [if_pos he]
      rfl
    · right
      refine ⟨m.objectVersion, ?_⟩
      simp only [if_neg he]
      rfl

/-! ### The stored version is not the expected one -/

section
variable {id : Str} {sh : Shard Ev} {metadata : Option ObjectMetadata} {expected : UInt64}

def staleAnswer (m : ObjectMetadata) (expected : UInt64) (values : ValueMap) : Result UInt64 :=
  batchOutcome m values.toList (some expected)

theorem step_stale (hm : getMetadata sh.node.app id = .ok metadata)
    (hne : (metadata.getD .default).objectVersion ≠ expected) (values : ValueMap) :
    (ExceptT.run (Shard.batchSetEntries c cfg id values (some expected))).step (Shard.handle c kind) sh =
      (Prog.done (staleAnswer (metadata.getD .default) expected values), sh) := by
  rw [batchSetEntries_step hm, batchAfterMetadata_done (Or.inr fun h => hne (versionMatches_some_iff.1 h))]
  rfl

section
variable (hne : m.objectVersion ≠ expected)
include hne

theorem isOk_staleAnswer (values : ValueMap) : isOk (staleAnswer m expected values) = isEmptyMap values := by
  unfold staleAnswer batchOutcome
  by_cases hv : values.toList = []
  · rw [if_pos hv, isEmptyMap_iff.2 hv]
    rfl
  · have hempty : isEmptyMap values = false := Bool.eq_false_iff.2 fun h => hv (isEmptyMap_iff.1 h)
    rw [if_neg hv, hempty, Shard.versionMatches]
    simp only [if_neg hne]
    rfl

theorem oneWinner_staleAnswers (calls : List ValueMap) :
    OneWinner expected (calls.map (staleAnswer m expected)) ↔ calls.countP isEmptyMap ≤ 1 := by
  have hcount : (calls.map (staleAnswer m expected)).countP isOk = calls.countP isEmptyMap := by
    rw [countP_map]
    exact countP_congr fun values _ => by rw [Function.comp_apply, isOk_staleAnswer hne]
  unfold OneWinner
  rw [hcount]
  refine and_iff_left ?_
  intro r hr
  obtain ⟨values, _, rfl⟩ := mem_map.1 hr
  exact batchOutcome_mismatch m values.toList expected

end

variable {calls : List ValueMap}

theorem exclusive_stale (hm : getMetadata sh.node.app id = .ok metadata)
    (hne : (metadata.getD .default).objectVersion ≠ expected) (calls : List ValueMap) :
    Exclusive c kind cfg id expected calls sh ↔ calls.countP isEmptyMap ≤ 1 := by
  have hstep : ∀ q ∈ (concurrently c cfg id expected calls sh).progs,
      ∃ r, q.step (Shard.handle c kind) sh = (Prog.done r, sh) := by
    intro q hq
    obtain ⟨values, _, rfl⟩ := mem_map.1 hq
    exact ⟨_, step_stale hm hne values⟩
  have hanswers : (concurrently c cfg id expected calls sh).answers (Shard.handle c kind) =
      calls.map (staleAnswer (metadata.getD .default) expected) := by
    rw [Prog.Pool.answers, concurrently, map_map]
    refine map_congr_left fun values _ => ?_
    rw [Function.comp_apply, ← Prog.run_step, step_stale hm hne]
    rfl
  rw [← oneWinner_staleAnswers hne, ← hanswers]
  constructor
  · intro h
    -- Run to their end, one after the other, the calls answer this.
    obtain ⟨schedule, rs, s', hs, _⟩ := Prog.Pool.exists_schedule_complete (Shard.handle c kind) (· = sh)
      (fun _ => True) rfl (concurrently c cfg id expected calls sh).progs
      (by
        rintro q hq _ rfl
        obtain ⟨r, hr⟩ := hstep q hq
        rw [← Prog.run_step, hr]
        exact ⟨trivial, rfl⟩) []
    have hrs : ((concurrently c cfg id expected calls sh).schedule (Shard.handle c kind) schedule).results =
        rs.map some := (congrArg _ hs).trans (Prog.Pool.results_map_done rs s')
    have hone := h schedule rs hrs
    rwa [Prog.Pool.results_of_one_call _ hstep schedule hrs] at hone
  · intro h schedule rs hrs
    rw [Prog.Pool.results_of_one_call _ hstep schedule hrs]
    exact h

/-! ### The stored version is the expected one -/

theorem run_batchAfterMetadata (heq : m.objectVersion = expected) (values : ValueMap) {sh' : Shard Ev}
    (hf : sh'.node.faults = []) :
    isOk ((ExceptT.run (batchAfterMetadata c cfg id values (some expected) m)).run (Shard.handle c kind) sh').1 = true ∧
    ((ExceptT.run (batchAfterMetadata c cfg id values (some expected) m)).run (Shard.handle c kind)
      sh').2.node.faults = [] := by
  have hruns : ∃ version s', Runs c kind (batchAfterMetadata c cfg id values (some expected) m) sh'.node.app
      (.ok version) s' := by
    unfold batchAfterMetadata
    by_cases hv : values.toList = []
    · simp only [if_pos hv]
      exact ⟨_, _, Runs.pure _ _⟩
    · simp only [if_neg hv, versionMatches_some_iff.2 heq]
      exact ⟨_, _, runs_writeBatch id (some m) values.toList _⟩
  obtain ⟨version, s', hruns⟩ := hruns
  obtain ⟨sh'', hrun, _, hf'⟩ := hruns sh' rfl hf
  rw [Shard.run, Prog.exec] at hrun
  rw [hrun]
  exact ⟨rfl, hf'⟩

theorem all_succeed (c : Codec Ev) (kind : ReplicationKind) (cfg : ShardConfig)
    (hm : getMetadata sh.node.app id = .ok metadata)
    (heq : (metadata.getD .default).objectVersion = expected) (hf : sh.node.faults = []) (calls : List ValueMap) :
    ∃ (schedule : List Nat) (rs : List (Result UInt64)),
      ((concurrently c cfg id expected calls sh).schedule (Shard.handle c kind) schedule).results =
        rs.map some ∧ rs.length = calls.length ∧ ∀ r ∈ rs, isOk r = true := by
  obtain ⟨reads, hreads⟩ := Prog.Pool.exists_schedule_round (Shard.handle c kind) (s := sh)
    (calls.map fun values => ExceptT.run (Shard.batchSetEntries c cfg id values (some expected)))
    (by
      intro q hq
      obtain ⟨values, _, rfl⟩ := mem_map.1 hq
      rw [batchSetEntries_step hm]) []
  obtain ⟨writes, rs, s', hwrites, hlen, hall⟩ := Prog.Pool.exists_schedule_complete (Shard.handle c kind)
    (fun sh' : Shard Ev => sh'.node.faults = []) (fun r => isOk r = true) hf
    (calls.map fun values => ExceptT.run (batchAfterMetadata c cfg id values (some expected) (metadata.getD .default)))
    (by
      intro q hq sh' hsh'
      obtain ⟨values, _, rfl⟩ := mem_map.1 hq
      exact run_batchAfterMetadata heq values hsh') []
  have hmid : (calls.map fun values => ExceptT.run (Shard.batchSetEntries c cfg id values (some expected))).map
      (fun q => (Prog.step (Shard.handle c kind) q sh).1) =
      calls.map fun values =>
        ExceptT.run (batchAfterMetadata c cfg id values (some expected) (metadata.getD .default)) := by
    rw [map_map]
    refine map_congr_left ?_
    intro values _
    rw [Function.comp_apply, batchSetEntries_step hm]
  rw [hmid] at hreads
  refine ⟨reads ++ writes, rs, ?_, by rw [hlen, length_map], hall⟩
  rw [nil_append, nil_append] at hreads hwrites
  rw [Prog.Pool.schedule_append, concurrently, hreads, hwrites, Prog.Pool.results_map_done]

/-! ### A single call -/

theorem exclusive_of_length_le_one (hm : getMetadata sh.node.app id = .ok metadata) (hf : sh.node.faults = [])
    (hlen : calls.length ≤ 1) : Exclusive c kind cfg id expected calls sh := by
  intro schedule rs hrs
  rw [Prog.Pool.results_of_single (Shard.handle c kind) ((length_map _).trans_le hlen) schedule hrs]
  constructor
  · exact countP_le_length.trans (by simpa [Prog.Pool.answers, concurrently] using hlen)
  · intro r hr
    simp only [Prog.Pool.answers, concurrently, map_map, mem_map, Function.comp_apply] at hr
    obtain ⟨values, _, rfl⟩ := hr
    have hruns : Runs c kind (Shard.batchSetEntries c cfg id values (some expected)) _ _ _ :=
      runs_batchSetEntries hm values (some expected)
    obtain ⟨sh', hrun, _⟩ := hruns sh rfl hf
    rw [Shard.run, Prog.exec] at hrun
    rw [hrun]
    exact batchOutcome_mismatch _ _ _

end

/-- **Optimistic concurrency**: one winner at most if there is one call, or the expected version is not the stored one
and at most one map is empty. -/
theorem cas_exclusive_iff (c : Codec Ev) (kind : ReplicationKind) (cfg : ShardConfig) (ms : List (Mutation Ev))
    (id : ObjectId) (expected : UInt64) (calls : List ValueMap) :
    Exclusive c kind cfg id expected calls (Shard.afterAll c kind cfg ms) ↔
      calls.length ≤ 1 ∨ (storedVersion (Shard.afterAll c kind cfg ms).node.app id ≠ expected ∧
        calls.countP isEmptyMap ≤ 1) := by
  obtain ⟨hwf, hf⟩ := afterAll_sound c kind cfg ms
  obtain ⟨metadata, hm⟩ := getMetadata_of_wellFormed hwf id
  rw [storedVersion_eq hm]
  by_cases hlen : calls.length ≤ 1
  · exact iff_of_true (exclusive_of_length_le_one hm hf hlen) (Or.inl hlen)
  · by_cases heq : (metadata.getD .default).objectVersion = expected
    · refine iff_of_false ?_ (by simp [hlen, heq])
      intro h
      obtain ⟨schedule, rs, hrs, hlength, hall⟩ := all_succeed c kind cfg hm heq hf calls
      have hcount : rs.countP isOk = rs.length := countP_eq_length.2 hall
      have hone := (h schedule rs hrs).1
      omega
    · rw [exclusive_stale hm heq]
      simp [hlen, heq]

end

/-! ## Two writers -/

namespace TwoWriters

open Recreated

def first : ValueMap := ⟨[(key, value)], nodup_key⟩
def second : ValueMap := ⟨[(key, ⟨[3], .byte, by decide⟩)], by simp⟩

/-- Both read version 0, then both write: each answers version 1. -/
theorem cas_two_winners :
    ¬ Exclusive Postcard.codec .none config id 0 [first, second] (Shard.afterAll Postcard.codec .none config []) := by
  intro h
  have hone := (h [0, 1, 0, 1] [.ok 1, .ok 1] rfl).1
  revert hone
  decide

end TwoWriters

end Odgm
