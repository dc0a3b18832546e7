import OaasIot.Odgm.ReadYourWrites

/-!
# Batches whose puts fail

No layer undoes the puts before the one that fails. Without replication and under MST the call then returns the error
with those records changed; under Raft the state machine answers `Ok` with status `Failed`, which `batch_set_entries`
does not look at: the call returns the new version with the rest not stored.
-/

namespace Odgm

open List

section
variable {Ev : Type} {c : Codec Ev} {kind : ReplicationKind} {cfg : ShardConfig} {s : Store} {id : ObjectId}

/-- `Ok(v)`: the batch and metadata with version `v` are stored; `Err`: no record of the object changed. -/
def AtomicOutcome (c : Codec Ev) (id : ObjectId) (values : List (Str × ObjectVal)) (s : Store) (out : Result UInt64)
    (s' : Store) : Prop :=
  match out with
  | .ok v => (∀ e ∈ values, getEntry c s' id e.1 = .ok (some e.2)) ∧
      ∃ m, getMetadata s' id = .ok (some m) ∧ m.objectVersion = v
  | .error _ => ∀ r, s'.get (recordKey id r) = s.get (recordKey id r)

def BatchAtomic (c : Codec Ev) (kind : ReplicationKind) (cfg : ShardConfig) (id : ObjectId) (values : ValueMap)
    (expected : Option UInt64) (sh : Shard Ev) : Prop :=
  AtomicOutcome c id values.toList sh.node.app
    (Shard.run c kind (Shard.batchSetEntries c cfg id values expected) sh).1
    (Shard.run c kind (Shard.batchSetEntries c cfg id values expected) sh).2.node.app

/-- A put that fails at position `j` does no harm: the records before it (without replication, MST) were
stored as they are, or those from it on (Raft) were, and the version cannot go up any more. -/
def FaultHarmless (c : Codec Ev) (kind : ReplicationKind) (id : ObjectId) (values : List (Str × ObjectVal))
    (s : Store) (j : Nat) : Prop :=
  match kind with
  | .raft => (∀ e ∈ values.drop j, getEntry c s id e.1 = .ok (some e.2)) ∧
      ∃ m, getMetadata s id = .ok (some m) ∧ m.objectVersion = 0xFFFFFFFFFFFFFFFF
  | _ => ∀ e ∈ values.take j, s.get (buildEntryKey id e.1) = some (c.encodeVal e.2)

/-! ## The call under faults -/

def batchAnswer (kind : ReplicationKind) (failed : Option StorageError) (version : UInt64) : Result UInt64 :=
  match batchReport kind failed with
  | .ok _ => .ok version
  | .error e => .error (.err (.replicationError e))

theorem runsOn_writeBatch (c : Codec Ev) (kind : ReplicationKind) (cfg : ShardConfig) (id : Str)
    (values : List (Str × ObjectVal)) (m : ObjectMetadata) (n : Node) :
    ∃ n', RunsOn c kind (Shard.writeBatch c cfg id values m) n
        (batchAnswer kind (putAll (Shard.batchRecords c id values m.incrementVersion) n).1
          m.incrementVersion.objectVersion) n' ∧
      n'.app = (putAll (Shard.batchRecords c id values m.incrementVersion) n).2.app := by
  obtain ⟨n', hop, happ, _⟩ := replicateWrite_writesOf kind (Shard.batchRecords c id values m.incrementVersion) n
  refine ⟨n', RunsOn.bind ((reads_preExist id (values.map Prod.fst)).runsOn n) ?_, happ⟩
  unfold batchAnswer
  cases hreport : batchReport kind (putAll (Shard.batchRecords c id values m.incrementVersion) n).1 with
  | ok response =>
    rw [hreport] at hop
    exact RunsOn.bind (runsOn_replicate hop) (RunsOn.bind (runsOn_announce _ _ _ n') (RunsOn.pure _ n'))
  | error e =>
    rw [hreport] at hop
    exact RunsOn.bind_error (runsOn_replicate_error hop)

theorem runsOn_batchSetEntries_unread {n : Node} {e : Fault} (hm : getMetadata n.app id = .error e) (values : ValueMap)
    (expected : Option UInt64) : RunsOn c kind (Shard.batchSetEntries c cfg id values expected) n (.error e) n :=
  RunsOn.bind_error (RunsOn.bind_error (hm ▸ (reads_getMetadata id).runsOn n))

variable {values : List (Str × ObjectVal)} {metadata : Option ObjectMetadata} {expected : Option UInt64}

theorem runsOn_batchSetEntries_mismatch {n : Node}
    (hm : getMetadata n.app id = .ok metadata) {values : ValueMap} (hne : values.toList ≠ [])
    {e : Fault} (hv : Shard.versionMatches expected (metadata.getD .default) = .error e) :
    RunsOn c kind (Shard.batchSetEntries c cfg id values expected) n (.error e) n := by
  refine RunsOn.bind (runsOn_metadataOrDefault hm) ?_
  simp only [if_neg hne, hv]
  exact RunsOn.throw e n

theorem runsOn_batchSetEntries (c : Codec Ev) (kind : ReplicationKind) (cfg : ShardConfig) {n : Node}
    (hm : getMetadata n.app id = .ok metadata) {values : ValueMap} (hne : values.toList ≠ [])
    (hv : Shard.versionMatches expected (metadata.getD .default) = .ok ()) :
    ∃ n', RunsOn c kind (Shard.batchSetEntries c cfg id values expected) n (batchAnswer kind
          (putAll (Shard.batchRecords c id values.toList (metadata.getD .default).incrementVersion) n).1
          (metadata.getD .default).incrementVersion.objectVersion) n' ∧
      n'.app = (putAll (Shard.batchRecords c id values.toList (metadata.getD .default).incrementVersion) n).2.app := by
  obtain ⟨n', hrun, happ⟩ := runsOn_writeBatch c kind cfg id values.toList (metadata.getD .default) n
  refine ⟨n', RunsOn.bind (runsOn_metadataOrDefault hm) ?_, happ⟩
  simp only [if_neg hne, hv]
  exact hrun

/-! ## Batches cut short -/

theorem firstFault_lt {faults : List (Option StorageError)} {count j : Nat} (h : firstFault faults count = some j) :
    j < count := by
  obtain ⟨hlt, _⟩ := findIdx?_eq_some_iff_getElem.1 h
  rw [length_take] at hlt
  omega

theorem length_batchRecords (id : Str) (values : List (Str × ObjectVal)) (m : ObjectMetadata) :
    (Shard.batchRecords c id values m).length = values.length + 1 := by
  simp [Shard.batchRecords]

theorem take_batchRecords {m : ObjectMetadata} {j : Nat} (hj : j ≤ values.length) :
    (Shard.batchRecords c id values m).take j = entryRecords c id (values.take j) := by
  have hlen : j ≤ (values.map fun e => (buildEntryKey id e.1, c.encodeVal e.2)).length := by simpa using hj
  rw [Shard.batchRecords, take_append_of_le_length hlen, entryRecords, map_take]

theorem getMetadata_insertMany_entries (values : List (Str × ObjectVal)) :
    getMetadata (s.insertMany (entryRecords c id values)) id = getMetadata s id := by
  refine getMetadata_congr (OrdMap.get_insertMany_of_notMem _ ?_)
  intro hmem
  simp only [entryRecords, map_map, mem_map, Function.comp] at hmem
  obtain ⟨e, _, he⟩ := hmem
  exact metaKey_ne_entryKey id e.1 he.symm

theorem nodup_take (hnd : (values.map Prod.fst).Nodup) (j : Nat) : ((values.take j).map Prod.fst).Nodup := by
  rw [map_take]
  exact hnd.sublist (take_sublist _ _)

theorem notMem_take_of_mem_drop (hnd : (values.map Prod.fst).Nodup) {j : Nat}
    {e : Str × ObjectVal} (h : e ∈ values.drop j) : e.1 ∉ (values.take j).map Prod.fst := by
  intro hmem
  rw [← take_append_drop j values, map_append, nodup_append] at hnd
  exact hnd.2.2 e.1 hmem e.1 (mem_map.2 ⟨e, h, rfl⟩) rfl

theorem unchanged_iff (hnd : (values.map Prod.fst).Nodup) :
    (∀ r, (s.insertMany (entryRecords c id values)).get (recordKey id r) = s.get (recordKey id r)) ↔
      ∀ e ∈ values, s.get (buildEntryKey id e.1) = some (c.encodeVal e.2) := by
  constructor
  · intro h e he
    have hrec : (buildEntryKey id e.1, c.encodeVal e.2) ∈ entryRecords c id values := mem_map.2 ⟨e, he, rfl⟩
    have hget := OrdMap.get_insertMany_of_mem s (nodup_keys_entryRecords hnd) hrec
    exact (h (.entry e.1)).symm.trans hget
  · intro h r
    rw [OrdMap.insertMany_eq_self]
    intro x hx
    obtain ⟨e, he, rfl⟩ := mem_map.1 hx
    exact h e he

theorem objectVersion_incrementVersion_eq_iff (m : ObjectMetadata) :
    m.objectVersion = m.incrementVersion.objectVersion ↔ m.objectVersion = 0xFFFFFFFFFFFFFFFF := by
  unfold ObjectMetadata.incrementVersion
  by_cases h : m.objectVersion = 0xFFFFFFFFFFFFFFFF
  · simp [h]
  · simp [h]

theorem stored_iff (hnd : (values.map Prod.fst).Nodup) (hm : getMetadata s id = .ok metadata) (j : Nat) :
    ((∀ e ∈ values, getEntry c (s.insertMany (entryRecords c id (values.take j))) id e.1 = .ok (some e.2)) ∧
      ∃ m, getMetadata (s.insertMany (entryRecords c id (values.take j))) id = .ok (some m) ∧
        m.objectVersion = (metadata.getD .default).incrementVersion.objectVersion) ↔
    ((∀ e ∈ values.drop j, getEntry c s id e.1 = .ok (some e.2)) ∧
      ∃ m, getMetadata s id = .ok (some m) ∧ m.objectVersion = 0xFFFFFFFFFFFFFFFF) := by
  rw [getMetadata_insertMany_entries]
  refine and_congr ?_ ?_
  · constructor
    · intro h e he
      rw [← getEntry_insertMany_of_notMem (notMem_take_of_mem_drop hnd he)]
      exact h e (mem_of_mem_drop he)
    · intro h e he
      rw [← take_append_drop j values, mem_append] at he
      rcases he with he | he
      · exact getEntry_insertMany_of_mem (nodup_take hnd j) he
      · rw [getEntry_insertMany_of_notMem (notMem_take_of_mem_drop hnd he)]
        exact h e he
  · refine exists_congr fun m => and_congr_right ?_
    intro hm'
    rw [hm] at hm'
    cases hm'
    exact objectVersion_incrementVersion_eq_iff m

/-! ## Atomicity -/

theorem batchAtomic_of_runsOn {values : ValueMap} {sh : Shard Ev} {out : Result UInt64}
    {n' : Node} (h : RunsOn c kind (Shard.batchSetEntries c cfg id values expected) sh.node out n') :
    BatchAtomic c kind cfg id values expected sh ↔ AtomicOutcome c id values.toList sh.node.app out n'.app := by
  obtain ⟨sh', hrun, rfl⟩ := h sh rfl
  unfold BatchAtomic
  rw [hrun]

/-- **Batch atomicity**: the call stops before it writes, no put fails, or the first that fails does no harm. -/
theorem batchSetEntries_atomic_iff (c : Codec Ev) (kind : ReplicationKind) (cfg : ShardConfig) (id : ObjectId)
    (values : ValueMap) (hne : values.toList ≠ []) (expected : Option UInt64) (sh : Shard Ev) :
    BatchAtomic c kind cfg id values expected sh ↔
      ∀ metadata, getMetadata sh.node.app id = .ok metadata →
        Shard.versionMatches expected (metadata.getD .default) = .ok () →
        ∀ j, firstFault sh.node.faults (values.toList.length + 1) = some j →
          FaultHarmless c kind id values.toList sh.node.app j := by
  cases hm : getMetadata sh.node.app id with
  | error e =>
    rw [batchAtomic_of_runsOn (runsOn_batchSetEntries_unread hm values expected)]
    simp [AtomicOutcome]
  | ok metadata =>
    cases hv : Shard.versionMatches expected (metadata.getD .default) with
    | error e =>
      rw [batchAtomic_of_runsOn (runsOn_batchSetEntries_mismatch hm hne hv)]
      simp [AtomicOutcome, hv]
    | ok _ =>
      obtain ⟨n', hrun, happ⟩ := runsOn_batchSetEntries c kind cfg hm hne hv
      rw [batchAtomic_of_runsOn hrun, happ]
      obtain ⟨hnone, hsome⟩ := putAll_eq
        (Shard.batchRecords c id values.toList (metadata.getD .default).incrementVersion) sh.node
      rw [length_batchRecords] at hnone hsome
      have hcond : (∀ md, (Except.ok metadata : Result (Option ObjectMetadata)) = .ok md →
          Shard.versionMatches expected (md.getD .default) = .ok () →
          ∀ j, firstFault sh.node.faults (values.toList.length + 1) = some j →
            FaultHarmless c kind id values.toList sh.node.app j) ↔
          ∀ j, firstFault sh.node.faults (values.toList.length + 1) = some j →
            FaultHarmless c kind id values.toList sh.node.app j := by
        constructor
        · intro h
          exact h metadata rfl hv
        · rintro h md hmd _
          exact h
      rw [hcond]
      cases hfault : firstFault sh.node.faults (values.toList.length + 1) with
      | none =>
        obtain ⟨hok, happ'⟩ := hnone hfault
        rw [hok, happ']
        refine iff_of_true ⟨?_, _, getMetadata_batchWritten (encodable_getMetadata hm) values.toList, rfl⟩ (by simp)
        intro e he
        exact getEntry_of_mem values.nodupKeys he
      | some j =>
        obtain ⟨e, herr, happ'⟩ := hsome j hfault
        have hj : j ≤ values.toList.length := Nat.lt_succ_iff.1 (firstFault_lt hfault)
        rw [take_batchRecords hj] at happ'
        rw [herr, happ']
        simp only [Option.some.injEq, forall_eq']
        cases kind with
        | raft => exact stored_iff values.nodupKeys hm j
        | none | mst shardId => exact unchanged_iff (nodup_take values.nodupKeys j)

end

/-! ## The metadata put fails -/

namespace DiskFull

open Recreated

def values : ValueMap := ⟨[(key, value)], nodup_key⟩
def shard : Shard Unit := ⟨⟨OrdMap.empty, OrdMap.empty, [], [none, some (.backend "disk full")]⟩, []⟩

/-- The call fails and the entry is there; under Raft it succeeds without metadata. -/
theorem batchSetEntries_not_atomic :
    ¬ BatchAtomic Postcard.codec .none config id values none shard ∧
    ¬ BatchAtomic Postcard.codec (.mst 0) config id values none shard ∧
    ¬ BatchAtomic Postcard.codec .raft config id values none shard := by
  refine ⟨?_, ?_, ?_⟩
  · intro h
    have hentry := h (.entry key)
    cases hentry
  · intro h
    have hentry := h (.entry key)
    cases hentry
  · rintro ⟨_, m, hm, _⟩
    cases hm

theorem batchSetEntries_atomic_iff_shard :
    BatchAtomic Postcard.codec .raft config id values none shard ↔
      ∀ metadata, getMetadata shard.node.app id = .ok metadata →
        Shard.versionMatches none (metadata.getD .default) = .ok () →
        ∀ j, firstFault shard.node.faults (values.toList.length + 1) = some j →
          FaultHarmless Postcard.codec .raft id values.toList shard.node.app j :=
  batchSetEntries_atomic_iff Postcard.codec .raft config id values (by decide) none shard

end DiskFull

end Odgm
