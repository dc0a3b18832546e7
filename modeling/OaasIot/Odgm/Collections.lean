import OaasIot.Grpc.Messages
import OaasIot.Lib.Program

/-!
# The shard table (`odgm/src/metadata/mod.rs`)

`create_collection` writes one row per replica. The ids are the caller's, or, without any assignment, the next free
ones; an assignment that names no ids takes **the last id of the table**, once per replica. A failed call keeps the rows
it has written. The watch channel and fields that every caller leaves at their default are left out.
-/

open Grpc

namespace Odgm

open List OrdMap

structure ShardMetadata where
  id : UInt64
  collection : String
  partitionId : UInt16
  owner : Option UInt64
  primary : Option UInt64
  replica : List UInt64
  replicaOwner : List UInt64
  shardType : String
  options : OrdMap String String
  invocations : InvocationRoute
  deriving DecidableEq

structure CollectionMetadataState where
  name : String
  shards : List (List UInt64)
  seed : UInt32
  replication : UInt8
  deriving DecidableEq

abbrev ShardTable := OrdMap UInt64 ShardMetadata

structure OprcMetaManager where
  collections : OrdMap String CollectionMetadataState
  shards : ShardTable
  localShards : ShardTable
  nodeId : UInt64
  members : List UInt64
  deriving DecidableEq

namespace OprcMetaManager

def new (nodeId : UInt64) (members : List UInt64) : OprcMetaManager := ⟨.empty, .empty, .empty, nodeId, members⟩

inductive Failure
  | invalidArgument (msg : String)
  | panicked (msg : String)
  deriving DecidableEq

def count (n : Int32) : Nat := n.toNatClampNeg

/-! ## Default assignments -/

variable (overflowChecks : Bool) (m : OprcMetaManager) (request : CreateCollectionRequest)

def increment (x : UInt64) : Except Failure UInt64 :=
  if overflowChecks && x.toNat + 1 == 2 ^ 64 then .error (.panicked "attempt to add with overflow") else .ok (x + 1)

def takeIds (overflowChecks : Bool) : Nat → UInt64 → Except Failure (List UInt64 × UInt64)
  | 0, counter => .ok ([], counter)
  | n + 1, counter => do
    let next ← increment overflowChecks counter
    let (ids, counter') ← takeIds overflowChecks n next
    return (counter :: ids, counter')

/-- One partition `i` (mod.rs:151-171). A negative `replica_count` is a capacity no vector has; with 0 the
`shard_ids[0]` of mod.rs:164 is out of bounds. -/
def defaultAssignment (members : List UInt64) (replicaCount : Int32) (i : Nat) (counter : UInt64) :
    Except Failure (ShardAssignment × UInt64) :=
  if replicaCount < 0 then .error (.panicked "capacity overflow")
  else if 0 < count replicaCount && members.isEmpty then
    .error (.panicked "attempt to calculate the remainder with a divisor of zero")
  else do
    let replica := (List.range (count replicaCount)).filterMap fun k => members[(i + k) % members.length]?
    let (shardIds, counter') ← takeIds overflowChecks (count replicaCount) counter
    match shardIds with
    | [] => .error (.panicked "index out of bounds: the len is 0 but the index is 0")
    | primary :: _ => .ok (⟨some primary, replica, shardIds⟩, counter')

def defaultAssignments (overflowChecks : Bool) (members : List UInt64) (replicaCount : Int32) :
    Nat → Nat → UInt64 → Except Failure (List ShardAssignment)
  | _, 0, _ => .ok []
  | i, n + 1, counter => do
    let (a, counter') ← defaultAssignment overflowChecks members replicaCount i counter
    let rest ← defaultAssignments overflowChecks members replicaCount (i + 1) n counter'
    return a :: rest

def generateDefaultAssignments : Except Failure (List ShardAssignment) := do
  let counter ← increment overflowChecks (m.shards.lastKey.getD 0)
  defaultAssignments overflowChecks m.members request.replicaCount 0 (count request.partitionCount) counter

/-! ## The rows of a collection -/

/-- The ids of one partition: those its assignment names, else the last id of the table, `replica_count` times. -/
def replicaShardIds (shards : ShardTable) (a : ShardAssignment) : List UInt64 :=
  if a.shardIds.isEmpty then List.replicate (count request.replicaCount) (shards.lastKey.getD 1) else a.shardIds

def shardMeta (partition : Nat) (a : ShardAssignment) (ids : List UInt64) (i : Nat) (id : UInt64) : ShardMetadata :=
  { id, collection := request.name, partitionId := .ofNat partition
    owner := a.replica[i % a.replica.length]?
    primary := a.primary, replica := ids, replicaOwner := a.replica, shardType := request.shardType
    options := request.options, invocations := request.invocations.getD .default }

def shardRows (partition : Nat) (a : ShardAssignment) (ids : List UInt64) : List (UInt64 × ShardMetadata) :=
  ids.zipIdx.map fun x => (x.1, shardMeta request partition a ids x.2 x.1)

def createPartition (partition : Nat) (a : ShardAssignment) (shards : ShardTable) :
    Except Failure (List UInt64 × ShardTable) :=
  let ids := replicaShardIds request shards a
  -- `i % replica_owner_ids.len()` for the first replica
  if !ids.isEmpty && a.replica.isEmpty then
    .error (.panicked "attempt to calculate the remainder with a divisor of zero")
  else .ok (ids, shards.insertMany (shardRows request partition a ids))

/-- The partitions `p, p + 1, …`, `n` of them: their groups, and the table after the last row written. -/
def createPartitions (request : CreateCollectionRequest) (assignments : List ShardAssignment) :
    Nat → Nat → ShardTable → Except Failure (List (List UInt64)) × ShardTable
  | _, 0, shards => (.ok [], shards)
  | p, n + 1, shards =>
    match assignments[p]? with
    | none => (.error (.invalidArgument "invalid: shard assignments not match partition count"), shards)
    | some a =>
      match createPartition request p a shards with
      | .error e => (.error e, shards)
      | .ok (ids, shards') =>
        match createPartitions request assignments (p + 1) n shards' with
        | (.error e, shards'') => (.error e, shards'')
        | (.ok groups, shards'') => (.ok (ids :: groups), shards'')

def updateLocalShards : OprcMetaManager :=
  let own := m.shards.toList.filter fun row => row.2.owner = some m.nodeId
  { m with localShards := m.localShards.insertMany (own.map fun row => (row.2.id, row.2)) }

/-- The assignments a call works from (mod.rs:75-79). -/
def assignmentsOf : Except Failure (List ShardAssignment) :=
  if request.shardAssignments.isEmpty then generateDefaultAssignments overflowChecks m request
  else .ok request.shardAssignments

def createCollection : Except Failure String × OprcMetaManager :=
  if (m.collections.get request.name).isSome then (.error (.invalidArgument "collection already exist"), m)
  -- `Vec::with_capacity(partition_count as usize)`
  else if request.partitionCount < 0 then (.error (.panicked "capacity overflow"), m)
  else
    match assignmentsOf overflowChecks m request with
    | .error e => (.error e, m)
    | .ok assignments =>
      match createPartitions request assignments 0 (count request.partitionCount) m.shards with
      | (.error e, shards) => (.error e, { m with shards })
      | (.ok groups, shards) =>
        let collection := { name := request.name, shards := groups, seed := 0, replication := 1 }
        (.ok request.name,
          updateLocalShards { m with shards, collections := m.collections.insert request.name collection })

/-- The collections of the environment, one after another; the first that fails stops the node (lib.rs:297-316). -/
def createAll (overflowChecks : Bool) : OprcMetaManager → List CreateCollectionRequest → OprcMetaManager
  | m, [] => m
  | m, request :: requests =>
    match createCollection overflowChecks m request with
    | (.error _, m') => m'
    | (.ok _, m') => createAll overflowChecks m' requests

/-! ## Numbering -/

theorem bind_ok {α β : Type} {x : Except Failure α} {f : α → Except Failure β} {b : β} (h : x >>= f = .ok b) :
    ∃ a, x = .ok a ∧ f a = .ok b := by
  cases x with
  | error e => cases h
  | ok a => exact ⟨a, rfl, h⟩

variable {checks : Bool} {y x : UInt64}

theorem increment_ok (h : increment checks x = .ok y) : y = x + 1 := by
  unfold increment at h
  split at h <;> cases h
  rfl

variable {n : Nat} {ids : List UInt64}

theorem takeIds_ok (h : takeIds checks n x = .ok (ids, y)) : ids = wordsFrom x n ∧ y = x + .ofNat n := by
  induction n generalizing x ids with
  | zero => cases h; simp [wordsFrom]
  | succ n ih =>
    obtain ⟨next, hnext, h⟩ := bind_ok h
    obtain ⟨⟨rest, y'⟩, hrest, h⟩ := bind_ok h
    cases h
    obtain rfl := increment_ok hnext
    obtain ⟨rfl, rfl⟩ := ih hrest
    refine ⟨(wordsFrom_succ x n).symm, ?_⟩
    rw [Nat.add_comm n 1, UInt64.ofNat_add, ← UInt64.add_assoc]
    rfl

variable {rc : Int32} {a : ShardAssignment} {members : List UInt64}

theorem defaultAssignment_ok {i : Nat} (h : defaultAssignment checks members rc i x = .ok (a, y)) :
    a.shardIds = wordsFrom x (count rc) ∧ y = x + .ofNat (count rc) ∧ count rc ≠ 0 := by
  unfold defaultAssignment at h
  split at h
  · cases h
  split at h
  · cases h
  obtain ⟨⟨ids, y'⟩, hids, h⟩ := bind_ok h
  obtain ⟨rfl, rfl⟩ := takeIds_ok hids
  cases hrc : count rc with
  | zero =>
    rw [hrc] at h
    cases h
  | succ n =>
    rw [hrc, wordsFrom_succ] at h
    cases h
    exact ⟨(wordsFrom_succ x n).symm, rfl, by omega⟩

variable {as : List ShardAssignment}

theorem defaultAssignments_ok {i : Nat} (h : defaultAssignments checks members rc i n x = .ok as) :
    as.map (·.shardIds) = wordBlocks (count rc) n x ∧ (n ≠ 0 → count rc ≠ 0) := by
  induction n generalizing i x as with
  | zero => cases h; exact ⟨rfl, fun h => absurd rfl h⟩
  | succ n ih =>
    obtain ⟨⟨a, y⟩, ha, h⟩ := bind_ok h
    obtain ⟨rest, hrest, h⟩ := bind_ok h
    cases h
    obtain ⟨hids, rfl, hrc⟩ := defaultAssignment_ok ha
    exact ⟨by rw [map_cons, hids, (ih hrest).1, wordBlocks], fun _ => hrc⟩

/-! ## What a successful call writes -/

variable {t' t : ShardTable} {request : CreateCollectionRequest} {p : Nat}

theorem createPartition_ok (h : createPartition request p a t = .ok (ids, t')) :
    ids = replicaShardIds request t a ∧ t' = t.insertMany (shardRows request p a ids) := by
  unfold createPartition at h
  simp only at h
  split at h <;> cases h
  exact ⟨rfl, rfl⟩

theorem keys_shardRows (request : CreateCollectionRequest) (p : Nat) (a : ShardAssignment) (ids : List UInt64) :
    (shardRows request p a ids).map Prod.fst = ids := by
  simp [shardRows, map_map, Function.comp_def]

variable {id : UInt64}

theorem mem_shardRows (h : id ∈ ids) : ∃ i, (id, shardMeta request p a ids i id) ∈ shardRows request p a ids := by
  obtain ⟨i, hi, rfl⟩ := mem_iff_getElem.1 h
  exact ⟨i, mem_map.2 ⟨(ids[i], i), mem_zipIdx_iff_getElem?.2 (getElem?_eq_getElem hi), rfl⟩⟩

variable {groups : List (List UInt64)}

theorem createPartitions_succ (h : createPartitions request as p (n + 1) t = (.ok groups, t')) :
    ∃ a rest, as[p]? = some a ∧ groups = replicaShardIds request t a :: rest ∧
      createPartitions request as (p + 1) n
        (t.insertMany (shardRows request p a (replicaShardIds request t a))) = (.ok rest, t') := by
  unfold createPartitions at h
  split at h
  · cases h
  · rename_i a ha
    split at h
    · cases h
    · rename_i ids t₁ hp
      obtain ⟨rfl, rfl⟩ := createPartition_ok hp
      split at h
      · cases h
      · rename_i rest t₂ hrest
        cases h
        exact ⟨a, rest, ha, rfl, hrest⟩

/-- The rows of a call: one per id of the groups, with the partition its group has. -/
structure RowsOf (request : CreateCollectionRequest) (p : Nat) (groups : List (List UInt64))
    (rows : List (UInt64 × ShardMetadata)) : Prop where
  keys : rows.map Prod.fst = groups.flatten
  keyed : ∀ row ∈ rows, row.2.id = row.1
  row : ∀ k ids, groups[k]? = some ids → ∀ id ∈ ids,
    ∃ s, (id, s) ∈ rows ∧ s.collection = request.name ∧ s.partitionId = .ofNat (p + k)

theorem RowsOf.cons {rows : List (UInt64 × ShardMetadata)} (h : RowsOf request (p + 1) groups rows) :
    RowsOf request p (ids :: groups) (shardRows request p a ids ++ rows) where
  keys := by rw [map_append, keys_shardRows, h.keys, flatten_cons]
  keyed := by
    intro row hrow
    rcases mem_append.1 hrow with hrow | hrow
    · obtain ⟨x, _, rfl⟩ := mem_map.1 hrow
      rfl
    · exact h.keyed row hrow
  row := by
    intro k ids' hk id hid
    cases k with
    | zero =>
      obtain rfl : ids = ids' := by simpa using hk
      obtain ⟨i, hi⟩ := mem_shardRows hid
      exact ⟨_, mem_append_left _ hi, rfl, rfl⟩
    | succ k =>
      obtain ⟨s, hs, hname, hpart⟩ := h.row k ids' (by simpa using hk) id hid
      exact ⟨s, mem_append_right _ hs, hname, by rw [hpart]; congr 1; omega⟩

theorem createPartitions_ok (h : createPartitions request as p n t = (.ok groups, t')) :
    ∃ rows, t' = t.insertMany rows ∧ RowsOf request p groups rows := by
  induction n generalizing p t groups with
  | zero =>
    cases h
    exact ⟨[], rfl, rfl, by simp, by simp⟩
  | succ n ih =>
    obtain ⟨a, rest, _, rfl, hrest⟩ := createPartitions_succ h
    obtain ⟨rows, rfl, hrows⟩ := ih hrest
    exact ⟨_, (insertMany_append _ _ _).symm, hrows.cons⟩

def Succeeds (overflowChecks : Bool) (m : OprcMetaManager) (request : CreateCollectionRequest) : Prop :=
  (createCollection overflowChecks m request).1 = .ok request.name

instance (overflowChecks : Bool) (m : OprcMetaManager) (request : CreateCollectionRequest) :
    Decidable (Succeeds overflowChecks m request) := inferInstanceAs (Decidable (_ = _))

def step (overflowChecks : Bool) (m : OprcMetaManager) (request : CreateCollectionRequest) : OprcMetaManager :=
  (createCollection overflowChecks m request).2

def record (m : OprcMetaManager) (name : String) (groups : List (List UInt64)) (rows : List (UInt64 × ShardMetadata)) :
    OprcMetaManager :=
  { m with shards := m.shards.insertMany rows, collections := m.collections.insert name ⟨name, groups, 0, 1⟩ }

variable {m : OprcMetaManager}

theorem step_of_succeeds (h : Succeeds checks m request) :
    m.collections.get request.name = none ∧ ∃ as groups rows,
      assignmentsOf checks m request = .ok as ∧
      createPartitions request as 0 (count request.partitionCount) m.shards = (.ok groups, m.shards.insertMany rows) ∧
      RowsOf request 0 groups rows ∧
      step checks m request = updateLocalShards (record m request.name groups rows) := by
  unfold Succeeds at h
  unfold step
  unfold createCollection at h ⊢
  split at h
  · cases h
  rename_i hname
  rw [if_neg hname]
  split at h
  · cases h
  rename_i hneg
  rw [if_neg hneg]
  refine ⟨by simpa using hname, ?_⟩
  cases has : assignmentsOf checks m request with
  | error e => rw [has] at h; cases h
  | ok as =>
    rw [has] at h
    simp only at h ⊢
    split at h
    · cases h
    · rename_i groups t ht
      obtain ⟨rows, rfl, hrows⟩ := createPartitions_ok ht
      exact ⟨as, groups, rows, rfl, ht, hrows, rfl⟩

/-! ## Ownership -/

def Recorded (m : OprcMetaManager) (name : String) (p : Nat) (id : UInt64) : Prop :=
  ∃ c ids, m.collections.get name = some c ∧ c.shards[p]? = some ids ∧ id ∈ ids

/-- **Every shard id belongs to one partition**, and the local shards are those of this node. -/
structure Owned (m : OprcMetaManager) : Prop where
  row : ∀ name p id, m.Recorded name p id →
    ∃ s, m.shards.get id = some s ∧ s.id = id ∧ s.collection = name ∧ s.partitionId.toNat = p
  once : ∀ name c, m.collections.get name = some c → ∀ ids ∈ c.shards, ids.Nodup
  unique : ∀ name p name' p' id, m.Recorded name p id → m.Recorded name' p' id → name = name' ∧ p = p'
  localShards : ∀ id s, m.localShards.get id = some s ↔ m.shards.get id = some s ∧ s.owner = some m.nodeId

/-- What the calls keep: ownership, and no row without a partition. -/
structure Ledger (m : OprcMetaManager) : Prop extends Owned m where
  recorded : ∀ id s, m.shards.get id = some s → ∃ name p, m.Recorded name p id

theorem ledger_new (nodeId : UInt64) (members : List UInt64) : (new nodeId members).Ledger where
  row := by rintro _ _ _ ⟨_, _, h, _⟩; cases h
  once := by intro _ _ h; cases h
  unique := by rintro _ _ _ _ _ ⟨_, _, h, _⟩; cases h
  localShards := by intro id s; simp [new]
  recorded := by intro id s h; cases h

variable {s : ShardMetadata}

theorem Ledger.keyed (h : m.Ledger) (hs : m.shards.get id = some s) : s.id = id := by
  obtain ⟨name, p, hrec⟩ := h.recorded id s hs
  obtain ⟨s', hs', hid, _⟩ := h.row name p id hrec
  rw [hs] at hs'
  cases hs'
  exact hid

theorem localShards_updateLocalShards (hkey : ∀ id s, m.shards.get id = some s → s.id = id) (id : UInt64)
    (s : ShardMetadata) :
    (updateLocalShards m).localShards.get id = some s ↔
      (m.shards.get id = some s ∧ s.owner = some m.nodeId) ∨
      (m.localShards.get id = some s ∧ ∀ s', m.shards.get id = some s' → s'.owner ≠ some m.nodeId) := by
  obtain ⟨own, hown⟩ : ∃ own, own = m.shards.toList.filter fun row => row.2.owner = some m.nodeId := ⟨_, rfl⟩
  have hmem : ∀ id s, (id, s) ∈ own ↔ m.shards.get id = some s ∧ s.owner = some m.nodeId := by
    intro id s
    rw [hown, mem_filter, ← get_eq_some]
    simp
  have hself : own.map (fun row => (row.2.id, row.2)) = own := by
    conv_rhs => rw [← map_id own]
    apply map_congr_left
    rintro ⟨k, r⟩ hr
    rw [hkey k r ((hmem k r).1 hr).1]
    rfl
  have hnd : (own.map Prod.fst).Nodup := by
    rw [hown]
    exact m.shards.nodup_keys.sublist (filter_sublist.map _)
  have hupd : (updateLocalShards m).localShards = m.localShards.insertMany own := by
    rw [updateLocalShards, ← hown, hself]
  rw [hupd]
  by_cases hin : ∃ s', (id, s') ∈ own
  · obtain ⟨s', hs'⟩ := hin
    obtain ⟨hget, howner⟩ := (hmem id s').1 hs'
    rw [get_insertMany_of_mem _ hnd hs', hget]
    constructor
    · rintro h; cases h; exact .inl ⟨rfl, howner⟩
    · rintro (⟨h, _⟩ | ⟨_, h⟩)
      · exact h
      · exact absurd howner (h s' rfl)
  · have hnot : id ∉ own.map Prod.fst := by
      rintro h
      obtain ⟨⟨k, r⟩, hr, rfl⟩ := mem_map.1 h
      exact hin ⟨r, hr⟩
    rw [get_insertMany_of_notMem _ hnot]
    constructor
    · intro h
      exact .inr ⟨h, fun s' hs' ho => hin ⟨s', (hmem id s').2 ⟨hs', ho⟩⟩⟩
    · rintro (h | ⟨h, _⟩)
      · exact absurd ⟨s, (hmem id s).2 h⟩ hin
      · exact h

/-- The ids of a new collection clash with nothing, and its partition numbers fit the row's 16 bits. -/
structure FreshGroups (t : ShardTable) (groups : List (List UInt64)) : Prop where
  distinct : groups.flatten.Nodup
  unused : ∀ id ∈ groups.flatten, t.get id = none
  narrow : ∀ p ids, groups[p]? = some ids → ids ≠ [] → p < 2 ^ 16

theorem recorded_record {name : String} {rows : List (UInt64 × ShardMetadata)} (hname : m.collections.get name = none)
    {n : String} :
    (updateLocalShards (record m name groups rows)).Recorded n p id ↔
      (n = name ∧ ∃ ids, groups[p]? = some ids ∧ id ∈ ids) ∨ m.Recorded n p id := by
  unfold Recorded
  simp only [updateLocalShards, record, get_insert]
  by_cases hn : name = n
  · subst hn
    simp [hname]
  · simp [hn, Ne.symm hn]

theorem mem_flatten_iff : id ∈ groups.flatten ↔ ∃ (p : Nat) (ids : List UInt64), groups[p]? = some ids ∧ id ∈ ids := by
  rw [mem_flatten]
  constructor
  · rintro ⟨ids, hids, hid⟩
    obtain ⟨p, hp⟩ := mem_iff_getElem?.1 hids
    exact ⟨p, ids, hp, hid⟩
  · rintro ⟨p, ids, hp, hid⟩
    exact ⟨ids, mem_of_getElem? hp, hid⟩

section Recorded

variable {m : OprcMetaManager} {request : CreateCollectionRequest} {groups : List (List UInt64)}
  {rows : List (UInt64 × ShardMetadata)}

/-- If every id still has its own row, the new ids were fresh: a row overwritten, an id taken twice or a partition
number cut to 16 bits would leave some id with another partition's row. -/
theorem freshGroups_of_owned (hm : m.Ledger) (hname : m.collections.get request.name = none)
    (h : (updateLocalShards (record m request.name groups rows)).Owned) : FreshGroups m.shards groups := by
  have hnew : ∀ {p ids id}, groups[p]? = some ids → id ∈ ids →
      (updateLocalShards (record m request.name groups rows)).Recorded request.name p id :=
    fun hp hid => (recorded_record hname).2 (.inl ⟨rfl, _, hp, hid⟩)
  refine ⟨nodup_flatten.2 ⟨?_, ?_⟩, ?_, ?_⟩
  · exact h.once request.name ⟨request.name, groups, 0, 1⟩ (get_insert_self _ _ _)
  · rw [pairwise_iff_getElem]
    intro i j hi hj hij id hidi hidj
    have hsame := (h.unique _ _ _ _ id (hnew (getElem?_eq_getElem hi) hidi)
      (hnew (getElem?_eq_getElem hj) hidj)).2
    omega
  · intro id hid
    obtain ⟨p, ids, hp, hid⟩ := mem_flatten_iff.1 hid
    cases hs : m.shards.get id with
    | none => rfl
    | some s =>
      obtain ⟨name', p', hrec⟩ := hm.recorded id s hs
      have hsame := (h.unique _ _ _ _ id (hnew hp hid) ((recorded_record hname).2 (.inr hrec))).1
      obtain ⟨c, _, hc, _⟩ := hrec
      rw [← hsame, hname] at hc
      cases hc
  · intro p ids hp hne
    obtain ⟨id, hid⟩ := exists_mem_of_ne_nil ids hne
    obtain ⟨s, _, _, _, hpart⟩ := h.row _ _ id (hnew hp hid)
    rw [← hpart]
    exact s.partitionId.toNat_lt

section
variable (hrows : RowsOf request 0 groups rows)
include hrows

variable (h : FreshGroups m.shards groups)
include h

theorem get_old_row (hs : m.shards.get id = some s) : (m.shards.insertMany rows).get id = some s := by
  rw [get_insertMany_of_notMem _ ?_, hs]
  rw [hrows.keys]
  intro hid
  rw [h.unused id hid] at hs
  cases hs

theorem get_new_row (hp : groups[p]? = some ids) (hid : id ∈ ids) : ∃ s, (m.shards.insertMany rows).get id = some s ∧
      s.id = id ∧ s.collection = request.name ∧ s.partitionId.toNat = p := by
  obtain ⟨s, hs, hcol, hpart⟩ := hrows.row p ids hp id hid
  have hlt := h.narrow p ids hp (ne_nil_of_mem hid)
  refine ⟨s, get_insertMany_of_mem _ (by rw [hrows.keys]; exact h.distinct) hs, hrows.keyed _ hs, hcol, ?_⟩
  rw [hpart, Nat.zero_add, UInt16.toNat_ofNat', Nat.mod_eq_of_lt hlt]

theorem get_row_cases (hs : (m.shards.insertMany rows).get id = some s) :
    m.shards.get id = some s ∨ (s.id = id ∧ id ∈ groups.flatten) := by
  by_cases hid : id ∈ groups.flatten
  · obtain ⟨p, ids, hp, hmem⟩ := mem_flatten_iff.1 hid
    obtain ⟨s', hs', hkey, _⟩ := get_new_row hrows h hp hmem
    rw [hs] at hs'
    cases hs'
    exact .inr ⟨hkey, hid⟩
  · rw [get_insertMany_of_notMem _ (by rwa [hrows.keys])] at hs
    exact .inl hs

end

theorem ledger_record (hm : m.Ledger) (hname : m.collections.get request.name = none) (hrows : RowsOf request 0 groups rows)
    (h : FreshGroups m.shards groups) : (updateLocalShards (record m request.name groups rows)).Ledger := by
  have hrow : ∀ name p id, (updateLocalShards (record m request.name groups rows)).Recorded name p id →
      ∃ s, (m.shards.insertMany rows).get id = some s ∧ s.id = id ∧ s.collection = name ∧ s.partitionId.toNat = p := by
    intro name p id hrec
    rcases (recorded_record hname).1 hrec with ⟨rfl, ids, hp, hid⟩ | hrec
    · exact get_new_row hrows h hp hid
    · obtain ⟨s, hs, hrest⟩ := hm.row name p id hrec
      exact ⟨s, get_old_row hrows h hs, hrest⟩
  refine ⟨⟨hrow, ?_, ?_, ?_⟩, ?_⟩
  · intro name c hc ids hids
    simp only [updateLocalShards, record, get_insert] at hc
    split at hc
    · cases hc
      exact (nodup_flatten.1 h.distinct).1 ids hids
    · exact hm.once name c hc ids hids
  · -- a row names its collection and partition, so an id with one row has one of each
    intro name p name' p' id hrec hrec'
    obtain ⟨s, hs, _, hcol, hpart⟩ := hrow name p id hrec
    obtain ⟨s', hs', _, hcol', hpart'⟩ := hrow name' p' id hrec'
    rw [hs] at hs'
    cases hs'
    exact ⟨hcol.symm.trans hcol', hpart.symm.trans hpart'⟩
  · intro id s
    have hkey : ∀ id s, (record m request.name groups rows).shards.get id = some s → s.id = id := by
      intro id s hs
      rcases get_row_cases hrows h hs with hs | hs
      · exact hm.keyed hs
      · exact hs.1
    refine (localShards_updateLocalShards hkey id s).trans ⟨?_, .inl⟩
    rintro (hown | ⟨hloc, hnot⟩)
    · exact hown
    · obtain ⟨hs, howner⟩ := (hm.localShards id s).1 hloc
      exact absurd howner (hnot s (get_old_row hrows h hs))
  · intro id s hs
    rcases get_row_cases hrows h hs with hs | ⟨_, hid⟩
    · obtain ⟨name, p, hrec⟩ := hm.recorded id s hs
      exact ⟨name, p, (recorded_record hname).2 (.inr hrec)⟩
    · obtain ⟨p, ids, hp, hmem⟩ := mem_flatten_iff.1 hid
      exact ⟨request.name, p, (recorded_record hname).2 (.inl ⟨rfl, ids, hp, hmem⟩)⟩

end Recorded

/-! ## Which requests name fresh ids -/

/-- The ids that assignments name, per partition. Only while the table is still empty may a collection of single
replicas leave out the ids of its first partition: the one id it then takes is 1. -/
def namedIds (t : ShardTable) (replicaCount : Int32) : List ShardAssignment → List (List UInt64)
  | [] => []
  | a :: as =>
    (if a.shardIds = [] ∧ count replicaCount = 1 ∧ t = .empty then [1] else a.shardIds) :: as.map (·.shardIds)

/-- **A request takes ids of its own.** With the default numbering: the row's 16 bits hold every partition, and the
numbers after the last id do not wrap around onto ids in use. With assignments: each names its ids, and they are
fresh. -/
def FreshIds (m : OprcMetaManager) (request : CreateCollectionRequest) : Prop :=
  if request.shardAssignments = [] then
    count request.partitionCount ≤ 2 ^ 16 ∧
      ∀ id ∈ wordsFrom (m.shards.lastKey.getD 0 + 1) (count request.partitionCount * count request.replicaCount),
        m.shards.get id = none
  else
    let ids := namedIds m.shards request.replicaCount (request.shardAssignments.take (count request.partitionCount))
    (count request.replicaCount ≠ 0 → ∀ g ∈ ids, g ≠ []) ∧ FreshGroups m.shards ids

theorem namedIds_eq_map (h : count rc ≠ 1 ∨ t ≠ .empty ∨ ∀ a ∈ as, a.shardIds ≠ []) :
    namedIds t rc as = as.map (·.shardIds) := by
  cases as with
  | nil => rfl
  | cons a as =>
    rw [namedIds, if_neg, map_cons]
    rintro ⟨ha, hrc, ht⟩
    rcases h with h | h | h
    · exact h hrc
    · exact h ht
    · exact h a mem_cons_self ha

section Named

variable {request : CreateCollectionRequest}

theorem namedIds_next (t : ShardTable) (p : Nat) (a : ShardAssignment) (as : List ShardAssignment) :
    namedIds (t.insertMany (shardRows request p a (replicaShardIds request t a))) request.replicaCount as =
      as.map (·.shardIds) := by
  apply namedIds_eq_map
  by_cases hrc : count request.replicaCount = 1
  · refine .inr (.inl (insertMany_ne_empty fun hnil => ?_))
    have hids := keys_shardRows request p a (replicaShardIds request t a)
    rw [hnil, map_nil, eq_comm] at hids
    unfold replicaShardIds at hids
    split at hids
    · rw [hrc] at hids
      cases hids
    · rename_i hne
      exact hne (by rw [hids]; rfl)
  · exact .inl hrc

theorem take_drop_of_getElem? (h : as[p]? = some a) : (as.drop p).take (n + 1) = a :: (as.drop (p + 1)).take n := by
  obtain ⟨hp, rfl⟩ := List.getElem?_eq_some_iff.1 h
  rw [List.drop_eq_getElem_cons hp, List.take_succ_cons]

variable (h : createPartitions request as p n t = (.ok groups, t'))
include h

theorem groups_eq_namedIds
    (hnamed : count request.replicaCount ≠ 0 → ∀ g ∈ namedIds t request.replicaCount ((as.drop p).take n), g ≠ []) :
    groups = namedIds t request.replicaCount ((as.drop p).take n) := by
  induction n generalizing p t groups with
  | zero => cases h; rfl
  | succ n ih =>
    obtain ⟨a, rest, ha, rfl, hrest⟩ := createPartitions_succ h
    rw [take_drop_of_getElem? ha] at hnamed ⊢
    have htail := ih hrest fun hrc g hg => hnamed hrc g (mem_cons_of_mem _ (by rwa [namedIds_next] at hg))
    rw [htail, namedIds_next, namedIds, cons.injEq]
    refine ⟨?_, rfl⟩
    by_cases hids : a.shardIds = []
    · rw [replicaShardIds, hids, isEmpty_nil, if_pos rfl]
      split
      · rename_i hfirst
        rw [hfirst.2.1, lastKey_eq_none.2 hfirst.2.2]
        rfl
      · rename_i hfirst
        have hrc : count request.replicaCount = 0 := by
          by_contra hrc
          refine hnamed hrc _ mem_cons_self ?_
          rw [if_neg (fun h => hfirst ⟨rfl, h.2⟩), hids]
        rw [hrc]
        rfl
    · rw [replicaShardIds, if_neg (by simpa using hids), if_neg (fun h => hids h.1)]

theorem named_of_fresh (hnd : groups.flatten.Nodup)
    (hun : ∀ id ∈ groups.flatten, t.get id = none) (hrc : count request.replicaCount ≠ 0) :
    ∀ g ∈ namedIds t request.replicaCount ((as.drop p).take n), g ≠ [] := by
  induction n generalizing p t groups with
  | zero => intro g hg; cases hg
  | succ n ih =>
    obtain ⟨a, rest, ha, rfl, hrest⟩ := createPartitions_succ h
    rw [take_drop_of_getElem? ha]
    rw [flatten_cons] at hnd hun
    obtain ⟨hhead, htail, hdisj⟩ := nodup_append'.1 hnd
    rintro g hg
    rcases mem_cons.1 hg with rfl | hg
    · by_cases hids : a.shardIds = []
      · have hrep : replicaShardIds request t a = replicate (count request.replicaCount) (t.lastKey.getD 1) := by
          rw [replicaShardIds, hids, isEmpty_nil, if_pos rfl]
        have hone : count request.replicaCount = 1 := by
          have := nodup_replicate.1 (hrep ▸ hhead)
          omega
        have hlast : t.get (t.lastKey.getD 1) = none := by
          refine hun _ (mem_append_left _ ?_)
          rw [hrep, hone]
          exact mem_cons_self
        have hempty : t.lastKey = none := by
          cases hk : t.lastKey with
          | none => rfl
          | some k =>
            rw [hk] at hlast
            exact absurd hlast (get_of_lastKey hk)
        rw [if_pos ⟨hids, hone, lastKey_eq_none.1 hempty⟩]
        simp
      · rw [if_neg (fun h => hids h.1)]
        exact hids
    · refine ih hrest htail (fun id hid => ?_) g (by rwa [namedIds_next])
      rw [get_insertMany_of_notMem, hun id (mem_append_right _ hid)]
      rw [keys_shardRows]
      exact fun hmem => hdisj hmem hid

end Named

theorem generateDefaultAssignments_ok (h : generateDefaultAssignments checks m request = .ok as) :
    as.map (·.shardIds) =
        wordBlocks (count request.replicaCount) (count request.partitionCount) (m.shards.lastKey.getD 0 + 1) ∧
      (count request.partitionCount ≠ 0 → count request.replicaCount ≠ 0) := by
  obtain ⟨counter, hcounter, h⟩ := bind_ok h
  obtain rfl := increment_ok hcounter
  exact defaultAssignments_ok h

theorem count_lt (n : Int32) : count n < 2 ^ 31 := by
  have := n.toInt_lt
  unfold count Int32.toNatClampNeg
  omega

theorem groups_of_default (has : generateDefaultAssignments checks m request = .ok as)
    (h : createPartitions request as 0 (count request.partitionCount) m.shards = (.ok groups, t')) :
    groups = wordBlocks (count request.replicaCount) (count request.partitionCount) (m.shards.lastKey.getD 0 + 1) ∧
      (count request.partitionCount ≠ 0 → count request.replicaCount ≠ 0) := by
  obtain ⟨hids, hrc⟩ := generateDefaultAssignments_ok has
  refine ⟨?_, hrc⟩
  have hlen : as.length = count request.partitionCount := by
    rw [← length_wordBlocks (count request.replicaCount) (count request.partitionCount), ← hids, length_map]
  have htake : (as.drop 0).take (count request.partitionCount) = as := by rw [drop_zero, ← hlen, take_length]
  have hne : ∀ a ∈ as, a.shardIds ≠ [] := by
    intro a ha
    have hpc : count request.partitionCount ≠ 0 := by
      rw [← hlen]
      exact fun h0 => ne_nil_of_mem ha (length_eq_zero_iff.1 h0)
    have hmem : a.shardIds ∈ as.map (·.shardIds) := mem_map_of_mem ha
    rw [hids] at hmem
    exact ne_nil_of_mem_wordBlocks (hrc hpc) hmem
  have hnamed : namedIds m.shards request.replicaCount as = as.map (·.shardIds) := namedIds_eq_map (.inr (.inr hne))
  rw [groups_eq_namedIds h, htake, hnamed, hids]
  intro _ g hg
  rw [htake, hnamed] at hg
  obtain ⟨a, ha, rfl⟩ := mem_map.1 hg
  exact hne a ha

theorem freshGroups_wordBlocks {r : Nat} (hr : n ≠ 0 → r ≠ 0) (hle : n * r ≤ 2 ^ 64) :
    FreshGroups t (wordBlocks r n x) ↔ n ≤ 2 ^ 16 ∧ ∀ id ∈ wordsFrom x (n * r), t.get id = none := by
  constructor
  · intro hf
    refine ⟨?_, fun id hid => hf.unused id (by rwa [flatten_wordBlocks])⟩
    -- the last partition has ids, so its number is below 2 ^ 16
    by_contra hpc
    have hlast : 2 ^ 16 < (wordBlocks r n x).length := by
      rw [length_wordBlocks]
      omega
    have hget := List.getElem?_eq_getElem hlast
    have hne := ne_nil_of_mem_wordBlocks (hr (by omega)) (List.mem_of_getElem? hget)
    exact absurd (hf.narrow _ _ hget hne) (lt_irrefl _)
  · rintro ⟨hpc, hun⟩
    refine ⟨?_, fun id hid => hun id (by rwa [flatten_wordBlocks] at hid), ?_⟩
    · rw [flatten_wordBlocks]
      exact nodup_wordsFrom hle
    · intro p ids hp _
      obtain ⟨hlt, _⟩ := List.getElem?_eq_some_iff.1 hp
      rw [length_wordBlocks] at hlt
      omega

theorem freshGroups_iff (has : assignmentsOf checks m request = .ok as)
    (h : createPartitions request as 0 (count request.partitionCount) m.shards = (.ok groups, t')) :
    FreshGroups m.shards groups ↔ FreshIds m request := by
  unfold assignmentsOf at has
  unfold FreshIds
  split at has
  · rename_i hnil
    rw [if_pos (isEmpty_iff.1 hnil)]
    obtain ⟨rfl, hrc⟩ := groups_of_default has h
    have hle := Nat.mul_le_mul (count_lt request.partitionCount).le (count_lt request.replicaCount).le
    exact freshGroups_wordBlocks hrc (by omega)
  · rename_i hnil
    cases has
    rw [if_neg (fun h => hnil (isEmpty_iff.2 h))]
    constructor
    · intro hf
      have hnamed := named_of_fresh h hf.distinct hf.unused
      rw [groups_eq_namedIds h hnamed] at hf
      exact ⟨hnamed, hf⟩
    · rintro ⟨hnamed, hf⟩
      rw [groups_eq_namedIds h hnamed]
      exact hf

/-! ## Sequences of calls -/

theorem owned_iff (hm : m.Ledger) (hok : Succeeds checks m request) :
    ((step checks m request).Owned ↔ m.FreshIds request) ∧ (m.FreshIds request → (step checks m request).Ledger) := by
  obtain ⟨hname, as, groups, rows, has, hparts, hrows, hstep⟩ := step_of_succeeds hok
  have hiff := freshGroups_iff has hparts
  rw [hstep, ← hiff]
  exact ⟨⟨freshGroups_of_owned hm hname, fun hf => (ledger_record hm hname hrows hf).toOwned⟩,
    fun hf => ledger_record hm hname hrows hf⟩

/-- **Shard ids keep their partition** along a run of successful calls if every request takes ids of its own. -/
theorem ids_keep_their_partition_iff (checks : Bool) (nodeId : UInt64) (members : List UInt64)
    (requests : List CreateCollectionRequest)
    (hok : AlongRun (step checks) (Succeeds checks) (new nodeId members) requests) :
    AlongRun (step checks) (fun m request => (step checks m request).Owned) (new nodeId members) requests ↔
      AlongRun (step checks) FreshIds (new nodeId members) requests :=
  alongRun_iff Ledger (fun _ _ hm hok => owned_iff hm hok) (ledger_new nodeId members) hok

/-! ## Calls with a complete plan, and calls that get no shards -/

theorem createAll_singleton (checks : Bool) (m : OprcMetaManager) (request : CreateCollectionRequest) :
    createAll checks m [request] = step checks m request := by
  unfold createAll step
  split <;> simp_all [createAll]

theorem createPartitions_isOk (h : ∀ k < n, ∃ a, as[p + k]? = some a ∧ a.replica ≠ []) :
    ∃ groups t', createPartitions request as p n t = (.ok groups, t') := by
  induction n generalizing p t with
  | zero => exact ⟨[], t, rfl⟩
  | succ n ih =>
    obtain ⟨a, ha, hreplica⟩ := h 0 (by omega)
    have hnext : ∀ k < n, ∃ a, as[p + 1 + k]? = some a ∧ a.replica ≠ [] := by
      intro k hk
      rw [Nat.add_assoc, Nat.add_comm 1 k]
      exact h (k + 1) (by omega)
    obtain ⟨groups, t', hrest⟩ := ih (t := t.insertMany (shardRows request p a (replicaShardIds request t a))) hnext
    refine ⟨replicaShardIds request t a :: groups, t', ?_⟩
    rw [Nat.add_zero] at ha
    simp [createPartitions, ha, createPartition, hreplica, hrest]

theorem succeeds_of_plan (hname : m.collections.get request.name = none) (hpos : 0 < request.partitionCount)
    (hlen : request.shardAssignments.length = count request.partitionCount)
    (hreplica : ∀ a ∈ request.shardAssignments, a.replica ≠ []) : Succeeds checks m request := by
  have hcount : 0 < count request.partitionCount := by
    have := Int32.lt_iff_toInt_lt.1 hpos
    simp only [count, Int32.toNatClampNeg, Int32.toInt_zero] at this ⊢
    omega
  have hne : request.shardAssignments.isEmpty = false := by
    cases has : request.shardAssignments with
    | nil => simp [has] at hlen; omega
    | cons a as => rfl
  have hplan : ∀ k < count request.partitionCount, ∃ a, request.shardAssignments[0 + k]? = some a ∧ a.replica ≠ [] := by
    intro k hk
    have hk' : 0 + k < request.shardAssignments.length := by omega
    exact ⟨_, getElem?_eq_getElem hk', hreplica _ (getElem_mem _)⟩
  obtain ⟨groups, t', hparts⟩ : ∃ groups t',
      createPartitions request request.shardAssignments 0 (count request.partitionCount) m.shards = (.ok groups, t') :=
    createPartitions_isOk hplan
  simp [Succeeds, createCollection, hname, Int32.not_lt.2 (Int32.le_of_lt hpos), assignmentsOf, hne, hparts]

theorem freshIds_of_plan (hne : request.shardAssignments ≠ [])
    (hlen : request.shardAssignments.length = count request.partitionCount)
    (hids : ∀ a ∈ request.shardAssignments, a.shardIds ≠ [])
    (hfresh : FreshGroups m.shards (request.shardAssignments.map (·.shardIds))) : m.FreshIds request := by
  unfold FreshIds
  rw [if_neg hne, ← hlen, take_length, namedIds_eq_map (.inr (.inr hids))]
  refine ⟨fun _ g hg => ?_, hfresh⟩
  obtain ⟨a, ha, rfl⟩ := mem_map.1 hg
  exact hids a ha

theorem recorded_of_plan (hok : Succeeds checks m request) (hfresh : m.FreshIds request)
    (hlen : request.shardAssignments.length = count request.partitionCount) (hne : request.shardAssignments ≠ [])
    (hids : ∀ a ∈ request.shardAssignments, a.shardIds ≠ []) (ha : request.shardAssignments[p]? = some a)
    (hid : id ∈ a.shardIds) : (step checks m request).Recorded request.name p id := by
  obtain ⟨hname, as, groups, rows, has, hparts, _, hstep⟩ := step_of_succeeds hok
  have hempty : request.shardAssignments.isEmpty = false := by simpa using hne
  obtain rfl : request.shardAssignments = as := by simpa [assignmentsOf, hempty] using has
  unfold FreshIds at hfresh
  rw [if_neg hne, ← hlen, take_length] at hfresh
  have hgroups := groups_eq_namedIds hparts (by simpa [← hlen] using hfresh.1)
  rw [← hlen, drop_zero, take_length, namedIds_eq_map (.inr (.inr hids))] at hgroups
  rw [hstep, recorded_record hname]
  exact .inl ⟨rfl, a.shardIds, by simp [hgroups, ha], hid⟩

/-- Without a plan and with a count that is not positive, a new manager gets no shards: the call panics, or there is
no partition. -/
theorem shards_of_counts {nodeId : UInt64} (hplan : request.shardAssignments = [])
    (hcounts : request.partitionCount ≤ 0 ∨ request.replicaCount ≤ 0) :
    (step checks (new nodeId members) request).shards = .empty := by
  unfold step createCollection
  split
  · rfl
  split
  · rfl
  cases has : assignmentsOf checks (new nodeId members) request with
  | error e => rfl
  | ok as =>
    -- the default numbering has partitions only where it has replicas
    have hdefault : generateDefaultAssignments checks (new nodeId members) request = .ok as := by
      simpa [assignmentsOf, hplan] using has
    have hpc : count request.partitionCount = 0 := by
      by_contra hpc
      have hrc := (generateDefaultAssignments_ok hdefault).2 hpc
      rcases hcounts with h | h <;>
        simp only [count, Int32.toNatClampNeg, Int32.le_iff_toInt_le, Int32.toInt_zero] at h hpc hrc <;> omega
    simp [hpc, createPartitions, updateLocalShards, new]

namespace TwoCollections

def plain (name : String) (partitions replicas : Int32) : CreateCollectionRequest :=
  ⟨name, partitions, replicas, [], "mst", .empty, none⟩

def openIds (name : String) : CreateCollectionRequest := { plain name 1 1 with shardAssignments := [⟨none, [1], []⟩] }

theorem free_of_all (h : (ids.all fun id => (t.get id).isNone) = true) : ∀ id ∈ ids, t.get id = none :=
  fun id hid => Option.isNone_iff_eq_none.1 (all_eq_true.1 h id hid)

theorem ids_keep_their_partition_plain :
    AlongRun (step true) (Succeeds true) (new 1 [1, 2]) [plain "a" 2 1, plain "b" 1 2] ∧
      AlongRun (step true) (fun m request => (step true m request).Owned) (new 1 [1, 2]) [plain "a" 2 1, plain "b" 1 2] := by
  have hok : AlongRun (step true) (Succeeds true) (new 1 [1, 2]) [plain "a" 2 1, plain "b" 1 2] :=
    ⟨by decide +kernel, by decide +kernel, trivial⟩
  have hfresh : AlongRun (step true) FreshIds (new 1 [1, 2]) [plain "a" 2 1, plain "b" 1 2] := by
    refine ⟨?_, ?_, trivial⟩
    · rw [FreshIds, if_pos (by rfl)]
      exact ⟨by decide +kernel, free_of_all (by decide +kernel)⟩
    · rw [FreshIds, if_pos (by rfl)]
      exact ⟨by decide +kernel, free_of_all (by decide +kernel)⟩
  exact ⟨hok, (ids_keep_their_partition_iff true 1 [1, 2] _ hok).2 hfresh⟩

def after : OprcMetaManager := step true (step true (new 1 [1]) (plain "a" 1 1)) (openIds "b")

/-- The second collection takes shard 1, the last id of the table, from the first. -/
theorem openIds_overwrites :
    AlongRun (step true) (Succeeds true) (new 1 [1]) [plain "a" 1 1, openIds "b"] ∧
      after.Recorded "a" 0 1 ∧ (after.shards.get 1).map (·.collection) = some "b" ∧ ¬ after.Owned := by
  have hrec : after.Recorded "a" 0 1 :=
    ⟨⟨"a", [[1]], 0, 1⟩, [1], by decide +kernel, by decide +kernel, by decide +kernel⟩
  have hrow : (after.shards.get 1).map (·.collection) = some "b" := by decide +kernel
  refine ⟨⟨by decide +kernel, by decide +kernel, trivial⟩, hrec, hrow, fun h => ?_⟩
  obtain ⟨s, hs, _, hcol, _⟩ := h.row "a" 0 1 hrec
  rw [hs, Option.map_some, hcol, Option.some.injEq] at hrow
  exact absurd hrow (by decide)

end TwoCollections

end OprcMetaManager
end Odgm
