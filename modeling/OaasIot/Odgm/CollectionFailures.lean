import OaasIot.Odgm.Placement

/-!
# How `create_collection` fails (`odgm/src/metadata/mod.rs:59-141`)

A call answers an error for a name that is taken, before anything is written, and for a partition without an assignment,
from inside the loop that writes the rows. It panics for negative counts, an empty list of owners, and in the default
numbering.
-/

open Grpc

namespace Odgm.OprcMetaManager

open List

/-! ## The loop over the partitions -/

def Assignable (request : CreateCollectionRequest) (a : ShardAssignment) : Prop :=
  a.replica ≠ [] ∨ a.shardIds = [] ∧ count request.replicaCount = 0

instance (request : CreateCollectionRequest) (a : ShardAssignment) : Decidable (Assignable request a) :=
  inferInstanceAs (Decidable (_ ∨ _))

def partitionRows (request : CreateCollectionRequest) :
    Nat → List ShardAssignment → ShardTable → List (UInt64 × ShardMetadata)
  | _, [], _ => []
  | p, a :: as, t =>
    let rows := shardRows request p a (replicaShardIds request t a)
    rows ++ partitionRows request (p + 1) as (t.insertMany rows)

section
variable {request : CreateCollectionRequest} {as : List ShardAssignment} {p n : Nat} {t : ShardTable}

theorem replicaShardIds_eq_nil_iff {a : ShardAssignment} :
    replicaShardIds request t a = [] ↔ a.shardIds = [] ∧ count request.replicaCount = 0 := by
  unfold replicaShardIds
  split
  · rename_i hids
    simp [isEmpty_iff.1 hids]
  · rename_i hids
    have hne : a.shardIds ≠ [] := by simpa using hids
    simp [hne]

theorem createPartition_eq (a : ShardAssignment) :
    createPartition request p a t =
      if Assignable request a then
        .ok (replicaShardIds request t a, t.insertMany (shardRows request p a (replicaShardIds request t a)))
      else .error (.panicked "attempt to calculate the remainder with a divisor of zero") := by
  have hiff : (!(replicaShardIds request t a).isEmpty && a.replica.isEmpty) = true ↔ ¬ Assignable request a := by
    rw [Assignable, ← replicaShardIds_eq_nil_iff (t := t)]
    simp [and_comm]
  unfold createPartition
  by_cases h : Assignable request a
  · rw [if_pos h]
    exact if_neg fun hbad => hiff.1 hbad h
  · rw [if_neg h]
    exact if_pos (hiff.2 h)

theorem createPartitions_complete (hgood : ∀ a ∈ (as.drop p).take n, Assignable request a) (hlen : p + n ≤ as.length) :
    ∃ groups t', createPartitions request as p n t = (.ok groups, t') := by
  induction n generalizing p t with
  | zero => exact ⟨[], t, rfl⟩
  | succ n ih =>
    have hp := getElem?_eq_getElem (l := as) (i := p) (by omega)
    rw [take_drop_of_getElem? hp] at hgood
    have hrest := ih (fun a ha => hgood a (mem_cons_of_mem _ ha)) (by omega)
      (t := t.insertMany (shardRows request p as[p] (replicaShardIds request t as[p])))
    obtain ⟨groups, t', hrest⟩ := hrest
    refine ⟨replicaShardIds request t as[p] :: groups, t', ?_⟩
    rw [createPartitions, hp]
    simp only [createPartition_eq, if_pos (hgood _ mem_cons_self), hrest]

theorem createPartitions_missing (hgood : ∀ a ∈ as.drop p, Assignable request a) (hp : p ≤ as.length)
    (hshort : as.length < p + n) :
    createPartitions request as p n t =
      (.error (.invalidArgument "invalid: shard assignments not match partition count"),
        t.insertMany (partitionRows request p (as.drop p) t)) := by
  induction n generalizing p t with
  | zero => omega
  | succ n ih =>
    rw [createPartitions]
    by_cases hend : p = as.length
    · rw [getElem?_eq_none (by omega), drop_eq_nil_of_le (by omega)]
      rfl
    · have hget := getElem?_eq_getElem (l := as) (i := p) (by omega)
      have hdrop : as.drop p = as[p] :: as.drop (p + 1) := drop_eq_getElem_cons (by omega)
      rw [hdrop] at hgood ⊢
      rw [hget]
      simp only [createPartition_eq, if_pos (hgood _ mem_cons_self),
        ih (fun a ha => hgood a (mem_cons_of_mem _ ha)) (by omega) (by omega), partitionRows,
        OrdMap.insertMany_append]

theorem createPartitions_panics (hbad : ∃ a ∈ (as.drop p).take n, ¬ Assignable request a) :
    ∃ msg t', createPartitions request as p n t = (.error (.panicked msg), t') := by
  induction n generalizing p t with
  | zero => simp at hbad
  | succ n ih =>
    cases hp : as[p]? with
    | none =>
      rw [getElem?_eq_none_iff] at hp
      rw [drop_eq_nil_of_le hp] at hbad
      simp at hbad
    | some a =>
      rw [createPartitions, hp]
      simp only [createPartition_eq]
      by_cases ha : Assignable request a
      · rw [take_drop_of_getElem? hp] at hbad
        obtain ⟨b, hb, hnot⟩ := hbad
        have htail : b ∈ (as.drop (p + 1)).take n := by
          rcases mem_cons.1 hb with rfl | hb
          · exact absurd ha hnot
          · exact hb
        obtain ⟨msg, t', hrest⟩ := ih ⟨b, htail, hnot⟩
          (t := t.insertMany (shardRows request p a (replicaShardIds request t a)))
        exact ⟨msg, t', by simp only [if_pos ha, hrest]⟩
      · exact ⟨_, _, by rw [if_neg ha]⟩

end

section
variable {checks : Bool} {m : OprcMetaManager} {request : CreateCollectionRequest}

/-! ## The whole call -/

section
variable (hname : m.collections.get request.name = none)
include hname

variable (hcount : 0 ≤ request.partitionCount)
include hcount

variable {as : List ShardAssignment} (has : assignmentsOf checks m request = .ok as)
include has

theorem createCollection_eq {e : Failure} {t : ShardTable}
    (hloop : createPartitions request as 0 (count request.partitionCount) m.shards = (.error e, t)) :
    createCollection checks m request = (.error e, { m with shards := t }) := by
  simp [createCollection, hname, Int32.not_lt.2 hcount, has, hloop]

theorem createCollection_fst {groups : List (List UInt64)} {t : ShardTable}
    (hloop : createPartitions request as 0 (count request.partitionCount) m.shards = (.ok groups, t)) :
    (createCollection checks m request).1 = .ok request.name := by
  simp [createCollection, hname, Int32.not_lt.2 hcount, has, hloop]

omit has in
theorem createCollection_of_assignments_error {e : Failure} (has : assignmentsOf checks m request = .error e) :
    createCollection checks m request = (.error e, m) := by
  simp [createCollection, hname, Int32.not_lt.2 hcount, has]

end

theorem assignmentsOf_default (h : request.shardAssignments = []) :
    assignmentsOf checks m request = generateDefaultAssignments checks m request := by
  rw [assignmentsOf, h, isEmpty_nil, if_pos rfl]

theorem assignmentsOf_explicit (h : request.shardAssignments ≠ []) :
    assignmentsOf checks m request = .ok request.shardAssignments := by
  rw [assignmentsOf, if_neg (by simpa using h)]

theorem createCollection_default (checks : Bool) (hname : m.collections.get request.name = none)
    (hcount : 0 ≤ request.partitionCount) (hnone : request.shardAssignments = []) :
    (Fits checks m.lastId (numbers request) ∧ m.Placeable request ∧
        (createCollection checks m request).1 = .ok request.name) ∨
      ¬ (Fits checks m.lastId (numbers request) ∧ m.Placeable request) ∧
        ∃ msg, (createCollection checks m request).1 = .error (.panicked msg) := by
  have has : assignmentsOf checks m request = generateDefaultAssignments checks m request := assignmentsOf_default hnone
  by_cases hplace : m.Placeable request
  · rw [generateDefaultAssignments_eq hplace] at has
    by_cases hfit : Fits checks m.lastId (numbers request)
    · rw [if_pos hfit] at has
      refine .inl ⟨hfit, hplace, ?_⟩
      have hgood : ∀ a ∈ placed m.members (count request.replicaCount) 0 (count request.partitionCount) (m.lastId + 1),
          Assignable request a := by
        intro a ha
        obtain ⟨k, hk, rfl⟩ := mem_placed.1 ha
        obtain ⟨hrc, hmembers⟩ := hplace (by omega)
        refine .inl (length_pos_iff.1 ?_)
        rw [placedAt, length_ringFrom (length_pos_iff.2 hmembers)]
        exact hrc
      obtain ⟨groups, t, hloop⟩ : ∃ groups t, createPartitions request
          (placed m.members (count request.replicaCount) 0 (count request.partitionCount) (m.lastId + 1)) 0
          (count request.partitionCount) m.shards = (.ok groups, t) :=
        createPartitions_complete (fun a ha => hgood a (mem_of_mem_take ha)) (by rw [length_placed]; omega)
      exact createCollection_fst hname hcount has hloop
    · rw [if_neg hfit] at has
      refine .inr ⟨fun h => hfit h.1, ?_⟩
      rw [createCollection_of_assignments_error hname hcount has]
      exact ⟨_, rfl⟩
  · refine .inr ⟨fun h => hplace h.2, ?_⟩
    obtain ⟨msg, hmsg⟩ : ∃ msg, generateDefaultAssignments checks m request = .error (.panicked msg) :=
      generateDefaultAssignments_panics hplace
    rw [hmsg] at has
    rw [createCollection_of_assignments_error hname hcount has]
    exact ⟨msg, rfl⟩

/-! ## What an error leaves behind -/

/-- A request for a new collection with fewer assignments than partitions. -/
structure RunsOut (m : OprcMetaManager) (request : CreateCollectionRequest) : Prop where
  name : m.collections.get request.name = none
  some : request.shardAssignments ≠ []
  few : request.shardAssignments.length < count request.partitionCount
  assignable : ∀ a ∈ request.shardAssignments, Assignable request a

/-- The rows of its assignments are in the table already, for an id with several of them the last one. -/
def RowsInPlace (m : OprcMetaManager) (request : CreateCollectionRequest) : Prop :=
  ∀ id row, OrdMap.getList id (partitionRows request 0 request.shardAssignments m.shards).reverse = some row →
    m.shards.get id = some row

theorem RunsOut.createCollection (h : RunsOut m request) :
    createCollection checks m request =
      (.error (.invalidArgument "invalid: shard assignments not match partition count"),
        { m with shards := m.shards.insertMany (partitionRows request 0 request.shardAssignments m.shards) }) := by
  have hcount : 0 ≤ request.partitionCount :=
    Int32.le_of_lt (count_pos_iff.1 (lt_of_le_of_lt (Nat.zero_le _) h.few))
  have hloop : createPartitions request request.shardAssignments 0 (count request.partitionCount) m.shards = _ :=
    createPartitions_missing h.assignable (Nat.zero_le _) (by rw [Nat.zero_add]; exact h.few)
  exact createCollection_eq h.name hcount (assignmentsOf_explicit h.some) hloop

theorem invalidArgument_cases {msg : String} {m' : OprcMetaManager}
    (h : createCollection checks m request = (.error (.invalidArgument msg), m')) : m' = m ∨ RunsOut m request := by
  by_cases hname : m.collections.get request.name = none
  · right
    by_cases hcount : 0 ≤ request.partitionCount
    · by_cases hsome : request.shardAssignments = []
      · rcases createCollection_default checks hname hcount hsome with ⟨_, _, hok⟩ | ⟨_, msg', hpanic⟩
        · rw [h] at hok
          cases hok
        · rw [h] at hpanic
          cases hpanic
      · have has : assignmentsOf checks m request = .ok request.shardAssignments := assignmentsOf_explicit hsome
        by_cases hgood : ∀ a ∈ (request.shardAssignments.drop 0).take (count request.partitionCount), Assignable request a
        · by_cases hlen : 0 + count request.partitionCount ≤ request.shardAssignments.length
          · obtain ⟨groups, t, hloop⟩ := createPartitions_complete (t := m.shards) hgood hlen
            have hok := createCollection_fst hname hcount has hloop
            rw [h] at hok
            cases hok
          · rw [drop_zero, take_of_length_le (by omega)] at hgood
            exact ⟨hname, hsome, by omega, hgood⟩
        · push Not at hgood
          obtain ⟨msg', t, hloop⟩ := createPartitions_panics (t := m.shards) hgood
          rw [createCollection_eq hname hcount has hloop] at h
          cases h
    · simp [OprcMetaManager.createCollection, hname, Int32.not_le.1 hcount] at h
  · left
    rw [OprcMetaManager.createCollection, if_pos (Option.isSome_iff_ne_none.2 hname)] at h
    cases h
    rfl

def UnchangedOnError (checks : Bool) (m : OprcMetaManager) (request : CreateCollectionRequest) : Prop :=
  ∀ msg m', createCollection checks m request = (.error (.invalidArgument msg), m') →
    m'.collections = m.collections ∧ m'.shards = m.shards ∧ m'.localShards = m.localShards

/-- **All or nothing**: should the assignments run out before the partitions, the rows written must have been there.
-/
theorem createCollection_unchanged_iff (checks : Bool) (m : OprcMetaManager) (request : CreateCollectionRequest) :
    UnchangedOnError checks m request ↔ (m.RunsOut request → m.RowsInPlace request) := by
  unfold RowsInPlace
  rw [← OrdMap.insertMany_eq_self_iff]
  constructor
  · intro h hout
    exact (h _ _ hout.createCollection).2.1
  · intro h msg m' hcall
    rcases invalidArgument_cases hcall with rfl | hout
    · exact ⟨rfl, rfl, rfl⟩
    · rw [hout.createCollection] at hcall
      cases hcall
      exact ⟨rfl, h hout, rfl⟩

/-! ## Panics -/

def Answerable (m : OprcMetaManager) (request : CreateCollectionRequest) : Prop :=
  0 ≤ request.partitionCount ∧
    if request.shardAssignments = [] then Fits true m.lastId (numbers request) ∧ m.Placeable request
    else ∀ a ∈ request.shardAssignments.take (count request.partitionCount), Assignable request a

theorem fits_of_checked {x : UInt64} {n : Nat} (h : Fits true x n) (checks : Bool) : Fits checks x n := fun _ => h rfl

theorem never_panics_default_iff (hname : m.collections.get request.name = none) (hcount : 0 ≤ request.partitionCount)
    (hnone : request.shardAssignments = []) :
    (∀ checks msg, (createCollection checks m request).1 ≠ .error (.panicked msg)) ↔
      Fits true m.lastId (numbers request) ∧ m.Placeable request := by
  constructor
  · intro h
    rcases createCollection_default true hname hcount hnone with ⟨hfit, hplace, _⟩ | ⟨_, msg, hpanic⟩
    · exact ⟨hfit, hplace⟩
    · exact absurd hpanic (h true msg)
  · rintro ⟨hfit, hplace⟩ checks msg hpanic
    rcases createCollection_default checks hname hcount hnone with ⟨_, _, hok⟩ | ⟨hnot, _⟩
    · rw [hok] at hpanic
      cases hpanic
    · exact hnot ⟨fits_of_checked hfit checks, hplace⟩

theorem never_panics_explicit_iff (hname : m.collections.get request.name = none) (hcount : 0 ≤ request.partitionCount)
    (hsome : request.shardAssignments ≠ []) :
    (∀ checks msg, (createCollection checks m request).1 ≠ .error (.panicked msg)) ↔
      ∀ a ∈ request.shardAssignments.take (count request.partitionCount), Assignable request a := by
  have has : ∀ checks, assignmentsOf checks m request = .ok request.shardAssignments :=
    fun _ => assignmentsOf_explicit hsome
  constructor
  · intro h a ha
    by_contra hbad
    obtain ⟨msg, t, hloop⟩ : ∃ msg t, createPartitions request request.shardAssignments 0
        (count request.partitionCount) m.shards = (.error (.panicked msg), t) :=
      createPartitions_panics ⟨a, ha, hbad⟩
    exact h true msg (congrArg Prod.fst (createCollection_eq hname hcount (has true) hloop))
  · intro hgood checks msg hpanic
    by_cases hlen : 0 + count request.partitionCount ≤ request.shardAssignments.length
    · obtain ⟨groups, t, hloop⟩ := createPartitions_complete (t := m.shards) (p := 0) hgood hlen
      rw [createCollection_fst hname hcount (has checks) hloop] at hpanic
      cases hpanic
    · rw [take_of_length_le (by omega)] at hgood
      rw [RunsOut.createCollection ⟨hname, hsome, by omega, hgood⟩] at hpanic
      cases hpanic

/-- **Every request is answered** if it is answerable, with overflows checked or not. -/
theorem createCollection_never_panics_iff (m : OprcMetaManager) (request : CreateCollectionRequest) :
    (∀ checks msg, (createCollection checks m request).1 ≠ .error (.panicked msg)) ↔
      m.collections.get request.name ≠ none ∨ m.Answerable request := by
  by_cases hname : m.collections.get request.name = none
  · rw [or_iff_right (not_not_intro hname)]
    unfold Answerable
    by_cases hcount : 0 ≤ request.partitionCount
    · rw [and_iff_right hcount]
      split
      · rename_i hnone
        exact never_panics_default_iff hname hcount hnone
      · rename_i hsome
        exact never_panics_explicit_iff hname hcount hsome
    · have hpanic : (createCollection true m request).1 = .error (.panicked "capacity overflow") := by
        simp [createCollection, hname, Int32.not_le.1 hcount]
      constructor
      · intro h
        exact absurd hpanic (h true _)
      · rintro ⟨hge, _⟩
        exact absurd hge hcount
  · rw [or_iff_left_of_imp fun _ => hname]
    refine ⟨fun _ => hname, fun _ checks msg hpanic => ?_⟩
    rw [createCollection, if_pos (Option.isSome_iff_ne_none.2 hname)] at hpanic
    cases hpanic

end

/-! ## Requests that are not well formed -/

namespace HalfPlanned

open TwoCollections (plain)

def request : CreateCollectionRequest := { plain "a" 2 1 with shardAssignments := [⟨none, [1], [7]⟩] }

/-- The call fails and leaves shard 7 in the table, from where it gets among the local shards. -/
theorem createCollection_leaves_rows :
    (createCollection true (new 1 [1]) request).1 =
        .error (.invalidArgument "invalid: shard assignments not match partition count") ∧
      (new 1 [1]).shards.get 7 = none ∧ (step true (new 1 [1]) request).shards.get 7 ≠ none ∧
      (step true (new 1 [1]) request).collections.get "a" = none ∧
      (step true (step true (new 1 [1]) request) (plain "b" 1 1)).localShards.get 7 ≠ none ∧
      ¬ UnchangedOnError true (new 1 [1]) request := by
  have herror : (createCollection true (new 1 [1]) request).1 =
      .error (.invalidArgument "invalid: shard assignments not match partition count") := by decide +kernel
  have hrow : (step true (new 1 [1]) request).shards.get 7 ≠ none := by decide +kernel
  refine ⟨herror, rfl, hrow, by decide +kernel, by decide +kernel, ?_⟩
  intro h
  have hsame := (h _ _ (Prod.ext herror rfl)).2.1
  exact hrow (congrArg (OrdMap.get · 7) hsame)

/-- No replicas, -1 partitions, no members, or an assignment without owners. -/
theorem createCollection_panics :
    (createCollection true (new 1 [1]) (plain "a" 1 0)).1 =
        .error (.panicked "index out of bounds: the len is 0 but the index is 0") ∧
      (createCollection true (new 1 [1]) (plain "a" (-1) 1)).1 = .error (.panicked "capacity overflow") ∧
      (createCollection true (new 1 []) (plain "a" 1 1)).1 =
        .error (.panicked "attempt to calculate the remainder with a divisor of zero") ∧
      (createCollection true (new 1 [1]) { plain "a" 1 1 with shardAssignments := [⟨none, [], [7]⟩] }).1 =
        .error (.panicked "attempt to calculate the remainder with a divisor of zero") := by
  refine ⟨?_, ?_, ?_, ?_⟩
  all_goals decide +kernel

end HalfPlanned

end Odgm.OprcMetaManager
