import OaasIot.Pm.Units

/-!
# The plan of a collection (`oprc-pm/src/services/deployment/shard_assignments.rs`)

`generate_shard_assignments_spec` gives each partition the first of the members that have been a primary the least, and
goes on around the ring for the other replicas. The greedy choice is a **round robin**.
-/

open Grpc

namespace Pm

open List

/-! ## The greedy choice -/

def primaryCounts (m t : Nat) : List Nat := (List.range m).map fun i => t.count (· ≡ i [MOD m])

theorem length_primaryCounts (m t : Nat) : (primaryCounts m t).length = m := by simp [primaryCounts]

theorem primaryCounts_zero (m : Nat) : primaryCounts m 0 = replicate m 0 := by
  simp [primaryCounts, map_const']

theorem count_eq {m i : Nat} (hm : 0 < m) (hi : i < m) (t : Nat) :
    t.count (· ≡ i [MOD m]) = t / m + if i < t % m then 1 else 0 := by
  rw [Nat.count_modEq_card t hm, Nat.mod_eq_of_lt hi]

theorem getElem_primaryCounts {m : Nat} (hm : 0 < m) (t i : Nat) (hi : i < (primaryCounts m t).length) :
    (primaryCounts m t)[i] = t / m + if i < t % m then 1 else 0 := by
  have him : i < m := by rwa [length_primaryCounts] at hi
  simp only [primaryCounts, getElem_map, getElem_range, count_eq hm him]

theorem primaryIndex_primaryCounts {m : Nat} (hm : 0 < m) (t : Nat) : primaryIndex (primaryCounts m t) = t % m := by
  have hlt : t % m < (primaryCounts m t).length := by
    rw [length_primaryCounts]
    exact Nat.mod_lt t hm
  rw [primaryIndex, findIdx_eq hlt]
  constructor
  · rw [all_eq_true]
    intro d hd
    obtain ⟨i, hi, rfl⟩ := mem_iff_getElem.1 hd
    rw [getElem_primaryCounts hm, getElem_primaryCounts hm, if_neg (Nat.lt_irrefl _), decide_eq_true_eq]
    omega
  · intro j hj
    rw [all_eq_false]
    refine ⟨(primaryCounts m t)[t % m], getElem_mem hlt, ?_⟩
    rw [getElem_primaryCounts hm, getElem_primaryCounts hm, if_pos hj, if_neg (Nat.lt_irrefl _)]
    simp

theorem modify_primaryCounts (m t : Nat) :
    (primaryCounts m t).modify (t % m) (· + 1) = primaryCounts m (t + 1) := by
  apply ext_getElem
  · simp [primaryCounts]
  · intro i hi hi'
    have him : i < m := by rwa [length_primaryCounts] at hi'
    have hiff : t ≡ i [MOD m] ↔ t % m = i := by rw [Nat.ModEq, Nat.mod_eq_of_lt him]
    rw [getElem_modify]
    simp only [primaryCounts, getElem_map, getElem_range, Nat.count_succ, hiff]
    split <;> rfl

/-! ## The plan in closed form -/

def plannedPartition (replicas : Nat) (members : List UInt64) (x : UInt64) (p : Nat) : ShardAssignment :=
  let ids := wordsFrom (x + .ofNat (p * replicas)) replicas
  ⟨ids.head?, replicaNodes members replicas (p % members.length), ids⟩

section Plan

variable {replicas : Nat} {members : List UInt64}

theorem assignPartitions_primaryCounts (hm : members ≠ []) (n t : Nat) (x : UInt64) :
    assignPartitions replicas members n (primaryCounts members.length t) (x + .ofNat (t * replicas)) =
      (range' t n).map (plannedPartition replicas members x) := by
  have hpos : 0 < members.length := length_pos_iff.2 hm
  induction n generalizing t with
  | zero => rfl
  | succ n ih =>
    have hnext : x + .ofNat (t * replicas) + .ofNat replicas = x + .ofNat ((t + 1) * replicas) := by
      rw [Nat.succ_mul, UInt64.ofNat_add, UInt64.add_assoc]
    rw [assignPartitions, primaryIndex_primaryCounts hpos, takeShardIds_eq]
    dsimp only
    rw [hnext, modify_primaryCounts, ih (t + 1), range'_succ, map_cons]
    rfl

theorem assignPartitions_start (hm : members ≠ []) (n : Nat) :
    assignPartitions replicas members n (replicate members.length 0) 1 =
      (range n).map (plannedPartition replicas members 1) := by
  have hloop : assignPartitions replicas members n (primaryCounts members.length 0) (1 + .ofNat (0 * replicas)) =
      (range' 0 n).map (plannedPartition replicas members 1) := assignPartitions_primaryCounts hm n 0 1
  rw [primaryCounts_zero, Nat.zero_mul, ← range_eq_range'] at hloop
  exact hloop

theorem generateShardAssignmentsSpec_eq {partitions : Nat} (hp : 1 ≤ partitions) (hr : 1 ≤ replicas) (hm : members ≠ []) :
    generateShardAssignmentsSpec partitions replicas members =
      (range partitions).map (plannedPartition replicas members 1) := by
  rw [generateShardAssignmentsSpec_eq_assign hp hr hm, assignPartitions_start hm]

/-! ## Ids, nodes, primaries -/

def primaryNode (a : ShardAssignment) : Option UInt64 := a.replica.head?

def primariesOn (plan : List ShardAssignment) (n : UInt64) : Nat := plan.countP fun a => primaryNode a = some n

/-- **What a plan is for**: fresh ids, replicas on different members, and primaries spread evenly. -/
structure Balanced (partitions replicas : Nat) (members : List UInt64) (plan : List ShardAssignment) : Prop where
  length : plan.length = partitions
  /-- Counts that are 32-bit numbers, as those of a deployment are, never reach the end of the id counter; nor do the
  ids that fit into memory together. -/
  ids : partitions * replicas < 2 ^ 64 - 1 →
    (plan.flatMap (·.shardIds)).map (·.toNat) = List.range' 1 (partitions * replicas)
  primary : ∀ a ∈ plan, a.shardIds.length = replicas ∧ a.primary.isSome = true ∧ a.primary = a.shardIds.head?
  nodes : ∀ a ∈ plan, a.replica.length = replicas ∧ (∀ n ∈ a.replica, n ∈ members) ∧
    (replicas ≤ members.length → a.replica.Nodup)
  primaries : ∀ m ∈ members, ∀ n ∈ members, primariesOn plan m ≤ primariesOn plan n + 1

theorem toNat_wordsFrom_one {n : Nat} (h : n < 2 ^ 64) : (wordsFrom 1 n).map (·.toNat) = range' 1 n := by
  rw [range'_eq_map_range, wordsFrom, map_map]
  apply map_congr_left
  intro k hk
  have hk := mem_range.1 hk
  rw [Function.comp_apply, UInt64.toNat_add, UInt64.toNat_one, UInt64.toNat_ofNat',
    Nat.mod_eq_of_lt (a := k) (by omega), Nat.mod_eq_of_lt (by omega)]

theorem flatMap_shardIds_plan (partitions : Nat) (hm : members ≠ []) :
    ((range partitions).map (plannedPartition replicas members 1)).flatMap (·.shardIds) =
      wordsFrom 1 (partitions * replicas) := by
  rw [← assignPartitions_start hm, flatMap_def, shardIds_assignPartitions, flatten_wordBlocks]

theorem nodup_replicaNodes (hm : members ≠ []) (hnodup : members.Nodup) (hle : replicas ≤ members.length) (p : Nat) :
    (replicaNodes members replicas p).Nodup := by
  have hcard : (replicaNodes members replicas p).toFinset.card = (replicaNodes members replicas p).length := by
    rw [card_replicaNodes hm hnodup, Nat.min_eq_left hle, length_replicaNodes hm]
  exact Multiset.coe_nodup.1 (Multiset.toFinset_card_eq_card_iff_nodup.1 hcard)

theorem primaryNode_plannedPartition (hr : 1 ≤ replicas) (hm : members ≠ []) (x : UInt64) (p : Nat) :
    primaryNode (plannedPartition replicas members x p) = members[p % members.length]? := by
  have hpos : 0 < members.length := length_pos_iff.2 hm
  obtain ⟨r, rfl⟩ := Nat.exists_eq_add_of_le' hr
  have hget := getElem?_eq_getElem (Nat.mod_lt p hpos)
  simp [primaryNode, plannedPartition, replicaNodes, range_succ_eq_map, hget]

theorem primariesOn_plan (hr : 1 ≤ replicas) (hm : members ≠ []) (hnodup : members.Nodup) (partitions : Nat) {i : Nat}
    (hi : i < members.length) :
    primariesOn ((range partitions).map (plannedPartition replicas members 1)) members[i] =
      partitions / members.length + if i < partitions % members.length then 1 else 0 := by
  have hpos : 0 < members.length := length_pos_iff.2 hm
  have hiff : ∀ p, primaryNode (plannedPartition replicas members 1 p) = some members[i] ↔ p ≡ i [MOD members.length] := by
    intro p
    rw [primaryNode_plannedPartition hr hm, ← getElem?_eq_getElem hi,
      getElem?_inj (Nat.mod_lt p hpos) hnodup, Nat.ModEq, Nat.mod_eq_of_lt hi]
  rw [← count_eq hpos hi, primariesOn, countP_map, Nat.count]
  apply countP_congr
  intro p _
  simpa using hiff p

end Plan

/-- **Shard planning.** For all counts from 1 and every list of distinct members, the plan is a balanced one. -/
theorem shard_plan_balanced (partitions replicas : Nat) (members : List UInt64) (hp : 1 ≤ partitions) (hr : 1 ≤ replicas)
    (hm : members ≠ []) (hnodup : members.Nodup) :
    Balanced partitions replicas members (generateShardAssignmentsSpec partitions replicas members) := by
  rw [generateShardAssignmentsSpec_eq hp hr hm]
  constructor
  · simp
  · intro hfits
    rw [flatMap_shardIds_plan partitions hm, toNat_wordsFrom_one (by omega)]
  · intro a ha
    obtain ⟨p, _, rfl⟩ := mem_map.1 ha
    obtain ⟨r, rfl⟩ := Nat.exists_eq_add_of_le' hr
    exact ⟨by simp [plannedPartition, wordsFrom], by simp [plannedPartition, wordsFrom_succ], rfl⟩
  · intro a ha
    obtain ⟨p, _, rfl⟩ := mem_map.1 ha
    refine ⟨length_replicaNodes hm replicas _, fun n hn => ?_, fun hle => nodup_replicaNodes hm hnodup hle _⟩
    obtain ⟨i, _, hi⟩ := mem_replicaNodes.1 hn
    exact mem_of_getElem? hi
  · intro m hm' n hn
    obtain ⟨i, hi, rfl⟩ := mem_iff_getElem.1 hm'
    obtain ⟨j, hj, rfl⟩ := mem_iff_getElem.1 hn
    rw [primariesOn_plan hr hm hnodup partitions hi, primariesOn_plan hr hm hnodup partitions hj]
    split <;> split <;> omega

theorem shard_plan_three_nodes :
    ([1, 2, 3] : List UInt64).Nodup ∧ Balanced 5 2 [1, 2, 3] (generateShardAssignmentsSpec 5 2 [1, 2, 3]) :=
  ⟨by decide, shard_plan_balanced 5 2 [1, 2, 3] (by decide) (by decide) (by decide) (by decide)⟩

end Pm
