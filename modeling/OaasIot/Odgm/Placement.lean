import OaasIot.Odgm.Collections

/-!
# Default placement (`odgm/src/metadata/mod.rs:143-174`)

Partition `i` takes the next `replica_count` numbers behind the last id of the table, and as many members in turn,
starting with member `i`. The numbers come from one `u64` counter that is advanced once more than there are ids.
-/

open Grpc

namespace Odgm.OprcMetaManager

open List

/-! ## Members in turn -/

def ringFrom (members : List UInt64) (n i : Nat) : List UInt64 :=
  (List.range n).filterMap fun k => members[(i + k) % members.length]?

variable {members : List UInt64}

theorem ringFrom_eq_map (hpos : 0 < members.length) (n i : Nat) :
    ringFrom members n i = (range n).map fun k => members.get ⟨(i + k) % members.length, Nat.mod_lt _ hpos⟩ := by
  rw [← filterMap_eq_map']
  apply filterMap_congr
  intro k _
  exact getElem?_eq_getElem (Nat.mod_lt _ hpos)

theorem length_ringFrom (hpos : 0 < members.length) (n i : Nat) : (ringFrom members n i).length = n := by
  rw [ringFrom_eq_map hpos, length_map, length_range]

variable {x : UInt64}

theorem mem_of_mem_ringFrom {n i : Nat} (h : x ∈ ringFrom members n i) : x ∈ members := by
  obtain ⟨k, _, hk⟩ := mem_filterMap.1 h
  exact mem_of_getElem? hk

def Spaced (members : List UInt64) (partitions replicas : Nat) : Prop :=
  ∀ i < partitions, ∀ j k, j < k → k < replicas →
    members[(i + j) % members.length]? ≠ members[(i + k) % members.length]?

theorem nodup_ringFrom_iff (hpos : 0 < members.length) (n i : Nat) :
    (ringFrom members n i).Nodup ↔
      ∀ j k, j < k → k < n → members[(i + j) % members.length]? ≠ members[(i + k) % members.length]? := by
  rw [ringFrom_eq_map hpos, List.Nodup, pairwise_map, pairwise_iff_getElem]
  simp only [length_range, getElem_range, getElem?_eq_getElem (Nat.mod_lt _ hpos), Option.some.injEq,
    get_eq_getElem, ne_eq]
  constructor
  · intro h j k hjk hk
    exact h j k (hjk.trans hk) hk hjk
  · intro h j k _ hk hjk
    exact h j k hjk hk

theorem spaced_of_nodup (h : members.Nodup) {replicas : Nat} (hle : replicas ≤ members.length) (partitions : Nat) :
    Spaced members partitions replicas := by
  intro i _ j k hjk hk heq
  have hpos : 0 < members.length := by omega
  have hsame := (nodup_iff_getElem?_ne_getElem?.1 h)
  have hj := Nat.mod_lt (i + j) hpos
  have hk' := Nat.mod_lt (i + k) hpos
  have hne : (i + j) % members.length ≠ (i + k) % members.length := by
    intro hmod
    have hdvd : members.length ∣ k - j := by
      have hsub := (Nat.modEq_iff_dvd' (by omega : i + j ≤ i + k)).1 hmod
      rwa [Nat.add_sub_add_left] at hsub
    exact absurd (Nat.le_of_dvd (by omega) hdvd) (by omega)
  rcases Nat.lt_or_gt_of_ne hne with hlt | hlt
  · exact hsame _ _ hlt hk' heq
  · exact hsame _ _ hlt hj heq.symm

/-! ## Numbers in turn -/

def Fits (overflowChecks : Bool) (x : UInt64) (n : Nat) : Prop := overflowChecks = true → x.toNat + n < 2 ^ 64

instance (overflowChecks : Bool) (x : UInt64) (n : Nat) : Decidable (Fits overflowChecks x n) :=
  inferInstanceAs (Decidable (_ → _))

def overflow : Failure := .panicked "attempt to add with overflow"

theorem fits_add {checks : Bool} {a b : Nat} :
    Fits checks x (a + b) ↔ Fits checks x a ∧ Fits checks (x + .ofNat a) b := by
  unfold Fits
  rw [UInt64.toNat_add, UInt64.toNat_ofNat']
  cases checks with
  | false => simp
  | true =>
    simp only [forall_const]
    omega

variable (checks : Bool)

theorem fits_zero (x : UInt64) : Fits checks x 0 := fun _ => x.toNat_lt

theorem increment_eq (x : UInt64) : increment checks x = if Fits checks x 1 then .ok (x + 1) else .error overflow := by
  have hlt := x.toNat_lt
  unfold increment Fits
  cases checks with
  | false => rfl
  | true =>
    simp only [Bool.true_and, beq_iff_eq, forall_const]
    split
    · rw [if_neg (by omega)]
      rfl
    · rw [if_pos (by omega)]

theorem bind_overflow {α β : Type} {p q : Prop} [Decidable p] [Decidable q] {a : α} {b : β}
    {f : α → Except Failure β} (h : f a = if q then .ok b else .error overflow) :
    ((if p then .ok a else .error overflow) >>= f) = if p ∧ q then .ok b else .error overflow := by
  by_cases hp : p
  · simp only [hp, true_and, if_true]
    exact h
  · simp only [hp, false_and, if_false]
    rfl

theorem takeIds_eq (n : Nat) (x : UInt64) :
    takeIds checks n x = if Fits checks x n then .ok (wordsFrom x n, x + .ofNat n) else .error overflow := by
  induction n generalizing x with
  | zero => simp [takeIds, fits_zero, wordsFrom]
  | succ n ih =>
    have hcounter : x + .ofNat (n + 1) = x + 1 + .ofNat n := by
      rw [Nat.add_comm n 1, UInt64.ofNat_add, ← UInt64.add_assoc]
      rfl
    have hsteps : Fits checks x (n + 1) ↔ Fits checks x 1 ∧ Fits checks (x + 1) n := by
      rw [Nat.add_comm n 1]
      exact fits_add
    rw [wordsFrom_succ, hcounter, if_congr hsteps rfl rfl, takeIds, increment_eq]
    apply bind_overflow
    rw [ih]
    split
    · rfl
    · rfl

/-! ## Assignments in turn -/

def placedAt (members : List UInt64) (r i : Nat) (x : UInt64) : ShardAssignment :=
  ⟨some x, ringFrom members r i, wordsFrom x r⟩

def placed (members : List UInt64) (r : Nat) : Nat → Nat → UInt64 → List ShardAssignment
  | _, 0, _ => []
  | i, n + 1, x => placedAt members r i x :: placed members r (i + 1) n (x + .ofNat r)

theorem placed_eq_map (members : List UInt64) (r i n : Nat) (x : UInt64) :
    placed members r i n x = (range n).map fun k => placedAt members r (i + k) (x + .ofNat (k * r)) := by
  induction n generalizing i x with
  | zero => rfl
  | succ n ih =>
    rw [placed, ih, range_succ_eq_map, map_cons, map_map]
    refine congrArg₂ _ (by simp) (map_congr_left fun k _ => ?_)
    rw [Function.comp_apply, Nat.succ_mul, Nat.add_comm (k * r) r, UInt64.ofNat_add, ← UInt64.add_assoc,
      Nat.add_assoc i 1 k, Nat.add_comm 1 k]

theorem length_placed (members : List UInt64) (r i n : Nat) (x : UInt64) : (placed members r i n x).length = n := by
  rw [placed_eq_map, length_map, length_range]

theorem shardIds_placed (members : List UInt64) (r i n : Nat) (x : UInt64) :
    (placed members r i n x).map (·.shardIds) = wordBlocks r n x := by
  induction n generalizing i x with
  | zero => rfl
  | succ n ih => rw [placed, map_cons, ih, wordBlocks, placedAt]

theorem mem_placed {r i n : Nat} {a : ShardAssignment} :
    a ∈ placed members r i n x ↔ ∃ k < n, a = placedAt members r (i + k) (x + .ofNat (k * r)) := by
  simp only [placed_eq_map, mem_map, mem_range, eq_comm]

theorem count_pos_iff {n : Int32} : 0 < count n ↔ 0 < n := by
  rw [Int32.lt_iff_toInt_lt]
  simp only [count, Int32.toNatClampNeg, Int32.toInt_zero]
  omega

variable {rc : Int32}

theorem defaultAssignment_eq (hrc : 0 < count rc) (hmembers : members ≠ []) (i : Nat) (x : UInt64) :
    defaultAssignment checks members rc i x =
      if Fits checks x (count rc) then .ok (placedAt members (count rc) i x, x + .ofNat (count rc))
      else .error overflow := by
  have hneg : ¬ rc < 0 := Int32.not_lt.2 (Int32.le_of_lt (count_pos_iff.1 hrc))
  have hempty : members.isEmpty = false := by simpa using hmembers
  unfold defaultAssignment
  rw [if_neg hneg, hempty, Bool.and_false, if_neg Bool.false_ne_true, takeIds_eq]
  by_cases hfit : Fits checks x (count rc)
  · rw [if_pos hfit, if_pos hfit]
    obtain ⟨n, hn⟩ : ∃ n, count rc = n + 1 := ⟨count rc - 1, by omega⟩
    rw [hn, placedAt, wordsFrom_succ]
    rfl
  · rw [if_neg hfit, if_neg hfit]
    rfl

theorem defaultAssignments_eq (hrc : 0 < count rc) (hmembers : members ≠ []) (i n : Nat) (x : UInt64) :
    defaultAssignments checks members rc i n x =
      if Fits checks x (n * count rc) then .ok (placed members (count rc) i n x) else .error overflow := by
  induction n generalizing i x with
  | zero => simp [defaultAssignments, fits_zero, placed]
  | succ n ih =>
    have hsteps : Fits checks x ((n + 1) * count rc) ↔
        Fits checks x (count rc) ∧ Fits checks (x + .ofNat (count rc)) (n * count rc) := by
      rw [Nat.succ_mul, Nat.add_comm]
      exact fits_add
    rw [if_congr hsteps rfl rfl, defaultAssignments, defaultAssignment_eq checks hrc hmembers]
    apply bind_overflow
    simp only [ih]
    split
    · rfl
    · rfl

def lastId (m : OprcMetaManager) : UInt64 := m.shards.lastKey.getD 0

def Placeable (m : OprcMetaManager) (request : CreateCollectionRequest) : Prop :=
  count request.partitionCount ≠ 0 → 0 < count request.replicaCount ∧ m.members ≠ []

def numbers (request : CreateCollectionRequest) : Nat := 1 + count request.partitionCount * count request.replicaCount

section
variable {checks : Bool} {m : OprcMetaManager} {request : CreateCollectionRequest}

theorem generateDefaultAssignments_bind : generateDefaultAssignments checks m request =
    increment checks m.lastId >>= fun counter =>
      defaultAssignments checks m.members request.replicaCount 0 (count request.partitionCount) counter := rfl

theorem generateDefaultAssignments_eq (h : m.Placeable request) :
    generateDefaultAssignments checks m request =
      if Fits checks m.lastId (numbers request) then
        .ok (placed m.members (count request.replicaCount) 0 (count request.partitionCount) (m.lastId + 1))
      else .error overflow := by
  have hloop : defaultAssignments checks m.members request.replicaCount 0 (count request.partitionCount) (m.lastId + 1) =
      if Fits checks (m.lastId + 1) (count request.partitionCount * count request.replicaCount) then
        .ok (placed m.members (count request.replicaCount) 0 (count request.partitionCount) (m.lastId + 1))
      else .error overflow := by
    by_cases hpc : count request.partitionCount = 0
    · rw [hpc, Nat.zero_mul, if_pos (fits_zero _ _)]
      rfl
    · exact defaultAssignments_eq checks (h hpc).1 (h hpc).2 _ _ _
  have hsteps : Fits checks m.lastId (numbers request) ↔ Fits checks m.lastId 1 ∧
      Fits checks (m.lastId + 1) (count request.partitionCount * count request.replicaCount) := fits_add
  rw [generateDefaultAssignments_bind, increment_eq, if_congr hsteps rfl rfl]
  exact bind_overflow hloop

theorem defaultAssignment_panics (h : ¬ (0 < count rc ∧ members ≠ [])) (i : Nat) (x : UInt64) :
    ∃ msg, defaultAssignment checks members rc i x = .error (.panicked msg) := by
  unfold defaultAssignment
  split
  · exact ⟨_, rfl⟩
  · split
    · exact ⟨_, rfl⟩
    · rename_i hmembers
      have hzero : count rc = 0 := by
        by_contra hne
        refine h ⟨by omega, fun hnil => hmembers ?_⟩
        simp [hnil, Nat.pos_of_ne_zero hne]
      rw [hzero]
      exact ⟨_, rfl⟩

theorem generateDefaultAssignments_panics (h : ¬ m.Placeable request) :
    ∃ msg, generateDefaultAssignments checks m request = .error (.panicked msg) := by
  obtain ⟨hpc, hbad⟩ := Classical.not_imp.1 h
  obtain ⟨n, hn⟩ : ∃ n, count request.partitionCount = n + 1 := ⟨count request.partitionCount - 1, by omega⟩
  rw [generateDefaultAssignments_bind, increment_eq, hn]
  split
  · obtain ⟨msg, hmsg⟩ := defaultAssignment_panics hbad 0 (m.lastId + 1)
    refine ⟨msg, ?_⟩
    change (defaultAssignment checks m.members request.replicaCount 0 (m.lastId + 1) >>= _) = _
    rw [hmsg]
    rfl
  · exact ⟨_, rfl⟩

/-! ## Fresh ids -/

def WrapsFree (m : OprcMetaManager) (request : CreateCollectionRequest) : Prop :=
  ∀ k, 2 ^ 64 + k < m.lastId.toNat + numbers request → m.shards.get (.ofNat k) = none

theorem numbers_lt (request : CreateCollectionRequest) : numbers request ≤ 2 ^ 62 + 1 := by
  have hle := Nat.mul_le_mul (count_lt request.partitionCount).le (count_lt request.replicaCount).le
  unfold numbers
  omega

theorem get_above_lastId {id : UInt64} (h : m.lastId < id) : m.shards.get id = none := by
  cases hs : m.shards.get id with
  | none => rfl
  | some s =>
    exfalso
    cases hlast : m.shards.lastKey with
    | none =>
      rw [OrdMap.lastKey_eq_none.1 hlast] at hs
      cases hs
    | some last =>
      rw [lastId, hlast, Option.getD_some] at h
      exact absurd (OrdMap.le_lastKey hlast hs) (not_le_of_gt h)

theorem words_free_iff :
    (∀ id ∈ wordsFrom (m.lastId + 1) (count request.partitionCount * count request.replicaCount), m.shards.get id = none) ↔
      m.WrapsFree request := by
  have hbound := numbers_lt request
  unfold WrapsFree
  unfold numbers at hbound ⊢
  generalize count request.partitionCount * count request.replicaCount = n at hbound ⊢
  have hlt := m.lastId.toNat_lt
  have hword : ∀ k < n, (m.lastId + 1 + .ofNat k).toNat = (m.lastId.toNat + 1 + k) % 2 ^ 64 := by
    intro k hk
    rw [UInt64.toNat_add, UInt64.toNat_add, UInt64.toNat_ofNat', UInt64.toNat_one, Nat.mod_eq_of_lt (a := k) (by omega)]
    omega
  simp only [wordsFrom, mem_map, mem_range]
  constructor
  · intro h k hk
    refine h _ ⟨2 ^ 64 + k - m.lastId.toNat - 1, by omega, ?_⟩
    rw [← UInt64.toNat_inj, hword _ (by omega), UInt64.toNat_ofNat']
    omega
  · rintro h _ ⟨k, hk, rfl⟩
    by_cases hwrap : m.lastId.toNat + 1 + k < 2 ^ 64
    · apply get_above_lastId
      rw [UInt64.lt_iff_toNat_lt, hword k hk, Nat.mod_eq_of_lt hwrap]
      omega
    · have heq : m.lastId + 1 + .ofNat k = .ofNat (m.lastId.toNat + 1 + k - 2 ^ 64) := by
        rw [← UInt64.toNat_inj, hword k hk, UInt64.toNat_ofNat']
        omega
      rw [heq]
      exact h _ (by omega)

end

/-! ## Placement -/

def defaultPlacement (overflowChecks : Bool) (m : OprcMetaManager) (request : CreateCollectionRequest) :
    Except Failure (List ShardAssignment) :=
  if request.partitionCount < 0 then .error (.panicked "capacity overflow")
  else generateDefaultAssignments overflowChecks m request

/-- **Every replica has an id and a member of its own.** -/
structure WellPlaced (m : OprcMetaManager) (request : CreateCollectionRequest) (as : List ShardAssignment) : Prop where
  partitions : as.length = count request.partitionCount
  replicas : ∀ a ∈ as, a.shardIds.length = count request.replicaCount ∧ a.replica.length = count request.replicaCount
  distinct : (as.map (·.shardIds)).flatten.Nodup
  fresh : ∀ id ∈ (as.map (·.shardIds)).flatten, m.shards.get id = none
  spread : ∀ a ∈ as, a.replica.Nodup
  onMembers : ∀ a ∈ as, ∀ member ∈ a.replica, member ∈ m.members
  primary : ∀ a ∈ as, ∃ id ∈ a.shardIds, a.primary = some id

theorem wellPlaced_placed_iff {m : OprcMetaManager} {request : CreateCollectionRequest}
    (hrc : 0 < count request.replicaCount) (hmembers : m.members ≠ []) :
    WellPlaced m request
        (placed m.members (count request.replicaCount) 0 (count request.partitionCount) (m.lastId + 1)) ↔
      m.WrapsFree request ∧ Spaced m.members (count request.partitionCount) (count request.replicaCount) := by
  have hpos : 0 < m.members.length := length_pos_iff.2 hmembers
  have hbound := numbers_lt request
  unfold numbers at hbound
  have hids := shardIds_placed m.members (count request.replicaCount) 0 (count request.partitionCount) (m.lastId + 1)
  have hflat := flatten_wordBlocks (count request.replicaCount) (count request.partitionCount) (m.lastId + 1)
  rw [← words_free_iff]
  constructor
  · intro h
    refine ⟨?_, ?_⟩
    · have hfresh := h.fresh
      rwa [hids, hflat] at hfresh
    · intro i hi
      have hspread := h.spread _ (mem_placed.2 ⟨i, hi, rfl⟩)
      rw [Nat.zero_add] at hspread
      exact (nodup_ringFrom_iff hpos _ i).1 hspread
  · rintro ⟨hfree, hspaced⟩
    refine ⟨length_placed _ _ _ _ _, ?_, ?_, ?_, ?_, ?_, ?_⟩
    · intro a ha
      obtain ⟨k, _, rfl⟩ := mem_placed.1 ha
      exact ⟨by simp [placedAt, wordsFrom], length_ringFrom hpos _ _⟩
    · rw [hids, hflat]
      exact nodup_wordsFrom (by omega)
    · rwa [hids, hflat]
    · intro a ha
      obtain ⟨k, hk, rfl⟩ := mem_placed.1 ha
      rw [Nat.zero_add]
      exact (nodup_ringFrom_iff hpos _ k).2 (hspaced k hk)
    · intro a ha member hmember
      obtain ⟨k, _, rfl⟩ := mem_placed.1 ha
      exact mem_of_mem_ringFrom hmember
    · intro a ha
      obtain ⟨k, _, rfl⟩ := mem_placed.1 ha
      obtain ⟨n, hn⟩ : ∃ n, count request.replicaCount = n + 1 := ⟨count request.replicaCount - 1, by omega⟩
      refine ⟨_, ?_, rfl⟩
      rw [placedAt, hn, wordsFrom_succ]
      exact mem_cons_self

/-- **Default placement**: the counts can be placed, the ids do not wrap onto ids in use, and the members are spaced.
-/
theorem default_placement_iff (checks : Bool) (m : OprcMetaManager) (request : CreateCollectionRequest)
    (hpos : 1 ≤ request.replicaCount) (hle : count request.replicaCount ≤ m.members.dedup.length) :
    (∃ as, defaultPlacement checks m request = .ok as ∧ WellPlaced m request as) ↔
      0 ≤ request.partitionCount ∧ Fits checks m.lastId (numbers request) ∧ m.WrapsFree request ∧
        Spaced m.members (count request.partitionCount) (count request.replicaCount) := by
  have hrc : 0 < count request.replicaCount := count_pos_iff.2 (Int32.lt_of_lt_of_le (by decide) hpos)
  have hmembers : m.members ≠ [] := by
    intro hnil
    rw [hnil, dedup_nil, length_nil] at hle
    omega
  unfold defaultPlacement
  by_cases hneg : request.partitionCount < 0
  · rw [if_pos hneg]
    constructor
    · rintro ⟨as, has, _⟩
      cases has
    · rintro ⟨hge, _⟩
      exact absurd hneg (Int32.not_lt.2 hge)
  · rw [if_neg hneg, generateDefaultAssignments_eq fun _ => ⟨hrc, hmembers⟩]
    have hge : 0 ≤ request.partitionCount := Int32.not_lt.1 hneg
    by_cases hfit : Fits checks m.lastId (numbers request)
    · rw [if_pos hfit, ← wellPlaced_placed_iff hrc hmembers]
      constructor
      · rintro ⟨as, has, hplaced⟩
        cases has
        exact ⟨hge, hfit, hplaced⟩
      · rintro ⟨_, _, hplaced⟩
        exact ⟨_, rfl, hplaced⟩
    · rw [if_neg hfit]
      constructor
      · rintro ⟨as, has, _⟩
        cases has
      · rintro ⟨_, hfit', _⟩
        exact absurd hfit' hfit

/-! ## Both ends of the id space -/

namespace Edges

open TwoCollections (plain)

theorem default_placement_three :
    ∃ as, defaultPlacement true (new 1 [1, 2, 3]) (plain "test_collection" 3 2) = .ok as ∧
      WellPlaced (new 1 [1, 2, 3]) (plain "test_collection" 3 2) as := by
  refine (default_placement_iff true (new 1 [1, 2, 3]) (plain "test_collection" 3 2) (by decide) (by decide)).2 ?_
  refine ⟨by decide, by decide, ?_, spaced_of_nodup (by decide) (by decide) _⟩
  intro k _
  rfl

def atBothEnds : CreateCollectionRequest :=
  { plain "a" 1 2 with shardAssignments := [⟨none, [1], [0, 0xFFFFFFFFFFFFFFFF]⟩] }

def full : OprcMetaManager := step false (new 1 [1, 2]) atBothEnds

/-- The node stops; without overflow checks the shard takes id 0, which is in use. -/
theorem default_placement_runs_out :
    Succeeds false (new 1 [1, 2]) atBothEnds ∧
      defaultPlacement true full (plain "b" 1 1) = .error (.panicked "attempt to add with overflow") ∧
      defaultPlacement false full (plain "b" 1 1) = .ok [⟨some 0, [1], [0]⟩] ∧
      full.shards.get 0 ≠ none ∧
      ¬ (∃ as, defaultPlacement true full (plain "b" 1 1) = .ok as ∧ WellPlaced full (plain "b" 1 1) as) ∧
      ¬ ∃ as, defaultPlacement false full (plain "b" 1 1) = .ok as ∧ WellPlaced full (plain "b" 1 1) as := by
  have hchecked : defaultPlacement true full (plain "b" 1 1) = .error (.panicked "attempt to add with overflow") := by
    decide +kernel
  have hwrapped : defaultPlacement false full (plain "b" 1 1) = .ok [⟨some 0, [1], [0]⟩] := by decide +kernel
  have hused : full.shards.get 0 ≠ none := by decide +kernel
  refine ⟨by decide +kernel, hchecked, hwrapped, hused, ?_, ?_⟩
  · rintro ⟨as, has, _⟩
    rw [hchecked] at has
    cases has
  · rintro ⟨as, has, hplaced⟩
    rw [hwrapped] at has
    cases has
    exact hused (hplaced.fresh 0 (by simp))

end Edges

end Odgm.OprcMetaManager
