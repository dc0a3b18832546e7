import Mathlib

/-!
# 64-bit words as numbers

The order of `UInt64`, and runs of consecutive words: `wordsFrom x n` is `x, x + 1, …`, modulo `2 ^ 64`.
-/

instance uint64LinearOrder : LinearOrder UInt64 where
  le_refl := UInt64.le_refl
  le_trans _ _ _ := UInt64.le_trans
  le_antisymm _ _ := UInt64.le_antisymm
  le_total := UInt64.le_total
  lt_iff_le_not_ge a b := by simp only [UInt64.lt_iff_toNat_lt, UInt64.le_iff_toNat_le]; omega
  toDecidableLE := inferInstance
  toDecidableEq := inferInstance
  toDecidableLT := inferInstance

def wordsFrom (x : UInt64) (n : Nat) : List UInt64 := (List.range n).map fun k => x + .ofNat k

theorem wordsFrom_add (x : UInt64) (a b : Nat) : wordsFrom x (a + b) = wordsFrom x a ++ wordsFrom (x + .ofNat a) b := by
  simp only [wordsFrom, List.range_add, List.map_append, List.map_map]
  congr 1
  apply List.map_congr_left
  intro k _
  simp [UInt64.ofNat_add, UInt64.add_assoc]

theorem wordsFrom_succ (x : UInt64) (n : Nat) : wordsFrom x (n + 1) = x :: wordsFrom (x + 1) n := by
  rw [Nat.add_comm, wordsFrom_add]
  simp [wordsFrom]

theorem nodup_wordsFrom {x : UInt64} {n : Nat} (h : n ≤ 2 ^ 64) : (wordsFrom x n).Nodup := by
  refine List.Nodup.map_on ?_ List.nodup_range
  intro a ha b hb hab
  rw [List.mem_range] at ha hb
  have hmod : (UInt64.ofNat a).toNat = (UInt64.ofNat b).toNat := by rw [(UInt64.add_right_inj _).1 hab]
  rw [UInt64.toNat_ofNat', UInt64.toNat_ofNat', Nat.mod_eq_of_lt (by omega), Nat.mod_eq_of_lt (by omega)] at hmod
  exact hmod

def wordBlocks (r : Nat) : Nat → UInt64 → List (List UInt64)
  | 0, _ => []
  | n + 1, x => wordsFrom x r :: wordBlocks r n (x + .ofNat r)

theorem length_wordBlocks (r n : Nat) (x : UInt64) : (wordBlocks r n x).length = n := by
  induction n generalizing x with
  | zero => rfl
  | succ n ih => rw [wordBlocks, List.length_cons, ih]

theorem flatten_wordBlocks (r n : Nat) (x : UInt64) : (wordBlocks r n x).flatten = wordsFrom x (n * r) := by
  induction n generalizing x with
  | zero => simp [wordBlocks, wordsFrom]
  | succ n ih => rw [wordBlocks, List.flatten_cons, ih, Nat.succ_mul, Nat.add_comm, wordsFrom_add]

theorem ne_nil_of_mem_wordBlocks {r n : Nat} {x : UInt64} {b : List UInt64} (hr : r ≠ 0)
    (h : b ∈ wordBlocks r n x) : b ≠ [] := by
  induction n generalizing x with
  | zero => cases h
  | succ n ih =>
    rcases List.mem_cons.1 h with rfl | h
    · simpa [wordsFrom] using hr
    · exact ih h
