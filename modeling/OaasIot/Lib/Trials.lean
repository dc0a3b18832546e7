import Mathlib

/-!
# Independent trials

A list of numbers is a list of trials, each with its probability of success. `atLeast ps q` is the probability that at
least `q` of them succeed, by recursion: the first one fails or succeeds, and the others make up the rest.
-/

namespace Trials

open List

theorem forall₂_take_of_sublist {α : Type} [Preorder α] {ps qs : List α} (hsorted : ps.Pairwise (· ≤ ·)) (hsub : qs.Sublist ps) :
    List.Forall₂ (· ≤ ·) (ps.take qs.length) qs := by
  induction ps generalizing qs with
  | nil =>
    obtain rfl := sublist_nil.1 hsub
    exact .nil
  | cons a ps ih =>
    obtain ⟨hfirst, hrest⟩ := pairwise_cons.1 hsorted
    cases qs with
    | nil => exact .nil
    | cons b bs =>
      have hle : a ≤ b := by
        rcases mem_cons.1 (hsub.mem mem_cons_self) with rfl | hb
        · exact le_rfl
        · exact hfirst b hb
      exact .cons hle (ih hrest hsub.of_cons_cons)

variable {R : Type} [CommRing R]

def atLeast : List R → Nat → R
  | _, 0 => 1
  | [], _ + 1 => 0
  | p :: ps, q + 1 => (1 - p) * atLeast ps (q + 1) + p * atLeast ps q

@[simp] theorem atLeast_zero (ps : List R) : atLeast ps 0 = 1 := by cases ps <;> rfl

@[simp] theorem atLeast_nil_succ (q : Nat) : atLeast ([] : List R) (q + 1) = 0 := rfl

theorem atLeast_cons_succ (p : R) (ps : List R) (q : Nat) :
    atLeast (p :: ps) (q + 1) = (1 - p) * atLeast ps (q + 1) + p * atLeast ps q := rfl

/-! ## Order -/

theorem atLeast_swap (a b : R) (ps : List R) (q : Nat) : atLeast (a :: b :: ps) q = atLeast (b :: a :: ps) q := by
  match q with
  | 0 => simp
  | 1 =>
    simp only [atLeast_cons_succ, atLeast_zero]
    ring
  | q + 2 =>
    simp only [atLeast_cons_succ]
    ring

variable {ps qs : List R}

theorem atLeast_perm (h : ps.Perm qs) (q : Nat) : atLeast ps q = atLeast qs q := by
  induction h generalizing q with
  | nil => rfl
  | cons p _ ih =>
    cases q with
    | zero => simp
    | succ q => rw [atLeast_cons_succ, atLeast_cons_succ, ih, ih]
  | swap a b ps => exact atLeast_swap b a ps q
  | trans _ _ ih₁ ih₂ => rw [ih₁, ih₂]

theorem atLeast_concat (ps : List R) (p : R) (q : Nat) :
    atLeast (ps ++ [p]) (q + 1) = (1 - p) * atLeast ps (q + 1) + p * atLeast ps q := by
  rw [atLeast_perm (perm_append_singleton p ps), atLeast_cons_succ]

/-! ## Sets of trials -/

section Sets

variable {ι : Type} [DecidableEq ι]

def exactly (s : Finset ι) (p : ι → R) (up : Finset ι) : R := ∏ i ∈ s, if i ∈ up then p i else 1 - p i

variable {s : Finset ι} {a : ι}

theorem exactly_insert_of_notMem {up : Finset ι} (p : ι → R) (ha : a ∉ s) (hup : a ∉ up) :
    exactly (insert a s) p up = (1 - p a) * exactly s p up := by
  rw [exactly, Finset.prod_insert ha, if_neg hup]
  rfl

theorem exactly_insert_insert {up : Finset ι} (p : ι → R) (ha : a ∉ s) :
    exactly (insert a s) p (insert a up) = p a * exactly s p up := by
  rw [exactly, Finset.prod_insert ha, if_pos (Finset.mem_insert_self a up), exactly]
  congr 1
  refine Finset.prod_congr rfl fun i hi => ?_
  have hne : i ≠ a := fun h => ha (h ▸ hi)
  simp [Finset.mem_insert, hne]

def tail (s : Finset ι) (p : ι → R) (q : Nat) : R := ∑ up ∈ s.powerset with q ≤ up.card, exactly s p up

theorem tail_insert (p : ι → R) (ha : a ∉ s) (q : Nat) :
    tail (insert a s) p q = (1 - p a) * tail s p q + p a * tail s p (q - 1) := by
  have hnot : ∀ up ∈ s.powerset, a ∉ up := fun up hup h => ha (Finset.mem_powerset.1 hup h)
  simp only [tail, Finset.sum_filter, Finset.mul_sum]
  rw [Finset.sum_powerset_insert ha]
  congr 1
  · refine Finset.sum_congr rfl fun up hup => ?_
    rw [exactly_insert_of_notMem p ha (hnot up hup), mul_ite, mul_zero]
  · refine Finset.sum_congr rfl fun up hup => ?_
    rw [exactly_insert_insert p ha, Finset.card_insert_of_notMem (hnot up hup), mul_ite, mul_zero]
    exact if_congr (by omega) rfl rfl

theorem tail_zero (s : Finset ι) (p : ι → R) : tail s p 0 = 1 := by
  induction s using Finset.induction_on with
  | empty => simp [tail, exactly]
  | insert a s ha ih =>
    rw [tail_insert p ha, Nat.zero_sub, ih]
    ring

theorem exactly_congr {p p' : ι → R} (h : ∀ i ∈ s, p i = p' i) (up : Finset ι) : exactly s p up = exactly s p' up :=
  Finset.prod_congr rfl fun i hi => by rw [h i hi]

end Sets

theorem atLeast_eq_sum (ps : List R) (q : Nat) :
    atLeast ps q = tail (Finset.range ps.length) (fun i => ps.getD i 0) q := by
  induction ps using reverseRecOn generalizing q with
  | nil =>
    cases q with
    | zero => simp [tail_zero]
    | succ q => simp [tail, Finset.sum_filter]
  | append_singleton ps p ih =>
    have hlast : (ps ++ [p]).getD ps.length 0 = p := by simp
    have hfront : ∀ q, tail (Finset.range ps.length) (fun i => (ps ++ [p]).getD i 0) q = atLeast ps q := by
      intro q
      rw [ih]
      refine Finset.sum_congr rfl fun up _ => exactly_congr (fun i hi => ?_) up
      rw [getD_append _ _ _ _ (Finset.mem_range.1 hi)]
    cases q with
    | zero => rw [atLeast_zero, tail_zero]
    | succ q =>
      rw [length_append, length_singleton, Finset.range_add_one, tail_insert _ Finset.notMem_range_self,
        hfront, hfront, hlast, atLeast_concat, Nat.add_sub_cancel]

/-! ## Monotonicity -/

section Order

variable [LinearOrder R] [IsStrictOrderedRing R]

def Probabilities (ps : List R) : Prop := ∀ p ∈ ps, 0 ≤ p ∧ p ≤ 1

theorem atLeast_succ_le (h : Probabilities ps) (q : Nat) : atLeast ps (q + 1) ≤ atLeast ps q := by
  induction ps generalizing q with
  | nil => cases q <;> simp
  | cons p ps ih =>
    obtain ⟨⟨hp0, hp1⟩, hps⟩ := forall_mem_cons.1 h
    have hq : 0 ≤ 1 - p := by linarith
    cases q with
    | zero =>
      rw [atLeast_cons_succ, atLeast_zero, atLeast_zero]
      have hone := mul_le_mul_of_nonneg_left (ih hps 0) hq
      rw [atLeast_zero] at hone
      linarith
    | succ q =>
      rw [atLeast_cons_succ, atLeast_cons_succ]
      exact add_le_add (mul_le_mul_of_nonneg_left (ih hps (q + 1)) hq) (mul_le_mul_of_nonneg_left (ih hps q) hp0)

theorem atLeast_mono (h : List.Forall₂ (· ≤ ·) ps qs) (hps : Probabilities ps) (hqs : Probabilities qs) (q : Nat) :
    atLeast ps q ≤ atLeast qs q := by
  induction h generalizing q with
  | nil => exact le_rfl
  | @cons a b as bs hab _ ih =>
    obtain ⟨⟨ha0, ha1⟩, has⟩ := forall_mem_cons.1 hps
    obtain ⟨_, hbs⟩ := forall_mem_cons.1 hqs
    cases q with
    | zero => simp
    | succ q =>
      rw [atLeast_cons_succ, atLeast_cons_succ]
      have hfail := mul_le_mul_of_nonneg_left (ih has hbs (q + 1)) (sub_nonneg.2 ha1)
      have hwin := mul_le_mul_of_nonneg_left (ih has hbs q) ha0
      -- from the first trial of `ps` to that of `qs`: what is moved counts for more where it goes
      have hmove := mul_nonneg (sub_nonneg.2 hab) (sub_nonneg.2 (atLeast_succ_le hbs q))
      linarith [hfail, hwin, hmove]

theorem atLeast_take_le (hps : Probabilities ps) (hsorted : ps.Pairwise (· ≤ ·)) (h : qs.Subperm ps) (q : Nat) :
    atLeast (ps.take qs.length) q ≤ atLeast qs q := by
  obtain ⟨chosen, hperm, hsub⟩ := h
  have hchosen : Probabilities chosen := fun p hp => hps p (hsub.mem hp)
  have hprefix : Probabilities (ps.take chosen.length) := fun p hp => hps p (mem_of_mem_take hp)
  rw [← hperm.length_eq, ← atLeast_perm hperm]
  exact atLeast_mono (forall₂_take_of_sublist hsorted hsub) hprefix hchosen q

end Order

end Trials
