import OaasIot.Lib.Trials
import OaasIot.Pm.Requirements

/-!
# How many clusters make a quorum (`oprc-pm/src/services/deployment/workflow.rs:543-586`)

`cluster_quorum_availability` computes the distribution of the number of live clusters and adds up its upper half;
`required_replicas_quorum` takes clusters, worst first, until that reaches the target. Here the availabilities are
**exact rational numbers** (`exact`); with `f64` every step rounds.
-/

open Trials

namespace Pm

open List

def exact : FloatOps ℚ where
  zero := 0
  one := 1
  defaultTarget := 99 / 100
  maxTarget := 999999999 / 1000000000
  ratio r n := r.toNat / n.toNat
  add a b := a + b
  sub a b := a - b
  mul a b := a * b
  partialCmp a b := some (compare a b)

theorem exact_ge (a b : ℚ) : exact.ge a b = true ↔ b ≤ a := by
  simp [FloatOps.ge, exact, compare_gt_iff_gt, le_iff_lt_or_eq, eq_comm (a := a)]

theorem exact_lt (a b : ℚ) : exact.lt a b = true ↔ a < b := by
  simp [FloatOps.lt, exact, compare_lt_iff_lt]

theorem exact_clamp_of_mem {lo hi p : ℚ} (hlo : lo ≤ p) (hhi : p ≤ hi) : exact.clamp lo hi p = p := by
  simp [FloatOps.clamp, exact_lt, hlo.not_gt, hhi.not_gt]

/-! ## The convolution -/

theorem sum_spread (p carry : ℚ) (dist : List ℚ) : (spread exact p carry dist).sum = carry + dist.sum := by
  induction dist generalizing carry with
  | nil => simp [spread]
  | cons base rest ih =>
    rw [spread, sum_cons, ih, sum_cons]
    simp only [exact]
    ring

theorem sum_drop_spread (p carry : ℚ) (dist : List ℚ) (q : Nat) :
    ((spread exact p carry dist).drop (q + 1)).sum = (1 - p) * (dist.drop (q + 1)).sum + p * (dist.drop q).sum := by
  induction dist generalizing carry q with
  | nil => simp [spread]
  | cons base rest ih =>
    rw [spread, drop_succ_cons, drop_succ_cons]
    cases q with
    | zero =>
      rw [drop_zero, drop_zero, drop_zero, sum_spread, sum_cons]
      simp only [exact]
      ring
    | succ q => rw [ih, drop_succ_cons]

theorem sum_drop_dist (avails : List ℚ) (q : Nat) :
    ((avails.foldl (fun dist p => spread exact p exact.zero dist) [exact.one]).drop q).sum = atLeast avails q := by
  induction avails using reverseRecOn generalizing q with
  | nil =>
    cases q with
    | zero => simp [exact]
    | succ q => simp
  | append_singleton avails p ih =>
    rw [foldl_append, foldl_cons, foldl_nil]
    cases q with
    | zero =>
      have hall := ih 0
      rw [drop_zero, atLeast_zero] at hall
      rw [drop_zero, sum_spread, hall, atLeast_zero]
      simp [exact]
    | succ q => rw [sum_drop_spread, ih, ih, atLeast_concat]

theorem clusterQuorumAvailability_exact (avails : List ℚ) :
    clusterQuorumAvailability exact avails = atLeast avails (avails.length / 2 + 1) := by
  have hfold : ∀ l : List ℚ, l.foldl exact.add exact.zero = l.sum := fun _ => sum_eq_foldl.symm
  unfold clusterQuorumAvailability
  split
  · rename_i hnil
    rw [isEmpty_iff.1 hnil]
    rfl
  · rw [hfold, sum_drop_dist]

/-! ## The loop over the clusters -/

section Loop

variable {t p : ℚ} {maxR i n : Nat} {current ps : List ℚ}

theorem quorumLoop_cons (hp : 0 ≤ p ∧ p ≤ 1) : quorumLoop exact t maxR current i (p :: ps) =
    if t ≤ clusterQuorumAvailability exact (current ++ [p]) then some (i + 1)
    else if maxR ≤ i + 1 then none else quorumLoop exact t maxR (current ++ [p]) (i + 1) ps := by
  have hclamp : exact.clamp exact.zero exact.one p = p := exact_clamp_of_mem hp.1 hp.2
  simp only [quorumLoop, hclamp, exact_ge]

theorem quorumLoop_some (hps : Probabilities ps) (h : quorumLoop exact t maxR current i ps = some n) :
    ∃ k, n = i + k + 1 ∧ t ≤ clusterQuorumAvailability exact (current ++ ps.take (k + 1)) ∧
      ∀ j < k, clusterQuorumAvailability exact (current ++ ps.take (j + 1)) < t := by
  induction ps generalizing current i with
  | nil => cases h
  | cons p ps ih =>
    obtain ⟨hp, hrest⟩ := forall_mem_cons.1 hps
    rw [quorumLoop_cons hp] at h
    split at h
    · rename_i hreach
      cases h
      exact ⟨0, rfl, by simpa using hreach, by simp⟩
    · rename_i hshort
      split at h
      · cases h
      · obtain ⟨k, rfl, hreach, hbefore⟩ := ih hrest h
        refine ⟨k + 1, by omega, by simpa using hreach, fun j hj => ?_⟩
        cases j with
        | zero => simpa using hshort
        | succ j => simpa using hbefore j (by omega)

theorem quorumLoop_none (hps : Probabilities ps) (h : quorumLoop exact t maxR current i ps = none) :
    ∀ k < ps.length, k = 0 ∨ i + k < maxR → clusterQuorumAvailability exact (current ++ ps.take (k + 1)) < t := by
  induction ps generalizing current i with
  | nil => intro k hk; cases hk
  | cons p ps ih =>
    obtain ⟨hp, hrest⟩ := forall_mem_cons.1 hps
    rw [quorumLoop_cons hp] at h
    split at h
    · cases h
    · rename_i hshort
      intro k hk htried
      cases k with
      | zero => simpa using hshort
      | succ k =>
        split at h
        · omega
        · have hnext := ih hrest h k (by simpa using hk) (by omega)
          simpa using hnext

end Loop

def clampedTarget (target : ℚ) : ℚ := exact.clamp exact.zero exact.maxTarget target

theorem clampedTarget_nonneg (target : ℚ) : 0 ≤ clampedTarget target := by
  unfold clampedTarget FloatOps.clamp
  split
  · exact le_rfl
  · rename_i hlow
    split
    · norm_num [exact]
    · rw [exact_lt] at hlow
      exact not_lt.1 hlow

theorem requiredReplicasQuorum_cases (target : ℚ) (sorted : List ℚ) (maxR : Nat) :
    (sorted = [] ∧ requiredReplicasQuorum exact target sorted maxR = 1) ∨
      quorumLoop exact (clampedTarget target) maxR [] 0 sorted = some (requiredReplicasQuorum exact target sorted maxR) ∨
      (quorumLoop exact (clampedTarget target) maxR [] 0 sorted = none ∧ sorted ≠ [] ∧
        requiredReplicasQuorum exact target sorted maxR = max (min sorted.length maxR) 1) := by
  unfold requiredReplicasQuorum
  cases sorted with
  | nil => exact .inl ⟨rfl, rfl⟩
  | cons p ps =>
    unfold clampedTarget
    cases hloop : quorumLoop exact (exact.clamp exact.zero exact.maxTarget target) maxR [] 0 (p :: ps) <;> simp [hloop]

theorem requiredReplicasQuorum_least {target : ℚ} {sorted : List ℚ} {maxR : Nat} (hps : Probabilities sorted)
    (hreach : clampedTarget target ≤
      clusterQuorumAvailability exact (sorted.take (requiredReplicasQuorum exact target sorted maxR)))
    {m : Nat} (hpos : 0 < m) (hm : m < requiredReplicasQuorum exact target sorted maxR) :
    clusterQuorumAvailability exact (sorted.take m) < clampedTarget target := by
  obtain ⟨j, rfl⟩ : ∃ j, m = j + 1 := Nat.exists_eq_succ_of_ne_zero (by omega)
  rcases requiredReplicasQuorum_cases target sorted maxR with ⟨_, hone⟩ | hloop | ⟨hloop, hne, hall⟩
  · omega
  · obtain ⟨k, hk, _, hbefore⟩ := quorumLoop_some hps hloop
    simpa using hbefore j (by omega)
  · -- all clusters were tried, so the prefix of that length does not reach the target
    have hlen : 0 < sorted.length := length_pos_iff.2 hne
    obtain ⟨k, hk⟩ := Nat.exists_eq_succ_of_ne_zero (n := requiredReplicasQuorum exact target sorted maxR) (by omega)
    have hshort := quorumLoop_none hps hloop k (by omega) (by omega)
    rw [hk] at hreach
    exact absurd hreach (not_le.2 hshort)

/-! ## The sizing -/

/-- **Quorum sizing**: the availability of a quorum is the probability of a majority, the prefix is the shortest that
reaches the target, and any choice of that many clusters reaches it. -/
theorem quorum_sizing (avails : List ℚ) (target : ℚ) (sorted : List ℚ) (maxR : Nat) (hps : Probabilities sorted)
    (hsorted : sorted.Pairwise (· ≤ ·)) :
    clusterQuorumAvailability exact avails =
        ∑ up ∈ (Finset.range avails.length).powerset with avails.length / 2 + 1 ≤ up.card,
          exactly (Finset.range avails.length) (fun i => avails.getD i 0) up ∧
      (clampedTarget target ≤
          clusterQuorumAvailability exact (sorted.take (requiredReplicasQuorum exact target sorted maxR)) →
        (∀ m < requiredReplicasQuorum exact target sorted maxR, m ≠ 0 ∨ clampedTarget target ≠ 0 →
          clusterQuorumAvailability exact (sorted.take m) < clampedTarget target) ∧
        ∀ chosen : List ℚ, chosen.Subperm sorted → chosen.length = requiredReplicasQuorum exact target sorted maxR →
          clampedTarget target ≤ clusterQuorumAvailability exact chosen) := by
  refine ⟨?_, fun hreach => ⟨fun m hm hne => ?_, fun chosen hchosen hlen => ?_⟩⟩
  · rw [clusterQuorumAvailability_exact, atLeast_eq_sum]
    rfl
  · cases m with
    | zero =>
      have hzero : clampedTarget target ≠ 0 := hne.resolve_left (fun h => h rfl)
      exact lt_of_le_of_ne (clampedTarget_nonneg target) hzero.symm
    | succ m => exact requiredReplicasQuorum_least hps hreach (Nat.succ_pos m) hm
  · have hle : chosen.length ≤ sorted.length := hchosen.length_le
    rw [← hlen, clusterQuorumAvailability_exact, length_take, Nat.min_eq_left hle] at hreach
    rw [clusterQuorumAvailability_exact]
    exact hreach.trans (atLeast_take_le hps hsorted hchosen _)

theorem quorum_sizing_three :
    requiredReplicasQuorum exact (95 / 100) [9 / 10, 9 / 10, 9 / 10] 50 = 3 ∧
      ∀ chosen : List ℚ, chosen.Subperm [9 / 10, 9 / 10, 9 / 10] → chosen.length = 3 →
        clampedTarget (95 / 100) ≤ clusterQuorumAvailability exact chosen := by
  have hsize : requiredReplicasQuorum exact (95 / 100) [9 / 10, 9 / 10, 9 / 10] 50 = 3 := by decide +kernel
  have hps : Probabilities ([9 / 10, 9 / 10, 9 / 10] : List ℚ) := by
    intro p hp
    obtain rfl : p = 9 / 10 := by simpa using hp
    norm_num
  have hreach : clampedTarget (95 / 100) ≤ clusterQuorumAvailability exact
      (([9 / 10, 9 / 10, 9 / 10] : List ℚ).take (requiredReplicasQuorum exact (95 / 100) [9 / 10, 9 / 10, 9 / 10] 50)) := by
    decide +kernel
  have hall := ((quorum_sizing [] (95 / 100) [9 / 10, 9 / 10, 9 / 10] 50 hps (by simp)).2 hreach).2
  rw [hsize] at hall
  exact ⟨hsize, hall⟩

end Pm
