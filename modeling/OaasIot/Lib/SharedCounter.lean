import OaasIot.Lib.Program

/-!
# A counter that clients read and write back

Clients share a counter that stops at `max`. A client reads it, and puts it up once by writing the value it has
read plus one; it may also set it back to zero. Nothing holds the counter between the read and the
write.
-/

structure Client where
  read : Option Nat
  bumped : Bool
  deriving DecidableEq

structure SharedCounter where
  value : Nat
  clients : Nat → Client

namespace SharedCounter

inductive Act
  | quiet
  | read
  | reset
  | bump
  deriving DecidableEq

variable (max n : Nat)

variable (s : SharedCounter)

def perform (i : Nat) : Act → SharedCounter
  | .quiet => s
  | .read => ⟨s.value, Function.update s.clients i { s.clients i with read := some s.value }⟩
  | .reset => ⟨0, s.clients⟩
  | .bump => ⟨min ((s.clients i).read.getD 0 + 1) max, Function.update s.clients i { s.clients i with bumped := true }⟩

def Legal (i : Nat) : Act → Prop
  | .bump => i < n ∧ (s.clients i).bumped = false ∧ (s.clients i).read ≠ none
  | _ => True

def Safe (i : Nat) : Act → Prop
  | .quiet => True
  | .read => True
  | .reset => s.value = 0
  | .bump => (s.clients i).read = some s.value ∧ s.value < max

def count : Nat := ((Finset.range n).filter fun i => (s.clients i).bumped = true).card
def ReadsAtMost (m : Nat) : Prop := ∀ i r, (s.clients i).read = some r → r ≤ m

variable {max n} {s : SharedCounter} {i m start : Nat}

theorem count_congr {s' : SharedCounter} (h : ∀ i, (s'.clients i).bumped = (s.clients i).bumped) :
    s'.count n = s.count n := by
  unfold count
  simp only [h]

theorem count_bump (h : s.Legal n i .bump) : (s.perform max i .bump).count n = s.count n + 1 := by
  obtain ⟨hi, hb, _⟩ := h
  have hset : (Finset.range n).filter (fun j => ((s.perform max i .bump).clients j).bumped = true) =
      insert i ((Finset.range n).filter fun j => (s.clients j).bumped = true) := by
    ext j
    rw [Finset.mem_filter, Finset.mem_insert, Finset.mem_filter, Finset.mem_range]
    by_cases hj : j = i
    · subst hj
      simp [perform, hi]
    · simp [perform, hj]
  rw [count, hset, Finset.card_insert_of_notMem (by simp [hb]), count]

theorem ReadsAtMost.perform (h : s.ReadsAtMost m) (hv : s.value ≤ m) (i : Nat) (act : Act) {m' : Nat} (hm : m ≤ m') :
    (s.perform max i act).ReadsAtMost m' := by
  have hold : ∀ j r, (s.clients j).read = some r → r ≤ m' := fun j r hr => (h j r hr).trans hm
  intro j r hr
  cases act with
  | quiet | reset => exact hold j r hr
  | read =>
    simp only [SharedCounter.perform, Function.update_apply] at hr
    split at hr
    · cases hr
      exact hv.trans hm
    · exact hold j r hr
  | bump =>
    simp only [SharedCounter.perform, Function.update_apply] at hr
    split at hr
    · exact hold i r hr
    · exact hold j r hr

/-! ## Every increment counts -/

structure Tight (n start : Nat) (s : SharedCounter) : Prop where
  reads : s.ReadsAtMost s.value
  value : s.value = start + s.count n

variable {act : Act}

theorem count_perform (hact : act ≠ .bump) : (s.perform max i act).count n = s.count n := by
  cases act with
  | quiet => rfl
  | read =>
    refine count_congr fun j => ?_
    simp only [perform, Function.update_apply]
    split
    · rename_i hj
      rw [hj]
    · rfl
  | reset => rfl
  | bump => exact absurd rfl hact

theorem Tight.step (h : s.Tight n start) (hlegal : s.Legal n i act) (hsafe : s.Safe max i act) :
    (s.perform max i act).Tight n start ∧ s.value ≤ (s.perform max i act).value := by
  have hcount := h.value
  cases act with
  | quiet => exact ⟨h, le_rfl⟩
  | read => exact ⟨⟨h.reads.perform le_rfl i .read le_rfl, by rw [count_perform (by decide)]; exact hcount⟩, le_rfl⟩
  | reset =>
    have hzero : s.value = 0 := hsafe
    have hsame : s.perform max i .reset = s := by rw [perform, ← hzero]
    rw [hsame]
    exact ⟨h, le_rfl⟩
  | bump =>
    obtain ⟨hread, hlt⟩ := hsafe
    have hvalue : (s.perform max i .bump).value = s.value + 1 := by
      simp only [perform, hread, Option.getD_some]
      omega
    refine ⟨⟨?_, ?_⟩, by omega⟩
    · rw [hvalue]
      exact h.reads.perform le_rfl i .bump (Nat.le_succ _)
    · rw [hvalue, count_bump hlegal]
      omega

/-! ## A lost increment -/

/-- Nobody will ever see the counter reach what it should be. -/
def Loose (n start : Nat) (s : SharedCounter) : Prop :=
  ∃ m, s.value ≤ m ∧ s.ReadsAtMost m ∧ m + 1 ≤ start + s.count n

theorem Loose.step (h : s.Loose n start) (hlegal : s.Legal n i act) : (s.perform max i act).Loose n start := by
  obtain ⟨m, hv, hreads, hcount⟩ := h
  cases act with
  | quiet => exact ⟨m, hv, hreads, hcount⟩
  | read => exact ⟨m, hv, hreads.perform hv i .read le_rfl, by rw [count_perform (by decide)]; exact hcount⟩
  | reset => exact ⟨m, Nat.zero_le m, hreads.perform hv i .reset le_rfl, hcount⟩
  | bump =>
    obtain ⟨r, hr⟩ := Option.ne_none_iff_exists'.1 hlegal.2.2
    have hle := hreads i r hr
    refine ⟨m + 1, ?_, hreads.perform hv i .bump (Nat.le_succ m), ?_⟩
    · simp only [perform, hr, Option.getD_some]
      omega
    · rw [count_bump hlegal]
      omega

theorem Tight.loose_of_not_safe (h : s.Tight n start) (hmax : s.value ≤ max) (hlegal : s.Legal n i .bump)
    (hbad : ¬ s.Safe max i .bump) : (s.perform max i .bump).Loose n start := by
  obtain ⟨r, hr⟩ := Option.ne_none_iff_exists'.1 hlegal.2.2
  have hle := h.reads i r hr
  have hcount := h.value
  refine ⟨s.value, ?_, h.reads.perform le_rfl i .bump le_rfl, ?_⟩
  · simp only [perform, hr, Option.getD_some]
    by_contra hgt
    -- Only a read of the present value below `max` would put the counter up.
    refine hbad ⟨?_, by omega⟩
    rw [hr]
    congr 1
    omega
  · rw [count_bump hlegal]
    omega

/-! ## Systems that behave like a shared counter -/

structure Simulates {σ ι : Type} (max n : Nat) (step : σ → ι → σ) (abs : σ → SharedCounter)
    (act : σ → ι → Nat × Act) (Inv : σ → Prop) : Prop where
  inv : ∀ s i, Inv s → Inv (step s i)
  bounded : ∀ s, Inv s → (abs s).value ≤ max
  legal : ∀ s i, Inv s → (abs s).Legal n (act s i).1 (act s i).2
  step : ∀ s i, Inv s → abs (step s i) = (abs s).perform max (act s i).1 (act s i).2

namespace Simulates

variable {σ ι : Type} {step : σ → ι → σ} {abs : σ → SharedCounter} {act : σ → ι → Nat × Act} {Inv : σ → Prop}

def Law (step : σ → ι → σ) (abs : σ → SharedCounter) (completed : σ → Nat) (start : Nat) (s : σ) (i : ι) : Prop :=
  (abs s).value ≤ (abs (step s i)).value ∧ start + completed (step s i) ≤ (abs (step s i)).value

def SafeStep (max : Nat) (abs : σ → SharedCounter) (act : σ → ι → Nat × Act) (s : σ) (i : ι) : Prop :=
  (abs s).Safe max (act s i).1 (act s i).2

variable {s : σ} {completed : σ → Nat} {is : List ι} (sim : Simulates max n step abs act Inv)
include sim

theorem law_of_safe (hle : ∀ s, Inv s → completed s ≤ (abs s).count n)
    (hs : Inv s) (htight : (abs s).Tight n start) (h : AlongRun step (SafeStep max abs act) s is) :
    AlongRun step (Law step abs completed start) s is := by
  induction is generalizing s with
  | nil => trivial
  | cons i is ih =>
    obtain ⟨htight', hmono⟩ := htight.step (sim.legal s i hs) h.1
    rw [← sim.step s i hs] at htight' hmono
    have hcompleted := hle _ (sim.inv s i hs)
    have hvalue := htight'.value
    exact ⟨⟨hmono, by omega⟩, ih (sim.inv s i hs) htight' h.2⟩

theorem not_law_of_loose (hs : Inv s) (hloose : (abs s).Loose n start)
    (hnow : start + completed s ≤ (abs s).value)
    (hend : (abs (is.foldl step s)).count n ≤ completed (is.foldl step s))
    (h : AlongRun step (Law step abs completed start) s is) : False := by
  induction is generalizing s with
  | nil =>
    obtain ⟨m, hv, _, hcount⟩ := hloose
    rw [List.foldl_nil] at hend
    omega
  | cons i is ih =>
    have hloose' : ((abs s).perform max (act s i).1 (act s i).2).Loose n start := hloose.step (sim.legal s i hs)
    rw [← sim.step s i hs] at hloose'
    exact ih (sim.inv s i hs) hloose' h.1.2 hend h.2

theorem safe_of_law (hs : Inv s) (htight : (abs s).Tight n start)
    (hend : (abs (is.foldl step s)).count n ≤ completed (is.foldl step s))
    (h : AlongRun step (Law step abs completed start) s is) : AlongRun step (SafeStep max abs act) s is := by
  induction is generalizing s with
  | nil => trivial
  | cons i is ih =>
    have hlegal := sim.legal s i hs
    have hstep := sim.step s i hs
    have hsafe : SafeStep max abs act s i := by
      unfold SafeStep
      cases hact : (act s i).2 with
      | quiet | read => trivial
      | reset =>
        have hmono := h.1.1
        rw [hstep, hact] at hmono
        exact Nat.le_zero.1 hmono
      | bump =>
        rw [hact] at hlegal hstep
        by_contra hbad
        have hloose := htight.loose_of_not_safe (sim.bounded s hs) hlegal hbad
        rw [← hstep] at hloose
        exact sim.not_law_of_loose (sim.inv s i hs) hloose h.1.2 hend h.2
    obtain ⟨htight', _⟩ := htight.step hlegal hsafe
    rw [← hstep] at htight'
    exact ⟨hsafe, ih (sim.inv s i hs) htight' hend h.2⟩

/-- **Lost updates**: over a run that completes what it began, the counter never goes down and counts every client
exactly when every action is safe. -/
theorem law_iff (hle : ∀ s, Inv s → completed s ≤ (abs s).count n)
    (hs : Inv s) (htight : (abs s).Tight n start)
    (hend : (abs (is.foldl step s)).count n ≤ completed (is.foldl step s)) :
    AlongRun step (Law step abs completed start) s is ↔ AlongRun step (SafeStep max abs act) s is :=
  ⟨sim.safe_of_law hs htight hend, sim.law_of_safe hle hs htight⟩

end Simulates

end SharedCounter
