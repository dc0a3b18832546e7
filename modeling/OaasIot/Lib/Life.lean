import Mathlib

/-!
# The game of life on a rectangle

Which cells are alive is a predicate of their coordinates. `rowByRow` lists the cells of a rectangle in the order of two
nested loops.
-/

namespace Life

open List

abbrev Cell := Nat × Nat

/-- A king's move apart. -/
def Adjacent (p q : Cell) : Prop :=
  p ≠ q ∧ p.1 ≤ q.1 + 1 ∧ q.1 ≤ p.1 + 1 ∧ p.2 ≤ q.2 + 1 ∧ q.2 ≤ p.2 + 1

noncomputable def liveNeighbours (alive : Cell → Prop) (p : Cell) : Nat := {q | Adjacent p q ∧ alive q}.ncard

/-- Born on three live neighbours, alive on two or three. -/
def Next (alive : Cell → Prop) (p : Cell) : Prop :=
  (¬alive p ∧ liveNeighbours alive p = 3) ∨ (alive p ∧ (liveNeighbours alive p = 2 ∨ liveNeighbours alive p = 3))

/-- **One generation** on a board, and how many cells it changed. -/
structure IsStep (board before after : Cell → Prop) (births deaths : Nat) : Prop where
  cells : ∀ p, after p ↔ board p ∧ Next before p
  births : births = {p | ¬before p ∧ after p}.ncard
  deaths : deaths = {p | before p ∧ ¬after p}.ncard

/-- The counts are those of the cells with three neighbours, and without two or three. -/
theorem IsStep.of_counts {board before after : Cell → Prop} {births deaths : Nat}
    (hboard : ∀ p, before p → board p) (hcells : ∀ p, after p ↔ board p ∧ Next before p)
    (hbirths : births = {p | board p ∧ ¬before p ∧ liveNeighbours before p = 3}.ncard)
    (hdeaths : deaths = {p | board p ∧ before p ∧ liveNeighbours before p ≠ 2 ∧ liveNeighbours before p ≠ 3}.ncard) :
    IsStep board before after births deaths := by
  refine ⟨hcells, ?_, ?_⟩
  · rw [hbirths]
    congr 1
    ext p
    simp only [Set.mem_ofPred_eq, hcells, Next]
    tauto
  · rw [hdeaths]
    congr 1
    ext p
    have := hboard p
    simp only [Set.mem_ofPred_eq, hcells, Next]
    tauto

def rowByRow (w h : Nat) : List Cell := (List.range h).flatMap fun y => (List.range w).map fun x => (x, y)

theorem mem_rowByRow {w h : Nat} {p : Cell} : p ∈ rowByRow w h ↔ p.1 < w ∧ p.2 < h := by
  obtain ⟨x, y⟩ := p
  simp [rowByRow, and_comm]

theorem nodup_rowByRow (w h : Nat) : (rowByRow w h).Nodup := by
  refine nodup_flatMap.2 ⟨fun y _ => nodup_range.map fun _ _ he => (Prod.mk.inj he).1, ?_⟩
  refine nodup_range.imp fun hne => disjoint_left.2 fun p hp hp' => ?_
  obtain ⟨_, _, rfl⟩ := mem_map.1 hp
  obtain ⟨_, _, he⟩ := mem_map.1 hp'
  exact hne (Prod.mk.inj he).2.symm

theorem ncard_eq_countP {α : Type} {l : List α} (hnd : l.Nodup) {s : Set α} {p : α → Bool}
    (h : ∀ x, x ∈ s ↔ x ∈ l ∧ p x = true) : s.ncard = l.countP p := by
  classical
  have hs : s = ↑(l.filter p).toFinset := by
    ext x
    simp [h]
  rw [hs, Set.ncard_coe_finset, toFinset_card_of_nodup (hnd.filter p), countP_eq_length_filter]

end Life
