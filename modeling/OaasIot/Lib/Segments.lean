import Mathlib

/-!
# The segments of a path

A path is split at a separator, separators at either end are trimmed and empty pieces are dropped. What the pieces of a
joined path are follows from one equation: a separator between two paths joins their segments.
-/

section
variable {α : Type} [DecidableEq α] (sep : α)

def trimMatches (l : List α) : List α := (l.dropWhile (· == sep)).rdropWhile (· == sep)
def segments (l : List α) : List (List α) := ((trimMatches sep l).splitOn sep).filter (· ≠ [])
def pieces (l : List α) : List (List α) := (l.splitOn sep).filter (· ≠ [])

theorem pieces_append (a b : List α) : pieces sep (a ++ sep :: b) = pieces sep a ++ pieces sep b := by
  unfold pieces
  rw [List.splitOn_append_cons_self, List.filter_append]

theorem pieces_nil : pieces sep [] = [] := by
  simp [pieces]

variable (l : List α)

theorem pieces_cons_sep : pieces sep (sep :: l) = pieces sep l := by
  have h := pieces_append sep [] l
  rwa [pieces_nil, List.nil_append, List.nil_append] at h

theorem pieces_dropWhile : pieces sep (l.dropWhile (· == sep)) = pieces sep l := by
  induction l with
  | nil => rfl
  | cons x l ih =>
    by_cases hx : x = sep
    · subst hx
      rw [List.dropWhile_cons_of_pos (by simp), ih, pieces_cons_sep]
    · rw [List.dropWhile_cons_of_neg (by simpa using hx)]

theorem pieces_rdropWhile : pieces sep (l.rdropWhile (· == sep)) = pieces sep l := by
  induction l using List.reverseRecOn with
  | nil => rfl
  | append_singleton l x ih =>
    by_cases hx : x = sep
    · subst hx
      rw [List.rdropWhile_concat_pos _ _ _ (by simp), ih, pieces_append, pieces_nil, List.append_nil]
    · rw [List.rdropWhile_concat_neg _ _ _ (by simpa using hx)]

theorem segments_eq_pieces : segments sep l = pieces sep l := by
  rw [← pieces_dropWhile, ← pieces_rdropWhile]
  rfl

@[simp] theorem segments_nil : segments sep [] = [] := by
  rw [segments_eq_pieces, pieces_nil]

theorem segments_append (a b : List α) : segments sep (a ++ sep :: b) = segments sep a ++ segments sep b := by
  simp only [segments_eq_pieces, pieces_append]

theorem segments_word {w : List α} (hne : w ≠ []) (h : sep ∉ w) : segments sep w = [w] := by
  have hsplit : w.splitOn sep = [w] := by
    simpa using List.splitOn_intercalate sep (by simpa using h) (List.cons_ne_nil w [])
  rw [segments_eq_pieces, pieces, hsplit]
  simp [hne]

theorem segments_cases {w : List α} (h : sep ∉ w) : segments sep w = [] ∨ segments sep w = [w] := by
  by_cases hne : w = []
  · left
    rw [hne, segments_nil]
  · right
    exact segments_word sep hne h

end

section
variable {β : Type} (p : β → Bool)

def rposition (l : List β) : Option Nat := (l.reverse.findIdx? p).map fun i => l.length - 1 - i

theorem rposition_append_cons {x : β} (a : List β) {b : List β} (hx : p x = true) (hb : ∀ y ∈ b, p y = false) :
    rposition p (a ++ x :: b) = some a.length := by
  have hnone : b.reverse.findIdx? p = none := by
    rw [List.findIdx?_eq_none_iff]
    intro y hy
    exact hb y (List.mem_reverse.1 hy)
  have hfind : (a ++ x :: b).reverse.findIdx? p = some b.length := by
    rw [List.reverse_append, List.reverse_cons, List.append_assoc, List.findIdx?_append, hnone]
    simp [List.findIdx?_cons, hx]
  rw [rposition, hfind]
  simp

end
