import Mathlib

/-!
# Byte strings under the lexicographic order

Facts about lists over a linear order that an ordered key-value store needs: the keys with a
given prefix form an interval, and keys that end their first component with a least symbol
compare component by component.
-/

instance uint8LinearOrder : LinearOrder UInt8 where
  le_refl _ := UInt8.le_refl _
  le_trans _ _ _ := UInt8.le_trans
  le_antisymm _ _ := UInt8.le_antisymm
  le_total := UInt8.le_total
  lt_iff_le_not_ge _ _ := by simp only [UInt8.lt_iff_toNat_lt, UInt8.le_iff_toNat_le]; omega
  toDecidableLE := inferInstance
  toDecidableLT := inferInstance

abbrev Bytes := List UInt8

instance bytesLawfulBEq : LawfulBEq (List UInt8) := inferInstance

namespace Lex

open List

section
variable {α : Type*} [LinearOrder α]

theorem cons_le_cons_iff' {a b : α} {l m : List α} : a :: l ≤ b :: m ↔ a < b ∨ a = b ∧ l ≤ m := by
  rw [le_iff_lt_or_eq, cons_lt_cons_iff, le_iff_lt_or_eq, cons.injEq]
  tauto

theorem append_lt_append_iff (p : List α) {l m : List α} : p ++ l < p ++ m ↔ l < m := by
  induction p with
  | nil => rfl
  | cons a p ih => simp [ih]

theorem append_le_append_iff (p : List α) {l m : List α} : p ++ l ≤ p ++ m ↔ l ≤ m := by
  rw [← not_lt, append_lt_append_iff, not_lt]

theorem le_append (l m : List α) : l ≤ l ++ m := by
  conv_lhs => rw [← append_nil l]
  rw [append_le_append_iff, ← not_lt]
  exact not_lt_nil m

theorem prefix_of_between {x y : α} (hxy : x ⋖ y) :
    ∀ {p k : List α}, p ++ [x] ≤ k → k < p ++ [y] → p ++ [x] <+: k
  | [], [], h, _ => absurd h (by rw [not_le]; exact nil_lt_cons _ _)
  | [], b :: k, h, h' => by
    simp only [nil_append, cons_le_cons_iff', cons_lt_cons_iff, not_lt_nil, and_false,
      or_false] at h h'
    rcases h with h | ⟨rfl, _⟩
    · exact absurd h' (hxy.2 h)
    · exact ⟨k, rfl⟩
  | a :: p, [], h, _ => absurd h (by rw [not_le]; exact nil_lt_cons _ _)
  | a :: p, b :: k, h, h' => by
    simp only [cons_append, cons_le_cons_iff', cons_lt_cons_iff] at h h'
    rcases h with h | ⟨rfl, h⟩
    · rcases h' with h' | ⟨rfl, _⟩
      · exact absurd h' (lt_asymm h)
      · exact absurd h (lt_irrefl _)
    · rcases h' with h' | ⟨_, h'⟩
      · exact absurd h' (lt_irrefl _)
      · exact (prefix_cons_inj a).2 (prefix_of_between hxy h h')

theorem lt_of_extends {x y : α} (hxy : x < y) {p k : List α} (h : p ++ [x] <+: k) : k < p ++ [y] := by
  obtain ⟨t, rfl⟩ := h
  rw [append_assoc, append_lt_append_iff]
  exact List.Lex.rel hxy

theorem le_of_extends {p k : List α} (h : p <+: k) : p ≤ k := by
  obtain ⟨t, rfl⟩ := h
  exact le_append p t

theorem prefix_convex : ∀ {p a b c : List α}, p <+: a → p <+: c → a ≤ b → b ≤ c → p <+: b
  | [], _, b, _, _, _, _, _ => nil_prefix
  | x :: p, a, b, c, ha, hc, hab, hbc => by
    obtain ⟨s, rfl⟩ := ha
    obtain ⟨t, rfl⟩ := hc
    cases b with
    | nil => exact absurd hab (by rw [not_le]; exact nil_lt_cons _ _)
    | cons y b =>
      simp only [cons_append, cons_le_cons_iff'] at hab hbc
      rcases hab with h1 | ⟨rfl, h1⟩
      · rcases hbc with h2 | ⟨rfl, _⟩
        · exact absurd h2 (lt_asymm h1)
        · exact absurd h1 (lt_irrefl _)
      · rcases hbc with h2 | ⟨_, h2⟩
        · exact absurd h2 (lt_irrefl _)
        · exact (prefix_cons_inj x).2
            (prefix_convex (prefix_append p s) (prefix_append p t) h1 h2)

theorem terminated_lt_iff {z : α} (hz : ∀ x, z ≤ x) :
    ∀ {a b s t : List α}, z ∉ a → z ∉ b → (a ++ z :: s < b ++ z :: t ↔ a < b ∨ a = b ∧ s < t)
  | [], [], s, t, _, _ => by simp
  | [], y :: b, s, t, _, hb => by
    have : z < y := lt_of_le_of_ne (hz y) (by rintro rfl; simp at hb)
    simp [cons_lt_cons_iff, this]
  | x :: a, [], s, t, ha, _ => by
    have : z < x := lt_of_le_of_ne (hz x) (by rintro rfl; simp at ha)
    simp [cons_lt_cons_iff, lt_asymm this, this.ne']
  | x :: a, y :: b, s, t, ha, hb => by
    simp only [mem_cons, not_or] at ha hb
    simp only [cons_append, cons_lt_cons_iff, terminated_lt_iff hz ha.2 hb.2, cons.injEq]
    tauto

end

theorem terminated_inj {α : Type*} {z : α} :
    ∀ {a b s t : List α}, z ∉ a → z ∉ b → a ++ z :: s = b ++ z :: t → a = b ∧ s = t
  | [], [], _, _, _, _, h => by simpa using h
  | [], y :: b, _, _, _, hb, h => by
    simp only [nil_append, cons_append, cons.injEq] at h
    exact absurd (by simp [h.1]) hb
  | x :: a, [], _, _, ha, _, h => by
    simp only [nil_append, cons_append, cons.injEq] at h
    exact absurd (by simp [h.1]) ha
  | x :: a, y :: b, _, _, ha, hb, h => by
    simp only [mem_cons, not_or] at ha hb
    simp only [cons_append, cons.injEq] at h
    obtain ⟨rfl, hst⟩ := terminated_inj ha.2 hb.2 h.2
    exact ⟨by rw [h.1], hst⟩

end Lex
