import Mathlib

/-!
# Keys with a separator

Words are joined to keys with a separator `slash mid slash`. What was joined can be told apart again if the first word
is *clear* of the separator. The separator may overlap with the end of the word by its first letter only.
-/

structure Separator (α : Type) where
  slash : α
  mid : List α
  notMem : slash ∉ mid

namespace Separator

open List

variable {α : Type} (s : Separator α) {k k' c c' : List α}

def word : List α := s.slash :: (s.mid ++ [s.slash])
def Clear (k : List α) : Prop := ¬ s.word <:+: k ++ [s.slash]

theorem not_clear_of_prefix (h : k ++ s.word <+: k') : ¬ s.Clear k' := by
  obtain ⟨rest, rfl⟩ := h
  intro hclear
  exact hclear ⟨k, rest ++ [s.slash], by simp⟩

theorem eq_nil_of_overlap {t : List α} (hclear : s.Clear (k ++ t)) (h : s.word ++ c = t ++ (s.word ++ c')) : t = [] := by
  cases t with
  | nil => rfl
  | cons a t =>
    exfalso
    have hcons : s.slash = a ∧ s.mid ++ s.slash :: c = t ++ s.slash :: (s.mid ++ s.slash :: c') := by
      simpa [word] using h
    obtain ⟨rfl, heq⟩ := hcons
    refine hclear ?_
    -- The second separator starts after the inside of the first one.
    have hmid : s.mid <+: t := by
      rcases append_eq_append_iff.1 heq with ⟨d, hd, _⟩ | ⟨d, hd, hrest⟩
      · exact ⟨d, hd.symm⟩
      · cases d with
        | nil => exact ⟨[], by simpa using hd⟩
        | cons b d =>
          obtain ⟨rfl, _⟩ := cons.inj hrest
          exact absurd (hd ▸ by simp) s.notMem
    obtain ⟨d, rfl⟩ := hmid
    rw [append_assoc, append_cancel_left_eq] at heq
    cases d with
    | nil => exact ⟨k, [], by simp [word]⟩
    | cons b d =>
      obtain ⟨rfl, _⟩ := cons.inj heq
      exact ⟨k, d ++ [s.slash], by simp [word]⟩

theorem append_inj (hk : s.Clear k) (hk' : s.Clear k') (h : k ++ s.word ++ c = k' ++ s.word ++ c') : k = k' ∧ c = c' := by
  rw [append_assoc, append_assoc] at h
  rcases append_eq_append_iff.1 h with ⟨t, rfl, ht⟩ | ⟨t, rfl, ht⟩
  · obtain rfl := s.eq_nil_of_overlap hk' ht
    simpa using ht
  · obtain rfl := s.eq_nil_of_overlap hk ht
    simpa using ht.symm

theorem prefix_append_iff (hk : s.Clear k) (hk' : s.Clear k') : k ++ s.word <+: k' ++ s.word ++ c' ↔ k = k' := by
  constructor
  · rintro ⟨c, hc⟩
    exact (s.append_inj hk hk' hc).1
  · rintro rfl
    exact ⟨c', rfl⟩

end Separator
