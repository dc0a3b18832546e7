import Mathlib

/-!
# DNS-1035 labels

A label has at most 63 characters, all lower-case letters, digits or hyphens; it starts with a letter and ends with a
letter or digit. Names are often made from a label by appending a suffix, and then **only the length can go wrong**.
-/

namespace DnsLabel

open List

def LabelChar (c : Char) : Prop := c.isLower = true ∨ c.isDigit = true ∨ c = '-'
def Alnum (c : Char) : Prop := c.isLower = true ∨ c.isDigit = true
instance (c : Char) : Decidable (LabelChar c) := inferInstanceAs (Decidable (_ ∨ _))
instance (c : Char) : Decidable (Alnum c) := inferInstanceAs (Decidable (_ ∨ _))

-- Decided along the list: the characters are a finite type, so there is also a way that goes through all of them.
instance (l : List Char) : Decidable (∀ c ∈ l, LabelChar c) := decidableBAll _ l

instance (l : List Char) : Decidable (∀ c ∈ l, Alnum c) := decidableBAll _ l

structure IsTail (t : String) : Prop where
  chars : ∀ c ∈ t.toList, LabelChar c
  last : ∃ c ∈ t.toList.getLast?, Alnum c

structure IsLabel (s : String) : Prop where
  length : s.length ≤ 63
  tail : IsTail s
  first : ∃ c ∈ s.toList.head?, c.isLower = true

instance (t : String) : Decidable (IsTail t) :=
  decidable_of_iff ((∀ c ∈ t.toList, LabelChar c) ∧ t.toList.getLast?.any (fun c => decide (Alnum c)) = true)
    ⟨fun h => ⟨h.1, by simpa [Option.any_eq_true] using h.2⟩,
      fun h => ⟨h.chars, by simpa [Option.any_eq_true] using h.last⟩⟩

instance (s : String) : Decidable (IsLabel s) :=
  decidable_of_iff (s.length ≤ 63 ∧ IsTail s ∧ s.toList.head?.any Char.isLower = true)
    ⟨fun h => ⟨h.1, h.2.1, by simpa [Option.any_eq_true] using h.2.2⟩,
      fun h => ⟨h.length, h.tail, by simpa [Option.any_eq_true] using h.first⟩⟩

variable {c : Char}

theorem Alnum.ne_hyphen (h : Alnum c) : c ≠ '-' := by
  rintro rfl
  revert h
  decide

theorem LabelChar.alnum (h : LabelChar c) (hne : c ≠ '-') : Alnum c := by
  rcases h with h | h | h
  · exact .inl h
  · exact .inr h
  · exact absurd h hne

theorem Alnum.isAlphanum (h : Alnum c) : c.isAlphanum = true := by
  rcases h with h | h <;> simp [Char.isAlphanum, Char.isAlpha, h]

theorem LabelChar.not_isUpper (h : LabelChar c) : c.isUpper = false := by
  rw [Bool.eq_false_iff]
  intro hup
  rcases h with h | h | rfl
  · simp only [Char.isLower, Char.isUpper] at h hup
    grind
  · simp only [Char.isDigit, Char.isUpper] at h hup
    grind
  · revert hup
    decide

theorem LabelChar.isAlpha (h : LabelChar c) : c.isAlpha = c.isLower := by
  simp [Char.isAlpha, h.not_isUpper]

theorem isTail_toString (n : Nat) : IsTail (toString n) := by
  have hdigit : ∀ c ∈ (toString n).toList, c.isDigit = true := by
    intro c hc
    rw [Nat.toString_eq_repr, Nat.toList_repr] at hc
    exact Nat.isDigit_of_mem_toDigits (by decide) (by decide) hc
  refine ⟨fun c hc => .inr (.inl (hdigit c hc)), ?_⟩
  cases hlast : (toString n).toList.getLast? with
  | none =>
    rw [getLast?_eq_none_iff, Nat.toString_eq_repr, Nat.toList_repr] at hlast
    exact absurd hlast Nat.toDigits_ne_nil
  | some c => exact ⟨c, rfl, .inr (hdigit c (mem_of_getLast? hlast))⟩

theorem IsTail.append {s t : String} (hs : ∀ c ∈ s.toList, LabelChar c) (ht : IsTail t) : IsTail (s ++ t) := by
  obtain ⟨c, hc, hal⟩ := ht.last
  refine ⟨fun d hd => ?_, c, ?_, hal⟩
  · rw [String.toList_append, mem_append] at hd
    rcases hd with hd | hd
    · exact hs d hd
    · exact ht.chars d hd
  · rw [Option.mem_def] at hc ⊢
    rw [String.toList_append, getLast?_append, hc, Option.some_or]

theorem IsLabel.append_iff {s t : String} (hs : IsLabel s) (ht : IsTail t) :
    IsLabel (s ++ t) ↔ s.length + t.length ≤ 63 := by
  rw [← String.length_append]
  refine ⟨IsLabel.length, fun hlen => ⟨hlen, ht.append hs.tail.chars, ?_⟩⟩
  obtain ⟨c, hc, hlow⟩ := hs.first
  refine ⟨c, ?_, hlow⟩
  rw [Option.mem_def] at hc ⊢
  rw [String.toList_append, head?_append, hc, Option.some_or]

/-! ## Dropping hyphens -/

theorem getLast?_rdropWhile {cs : List Char} (h : (cs.rdropWhile (· == '-')).getLast? = some c) : c ≠ '-' := by
  have hne : cs.rdropWhile (· == '-') ≠ [] := by
    intro hnil
    rw [hnil] at h
    cases h
  rw [getLast?_eq_some_getLast hne, Option.some.injEq] at h
  have hnot := rdropWhile_last_not (· == '-') cs hne
  rw [h] at hnot
  simpa using hnot

theorem rdropWhile_cons_of_ne {d : Char} (ds : List Char) (hd : d ≠ '-') :
    ∃ es, (d :: ds).rdropWhile (· == '-') = d :: es ∧ es <+: ds := by
  have hpre : (d :: ds).rdropWhile (· == '-') <+: d :: ds := rdropWhile_prefix _ _
  cases hcut : (d :: ds).rdropWhile (· == '-') with
  | nil =>
    have := rdropWhile_eq_nil_iff.1 hcut d mem_cons_self
    exact absurd (by simpa using this) hd
  | cons e es =>
    obtain ⟨rfl, hes⟩ := cons_prefix_cons.1 (hcut ▸ hpre)
    exact ⟨es, rfl, hes⟩

theorem isLabel_rdropWhile {d : Char} {ds : List Char} (hlow : d.isLower = true) (hchars : ∀ e ∈ d :: ds, LabelChar e)
    (hlen : (d :: ds).length ≤ 63) : IsLabel (String.ofList ((d :: ds).rdropWhile (· == '-'))) := by
  obtain ⟨es, hcut, hes⟩ := rdropWhile_cons_of_ne ds (Alnum.ne_hyphen (.inl hlow))
  have hsub : ∀ e ∈ d :: es, LabelChar e := fun e he => hchars e ((cons_prefix_cons.2 ⟨rfl, hes⟩).subset he)
  have hle : (d :: es).length ≤ 63 := (cons_prefix_cons.2 ⟨rfl, hes⟩).length_le.trans hlen
  obtain ⟨e, he⟩ : ∃ e, (d :: es).getLast? = some e := ⟨_, getLast?_eq_some_getLast (cons_ne_nil d es)⟩
  have hlast : ((d :: ds).rdropWhile (· == '-')).getLast? = some e := by rw [hcut, he]
  have hne : e ≠ '-' := getLast?_rdropWhile hlast
  rw [hcut]
  refine ⟨by rwa [String.length_ofList], ⟨?_, e, ?_, (hsub e (mem_of_getLast? he)).alnum hne⟩, d, ?_, hlow⟩
  · rwa [String.toList_ofList]
  · rwa [String.toList_ofList]
  · rw [String.toList_ofList]
    rfl

end DnsLabel
