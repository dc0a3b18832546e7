import Mathlib

/-!
# The later of two values

`latest` keeps the value of the greater rank. Between values of one rank a flag decides: the new one or the old one.
-/

section
variable {α κ : Type*} [LinearOrder κ] {rank : α → κ} {keepNew keepNew' : Bool} {a b c : α}

def latest (rank : α → κ) (keepNew : Bool) (old new : α) : α :=
  if rank old < rank new then new
  else if rank new < rank old then old
  else if keepNew then new
  else old

theorem latest_of_lt (h : rank a < rank b) : latest rank keepNew a b = b := if_pos h

theorem latest_of_gt (h : rank b < rank a) : latest rank keepNew a b = a := by
  rw [latest, if_neg (not_lt_of_gt h), if_pos h]

theorem latest_of_eq (h : rank a = rank b) : latest rank keepNew a b = if keepNew then b else a := by
  rw [latest, if_neg h.not_lt, if_neg h.not_gt]

theorem latest_choice (rank : α → κ) (keepNew : Bool) (a b : α) :
    latest rank keepNew a b = a ∨ latest rank keepNew a b = b := by
  rcases lt_trichotomy (rank a) (rank b) with h | h | h
  · exact .inr (latest_of_lt h)
  · rw [latest_of_eq h]
    cases keepNew
    · exact .inl rfl
    · exact .inr rfl
  · exact .inl (latest_of_gt h)

theorem latest_self (rank : α → κ) (keepNew : Bool) (a : α) : latest rank keepNew a a = a := by
  rcases latest_choice rank keepNew a a with h | h <;> exact h

/-- **The flag does not depend on how merges are grouped.** -/
theorem latest_assoc (rank : α → κ) (keepNew : Bool) (a b c : α) :
    latest rank keepNew (latest rank keepNew a b) c = latest rank keepNew a (latest rank keepNew b c) := by
  unfold latest
  cases keepNew <;> grind

theorem latest_swap_iff : latest rank keepNew a b = latest rank keepNew' b a ↔
    rank a ≠ rank b ∨ a = b ∨ keepNew ≠ keepNew' := by
  rcases lt_trichotomy (rank a) (rank b) with h | h | h
  · rw [latest_of_lt h, latest_of_gt h]
    exact iff_of_true rfl (.inl h.ne)
  · rw [latest_of_eq h, latest_of_eq h.symm]
    cases keepNew <;> cases keepNew' <;> simp [h, eq_comm]
  · rw [latest_of_gt h, latest_of_lt h]
    exact iff_of_true rfl (.inl h.ne')

end
