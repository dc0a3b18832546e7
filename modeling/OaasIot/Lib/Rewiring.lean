import Mathlib

/-!
# Giving a node of a graph other successors

A graph is a relation. Two graphs that agree off a node `x` have the same paths as far as `x`, since these use no
successor of `x`. So whether a change of the successors of `x` closes a cycle can be told from the old graph.
-/

namespace Rewiring

open Relation

variable {α : Type} {r r' : α → α → Prop} {x a b : α}

def Acyclic (r : α → α → Prop) : Prop := ∀ a, ¬ TransGen r a a
def AgreeOff (x : α) (r r' : α → α → Prop) : Prop := ∀ a b, a ≠ x → (r a b ↔ r' a b)

section
variable (h : AgreeOff x r r')
include h

theorem AgreeOff.symm : AgreeOff x r' r := fun a b ha => (h a b ha).symm

theorem AgreeOff.reaches (hpath : ReflTransGen r a x) : ReflTransGen r' a x := by
  induction hpath using ReflTransGen.head_induction_on with
  | refl => exact .refl
  | @head a b hab _ ih =>
    by_cases ha : a = x
    · rw [ha]
    · exact .head ((h a b ha).1 hab) ih

theorem AgreeOff.split (hpath : TransGen r' a b) : TransGen r a b ∨ ReflTransGen r' a x ∧ TransGen r' x b := by
  induction hpath with
  | @single b hab =>
    by_cases ha : a = x
    · subst ha
      exact .inr ⟨.refl, .single hab⟩
    · exact .inl (.single ((h a b ha).2 hab))
  | @tail b c hpath hbc ih =>
    by_cases hb : b = x
    · subst hb
      exact .inr ⟨hpath.to_reflTransGen, .single hbc⟩
    · rcases ih with hold | ⟨hto, hfrom⟩
      · exact .inl (hold.tail ((h b c hb).2 hbc))
      · exact .inr ⟨hto, hfrom.tail hbc⟩

theorem acyclic_rewired_iff (hr : Acyclic r) : Acyclic r' ↔ ∀ b, r' x b → ¬ ReflTransGen r b x := by
  constructor
  · intro hacyclic b hxb hreach
    exact hacyclic x (.head' hxb (h.reaches hreach))
  · intro hclear a hcycle
    rcases h.split hcycle with hold | ⟨hto, hfrom⟩
    · exact hr a hold
    · -- The cycle leaves `x` for one of its new successors and comes back.
      obtain ⟨b, hxb, hback⟩ := TransGen.head'_iff.1 (hfrom.trans_left hto)
      exact hclear b hxb (h.symm.reaches hback)

end

theorem Acyclic.mono (hr : Acyclic r) (h : ∀ a b, r' a b → r a b) : Acyclic r' := fun a hcycle =>
  hr a (TransGen.mono h _ _ hcycle)

end Rewiring
