import OaasIot.Lib.OrdMap

/-!
# Ranges of an ordered map

A range is given by a bound at each end. `between` reads it, `eraseBetween` removes it.
-/

inductive Bound (α : Type)
  | included (a : α)
  | excluded (a : α)
  | unbounded
  deriving DecidableEq, Repr

namespace Bound

variable {α : Type} [LinearOrder α]

def startsBy : Bound α → α → Prop
  | included a, k => a ≤ k
  | excluded a, k => a < k
  | unbounded, _ => True

def endsAfter : Bound α → α → Prop
  | included b, k => k ≤ b
  | excluded b, k => k < b
  | unbounded, _ => True

instance (lo : Bound α) (k : α) : Decidable (lo.startsBy k) :=
  match lo with
  | included a => inferInstanceAs (Decidable (a ≤ k))
  | excluded a => inferInstanceAs (Decidable (a < k))
  | unbounded => inferInstanceAs (Decidable True)

instance (hi : Bound α) (k : α) : Decidable (hi.endsAfter k) :=
  match hi with
  | included b => inferInstanceAs (Decidable (k ≤ b))
  | excluded b => inferInstanceAs (Decidable (k < b))
  | unbounded => inferInstanceAs (Decidable True)

def Crossed : Bound α → Bound α → Prop
  | included a, included b => b < a
  | included a, excluded b => b < a
  | excluded a, included b => b < a
  | excluded a, excluded b => b ≤ a
  | unbounded, _ => False
  | _, unbounded => False

instance (lo hi : Bound α) : Decidable (lo.Crossed hi) :=
  match lo, hi with
  | included a, included b => inferInstanceAs (Decidable (b < a))
  | included a, excluded b => inferInstanceAs (Decidable (b < a))
  | excluded a, included b => inferInstanceAs (Decidable (b < a))
  | excluded a, excluded b => inferInstanceAs (Decidable (b ≤ a))
  | unbounded, _ => inferInstanceAs (Decidable False)
  | included _, unbounded => inferInstanceAs (Decidable False)
  | excluded _, unbounded => inferInstanceAs (Decidable False)

end Bound

namespace OrdMap

variable {α β : Type} [LinearOrder α]

def between (m : OrdMap α β) (lo hi : Bound α) : List (α × β) :=
  m.toList.filter fun x => lo.startsBy x.1 ∧ hi.endsAfter x.1

def eraseBetween (m : OrdMap α β) (lo hi : Bound α) : OrdMap α β :=
  m.filterKeys fun k => ¬ (lo.startsBy k ∧ hi.endsAfter k)

end OrdMap
