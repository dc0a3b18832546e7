import OaasIot.Lib.OrdMap

/-!
# Sums over the bindings of a map

`weight f m` adds up `f` over the bindings of `m`: with 1 for each it counts them, with their sizes it measures them.
`weightAt f m k` is the share of the key `k`.
-/

namespace OrdMap

open List

variable {α β : Type} [LinearOrder α] (f : α × β → Nat)

def weight (m : OrdMap α β) : Nat := (m.toList.map f).sum

def weightAt (m : OrdMap α β) (k : α) : Nat :=
  match m.get k with
  | none => 0
  | some v => f (k, v)

variable (m : OrdMap α β)

theorem weight_one : m.weight (fun _ => 1) = m.toList.length := by
  simp [weight]

theorem weight_filterKeys (p : α → Bool) :
    (m.filterKeys p).weight f + ((m.toList.filter fun x => !p x.1).map f).sum = m.weight f := by
  rw [weight, weight, toList_filterKeys]
  induction m.toList with
  | nil => rfl
  | cons x l ih =>
    cases hx : p x.1 with
    | true =>
      rw [filter_cons_of_pos (by simp [hx]), filter_cons_of_neg (by simp [hx])]
      simp only [map_cons, sum_cons]
      omega
    | false =>
      rw [filter_cons_of_neg (by simp [hx]), filter_cons_of_pos (by simp [hx])]
      simp only [map_cons, sum_cons]
      omega

theorem filter_key (k : α) : (m.toList.filter fun x => decide (x.1 = k)) = ((m.get k).map fun v => (k, v)).toList := by
  have hsorted := m.sorted
  unfold get
  generalize m.toList = l at hsorted
  induction l with
  | nil => rfl
  | cons x l ih =>
    obtain ⟨hx, hl⟩ := pairwise_cons.1 hsorted
    by_cases hk : x.1 = k
    · have hrest : (l.filter fun y => decide (y.1 = k)) = [] := by
        refine filter_eq_nil_iff.2 fun y hy => ?_
        have hlt := hx y hy
        rw [hk] at hlt
        simpa using hlt.ne'
      rw [filter_cons_of_pos (by simpa using hk), hrest, getList, if_pos hk, ← hk]
      rfl
    · rw [filter_cons_of_neg (by simpa using hk), ih hl, getList, if_neg hk]

theorem weight_erase (k : α) : (m.erase k).weight f + m.weightAt f k = m.weight f := by
  have hdropped : ((m.toList.filter fun x => !decide (x.1 ≠ k)).map f).sum = m.weightAt f k := by
    have heq : (fun x : α × β => !decide (x.1 ≠ k)) = fun x => decide (x.1 = k) := by
      funext x
      simp
    rw [heq, filter_key, weightAt]
    cases m.get k <;> simp
  rw [← hdropped]
  exact weight_filterKeys f m fun a => decide (a ≠ k)

theorem erase_insert (k : α) (v : β) : (m.insert k v).erase k = m.erase k := by
  refine ext_get fun a => ?_
  rw [get_erase, get_erase, get_insert]
  by_cases h : a = k
  · rw [if_pos h, if_pos h]
  · rw [if_neg h, if_neg h, if_neg (Ne.symm h)]

theorem weight_insert (k : α) (v : β) : (m.insert k v).weight f + m.weightAt f k = m.weight f + f (k, v) := by
  have hold := weight_erase f m k
  have hnew := weight_erase f (m.insert k v) k
  have hat : (m.insert k v).weightAt f k = f (k, v) := by rw [weightAt, get_insert_self]
  rw [erase_insert, hat] at hnew
  omega

end OrdMap
