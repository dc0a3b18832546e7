import OaasIot.Lib.OrdMap

/-!
# Merging keyed values into a map

`mergeFrom f l m` goes through `l` and combines each value with what the map holds under its key. The combination `f` may
fail, which ends the merge where it is; it may also store nothing.
-/

namespace OrdMap

open List

variable {α β γ ε : Type} [LinearOrder α]

def put (m : OrdMap α β) (k : α) : Option β → OrdMap α β
  | none => m
  | some v => m.insert k v

theorem get_put_self (m : OrdMap α β) (k : α) (v : Option β) : (m.put k v).get k = v.or (m.get k) := by
  cases v with
  | none => rfl
  | some v => exact get_insert_self m k v

variable {k : α}

theorem get_put_of_ne {k' : α} (m : OrdMap α β) (v : Option β) (h : k ≠ k') : (m.put k v).get k' = m.get k' := by
  cases v with
  | none => rfl
  | some v => exact get_insert_of_ne m v h

theorem put_eq_self {m : OrdMap α β} {v : Option β} (h : v.or (m.get k) = m.get k) : m.put k v = m := by
  cases v with
  | none => rfl
  | some v => exact insert_eq_self h.symm

def mergeFrom (f : Option β → γ → Except ε (Option β)) : List (α × γ) → OrdMap α β → Except ε Unit × OrdMap α β
  | [], m => (.ok (), m)
  | (k, x) :: l, m =>
    match f (m.get k) x with
    | .error e => (.error e, m)
    | .ok v => mergeFrom f l (m.put k v)

section
variable {f : Option β → γ → Except ε (Option β)} {l : List (α × γ)} {m : OrdMap α β}

variable {x : γ}

theorem mergeFrom_cons_ok {v : Option β} (h : f (m.get k) x = .ok v) :
    mergeFrom f ((k, x) :: l) m = mergeFrom f l (m.put k v) := by
  simp only [mergeFrom, h]

theorem mergeFrom_cons_error {e : ε} (h : f (m.get k) x = .error e) : mergeFrom f ((k, x) :: l) m = (.error e, m) := by
  simp only [mergeFrom, h]

theorem get_put_rest {e : α × γ} (hnd : (((k, x) :: l).map Prod.fst).Nodup) (he : e ∈ l) (v : Option β) :
    (m.put k v).get e.1 = m.get e.1 := by
  have hmem : e.1 ∈ l.map Prod.fst := mem_map_of_mem he
  refine get_put_of_ne m v fun heq => (nodup_cons.1 hnd).1 ?_
  rwa [heq]

theorem mergeFrom_ok_iff (hnd : (l.map Prod.fst).Nodup) :
    (mergeFrom f l m).1 = .ok () ↔ ∀ e ∈ l, ∃ v, f (m.get e.1) e.2 = .ok v := by
  induction l generalizing m with
  | nil => simp [mergeFrom]
  | cons e l ih =>
    obtain ⟨k, x⟩ := e
    rw [forall_mem_cons]
    cases hf : f (m.get k) x with
    | error err =>
      rw [mergeFrom_cons_error hf]
      simp
    | ok v =>
      rw [mergeFrom_cons_ok hf, ih (nodup_cons.1 hnd).2]
      have hrest : (∀ e ∈ l, ∃ w, f ((m.put k v).get e.1) e.2 = .ok w) ↔ ∀ e ∈ l, ∃ w, f (m.get e.1) e.2 = .ok w := by
        refine forall₂_congr fun e he => ?_
        rw [get_put_rest hnd he]
      rw [hrest]
      simp

theorem get_mergeFrom_of_notMem (h : k ∉ l.map Prod.fst) : (mergeFrom f l m).2.get k = m.get k := by
  induction l generalizing m with
  | nil => rfl
  | cons e l ih =>
    obtain ⟨k', x⟩ := e
    rw [map_cons, mem_cons, not_or] at h
    cases hf : f (m.get k') x with
    | error err => rw [mergeFrom_cons_error hf]
    | ok v => rw [mergeFrom_cons_ok hf, ih h.2, get_put_of_ne m v (Ne.symm h.1)]

theorem get_mergeFrom (hnd : (l.map Prod.fst).Nodup) (hok : (mergeFrom f l m).1 = .ok ()) (hx : (k, x) ∈ l) :
    ∃ v, f (m.get k) x = .ok v ∧ (mergeFrom f l m).2.get k = v.or (m.get k) := by
  induction l generalizing m with
  | nil => cases hx
  | cons e l ih =>
    obtain ⟨k', x'⟩ := e
    cases hf : f (m.get k') x' with
    | error err =>
      rw [mergeFrom_cons_error hf] at hok
      cases hok
    | ok v =>
      rw [mergeFrom_cons_ok hf] at hok ⊢
      rcases mem_cons.1 hx with heq | hmem
      · obtain ⟨rfl, rfl⟩ := Prod.mk.inj heq
        refine ⟨v, hf, ?_⟩
        rw [get_mergeFrom_of_notMem (nodup_cons.1 hnd).1, get_put_self]
      · obtain ⟨w, hw, hget⟩ := ih (nodup_cons.1 hnd).2 hok hmem
        rw [get_put_rest hnd hmem v] at hw hget
        exact ⟨w, hw, hget⟩

def mergedPart (f : Option β → γ → Except ε (Option β)) (l : List (α × γ)) (m : OrdMap α β) : List (α × γ) :=
  l.takeWhile fun e => (f (m.get e.1) e.2).isOk

theorem mergeFrom_unchanged_iff (hnd : (l.map Prod.fst).Nodup) :
    (mergeFrom f l m).2 = m ↔
      ∀ e ∈ mergedPart f l m, ∀ v, f (m.get e.1) e.2 = .ok v → v.or (m.get e.1) = m.get e.1 := by
  induction l generalizing m with
  | nil => simp [mergeFrom, mergedPart]
  | cons e l ih =>
    obtain ⟨k, x⟩ := e
    cases hf : f (m.get k) x with
    | error err =>
      rw [mergeFrom_cons_error hf, mergedPart, takeWhile_cons_of_neg (by simp [hf, Except.isOk, Except.toBool])]
      simp
    | ok v =>
      have hpart : mergedPart f ((k, x) :: l) m = (k, x) :: mergedPart f l m := by
        rw [mergedPart, takeWhile_cons_of_pos (by simp [hf, Except.isOk, Except.toBool])]
        rfl
      rw [mergeFrom_cons_ok hf, hpart, forall_mem_cons]
      constructor
      · intro hsame
        have hget : v.or (m.get k) = m.get k := by
          rw [← get_put_self, ← get_mergeFrom_of_notMem (f := f) (nodup_cons.1 hnd).1, hsame]
        rw [put_eq_self hget] at hsame
        refine ⟨?_, (ih (nodup_cons.1 hnd).2).1 hsame⟩
        intro w hw
        rw [hf] at hw
        obtain rfl := Except.ok.inj hw
        exact hget
      · rintro ⟨hfirst, hrest⟩
        rw [put_eq_self (hfirst v hf)]
        exact (ih (nodup_cons.1 hnd).2).2 hrest

end

end OrdMap
