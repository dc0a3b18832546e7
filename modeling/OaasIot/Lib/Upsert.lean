import Mathlib

/-!
# Lists with a key

`upsert key x l` replaces the first element of `l` that has the key of `x`, or appends `x`; `upsertAll` does so with
each element of a list. Elements of other keys stay, distinct keys stay distinct, and what is first of its key already
changes nothing.
-/

namespace Keyed

open List

variable {α κ ε : Type} [DecidableEq κ] (key : α → κ)

def upsert (x : α) : List α → List α
  | [] => [x]
  | a :: l => if key a = key x then x :: l else a :: upsert x l

def upsertAll (l xs : List α) : List α := xs.foldl (fun l x => upsert key x l) l

variable {key}

theorem mem_upsert_self (x : α) (l : List α) : x ∈ upsert key x l := by
  induction l with
  | nil => simp [upsert]
  | cons a l ih =>
    unfold upsert
    split
    · exact mem_cons_self
    · exact mem_cons_of_mem _ ih

variable {x : α} {l : List α}

theorem mem_upsert_of_ne {y : α} (h : key x ≠ key y) : y ∈ upsert key x l ↔ y ∈ l := by
  have hne : y ≠ x := fun he => h (by rw [he])
  induction l with
  | nil => simp [upsert, hne]
  | cons a l ih =>
    unfold upsert
    split
    · rename_i hkey
      have hna : y ≠ a := fun he => h (by rw [he, hkey])
      simp [hne, hna]
    · simp [ih]

theorem keys_upsert (x : α) (l : List α) :
    (upsert key x l).map key = if key x ∈ l.map key then l.map key else l.map key ++ [key x] := by
  induction l with
  | nil => simp [upsert]
  | cons a l ih =>
    unfold upsert
    by_cases ha : key a = key x
    · simp [ha]
    · have ha' : key x ≠ key a := fun h => ha h.symm
      rw [if_neg ha, map_cons, ih]
      by_cases hmem : key x ∈ l.map key
      · rw [if_pos hmem, if_pos (by simp only [map_cons, mem_cons, hmem, or_true]), map_cons]
      · rw [if_neg hmem, if_neg (by simp only [map_cons, mem_cons, hmem, ha', or_self, not_false_eq_true])]
        rfl

theorem nodup_keys_upsert (h : (l.map key).Nodup) : ((upsert key x l).map key).Nodup := by
  rw [keys_upsert]
  split
  · exact h
  · rename_i hnot
    rw [nodup_append]
    refine ⟨h, nodup_singleton _, fun a ha b hb he => hnot ?_⟩
    rw [mem_singleton] at hb
    rwa [← hb, ← he]

theorem find?_upsert_self (x : α) (l : List α) : (upsert key x l).find? (key · = key x) = some x := by
  induction l with
  | nil => simp [upsert]
  | cons a l ih => by_cases h : key a = key x <;> simp [upsert, h, ih]

theorem find?_upsert_of_ne {k : κ} (h : key x ≠ k) : (upsert key x l).find? (key · = k) = l.find? (key · = k) := by
  induction l with
  | nil => simp [upsert, h]
  | cons a l ih =>
    by_cases ha : key a = key x
    · simp [upsert, ha, h]
    · simp [upsert, ha, find?_cons, ih]

section Projection

variable {proj : α → ε} {key' : ε → κ} (hkey : ∀ a, key' (proj a) = key a)

include hkey

theorem find?_map_of_nodup (hnd : (l.map key).Nodup) (hmem : proj x ∈ l.map proj) :
    (l.map proj).find? (key' · = key x) = some (proj x) := by
  induction l with
  | nil => cases hmem
  | cons a l ih =>
    obtain ⟨hnot, hnd'⟩ := nodup_cons.1 hnd
    rcases mem_cons.1 hmem with ha | hmem'
    · simp [← ha, hkey]
    · obtain ⟨b, hb, hbx⟩ := mem_map.1 hmem'
      have hne : key a ≠ key x := by
        intro h
        exact hnot (mem_map.2 ⟨b, hb, by rw [h, ← hkey, ← hkey, hbx]⟩)
      rw [map_cons, find?_cons_of_neg (by simpa [hkey] using hne), ih hnd' hmem']

theorem map_upsert_of_find (hfind : (l.map proj).find? (key' · = key x) = some (proj x)) :
    (upsert key x l).map proj = l.map proj := by
  induction l with
  | nil => cases hfind
  | cons a l ih =>
    by_cases ha : key a = key x
    · simpa [upsert, ha, hkey, eq_comm] using hfind
    · simp only [map_cons, find?_cons, hkey, ha, decide_false] at hfind
      simp [upsert, ha, ih hfind]

end Projection

/-! ## Several elements -/

theorem upsertAll_concat (l xs : List α) (x : α) :
    upsertAll key l (xs ++ [x]) = upsert key x (upsertAll key l xs) := by
  simp [upsertAll, foldl_append]

variable {xs : List α}

theorem mem_upsertAll_of_ne {y : α} (h : ∀ x ∈ xs, key x ≠ key y) : y ∈ upsertAll key l xs ↔ y ∈ l := by
  induction xs generalizing l with
  | nil => rfl
  | cons x xs ih =>
    obtain ⟨hx, hxs⟩ := forall_mem_cons.1 h
    exact (ih hxs).trans (mem_upsert_of_ne hx)

theorem mem_upsertAll_cons (h : ∀ y ∈ xs, key y ≠ key x) (l : List α) : x ∈ upsertAll key l (x :: xs) :=
  (mem_upsertAll_of_ne h).2 (mem_upsert_self x l)

theorem nodup_keys_upsertAll (h : (l.map key).Nodup) : ((upsertAll key l xs).map key).Nodup := by
  induction xs generalizing l with
  | nil => exact h
  | cons x xs ih => exact ih (nodup_keys_upsert h)

theorem find?_upsertAll_of_ne {k : κ} (h : ∀ x ∈ xs, key x ≠ k) :
    (upsertAll key l xs).find? (key · = k) = l.find? (key · = k) := by
  induction xs generalizing l with
  | nil => rfl
  | cons x xs ih =>
    obtain ⟨hx, hxs⟩ := forall_mem_cons.1 h
    exact (ih hxs).trans (find?_upsert_of_ne hx)

theorem find?_upsertAll_self (hnd : (xs.map key).Nodup) (hx : x ∈ xs) :
    (upsertAll key l xs).find? (key · = key x) = some x := by
  induction xs generalizing l with
  | nil => cases hx
  | cons y xs ih =>
    obtain ⟨hnot, hnd'⟩ := nodup_cons.1 hnd
    rcases mem_cons.1 hx with rfl | hx
    · exact (find?_upsertAll_of_ne fun z hz he => hnot (mem_map.2 ⟨z, hz, he⟩)).trans (find?_upsert_self x l)
    · exact ih hnd' hx

theorem map_upsertAll_of_find {proj : α → ε} {key' : ε → κ} (hkey : ∀ a, key' (proj a) = key a)
    (hfind : ∀ x ∈ xs, (l.map proj).find? (key' · = key x) = some (proj x)) :
    (upsertAll key l xs).map proj = l.map proj := by
  induction xs generalizing l with
  | nil => rfl
  | cons x xs ih =>
    obtain ⟨hx, hxs⟩ := forall_mem_cons.1 hfind
    have hmap := map_upsert_of_find hkey hx
    exact (ih (hmap ▸ hxs)).trans hmap

end Keyed
