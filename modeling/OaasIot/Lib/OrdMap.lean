import OaasIot.Lib.Bytes

/-!
# Finite ordered maps

A finite map over a linearly ordered key type is the list of its bindings in strictly increasing key order, so that
equal contents are equal maps. `range s e` is `[s, e)` in key order, `eraseRange s e` removes it, and `page s e n` cuts
it after `n` bindings and names the key the next page starts from.
-/

structure OrdMap (α β : Type) [LinearOrder α] where
  toList : List (α × β)
  sorted : toList.Pairwise fun a b => a.1 < b.1

namespace OrdMap

open List

variable {α β : Type} [LinearOrder α]

theorem ext_toList : ∀ {m n : OrdMap α β}, m.toList = n.toList → m = n
  | ⟨_, _⟩, ⟨_, _⟩, rfl => rfl

instance [DecidableEq β] : DecidableEq (OrdMap α β) := fun m n =>
  decidable_of_iff (m.toList = n.toList) ⟨ext_toList, congrArg _⟩

def empty : OrdMap α β := ⟨[], List.Pairwise.nil⟩

def getList (k : α) : List (α × β) → Option β
  | [] => none
  | p :: l => if p.1 = k then some p.2 else getList k l

def get (m : OrdMap α β) (k : α) : Option β := getList k m.toList

def insertList (k : α) (v : β) : List (α × β) → List (α × β)
  | [] => [(k, v)]
  | p :: l => if k < p.1 then (k, v) :: p :: l else if k = p.1 then (k, v) :: l else p :: insertList k v l

variable {v : β} {k : α} {x : α × β}

theorem mem_insertList :
    ∀ {l : List (α × β)}, x ∈ insertList k v l → x = (k, v) ∨ x ∈ l
  | [], h => by simpa [insertList] using h
  | p :: l, h => by
    unfold insertList at h
    split at h
    · simpa using h
    · split at h
      · rcases mem_cons.1 h with h | h
        · exact Or.inl h
        · exact Or.inr (mem_cons_of_mem _ h)
      · rcases mem_cons.1 h with h | h
        · exact Or.inr (by simp [h])
        · rcases mem_insertList h with h | h
          · exact Or.inl h
          · exact Or.inr (mem_cons_of_mem _ h)

theorem sorted_insertList :
    ∀ {l : List (α × β)}, l.Pairwise (fun a b => a.1 < b.1) →
      (insertList k v l).Pairwise fun a b => a.1 < b.1
  | [], _ => by simp [insertList]
  | p :: l, h => by
    obtain ⟨hp, hl⟩ := pairwise_cons.1 h
    unfold insertList
    split
    · rename_i hk
      refine pairwise_cons.2 ⟨fun x hx => ?_, h⟩
      rcases mem_cons.1 hx with rfl | hx
      · exact hk
      · exact lt_trans hk (hp x hx)
    · split
      · rename_i hk
        exact pairwise_cons.2 ⟨fun x hx => by simpa [hk] using hp x hx, hl⟩
      · rename_i h1 h2
        refine pairwise_cons.2 ⟨fun x hx => ?_, sorted_insertList hl⟩
        rcases mem_insertList hx with rfl | hx
        · exact lt_of_le_of_ne (not_lt.1 h1) (Ne.symm h2)
        · exact hp x hx

variable (m : OrdMap α β)

def insert (k : α) (v : β) : OrdMap α β :=
  ⟨insertList k v m.toList, sorted_insertList m.sorted⟩

def filterKeys (p : α → Bool) : OrdMap α β :=
  ⟨m.toList.filter fun x => p x.1, m.sorted.filter _⟩

theorem toList_filterKeys (p : α → Bool) : (m.filterKeys p).toList = m.toList.filter fun x => p x.1 := rfl

def erase (k : α) : OrdMap α β := m.filterKeys fun a => a ≠ k
def eraseRange (s e : α) : OrdMap α β := m.filterKeys fun a => ¬ (s ≤ a ∧ a < e)
def range (s e : α) : List (α × β) := m.toList.filter fun x => s ≤ x.1 ∧ x.1 < e

/-- The first `n` bindings of `[s, e)`, and the key of the next one. -/
def page (s e : α) (n : Nat) : List (α × β) × Option α :=
  ((m.range s e).take n, ((m.range s e).drop n).head?.map Prod.fst)

/-! ## Lookups -/

@[simp] theorem get_empty (k : α) : (empty : OrdMap α β).get k = none := rfl

variable {l : List (α × β)}

theorem mem_of_getList (h : getList k l = some v) : (k, v) ∈ l := by
  induction l with
  | nil => cases h
  | cons p l ih =>
    rw [getList] at h
    split at h
    · rename_i hk
      rw [← hk, ← Option.some.inj h]
      exact mem_cons_self
    · exact mem_cons_of_mem _ (ih h)

theorem getList_eq_none : getList k l = none ↔ k ∉ l.map Prod.fst := by
  induction l with
  | nil => simp [getList]
  | cons p l ih => by_cases hk : k = p.1 <;> simp [getList, hk, ih, eq_comm (b := k)]

theorem getList_eq_some (hnd : (l.map Prod.fst).Nodup) : getList k l = some v ↔ (k, v) ∈ l := by
  refine ⟨mem_of_getList, fun hmem => ?_⟩
  obtain ⟨w, hw⟩ := Option.ne_none_iff_exists'.1 fun hnone => getList_eq_none.1 hnone (mem_map_of_mem hmem)
  obtain ⟨_, rfl⟩ := Prod.mk.inj (inj_on_of_nodup_map hnd (mem_of_getList hw) hmem rfl)
  exact hw

theorem getList_append (k : α) (l l' : List (α × β)) : getList k (l ++ l') = (getList k l).or (getList k l') := by
  induction l with
  | nil => rfl
  | cons x l ih =>
    simp only [cons_append, getList]
    split
    · rfl
    · exact ih

theorem nodup_keys (m : OrdMap α β) : (m.toList.map Prod.fst).Nodup :=
  pairwise_map.2 (m.sorted.imp fun h => ne_of_lt h)

variable {m : OrdMap α β}

theorem get_eq_some : m.get k = some v ↔ (k, v) ∈ m.toList := getList_eq_some m.nodup_keys

variable {n : OrdMap α β}

theorem ext_get (h : ∀ k, m.get k = n.get k) : m = n := by
  have hmem : ∀ x, x ∈ m.toList ↔ x ∈ n.toList := fun ⟨k, v⟩ => by
    rw [← get_eq_some, ← get_eq_some, h]
  have hnd : ∀ m : OrdMap α β, m.toList.Nodup := fun m =>
    m.sorted.imp fun hab he => absurd (he ▸ hab) (lt_irrefl _)
  have hperm := (perm_ext_iff_of_nodup (hnd m) (hnd n)).2 hmem
  exact ext_toList (hperm.eq_of_pairwise (fun _ _ _ _ h1 h2 => absurd h1 (lt_asymm h2)) m.sorted n.sorted)

variable {a : α}

theorem getList_insertList : ∀ {l : List (α × β)}, l.Pairwise (fun x y => x.1 < y.1) →
    getList a (insertList k v l) = if k = a then some v else getList a l
  | [], _ => by simp [insertList, getList]
  | (x, y) :: l, h => by
    obtain ⟨hp, hl⟩ := pairwise_cons.1 h
    unfold insertList
    split
    · simp [getList]
    · split
      · rename_i h1 h2
        simp only at h2
        subst h2
        simp only [getList]
        split <;> rfl
      · rename_i h1 h2
        simp only [getList, getList_insertList hl]
        split
        · rename_i h3
          subst h3
          rw [if_neg h2]
        · rfl

theorem get_insert (m : OrdMap α β) (k a : α) (v : β) :
    (m.insert k v).get a = if k = a then some v else m.get a := getList_insertList m.sorted

@[simp] theorem get_insert_self (m : OrdMap α β) (k : α) (v : β) : (m.insert k v).get k = some v := by
  simp [get_insert]

theorem get_insert_of_ne (m : OrdMap α β) (v : β) (h : k ≠ a) : (m.insert k v).get a = m.get a := by
  simp [get_insert, h]

theorem get_filterKeys (m : OrdMap α β) (p : α → Bool) (a : α) :
    (m.filterKeys p).get a = if p a then m.get a else none := by
  apply Option.ext
  intro v
  rw [get_eq_some]
  simp only [filterKeys, mem_filter]
  split
  · rw [get_eq_some]; simp [*]
  · simp [*]

theorem get_erase (m : OrdMap α β) (k a : α) : (m.erase k).get a = if a = k then none else m.get a := by
  rw [erase, get_filterKeys]
  by_cases h : a = k <;> simp [h]

theorem get_eraseRange (m : OrdMap α β) (s e a : α) :
    (m.eraseRange s e).get a = if s ≤ a ∧ a < e then none else m.get a := by
  rw [eraseRange, get_filterKeys]
  by_cases h : s ≤ a ∧ a < e <;> simp [h]

theorem insert_eq_self (h : m.get k = some v) : m.insert k v = m := by
  apply ext_get
  intro a
  rw [get_insert]
  split
  · rename_i hk; rw [← hk, h]
  · rfl

theorem length_insertList : ∀ {l : List (α × β)}, getList k l = none →
    (insertList k v l).length = l.length + 1
  | [], _ => rfl
  | (a, b) :: l, h => by
    unfold getList at h
    split at h
    · cases h
    · rename_i hne
      unfold insertList
      split
      · rfl
      · rw [if_neg (Ne.symm hne), length_cons, length_insertList h, length_cons]

theorem length_insert (h : m.get k = none) :
    (m.insert k v).toList.length = m.toList.length + 1 := length_insertList h

theorem toList_insert_of_lt (h : ∀ x ∈ m.toList, x.1 < k) : (m.insert k v).toList = m.toList ++ [(k, v)] := by
  have hlist : ∀ l : List (α × β), (∀ x ∈ l, x.1 < k) → insertList k v l = l ++ [(k, v)] := by
    intro l hl
    induction l with
    | nil => rfl
    | cons p l ih =>
      obtain ⟨hp, hl⟩ := forall_mem_cons.1 hl
      rw [insertList, if_neg (not_lt.2 hp.le), if_neg hp.ne', ih hl, cons_append]
  exact hlist m.toList h

/-! ## Bindings in bulk -/

def insertMany (m : OrdMap α β) (l : List (α × β)) : OrdMap α β := l.foldl (fun m kv => m.insert kv.1 kv.2) m

@[simp] theorem insertMany_nil (m : OrdMap α β) : m.insertMany [] = m := rfl

@[simp] theorem insertMany_cons (m : OrdMap α β) (kv : α × β) (l : List (α × β)) :
    m.insertMany (kv :: l) = (m.insert kv.1 kv.2).insertMany l := rfl

theorem insertMany_append (m : OrdMap α β) (l l' : List (α × β)) :
    m.insertMany (l ++ l') = (m.insertMany l).insertMany l' := foldl_append

theorem get_insertMany (m : OrdMap α β) (l : List (α × β)) (k : α) :
    (m.insertMany l).get k = (getList k l.reverse).or (m.get k) := by
  induction l generalizing m with
  | nil => rfl
  | cons x l ih =>
    rw [insertMany_cons, ih, reverse_cons, getList_append, get_insert, Option.or_assoc]
    congr 1
    simp only [getList]
    split <;> rfl

theorem get_insertMany_eq_some (m : OrdMap α β) (h : (m.insertMany l).get k = some v) :
    (k, v) ∈ l ∨ m.get k = some v := by
  rw [get_insertMany, Option.or_eq_some_iff] at h
  exact h.imp (fun hget => mem_reverse.1 (mem_of_getList hget)) And.right

theorem get_insertMany_eq_none : (m.insertMany l).get k = none ↔ k ∉ l.map Prod.fst ∧ m.get k = none := by
  rw [get_insertMany, Option.or_eq_none_iff, getList_eq_none, map_reverse, mem_reverse]

theorem get_insertMany_of_notMem (m : OrdMap α β) (h : k ∉ l.map Prod.fst) : (m.insertMany l).get k = m.get k := by
  rw [get_insertMany, getList_eq_none.2 (by simpa using h), Option.none_or]

theorem get_insertMany_of_key (m : OrdMap α β) (h : k ∈ l.map Prod.fst) :
    ∃ v, (k, v) ∈ l ∧ (m.insertMany l).get k = some v := by
  cases hget : getList k l.reverse with
  | none => exact absurd h (by simpa using getList_eq_none.1 hget)
  | some v => exact ⟨v, mem_reverse.1 (mem_of_getList hget), by rw [get_insertMany, hget, Option.some_or]⟩

theorem get_insertMany_of_mem (m : OrdMap α β) (hnd : (l.map Prod.fst).Nodup) (h : (k, v) ∈ l) :
    (m.insertMany l).get k = some v := by
  have hnd' : (l.reverse.map Prod.fst).Nodup := by rwa [map_reverse, nodup_reverse]
  rw [get_insertMany, (getList_eq_some hnd').2 (mem_reverse.2 h), Option.some_or]

theorem insertMany_eq_iff (hnd : (l.map Prod.fst).Nodup) (h : ∀ x ∈ l, n.get x.1 = some x.2) :
    m.insertMany l = n ↔ ∀ k, k ∉ l.map Prod.fst → m.get k = n.get k := by
  constructor
  · rintro rfl k hk
    exact (get_insertMany_of_notMem m hk).symm
  · intro hrest
    apply ext_get
    intro k
    by_cases hk : k ∈ l.map Prod.fst
    · obtain ⟨x, hx, rfl⟩ := mem_map.1 hk
      rw [get_insertMany_of_mem m hnd hx, h x hx]
    · rw [get_insertMany_of_notMem m hk, hrest k hk]

theorem insertMany_eq_self_iff : m.insertMany l = m ↔ ∀ k v, getList k l.reverse = some v → m.get k = some v := by
  constructor
  · intro h k v hk
    rw [← h, get_insertMany, hk, Option.some_or]
  · intro h
    apply ext_get
    intro k
    rw [get_insertMany]
    cases hk : getList k l.reverse with
    | none => rfl
    | some v => rw [h k v hk, Option.some_or]

theorem insertMany_eq_self (h : ∀ x ∈ l, m.get x.1 = some x.2) : m.insertMany l = m :=
  insertMany_eq_self_iff.2 fun _ _ hget => h _ (mem_reverse.1 (mem_of_getList hget))

theorem length_insertMany (m : OrdMap α β) (hnd : (l.map Prod.fst).Nodup) (hm : ∀ k ∈ l.map Prod.fst, m.get k = none) :
    (m.insertMany l).toList.length = m.toList.length + l.length := by
  induction l generalizing m with
  | nil => rfl
  | cons kv l ih =>
    obtain ⟨hkv, hl⟩ := nodup_cons.1 hnd
    rw [insertMany_cons, ih _ hl, length_insert (hm kv.1 (by simp)), length_cons]
    · omega
    · intro k hk
      have hne : kv.1 ≠ k := by
        rintro rfl
        exact hkv hk
      rw [get_insert_of_ne _ _ hne]
      exact hm k (by simp [hk])

theorem insertMany_toList (m : OrdMap α β) : empty.insertMany m.toList = m := by
  rw [insertMany_eq_iff m.nodup_keys fun x hx => get_eq_some.2 hx]
  intro k hk
  rw [get_empty]
  cases hget : m.get k with
  | none => rfl
  | some v => exact absurd (mem_map_of_mem (get_eq_some.1 hget)) hk

theorem get_insertMany_map {γ : Type} (f : β → γ) {m' : OrdMap α γ} (h : ∀ k, m'.get k = (m.get k).map f)
    (l : List (α × β)) (k : α) :
    (m'.insertMany (l.map fun x => (x.1, f x.2))).get k = ((m.insertMany l).get k).map f := by
  induction l generalizing m m' with
  | nil => exact h k
  | cons x l ih =>
    refine ih fun a => ?_
    rw [get_insert, get_insert]
    split
    · rfl
    · exact h a

theorem get_insertMany_or (m : OrdMap α β) (l : List (α × β)) (k : α) :
    (m.insertMany l).get k = ((empty.insertMany l).get k).or (m.get k) := by
  rw [get_insertMany, get_insertMany, get_empty, Option.or_none]

/-! ## Mapping the values -/

def mapWithKey {γ : Type} (f : α → β → γ) (m : OrdMap α β) : OrdMap α γ :=
  ⟨m.toList.map fun kv => (kv.1, f kv.1 kv.2), List.pairwise_map.2 m.sorted⟩

theorem get_mapWithKey {γ : Type} (f : α → β → γ) (m : OrdMap α β) (k : α) :
    (m.mapWithKey f).get k = (m.get k).map (f k) := by
  have hlist : ∀ l : List (α × β), getList k (l.map fun kv => (kv.1, f kv.1 kv.2)) = (getList k l).map (f k) := by
    intro l
    induction l with
    | nil => rfl
    | cons kv l ih =>
      simp only [map_cons, getList]
      split
      · rename_i hk
        simp [hk]
      · exact ih
  exact hlist m.toList

/-! ## The last key -/

def lastKey (m : OrdMap α β) : Option α := m.toList.getLast?.map Prod.fst

theorem get_of_lastKey (h : m.lastKey = some k) : m.get k ≠ none := by
  obtain ⟨⟨a, v⟩, hlast, rfl⟩ := Option.map_eq_some_iff.1 h
  have hmem : (a, v) ∈ m.toList := mem_of_getLast? hlast
  simp [get_eq_some.2 hmem]

theorem lastKey_eq_none : m.lastKey = none ↔ m = empty := by
  rw [lastKey, Option.map_eq_none_iff, getLast?_eq_none_iff]
  exact ⟨fun h => ext_toList h, fun h => by rw [h]; rfl⟩

theorem le_lastKey {last : α} (hlast : m.lastKey = some last) (h : m.get k = some v) : k ≤ last := by
  obtain ⟨⟨a, w⟩, hl, rfl⟩ := Option.map_eq_some_iff.1 hlast
  obtain ⟨init, hinit⟩ := getLast?_eq_some_iff.1 hl
  have hmem : (k, v) ∈ init ++ [(a, w)] := hinit ▸ get_eq_some.1 h
  have hsorted := hinit ▸ m.sorted
  rcases mem_append.1 hmem with hk | hk
  · exact ((pairwise_append.1 hsorted).2.2 _ hk _ mem_cons_self).le
  · obtain ⟨rfl, _⟩ := Prod.mk.inj (mem_singleton.1 hk)
    exact le_rfl

theorem insertMany_ne_empty (h : l ≠ []) : m.insertMany l ≠ empty := by
  obtain ⟨kv, hkv⟩ := exists_mem_of_ne_nil l h
  intro he
  have hget : (m.insertMany l).get kv.1 = none := by rw [he]; rfl
  exact (get_insertMany_eq_none.1 hget).1 (mem_map_of_mem hkv)

/-! ## Submaps -/

def Sub (m n : OrdMap α β) : Prop := ∀ k v, m.get k = some v → n.get k = some v

theorem Sub.refl (m : OrdMap α β) : m.Sub m := fun _ _ h => h

theorem Sub.trans {o : OrdMap α β} (h : m.Sub n) (h' : n.Sub o) : m.Sub o := fun k v hk => h' k v (h k v hk)

theorem Sub.antisymm (h : m.Sub n) (h' : n.Sub m) : m = n := by
  apply ext_get
  intro k
  cases hm : m.get k with
  | some v => exact (h k v hm).symm
  | none =>
    cases hn : n.get k with
    | none => rfl
    | some v => rw [h' k v hn] at hm; cases hm

theorem sub_insert (h : ∀ w, m.get k = some w → w = v) : m.Sub (m.insert k v) := by
  intro a w ha
  rw [get_insert]
  split
  · rename_i hk
    rw [h w (by rwa [hk])]
  · exact ha

theorem Sub.insert (h : m.Sub n) (k : α) (v : β) : (m.insert k v).Sub (n.insert k v) := by
  intro a w ha
  by_cases hk : k = a
  · subst hk
    rwa [get_insert_self] at ha ⊢
  · rw [get_insert_of_ne _ _ hk] at ha ⊢
    exact h a w ha

theorem filterKeys_sub (m : OrdMap α β) (p : α → Bool) : (m.filterKeys p).Sub m := by
  intro a w ha
  rw [get_filterKeys] at ha
  split at ha
  · exact ha
  · cases ha

/-! ## Ranges -/

theorem sorted_range (m : OrdMap α β) (s e : α) : (m.range s e).Pairwise fun a b => a.1 < b.1 :=
  m.sorted.filter _

variable {e : α}

theorem mem_range {s : α} : (k, v) ∈ m.range s e ↔ m.get k = some v ∧ s ≤ k ∧ k < e := by
  rw [get_eq_some, range, mem_filter]
  simp

theorem filter_of_sorted {γ : Type*} {f : γ → α} {x : γ} {l r : List γ}
    (h : (l ++ x :: r).Pairwise fun a b => f a < f b) :
    (l ++ x :: r).filter (fun y => decide (f x ≤ f y)) = x :: r ∧
      (l ++ x :: r).filter (fun y => decide (f x < f y)) = r := by
  obtain ⟨_, hr, hlr⟩ := pairwise_append.1 h
  have hbefore : ∀ y ∈ l, f y < f x := fun y hy => hlr y hy x mem_cons_self
  have hbehind := (pairwise_cons.1 hr).1
  constructor
  · rw [filter_append, filter_eq_nil_iff.2 (by simpa using hbefore), nil_append, filter_cons_of_pos (by simp),
      filter_eq_self.2 (by simpa using fun y hy => (hbehind y hy).le)]
  · rw [filter_append, filter_eq_nil_iff.2 (by simpa using fun y hy => (hbefore y hy).le), nil_append,
      filter_cons_of_neg (by simp), filter_eq_self.2 (by simpa using hbehind)]

theorem range_of_ge (m : OrdMap α β) {s : α} (h : s ≤ a) (e : α) :
    m.range a e = (m.range s e).filter fun y => decide (a ≤ y.1) := by
  simp only [range, filter_filter]
  apply filter_congr
  intro y _
  simp only [← Bool.decide_and, decide_eq_decide]
  constructor
  · rintro ⟨h1, h2⟩; exact ⟨h1, h.trans h1, h2⟩
  · rintro ⟨h1, _, h2⟩; exact ⟨h1, h2⟩

theorem range_from_key {s : α} {r : List (α × β)} (h : m.range s e = l ++ x :: r) : m.range x.1 e = x :: r := by
  have hx : (x.1, x.2) ∈ m.range s e := by rw [h]; simp
  rw [m.range_of_ge (mem_range.1 hx).2.1, h]
  exact (filter_of_sorted (h ▸ m.sorted_range s e)).1

theorem range_append (m : OrdMap α β) {b : α} (hab : a ≤ b) (hbe : b ≤ e) :
    m.range a e = m.range a b ++ m.range b e := by
  have hsorted := m.sorted
  unfold range
  generalize m.toList = l at hsorted
  induction l with
  | nil => rfl
  | cons x l ih =>
    obtain ⟨hx, hl⟩ := pairwise_cons.1 hsorted
    have ih := ih hl
    by_cases hxb : x.1 < b
    · by_cases hax : a ≤ x.1
      · rw [filter_cons, filter_cons, filter_cons, ih]
        simp [hax, hxb, hxb.trans_le hbe, not_le.2 hxb]
      · rw [filter_cons, filter_cons, filter_cons, ih]
        simp [hax, not_le.2 hxb]
    · -- Behind a key from `b` on, nothing is left of the first part.
      have hbx : b ≤ x.1 := not_lt.1 hxb
      have hnil : l.filter (fun y => decide (a ≤ y.1 ∧ y.1 < b)) = [] := by
        rw [filter_eq_nil_iff]
        intro y hy
        simpa using fun _ => hbx.trans (hx y hy).le
      rw [hnil, nil_append] at ih
      rw [filter_cons, filter_cons, filter_cons, hnil, ih]
      simp [hxb, hbx, hab.trans hbx]

end OrdMap
