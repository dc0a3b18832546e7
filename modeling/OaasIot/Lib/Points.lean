import OaasIot.Lib.Program

/-!
# Programs that stand at points

Where the programs of a pool go through a few points only, an interleaving is followed by the points: `Standing` is the
list of them with the shared state, and `next` says where a program goes from its point, and what it does to the
state.
-/

structure Standing (Pt σ : Type) where
  points : List Pt
  state : σ

namespace Standing

open List

variable {I : Interface} {Pt σ α : Type}

def turn (next : Pt → σ → Pt × σ) (st : Standing Pt σ) (i : Nat) : Standing Pt σ :=
  match st.points[i]? with
  | none => st
  | some pt => ⟨st.points.set i (next pt st.state).1, (next pt st.state).2⟩

def run (next : Pt → σ → Pt × σ) (st : Standing Pt σ) (schedule : List Nat) : Standing Pt σ :=
  schedule.foldl (turn next) st

def pool (prog : Pt → Prog I α) (st : Standing Pt σ) : Prog.Pool I σ α := ⟨st.points.map prog, st.state⟩

def Follows (prog : Pt → Prog I α) (H : Handler I σ) (next : Pt → σ → Pt × σ) : Prop :=
  ∀ pt s, (prog pt).step H s = (prog (next pt s).1, (next pt s).2)

variable {st : Standing Pt σ} {next : Pt → σ → Pt × σ} {pt : Pt} {i : Nat}

theorem turn_of_get (h : st.points[i]? = some pt) :
    st.turn next i = ⟨st.points.set i (next pt st.state).1, (next pt st.state).2⟩ := by
  rw [turn, h]

theorem turn_of_none (h : st.points[i]? = none) : st.turn next i = st := by
  rw [turn, h]

theorem turn_of_fixed (h : st.points[i]? = some pt) (hfixed : next pt st.state = (pt, st.state)) :
    st.turn next i = st := by
  obtain ⟨hlt, hget⟩ := List.getElem?_eq_some_iff.1 h
  rw [turn_of_get h, hfixed, ← hget, List.set_getElem_self]

variable {prog : Pt → Prog I α}

theorem Follows.pool_turn {H : Handler I σ} (h : Follows prog H next) (st : Standing Pt σ) (i : Nat) :
    (st.turn next i).pool prog = (st.pool prog).advance H i := by
  cases hget : st.points[i]? with
  | none =>
    rw [turn_of_none hget, Prog.Pool.advance, pool, getElem?_map, hget]
    rfl
  | some pt =>
    have hprog : (st.pool prog).progs[i]? = some (prog pt) := by rw [pool, getElem?_map, hget]; rfl
    rw [turn_of_get hget, Prog.Pool.advance_of_get H hprog]
    have hstep : (prog pt).step H (st.pool prog).state = _ := h pt st.state
    rw [hstep, pool, map_set]
    rfl

theorem pool_map {β : Type} {start : β → Pt} {p : β → Prog I α} (h : ∀ x, prog (start x) = p x) (xs : List β) (s : σ) :
    (⟨xs.map start, s⟩ : Standing Pt σ).pool prog = ⟨xs.map p, s⟩ := by
  rw [pool, map_map]
  congr 1
  exact map_congr_left fun x _ => h x

theorem Follows.pool_run {H : Handler I σ} (h : Follows prog H next) (st : Standing Pt σ) (schedule : List Nat) :
    (st.run next schedule).pool prog = (st.pool prog).schedule H schedule := by
  induction schedule generalizing st with
  | nil => rfl
  | cons i schedule ih =>
    have hcons : (st.pool prog).schedule H (i :: schedule) = ((st.pool prog).advance H i).schedule H schedule := rfl
    rw [hcons, ← h.pool_turn]
    exact ih (st.turn next i)

theorem map_run {γ : Type} {g : Pt → γ} (hg : ∀ pt s, g (next pt s).1 = g pt) (st : Standing Pt σ)
    (schedule : List Nat) : (st.run next schedule).points.map g = st.points.map g := by
  induction schedule generalizing st with
  | nil => rfl
  | cons i schedule ih =>
    have hturn : (st.turn next i).points.map g = st.points.map g := by
      cases hget : st.points[i]? with
      | none => rw [turn_of_none hget]
      | some pt =>
        obtain ⟨hlt, rfl⟩ := List.getElem?_eq_some_iff.1 hget
        rw [turn_of_get hget, List.map_set, hg, ← List.map_set, List.set_getElem_self]
    exact (ih (st.turn next i)).trans hturn

theorem done_of_results {answers : List α} (h : (st.pool prog).results = answers.map some) (hpt : pt ∈ st.points) :
    ∃ a ∈ answers, prog pt = .done a := by
  have hmem : _ ∈ (st.pool prog).results := mem_map_of_mem (mem_map_of_mem (f := prog) hpt)
  rw [h] at hmem
  obtain ⟨a, hmem, ha⟩ := mem_map.1 hmem
  cases hprog : prog pt with
  | done b =>
    rw [hprog] at ha
    obtain rfl : a = b := Option.some.inj ha
    exact ⟨a, hmem, rfl⟩
  | call c k =>
    rw [hprog] at ha
    cases ha

end Standing

/-! ## Contributions -/

section
variable {Pt β γ : Type} {f : Pt → Option β} {l : List Pt} {i : Nat} {a b : Pt}

theorem exists_split_of_get (h : l[i]? = some a) (b : Pt) : ∃ l₁ l₂, l = l₁ ++ a :: l₂ ∧ l.set i b = l₁ ++ b :: l₂ := by
  obtain ⟨hlt, hget⟩ := List.getElem?_eq_some_iff.1 h
  obtain ⟨l₁, l₂, hl, _, hset⟩ := @List.exists_of_set _ _ b _ hlt
  exact ⟨l₁, l₂, hget ▸ hl, hset⟩

theorem filterMap_set_of_eq (h : l[i]? = some a) (hf : f b = f a) : (l.set i b).filterMap f = l.filterMap f := by
  obtain ⟨l₁, l₂, rfl, hset⟩ := exists_split_of_get h b
  rw [hset, List.filterMap_append, List.filterMap_append, List.filterMap_cons, List.filterMap_cons, hf]

theorem perm_filterMap_set {x : β} (h : l[i]? = some a) (ha : f a = none) (hb : f b = some x) :
    ((l.set i b).filterMap f).Perm (l.filterMap f ++ [x]) := by
  obtain ⟨l₁, l₂, rfl, hset⟩ := exists_split_of_get h b
  rw [hset, List.filterMap_append, List.filterMap_append, List.filterMap_cons_some hb, List.filterMap_cons_none ha]
  exact List.perm_middle.trans (List.perm_append_singleton x _).symm

/-- **One contribution more**, where their order does not matter. -/
theorem foldl_filterMap_set (op : γ → β → γ) [RightCommutative op] {x : β} (h : l[i]? = some a) (ha : f a = none)
    (hb : f b = some x) (z : γ) :
    ((l.set i b).filterMap f).foldl op z = op ((l.filterMap f).foldl op z) x := by
  rw [(perm_filterMap_set h ha hb).foldl_eq, List.foldl_append, List.foldl_cons, List.foldl_nil]

/-- Where at most one program has contributed, the others have not. -/
theorem filterMap_of_length_le_one (hlen : (l.filterMap f).length ≤ 1) (h : l[i]? = some a) (ha : f a ≠ none) :
    ∀ y ∈ l.set i b, y = b ∨ f y = none := by
  obtain ⟨l₁, l₂, rfl, hset⟩ := exists_split_of_get h b
  obtain ⟨z, hz⟩ := Option.ne_none_iff_exists'.1 ha
  rw [List.filterMap_append, List.filterMap_cons_some hz, List.length_append, List.length_cons] at hlen
  have hfront : l₁.filterMap f = [] := List.length_eq_zero_iff.1 (by omega)
  have hback : l₂.filterMap f = [] := List.length_eq_zero_iff.1 (by omega)
  intro y hy
  rw [hset, List.mem_append, List.mem_cons] at hy
  rcases hy with hy | rfl | hy
  · exact .inr (List.filterMap_eq_nil_iff.1 hfront y hy)
  · exact .inl rfl
  · exact .inr (List.filterMap_eq_nil_iff.1 hback y hy)

theorem filterMap_map_of_none {α : Type} {start : α → Pt} (h : ∀ x, f (start x) = none) (xs : List α) :
    (xs.map start).filterMap f = [] := by
  refine List.filterMap_eq_nil_iff.2 fun y hy => ?_
  obtain ⟨x, _, rfl⟩ := List.mem_map.1 hy
  exact h x

theorem filterMap_of_forall {g : Pt → β} (h : ∀ y ∈ l, f y = some (g y)) : l.filterMap f = l.map g := by
  rw [List.filterMap_congr h]
  exact congrFun List.filterMap_eq_map' l

end
