import OaasIot.Odgm.MstSync

/-!
# Convergence under MST

With the builder's configuration a merge keeps the remote value (`builder.rs:772`), so two replicas that fetch from each
other before either has merged swap the values of a key. Where they agree on the keys they share, a merge only adds
records, and a completed round has brought in every record of the peer.
-/

namespace Odgm

open List OrdMap

/-! ## Replicas that agree on the keys they share -/

section Run

variable {T : TreeLib} {n : Nat} {stores : Fin n → Store}

def Consistent (stores : Fin n → Store) : Prop :=
  ∀ i j k v w, (stores i).get k = some v → (stores j).get k = some w → v = w

def Owed (stores : Fin n → Store) (s : Store) : SyncPhase n → Prop
  | .idle => True
  | .fetching peer ranges =>
    ∀ k v, (stores peer).get k = some v → s.get k = some v ∨ inRanges ranges k = true
  | .merging peer items =>
    (∀ k v, (stores peer).get k = some v → s.get k = some v ∨ (k, v) ∈ items) ∧
      ∀ k v, (k, v) ∈ items → ∃ j, (stores j).get k = some v

structure Tracks (stores : Fin n → Store) (i : Fin n) (r : MstReplica n) : Prop where
  healthy : r.node.faults = []
  tree : r.node.tree = r.node.app
  kept : (stores i).Sub r.node.app
  origin : ∀ k v, r.node.app.get k = some v → ∃ j, (stores j).get k = some v
  owed : Owed stores r.node.app r.phase
  completed : ∀ j ∈ r.completed, (stores j).Sub r.node.app

structure Converging (stores : Fin n → Store) (g : Cluster T n) : Prop where
  replica : ∀ i, Tracks stores i (g.replicas i)
  notice : ∀ m ∈ g.notices, ∃ t, m.pages = T.pages t ∧ (stores m.owner).Sub t

theorem converging_start (stores : Fin n → Store) : Converging stores (Cluster.start T stores) where
  replica i := {
    healthy := rfl
    tree := rebuild_eq _
    kept := OrdMap.Sub.refl _
    origin := fun _ _ h => ⟨i, h⟩
    owed := trivial
    completed := fun _ h => nomatch h }
  notice := fun _ h => nomatch h

variable {i : Fin n} {r : MstReplica n}

theorem Tracks.sub_or_inRanges (hr : Tracks stores i r) {s : Store} {t : OrdMap Bytes Bytes} (ht : s.Sub t)
    (k v : Bytes) (hk : s.get k = some v) :
    r.node.app.get k = some v ∨ inRanges (pageRequest T r.node.tree (T.pages t)) k = true := by
  by_cases hlocal : r.node.tree.get k = some v
  · left
    rwa [← hr.tree]
  · right
    exact inRanges_pageRequest (ht k v hk) hlocal

theorem Tracks.mergeItem (hc : Consistent stores) {peer : Fin n} {item : Bytes × Bytes} {items : List (Bytes × Bytes)}
    (hr : Tracks stores i r) (hphase : r.phase = .merging peer (item :: items)) :
    Tracks stores i { r with
      node := (setRaw defaultMstConfig (Cluster.shardId i) r.node item.1 item.2).2
      phase := .merging peer items } := by
  have howed := hr.owed
  rw [hphase] at howed
  obtain ⟨hpending, horigin⟩ := howed
  obtain ⟨j, hj⟩ := horigin item.1 item.2 mem_cons_self
  have hsub : r.node.app.Sub (r.node.app.insert item.1 item.2) := by
    apply sub_insert
    intro w hw
    obtain ⟨j', hj'⟩ := hr.origin _ _ hw
    exact hc j' j _ _ _ hj' hj
  rw [setRaw_healthy _ hr.healthy]
  refine ⟨hr.healthy, ?_, hr.kept.trans hsub, ?_, ⟨?_, ?_⟩, ?_⟩
  · -- tree
    simp only [hr.tree]
  · -- origin
    intro k v hk
    by_cases hki : item.1 = k
    · subst hki
      rw [get_insert_self] at hk
      cases hk
      exact ⟨j, hj⟩
    · rw [get_insert_of_ne _ _ hki] at hk
      exact hr.origin k v hk
  · -- owed: the merged item is no longer pending
    intro k v hk
    rcases hpending k v hk with h | h
    · exact .inl (hsub k v h)
    · rcases mem_cons.1 h with rfl | h
      · exact .inl (get_insert_self _ _ _)
      · exact .inr h
  · exact fun k v h => horigin k v (mem_cons_of_mem _ h)
  · exact fun j hj => (hr.completed j hj).trans hsub

variable {g : Cluster T n}

theorem Converging.moves (hc : Consistent stores) (h : Converging stores g) {a : SyncStep n} (ha : a.quiet = true)
    (hr : Cluster.Moves g i a r) : Tracks stores i r := by
  have hi := h.replica i
  cases hr with
  | @inSync m notice hphase hmem hreq =>
    obtain ⟨t, ht, hsub⟩ := h.notice _ hmem
    refine ⟨hi.healthy, hi.tree, hi.kept, hi.origin, hi.owed, ?_⟩
    intro j hj
    rcases mem_cons.1 hj with rfl | hj
    · intro k v hk
      rcases hi.sub_or_inRanges (T := T) hsub k v hk with happ | hin
      · exact happ
      · rw [← ht, show pageRequest T (g.replicas i).node.tree notice.pages = [] from hreq] at hin
        cases hin
    · exact hi.completed j hj
  | request hphase hmem =>
    obtain ⟨t, ht, hsub⟩ := h.notice _ hmem
    refine ⟨hi.healthy, hi.tree, hi.kept, hi.origin, ?_, hi.completed⟩
    rw [ht]
    exact hi.sub_or_inRanges hsub
  | @answer peer ranges hphase =>
    have howed := hi.owed
    rw [hphase] at howed
    refine ⟨hi.healthy, hi.tree, hi.kept, hi.origin, ⟨?_, ?_⟩, hi.completed⟩
    · intro k v hk
      rcases howed k v hk with happ | hin
      · exact .inl happ
      · -- the peer still has what it started with
        exact .inr (mem_pageItems.2 ⟨hin, (h.replica peer).kept k v hk⟩)
    · intro k v hmem
      exact (h.replica peer).origin k v (mem_pageItems.1 hmem).2
  | mergeItem hphase => exact hi.mergeItem hc hphase
  | @mergeDone peer hphase =>
    have howed := hi.owed
    rw [hphase] at howed
    refine ⟨hi.healthy, hi.tree, hi.kept, hi.origin, trivial, ?_⟩
    intro j hj
    rcases mem_cons.1 hj with rfl | hj
    · intro k v hk
      rcases howed.1 k v hk with happ | hmem
      · exact happ
      · cases hmem
    · exact hi.completed j hj
  | client op => cases ha
  | restart => exact ⟨hi.healthy, rebuild_eq _, hi.kept, hi.origin, trivial, hi.completed⟩

theorem Converging.step (hc : Consistent stores) (h : Converging stores g) {a : SyncStep n} (ha : a.quiet = true) :
    Converging stores (g.step a) := by
  rcases g.step_cases a with heq | ⟨i, heq⟩ | ⟨i, r, hr, heq⟩
  · rwa [heq]
  · rw [heq]
    refine ⟨h.replica, ?_⟩
    intro m hm
    rcases mem_append.1 hm with hm | hm
    · exact h.notice m hm
    · obtain rfl := mem_singleton.1 hm
      refine ⟨g.tree i, rfl, ?_⟩
      rw [show g.tree i = (g.replicas i).node.app from (h.replica i).tree]
      exact (h.replica i).kept
  · rw [heq]
    exact ⟨Cluster.forall_setReplica h.replica (h.moves hc ha hr), h.notice⟩

theorem Converging.run (hc : Consistent stores) (h : Converging stores g) (steps : List (SyncStep n))
    (hquiet : ∀ a ∈ steps, a.quiet = true) : Converging stores (g.run steps) :=
  foldlRecOn steps Cluster.step h fun _ hg a ha => hg.step hc (hquiet a ha)

theorem Converging.sub (h : Converging stores g) (hall : ∀ j, (stores j).Sub (g.app i)) (j : Fin n) :
    (g.app j).Sub (g.app i) := by
  intro k v hk
  obtain ⟨l, hl⟩ := (h.replica j).origin k v hk
  exact hall l k v hl

end Run

/-! ## Rounds that overlap -/

def fetchBoth : List (SyncStep 2) := [.publish 0, .publish 1, .receive 0 1, .receive 1 0, .fetch 0, .fetch 1]

def mergeBoth (count₀ count₁ : Nat) : List (SyncStep 2) :=
  (List.replicate count₀ (.merge 0) ++ [.merge 0]) ++ (List.replicate count₁ (.merge 1) ++ [.merge 1])

theorem run_fetchBoth (T : TreeLib) (stores : Fin 2 → Store) {k v w : Bytes} (h₀ : (stores 0).get k = some v)
    (h₁ : (stores 1).get k = some w) (hne : v ≠ w) :
    ((Cluster.start T stores).run fetchBoth).replicas 0 = ⟨⟨stores 0, stores 0, [], []⟩,
        .merging 1 (pageItems (stores 1) (pageRequest T (stores 0) (T.pages (stores 1)))), []⟩ ∧
      ((Cluster.start T stores).run fetchBoth).replicas 1 = ⟨⟨stores 1, stores 1, [], []⟩,
        .merging 0 (pageItems (stores 0) (pageRequest T (stores 1) (T.pages (stores 0)))), []⟩ := by
  have hp₀ : T.pages (stores 0) ≠ [] := pages_ne_nil h₀
  have hp₁ : T.pages (stores 1) ≠ [] := pages_ne_nil h₁
  have hr₀ : pageRequest T (stores 0) (T.pages (stores 1)) ≠ [] := pageRequest_ne_nil h₁ (by simpa [h₀] using hne)
  have hr₁ : pageRequest T (stores 1) (T.pages (stores 0)) ≠ [] := pageRequest_ne_nil h₀ (by simpa [h₁] using hne.symm)
  rw [Cluster.start_eq]
  simp [fetchBoth, Cluster.run, Cluster.step, Cluster.publish, Cluster.receive, Cluster.fetch, Cluster.setReplica,
    Cluster.tree, Cluster.app, hp₀, hp₁, hr₀, hr₁]

theorem quiet_rounds (count₀ count₁ : Nat) : ∀ a ∈ fetchBoth ++ mergeBoth count₀ count₁, a.quiet = true := by
  intro a ha
  rcases mem_append.1 ha with ha | ha
  · exact (by decide : ∀ a ∈ fetchBoth, a.quiet = true) a ha
  · simp only [mergeBoth, mem_append, mem_replicate, mem_singleton] at ha
    rcases ha with (⟨-, rfl⟩ | rfl) | (⟨-, rfl⟩ | rfl) <;> rfl

theorem exists_swap (T : TreeLib) (stores : Fin 2 → Store) {k v w : Bytes} (h₀ : (stores 0).get k = some v)
    (h₁ : (stores 1).get k = some w) (hne : v ≠ w) :
    ∃ g, (∃ count₀ count₁, g = (Cluster.start T stores).run (fetchBoth ++ mergeBoth count₀ count₁)) ∧
      1 ∈ (g.replicas 0).completed ∧ 0 ∈ (g.replicas 1).completed ∧
      (g.app 0).get k = some w ∧ (g.app 1).get k = some v := by
  obtain ⟨hg₀, hg₁⟩ := run_fetchBoth T stores h₀ h₁ hne
  have hv : (stores 0).get k ≠ some w := by simpa [h₀] using hne
  have hw : (stores 1).get k ≠ some v := by simpa [h₁] using hne.symm
  have h10 : (1 : Fin 2) ≠ 0 := by decide
  have hmerge₀ := Cluster.run_mergeAll (congrArg MstReplica.phase hg₀) (congrArg (·.node.faults) hg₀)
  refine ⟨_, ⟨(pageItems (stores 1) (pageRequest T (stores 0) (T.pages (stores 1)))).length,
    (pageItems (stores 0) (pageRequest T (stores 1) (T.pages (stores 0)))).length, rfl⟩, ?_⟩
  rw [Cluster.run_append, mergeBoth, Cluster.run_append, hmerge₀]
  -- the merges of one replica leave the other's fetched items alone
  rw [← Cluster.replicas_setReplica_of_ne _ h10] at hg₁
  rw [Cluster.run_mergeAll (congrArg MstReplica.phase hg₁) (congrArg (·.node.faults) hg₁)]
  refine ⟨?_, ?_, ?_, ?_⟩
  · rw [Cluster.replicas_setReplica_of_ne _ h10.symm, Cluster.replicas_setReplica_self]
    exact mem_cons_self
  · rw [Cluster.replicas_setReplica_self]
    exact mem_cons_self
  · rw [Cluster.app_setReplica_of_ne _ h10.symm, Cluster.app_setReplica_self]
    exact get_insertMany_pageItems _ (inRanges_pageRequest h₁ hv) h₁
  · rw [Cluster.app_setReplica_self]
    exact get_insertMany_pageItems _ (inRanges_pageRequest h₀ hw) h₀

/-! ## Convergence -/

theorem consistent_two {stores : Fin 2 → Store}
    (h : ∀ k v w, (stores 0).get k = some v → (stores 1).get k = some w → v = w) : Consistent stores := by
  have hsame : ∀ i k v w, (stores i).get k = some v → (stores i).get k = some w → v = w :=
    fun i k v w hv hw => Option.some.inj (hv.symm.trans hw)
  refine Fin.forall_fin_two.2 ⟨Fin.forall_fin_two.2 ⟨hsame 0, h⟩, Fin.forall_fin_two.2 ⟨?_, hsame 1⟩⟩
  intro k v w hv hw
  exact (h k w v hw hv).symm

/-- In every run without clients, once each replica has completed a round against the other, the stores
map every key to the same value. -/
def Converges (T : TreeLib) (stores : Fin 2 → Store) : Prop :=
  ∀ steps : List (SyncStep 2), (∀ a ∈ steps, a.quiet = true) →
    1 ∈ (((Cluster.start T stores).run steps).replicas 0).completed →
    0 ∈ (((Cluster.start T stores).run steps).replicas 1).completed →
    ∀ k, (((Cluster.start T stores).run steps).app 0).get k = (((Cluster.start T stores).run steps).app 1).get k

/-- **Convergence**: two replicas converge just where they start with the same value for every key they
share. -/
theorem mst_converges_iff (T : TreeLib) (stores : Fin 2 → Store) :
    Converges T stores ↔ ∀ k v w, (stores 0).get k = some v → (stores 1).get k = some w → v = w := by
  constructor
  · intro h k v w h₀ h₁
    by_contra hne
    obtain ⟨g, ⟨count₀, count₁, rfl⟩, hc₀, hc₁, hg₀, hg₁⟩ := exists_swap T stores h₀ h₁ hne
    have heq := h _ (quiet_rounds count₀ count₁) hc₀ hc₁ k
    rw [hg₀, hg₁] at heq
    exact hne (Option.some.inj heq).symm
  · intro h steps hquiet hc₀ hc₁ k
    have hg := (converging_start (T := T) stores).run (consistent_two h) steps hquiet
    have hall₀ : ∀ j, (stores j).Sub (((Cluster.start T stores).run steps).app 0) :=
      Fin.forall_fin_two.2 ⟨(hg.replica 0).kept, (hg.replica 0).completed 1 hc₀⟩
    have hall₁ : ∀ j, (stores j).Sub (((Cluster.start T stores).run steps).app 1) :=
      Fin.forall_fin_two.2 ⟨(hg.replica 1).completed 0 hc₁, (hg.replica 1).kept⟩
    rw [OrdMap.Sub.antisymm (hg.sub hall₁ 0) (hg.sub hall₀ 1)]

/-! One key, two values. -/

namespace Swapped

def key : Bytes := [1]

def stores : Fin 2 → Store
  | 0 => OrdMap.empty.insert key [10]
  | 1 => OrdMap.empty.insert key [20]

theorem mst_swaps :
    let g := (Cluster.start onePage stores).run (fetchBoth ++ mergeBoth 1 1)
    1 ∈ (g.replicas 0).completed ∧ 0 ∈ (g.replicas 1).completed ∧
      (g.app 0).get key = some [20] ∧ (g.app 1).get key = some [10] ∧ ¬ Converges onePage stores := by
  have h₀ : (((Cluster.start onePage stores).run (fetchBoth ++ mergeBoth 1 1)).app 0).get key = some [20] := by decide
  have h₁ : (((Cluster.start onePage stores).run (fetchBoth ++ mergeBoth 1 1)).app 1).get key = some [10] := by decide
  have hc₀ : 1 ∈ (((Cluster.start onePage stores).run (fetchBoth ++ mergeBoth 1 1)).replicas 0).completed := by decide
  have hc₁ : 0 ∈ (((Cluster.start onePage stores).run (fetchBoth ++ mergeBoth 1 1)).replicas 1).completed := by decide
  refine ⟨hc₀, hc₁, h₀, h₁, ?_⟩
  intro h
  have heq := h _ (quiet_rounds 1 1) hc₀ hc₁ key
  rw [h₀, h₁] at heq
  cases heq

end Swapped

end Odgm
