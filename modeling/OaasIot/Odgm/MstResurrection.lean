import OaasIot.Odgm.MstSync

/-!
# Values that come back under MST

The builder's merge function keeps whatever the peer sends (`builder.rs:772`), and `delete_raw` (`mst_layer.rs:389`)
records no tombstone. A value that another replica still stores, or that has been fetched and not yet merged, can come
back. Nothing else brings it back.
-/

namespace Odgm

open List OrdMap

def ClientOp.Displaces (k v : Bytes) : ClientOp → Prop
  | .put key value => key = k ∧ value ≠ v
  | .delete key => key = k
  | .deleteRange start stop => start ≤ k ∧ k < stop

def SyncStep.writes {n : Nat} (k : Bytes) : SyncStep n → Bool
  | .client _ (.put key _) => key = k
  | _ => false

section Client

variable {nd : Node} (hf : nd.faults = []) (id : UInt64) {k v : Bytes}
include hf

theorem ClientOp.get_onNode {op : ClientOp} (h : (op.onNode id nd).app.get k = some v) :
    nd.app.get k = some v ∨ op = .put k v := by
  cases op with
  | put key value =>
    rw [ClientOp.onNode, setRaw_healthy id hf, get_insert] at h
    split at h
    · rename_i hkey
      cases h
      exact .inr (by rw [hkey])
    · exact .inl h
  | delete key | deleteRange start stop => exact .inl (filterKeys_sub _ _ k v h)

theorem ClientOp.get_onNode_of_displaces {op : ClientOp} (hop : op.Displaces k v) :
    (op.onNode id nd).app.get k ≠ some v := by
  cases op with
  | put key value =>
    obtain ⟨rfl, hne⟩ := hop
    rw [ClientOp.onNode, setRaw_healthy id hf, get_insert_self]
    exact fun h => hne (Option.some.inj h)
  | delete key =>
    obtain rfl := hop
    have hget : (deleteRaw nd key).app.get key = none := (get_erase _ _ _).trans (if_pos rfl)
    exact fun h => nomatch hget.symm.trans h
  | deleteRange start stop =>
    have hget : (nd.deleteRange start stop).app.get k = none := (get_eraseRange _ _ _ _).trans (if_pos hop)
    exact fun h => nomatch hget.symm.trans h

end Client

/-! ## What every run keeps -/

/-- No storage fails, and every record is in the tree. A delete leaves its record there. -/
structure Indexed {n : Nat} (r : MstReplica n) : Prop where
  healthy : r.node.faults = []
  sub : r.node.app.Sub r.node.tree

section Run

variable {T : TreeLib} {n : Nat} {g : Cluster T n}

variable {r : MstReplica n}

theorem indexed_setRaw (h : Indexed r) (id : UInt64) (key value : Bytes) (phase : SyncPhase n) :
    Indexed { r with node := (setRaw defaultMstConfig id r.node key value).2, phase := phase } := by
  rw [setRaw_healthy id h.healthy]
  exact ⟨h.healthy, h.sub.insert key value⟩

variable {a : SyncStep n} {i : Fin n}

section
variable (h : ∀ j, Indexed (g.replicas j))
include h

theorem indexed_moves (hr : Cluster.Moves g i a r) : Indexed r := by
  have hi := h i
  cases hr with
  | inSync | request | answer => exact ⟨hi.healthy, hi.sub⟩
  | mergeItem => exact indexed_setRaw hi _ _ _ _
  | mergeDone => exact ⟨hi.healthy, hi.sub⟩
  | client op =>
    cases op with
    | put key value => exact indexed_setRaw hi _ key value _
    | delete key | deleteRange start stop => exact ⟨hi.healthy, (filterKeys_sub _ _).trans hi.sub⟩
  | restart =>
    refine ⟨hi.healthy, ?_⟩
    simp only [rebuild_eq]
    exact OrdMap.Sub.refl _

theorem indexed_step (a : SyncStep n) : ∀ j, Indexed ((g.step a).replicas j) := by
  rcases g.step_cases a with heq | ⟨i, heq⟩ | ⟨i, r, hr, heq⟩
  · rwa [heq]
  · rwa [heq]
  · rw [heq]
    exact Cluster.forall_setReplica (P := fun _ => Indexed) h (indexed_moves h hr)

theorem indexed_run (steps : List (SyncStep n)) : ∀ j, Indexed ((g.run steps).replicas j) :=
  foldlRecOn (motive := fun g : Cluster T n => ∀ j, Indexed (g.replicas j)) steps Cluster.step h
    fun _ hg a _ => indexed_step hg a

end

theorem indexed_start (T : TreeLib) (stores : Fin n → Store) (j : Fin n) :
    Indexed ((Cluster.start T stores).replicas j) := by
  rw [Cluster.start_eq]
  exact ⟨rfl, OrdMap.Sub.refl _⟩

/-! ## Values that are gone -/

structure NotCarried (k v : Bytes) (r : MstReplica n) : Prop where
  app : r.node.app.get k ≠ some v
  items : (k, v) ∉ r.phase.items

variable {k v : Bytes}

section
variable (hx : ∀ j, Indexed (g.replicas j))
include hx

variable (h : ∀ j, NotCarried k v (g.replicas j))
include h

theorem notCarried_moves (ha : a.writes k = false) (hr : Cluster.Moves g i a r) : NotCarried k v r := by
  have hi := h i
  cases hr with
  | inSync => exact ⟨hi.app, hi.items⟩
  | request => exact ⟨hi.app, not_mem_nil⟩
  | @answer peer ranges =>
    refine ⟨hi.app, ?_⟩
    intro hmem
    exact (h peer).app (mem_pageItems.1 hmem).2
  | @mergeItem peer item items hphase =>
    have hitems := hi.items
    rw [hphase] at hitems
    obtain ⟨hitem, hrest⟩ := not_or.1 (mt mem_cons.2 hitems)
    rw [setRaw_healthy _ (hx i).healthy]
    refine ⟨?_, hrest⟩
    intro hget
    by_cases hk : item.1 = k
    · subst hk
      rw [get_insert_self] at hget
      cases hget
      exact hitem rfl
    · rw [get_insert_of_ne _ _ hk] at hget
      exact hi.app hget
  | mergeDone => exact ⟨hi.app, not_mem_nil⟩
  | client op =>
    refine ⟨?_, hi.items⟩
    intro hget
    rcases ClientOp.get_onNode (hx i).healthy _ hget with hget | rfl
    · exact hi.app hget
    · simp [SyncStep.writes] at ha
  | restart => exact ⟨hi.app, not_mem_nil⟩

theorem notCarried_step (ha : a.writes k = false) : ∀ j, NotCarried k v ((g.step a).replicas j) := by
  rcases g.step_cases a with heq | ⟨i, heq⟩ | ⟨i, r, hr, heq⟩
  · rwa [heq]
  · rwa [heq]
  · rw [heq]
    exact Cluster.forall_setReplica (P := fun _ => NotCarried k v) h (notCarried_moves hx h ha hr)

theorem notCarried_run (steps : List (SyncStep n)) (hsteps : ∀ a ∈ steps, a.writes k = false) :
    ∀ j, NotCarried k v ((g.run steps).replicas j) := by
  induction steps generalizing g with
  | nil => exact h
  | cons a steps ih =>
    obtain ⟨ha, hrest⟩ := forall_mem_cons.1 hsteps
    exact ih (indexed_step hx a) (notCarried_step hx h ha) hrest

end

/-! ## Values that come back -/

theorem exists_mergeUntil (hx : Indexed (g.replicas i)) (h : (k, v) ∈ (g.replicas i).phase.items) :
    ∃ steps : List (SyncStep n), (∀ a ∈ steps, a.quiet = true) ∧ ((g.run steps).app i).get k = some v := by
  cases hphase : (g.replicas i).phase with
  | idle | fetching peer ranges => rw [hphase] at h; cases h
  | merging peer items =>
    rw [hphase] at h
    obtain ⟨before, rest, rfl⟩ := append_of_mem h
    refine ⟨replicate (before ++ [(k, v)]).length (.merge i), ?_, ?_⟩
    · intro a ha
      rw [eq_of_mem_replicate ha]
      rfl
    · rw [Cluster.run_merges (before ++ [(k, v)]) rest (by simpa using hphase) hx.healthy,
        Cluster.app_setReplica_self, insertMany_append]
      exact get_insert_self _ _ _

def fetchFrom (i j : Fin n) (notice : Nat) : List (SyncStep n) := [.publish j, .receive i notice, .fetch i]

theorem run_fetchFrom {j : Fin n} (hidle : (g.replicas i).phase = .idle) (hij : j ≠ i)
    (hj : (g.tree j).get k = some v) (hi : (g.tree i).get k ≠ some v) :
    (g.run (fetchFrom i j g.notices.length)).replicas i = { g.replicas i with
      phase := .merging j (pageItems (g.app j) (pageRequest T (g.tree i) (T.pages (g.tree j)))) } := by
  let published : Cluster T n := { g with notices := g.notices ++ [⟨j, T.pages (g.tree j)⟩] }
  have hreceive : published.step (.receive i g.notices.length) = published.setReplica i { g.replicas i with
      phase := .fetching j (pageRequest T (g.tree i) (T.pages (g.tree j))) } :=
    Cluster.receive_eq hidle (by simp [published]) hij hj hi
  rw [fetchFrom, Cluster.run_cons, Cluster.publish_eq hj, Cluster.run_cons, hreceive, Cluster.run_cons,
    Cluster.fetch_eq (congrArg MstReplica.phase (Cluster.replicas_setReplica_self _)),
    Cluster.app_setReplica_of_ne _ hij, Cluster.replicas_setReplica_self]
  exact Cluster.replicas_setReplica_self _

theorem exists_takeOver (hx : ∀ l, Indexed (g.replicas l)) {j : Fin n} (hij : j ≠ i) (hj : (g.app j).get k = some v)
    (hi : (g.app i).get k ≠ some v) :
    ∃ steps : List (SyncStep n), (∀ a ∈ steps, a.quiet = true) ∧ ((g.run steps).app i).get k = some v := by
  have hx' := indexed_step hx (.restart i)
  have hidle : ((g.step (.restart i)).replicas i).phase = .idle := by
    simp [Cluster.step, Cluster.restart]
  have htree : ((g.step (.restart i)).tree i).get k ≠ some v := by
    simpa [Cluster.step, Cluster.restart, Cluster.tree, rebuild_eq] using hi
  have happ : ((g.step (.restart i)).app j).get k = some v := by
    rwa [Cluster.step, Cluster.restart, Cluster.app_setReplica_of_ne _ hij]
  have hfetch := run_fetchFrom hidle hij ((hx' j).sub k v happ) htree
  have hfetched : (k, v) ∈
      (((g.step (.restart i)).run (fetchFrom i j (g.step (.restart i)).notices.length)).replicas i).phase.items := by
    rw [hfetch]
    exact mem_pageItems.2 ⟨inRanges_pageRequest ((hx' j).sub k v happ) htree, happ⟩
  obtain ⟨merges, hquiet, hget⟩ := exists_mergeUntil (indexed_run hx' _ i) hfetched
  refine ⟨.restart i :: (fetchFrom i j (g.step (.restart i)).notices.length ++ merges), ?_, ?_⟩
  · refine forall_mem_cons.2 ⟨rfl, forall_mem_append.2 ⟨?_, hquiet⟩⟩
    simp [fetchFrom, SyncStep.quiet]
  · rw [Cluster.run_cons, Cluster.run_append]
    exact hget

theorem exists_return (hx : ∀ l, Indexed (g.replicas l)) (i j : Fin n) (hj : ¬ NotCarried k v (g.replicas j)) :
    ∃ steps : List (SyncStep n), (∀ a ∈ steps, a.quiet = true) ∧ ((g.run steps).app i).get k = some v := by
  have hstored : ∃ steps : List (SyncStep n), (∀ a ∈ steps, a.quiet = true) ∧
      ((g.run steps).app j).get k = some v := by
    by_cases happ : (g.app j).get k = some v
    · exact ⟨[], forall_mem_nil _, happ⟩
    · have hitems : (k, v) ∈ (g.replicas j).phase.items := by
        by_contra hitems
        exact hj ⟨happ, hitems⟩
      exact exists_mergeUntil (hx j) hitems
  obtain ⟨steps, hquiet, hget⟩ := hstored
  by_cases hi : ((g.run steps).app i).get k = some v
  · exact ⟨steps, hquiet, hi⟩
  · have hij : j ≠ i := by
      rintro rfl
      exact hi hget
    obtain ⟨round, hround, hget'⟩ := exists_takeOver (indexed_run hx steps) hij hget hi
    refine ⟨steps ++ round, forall_mem_append.2 ⟨hquiet, hround⟩, ?_⟩
    rwa [Cluster.run_append]

theorem writes_of_quiet (h : a.quiet = true) (k : Bytes) : a.writes k = false := by
  cases a with
  | client i op => cases h
  | _ => rfl

end Run

/-! ## Resurrection -/

def NeverAgain {T : TreeLib} {n : Nat} (g : Cluster T n) (i : Fin n) (k v : Bytes) : Prop :=
  ∀ steps : List (SyncStep n), (∀ a ∈ steps, a.writes k = false) → ((g.run steps).app i).get k ≠ some v

/-- **Resurrection**: a displaced value stays away if no other replica stores it, and none has fetched it. -/
theorem mst_not_resurrected_iff (T : TreeLib) {n : Nat} (stores : Fin n → Store) (before : List (SyncStep n))
    (i : Fin n) (k v : Bytes) (op : ClientOp) (hop : op.Displaces k v) :
    NeverAgain (((Cluster.start T stores).run before).client i op) i k v ↔
      (∀ j, j ≠ i → (((Cluster.start T stores).run before).app j).get k ≠ some v) ∧
        ∀ j, (k, v) ∉ (((Cluster.start T stores).run before).replicas j).phase.items := by
  generalize hg : (Cluster.start T stores).run before = g
  have hx : ∀ j, Indexed (g.replicas j) := by
    subst hg
    exact indexed_run (indexed_start T stores) before
  have hx' : ∀ j, Indexed ((g.client i op).replicas j) := indexed_step hx (.client i op)
  -- the operation touches the store of `i` only
  have hphase : ∀ j, ((g.client i op).replicas j).phase = (g.replicas j).phase := by
    intro j
    by_cases hj : j = i
    · subst hj
      rw [Cluster.client, Cluster.replicas_setReplica_self]
    · rw [Cluster.client, Cluster.replicas_setReplica_of_ne _ hj]
  have happ : ∀ j, j ≠ i → (g.client i op).app j = g.app j := fun j hj => Cluster.app_setReplica_of_ne _ hj
  have hgone : ((g.client i op).app i).get k ≠ some v := by
    rw [Cluster.client, Cluster.app_setReplica_self]
    exact ClientOp.get_onNode_of_displaces (hx i).healthy _ hop
  constructor
  · intro h
    have hnone : ∀ j, NotCarried k v ((g.client i op).replicas j) := by
      intro j
      by_contra hj
      obtain ⟨steps, hquiet, hget⟩ := exists_return hx' i j hj
      exact h steps (fun a ha => writes_of_quiet (hquiet a ha) k) hget
    refine ⟨?_, ?_⟩
    · intro j hj
      rw [← happ j hj]
      exact (hnone j).app
    · intro j
      rw [← hphase j]
      exact (hnone j).items
  · rintro ⟨hstored, hfetched⟩ steps hsteps
    have hnone : ∀ j, NotCarried k v ((g.client i op).replicas j) := by
      intro j
      refine ⟨?_, by rw [hphase j]; exact hfetched j⟩
      by_cases hj : j = i
      · subst hj
        exact hgone
      · have hget := hstored j hj
        rwa [← happ j hj] at hget
    exact (notCarried_run hx' hnone steps hsteps i).app

/-! A client overwrites or deletes a record that the peer still has; one round brings it back. The deleted
record is in a page with another one that differs. -/

namespace Revived

def key : Bytes := [1]

def stores : Fin 2 → Store
  | 0 => OrdMap.empty.insert key [10]
  | 1 => (OrdMap.empty.insert key [10]).insert [2] [30]

def round : List (SyncStep 2) := [.publish 1, .receive 0 0, .fetch 0, .merge 0, .merge 0, .merge 0]

theorem mst_resurrects :
    let g := Cluster.start onePage stores
    (∀ a ∈ round, a.quiet = true) ∧ (g.app 0).get key = some [10] ∧
      ((g.client 0 (.put key [20])).app 0).get key = some [20] ∧
      (((g.client 0 (.put key [20])).run round).app 0).get key = some [10] ∧
      ((g.client 0 (.delete key)).app 0).get key = none ∧
      (((g.client 0 (.delete key)).run round).app 0).get key = some [10] := by
  refine ⟨by decide, by decide, by decide, by decide, by decide, by decide⟩

theorem mst_not_resurrected_alone :
    let g := Cluster.start onePage fun i : Fin 2 => if i = 0 then stores 0 else empty
    (g.app 0).get key = some [10] ∧ NeverAgain (g.client 0 (.put key [20])) 0 key [10] := by
  refine ⟨by decide, ?_⟩
  exact (mst_not_resurrected_iff onePage _ [] 0 key [10] (.put key [20]) ⟨rfl, by decide⟩).2
    ⟨by decide, by decide⟩

end Revived

end Odgm
