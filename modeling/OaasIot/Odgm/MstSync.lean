import OaasIot.Odgm.Replication

/-!
# Synchronisation under MST (`replication/mst/`)

Replicas exchange notices: the page ranges of a tree at some moment. Each replica handles one at a time. Notices may be
delayed, repeated, lost and reordered, and the steps of the replicas interleave. The shards run the builder's
configuration, no storage fails, and the page request is answered.
-/

namespace Odgm

instance neZeroTwo : NeZero 2 := ⟨by decide⟩

open List OrdMap

/-! ## The tree crate -/

/-- The third-party tree, as far as it is used here. -/
structure TreeLib where
  Page : Type
  pages : OrdMap Bytes Bytes → List Page
  bounds : Page → Bytes × Bytes
  diff : List Page → List Page → List (Bytes × Bytes)
  pages_cover : ∀ t k, t.get k ≠ none → ∃ p ∈ pages t, (bounds p).1 ≤ k ∧ k ≤ (bounds p).2
  /-- Every key in which the trees differ lies in a reported range, except that the difference from a
  local tree without pages may come out empty. -/
  diff_complete : ∀ t u k, t.get k ≠ u.get k →
    (∃ r ∈ diff (pages t) (pages u), r.1 ≤ k ∧ k ≤ r.2) ∨ (pages t = [] ∧ diff (pages t) (pages u) = [])

/-! A tree kept as one page satisfies the laws. -/

variable {k v : Bytes}

namespace OnePage

abbrev Tree := OrdMap Bytes Bytes
def pages (t : Tree) : List Tree := if t.toList = [] then [] else [t]

def bounds (t : Tree) : Bytes × Bytes :=
  ((t.toList.head?.map Prod.fst).getD [], (t.toList.getLast?.map Prod.fst).getD [])

def diff (mine theirs : List Tree) : List (Bytes × Bytes) :=
  if mine = theirs then [] else (mine ++ theirs).map bounds

theorem le_bounds {t : Tree} (h : (k, v) ∈ t.toList) : (bounds t).1 ≤ k ∧ k ≤ (bounds t).2 := by
  have hsorted := t.sorted
  constructor
  · cases hl : t.toList with
    | nil => rw [hl] at h; cases h
    | cons x l =>
      rw [hl] at h hsorted
      simp only [bounds, hl, head?_cons, Option.map_some, Option.getD_some]
      rcases mem_cons.1 h with rfl | hmem
      · exact le_refl k
      · exact le_of_lt ((pairwise_cons.1 hsorted).1 _ hmem)
  · rcases eq_nil_or_concat t.toList with hl | ⟨l, x, hl⟩
    · rw [hl] at h; cases h
    · rw [concat_eq_append] at hl
      rw [hl] at h hsorted
      simp only [bounds, hl, getLast?_append, getLast?_singleton, Option.some_or, Option.map_some,
        Option.getD_some]
      rcases mem_append.1 h with hmem | hmem
      · exact le_of_lt ((pairwise_append.1 hsorted).2.2 _ hmem x (mem_singleton.2 rfl))
      · exact le_of_eq (congrArg Prod.fst (mem_singleton.1 hmem))

theorem pages_cover (t : Tree) (k : Bytes) (h : t.get k ≠ none) :
    ∃ p ∈ pages t, (bounds p).1 ≤ k ∧ k ≤ (bounds p).2 := by
  obtain ⟨v, hv⟩ := Option.ne_none_iff_exists'.1 h
  have hmem := get_eq_some.1 hv
  have hne : t.toList ≠ [] := ne_nil_of_mem hmem
  exact ⟨t, by simp [pages, hne], le_bounds hmem⟩

theorem pages_inj {t u : Tree} (h : pages t = pages u) : t = u := by
  unfold pages at h
  split at h <;> split at h
  · rename_i ht hu
    exact ext_toList (ht.trans hu.symm)
  · cases h
  · cases h
  · exact (cons.inj h).1

theorem diff_complete (t u : Tree) (k : Bytes) (h : t.get k ≠ u.get k) :
    ∃ r ∈ diff (pages t) (pages u), r.1 ≤ k ∧ k ≤ r.2 := by
  have hne : pages t ≠ pages u := fun heq => h (by rw [pages_inj heq])
  have hcover : ∃ p ∈ pages t ++ pages u, (bounds p).1 ≤ k ∧ k ≤ (bounds p).2 := by
    by_cases ht : t.get k = none
    · obtain ⟨p, hp, hk⟩ := pages_cover u k fun hu => h (ht.trans hu.symm)
      exact ⟨p, mem_append_right _ hp, hk⟩
    · obtain ⟨p, hp, hk⟩ := pages_cover t k ht
      exact ⟨p, mem_append_left _ hp, hk⟩
  obtain ⟨p, hp, hk⟩ := hcover
  refine ⟨bounds p, ?_, hk⟩
  rw [diff, if_neg hne]
  exact mem_map_of_mem hp

end OnePage

def onePage : TreeLib where
  Page := OnePage.Tree
  pages := OnePage.pages
  bounds := OnePage.bounds
  diff := OnePage.diff
  pages_cover := OnePage.pages_cover
  diff_complete t u k h := .inl (OnePage.diff_complete t u k h)

/-! ## Replicas -/

inductive SyncPhase (n : Nat)
  | idle
  | fetching (peer : Fin n) (ranges : List (Bytes × Bytes))
  | merging (peer : Fin n) (items : List (Bytes × Bytes))

def SyncPhase.items {n : Nat} : SyncPhase n → List (Bytes × Bytes)
  | .merging _ items => items
  | _ => []

structure MstReplica (n : Nat) where
  node : Node
  phase : SyncPhase n
  completed : List (Fin n)

structure Notice (T : TreeLib) (n : Nat) where
  owner : Fin n
  pages : List T.Page

structure Cluster (T : TreeLib) (n : Nat) where
  replicas : Fin n → MstReplica n
  notices : List (Notice T n)

inductive ClientOp
  | put (key value : Bytes)
  | delete (key : Bytes)
  | deleteRange (start stop : Bytes)

def ClientOp.onNode (shardId : UInt64) (n : Node) : ClientOp → Node
  | .put key value => (setRaw defaultMstConfig shardId n key value).2
  | .delete key => deleteRaw n key
  | .deleteRange start stop => n.deleteRange start stop

def inRanges (ranges : List (Bytes × Bytes)) (k : Bytes) : Bool := ranges.any fun r => decide (r.1 ≤ k ∧ k ≤ r.2)

def pageItems (s : Store) (ranges : List (Bytes × Bytes)) : List (Bytes × Bytes) :=
  (s.filterKeys (inRanges ranges)).toList

def pageRequest (T : TreeLib) (tree : OrdMap Bytes Bytes) (remote : List T.Page) : List (Bytes × Bytes) :=
  if T.diff (T.pages tree) remote = [] ∧ (T.pages tree).isEmpty then remote.map T.bounds
  else T.diff (T.pages tree) remote

def rebuild (s : Store) : OrdMap Bytes Bytes := OrdMap.empty.insertMany s.toList

inductive SyncStep (n : Nat)
  | publish (i : Fin n)
  | receive (i : Fin n) (notice : Nat)
  | fetch (i : Fin n)
  | merge (i : Fin n)
  | client (i : Fin n) (op : ClientOp)
  | restart (i : Fin n)

def SyncStep.quiet {n : Nat} : SyncStep n → Bool
  | .client _ _ => false
  | _ => true

namespace Cluster

variable {T : TreeLib} {n : Nat}

variable (g : Cluster T n) (i : Fin n)

def shardId : UInt64 := UInt64.ofNat i
def app : Store := (g.replicas i).node.app
def tree : OrdMap Bytes Bytes := (g.replicas i).node.tree

def setReplica (r : MstReplica n) : Cluster T n :=
  { g with replicas := Function.update g.replicas i r }

def publish : Cluster T n :=
  if (T.pages (g.tree i)).isEmpty then g else { g with notices := g.notices ++ [⟨i, T.pages (g.tree i)⟩] }

def receive (k : Nat) : Cluster T n :=
  match (g.replicas i).phase, g.notices[k]? with
  | .idle, some notice =>
    if notice.owner = i then g
    else if pageRequest T (g.tree i) notice.pages = [] then
      g.setReplica i { g.replicas i with completed := notice.owner :: (g.replicas i).completed }
    else g.setReplica i { g.replicas i with
      phase := .fetching notice.owner (pageRequest T (g.tree i) notice.pages) }
  | _, _ => g

def fetch : Cluster T n :=
  match (g.replicas i).phase with
  | .fetching peer ranges =>
    g.setReplica i { g.replicas i with phase := .merging peer (pageItems (g.app peer) ranges) }
  | _ => g

def merge : Cluster T n :=
  match (g.replicas i).phase with
  | .merging peer [] =>
    g.setReplica i { g.replicas i with phase := .idle, completed := peer :: (g.replicas i).completed }
  | .merging peer (item :: items) =>
    g.setReplica i { g.replicas i with
      node := (setRaw defaultMstConfig (shardId i) (g.replicas i).node item.1 item.2).2
      phase := .merging peer items }
  | _ => g

def client (op : ClientOp) : Cluster T n :=
  g.setReplica i { g.replicas i with node := op.onNode (shardId i) (g.replicas i).node }

def restart : Cluster T n :=
  g.setReplica i { g.replicas i with
    node := { (g.replicas i).node with tree := rebuild (g.app i) }
    phase := .idle }

def step : SyncStep n → Cluster T n
  | .publish i => g.publish i
  | .receive i k => g.receive i k
  | .fetch i => g.fetch i
  | .merge i => g.merge i
  | .client i op => g.client i op
  | .restart i => g.restart i

def run (steps : List (SyncStep n)) : Cluster T n := steps.foldl step g

def start (T : TreeLib) (stores : Fin n → Store) : Cluster T n where
  replicas i := ⟨⟨stores i, rebuild (stores i), [], []⟩, .idle, []⟩
  notices := []

end Cluster

/-! ## Basic facts -/

theorem rebuild_eq (s : Store) : rebuild s = s := by
  apply OrdMap.ext_get
  intro k
  unfold rebuild
  by_cases hk : k ∈ s.toList.map Prod.fst
  · obtain ⟨⟨k', v⟩, hmem, rfl⟩ := mem_map.1 hk
    rw [OrdMap.get_insertMany_of_mem _ s.nodup_keys hmem]
    exact (OrdMap.get_eq_some.2 hmem).symm
  · rw [OrdMap.get_insertMany_of_notMem _ hk, OrdMap.get_empty]
    cases hget : s.get k with
    | none => rfl
    | some v => exact absurd (mem_map.2 ⟨(k, v), OrdMap.get_eq_some.1 hget, rfl⟩) hk

variable {ranges : List (Bytes × Bytes)}

theorem mem_pageItems {s : Store} : (k, v) ∈ pageItems s ranges ↔ inRanges ranges k = true ∧ s.get k = some v := by
  rw [pageItems, ← get_eq_some, get_filterKeys]
  split <;> simp_all

theorem get_insertMany_pageItems (m : OrdMap Bytes Bytes) {s : Store} (hin : inRanges ranges k = true)
    (hk : s.get k = some v) : (m.insertMany (pageItems s ranges)).get k = some v :=
  get_insertMany_of_mem m (OrdMap.nodup_keys _) (mem_pageItems.2 ⟨hin, hk⟩)

theorem inRanges_iff : inRanges ranges k = true ↔ ∃ r ∈ ranges, r.1 ≤ k ∧ k ≤ r.2 := by
  simp [inRanges]

variable {T : TreeLib} {t : OrdMap Bytes Bytes}

theorem inRanges_pageRequest {u : OrdMap Bytes Bytes} (hu : u.get k = some v) (ht : t.get k ≠ some v) :
    inRanges (pageRequest T t (T.pages u)) k = true := by
  rw [inRanges_iff]
  have hne : t.get k ≠ u.get k := by rwa [hu]
  unfold pageRequest
  rcases T.diff_complete t u k hne with ⟨r, hr, hk⟩ | ⟨hempty, hdiff⟩
  · rw [if_neg fun h => by rw [h.1] at hr; cases hr]
    exact ⟨r, hr, hk⟩
  · rw [if_pos ⟨hdiff, isEmpty_iff.2 hempty⟩]
    obtain ⟨p, hp, hk⟩ := T.pages_cover u k (by simp [hu])
    exact ⟨T.bounds p, mem_map.2 ⟨p, hp, rfl⟩, hk⟩

theorem pageRequest_ne_nil {u : OrdMap Bytes Bytes} (hu : u.get k = some v) (ht : t.get k ≠ some v) :
    pageRequest T t (T.pages u) ≠ [] := by
  intro hnil
  have hin := inRanges_pageRequest (T := T) hu ht
  rw [hnil] at hin
  cases hin

theorem pages_ne_nil (h : t.get k = some v) : T.pages t ≠ [] := by
  intro hnil
  obtain ⟨p, hp, -⟩ := T.pages_cover t k (by simp [h])
  rw [hnil] at hp
  cases hp

theorem setRaw_healthy (shardId : UInt64) {n : Node} (h : n.faults = []) (key value : Bytes) :
    (setRaw defaultMstConfig shardId n key value).2 =
      { n with app := n.app.insert key value, tree := n.tree.insert key value } := by
  rw [setRaw_default, put_ok h]

namespace Cluster

variable {T : TreeLib} {n : Nat} {g : Cluster T n} {i j : Fin n}

variable (r : MstReplica n)

@[simp] theorem replicas_setReplica_self : (g.setReplica i r).replicas i = r := by
  simp [setReplica]

theorem replicas_setReplica_of_ne (h : j ≠ i) : (g.setReplica i r).replicas j = g.replicas j := by
  simp [setReplica, h]

@[simp] theorem setReplica_setReplica (r' : MstReplica n) : (g.setReplica i r).setReplica i r' = g.setReplica i r' := by
  simp [setReplica]

@[simp] theorem setReplica_self : g.setReplica i (g.replicas i) = g := by
  simp [setReplica]

theorem start_eq (T : TreeLib) (stores : Fin n → Store) :
    start T stores = ⟨fun i => ⟨⟨stores i, stores i, [], []⟩, .idle, []⟩, []⟩ := by
  simp only [start, rebuild_eq]

theorem app_setReplica_self : (g.setReplica i r).app i = r.node.app := by
  simp [app]

theorem app_setReplica_of_ne (h : j ≠ i) : (g.setReplica i r).app j = g.app j := by
  simp [app, replicas_setReplica_of_ne r h]

theorem forall_setReplica {P : Fin n → MstReplica n → Prop} {r : MstReplica n}
    (h : ∀ j, P j (g.replicas j)) (hr : P i r) : ∀ j, P j ((g.setReplica i r).replicas j) := by
  intro j
  by_cases hj : j = i
  · subst hj
    rwa [replicas_setReplica_self]
  · rw [replicas_setReplica_of_ne r hj]
    exact h j

theorem run_cons (a : SyncStep n) (steps : List (SyncStep n)) : g.run (a :: steps) = (g.step a).run steps := rfl

theorem run_append (steps steps' : List (SyncStep n)) : g.run (steps ++ steps') = (g.run steps).run steps' :=
  foldl_append

/-! ## What a step does -/

inductive Moves (g : Cluster T n) (i : Fin n) : SyncStep n → MstReplica n → Prop
  | inSync {k : Nat} {notice : Notice T n} : (g.replicas i).phase = .idle → notice ∈ g.notices →
      pageRequest T (g.tree i) notice.pages = [] →
      Moves g i (.receive i k) { g.replicas i with completed := notice.owner :: (g.replicas i).completed }
  | request {k : Nat} {notice : Notice T n} : (g.replicas i).phase = .idle → notice ∈ g.notices →
      Moves g i (.receive i k) { g.replicas i with
        phase := .fetching notice.owner (pageRequest T (g.tree i) notice.pages) }
  | answer {peer : Fin n} {ranges : List (Bytes × Bytes)} : (g.replicas i).phase = .fetching peer ranges →
      Moves g i (.fetch i) { g.replicas i with phase := .merging peer (pageItems (g.app peer) ranges) }
  | mergeItem {peer : Fin n} {item : Bytes × Bytes} {items : List (Bytes × Bytes)} :
      (g.replicas i).phase = .merging peer (item :: items) →
      Moves g i (.merge i) { g.replicas i with
        node := (setRaw defaultMstConfig (shardId i) (g.replicas i).node item.1 item.2).2
        phase := .merging peer items }
  | mergeDone {peer : Fin n} : (g.replicas i).phase = .merging peer [] →
      Moves g i (.merge i) { g.replicas i with
        phase := .idle, completed := peer :: (g.replicas i).completed }
  | client (op : ClientOp) :
      Moves g i (.client i op) { g.replicas i with node := op.onNode (shardId i) (g.replicas i).node }
  | restart : Moves g i (.restart i) { g.replicas i with
      node := { (g.replicas i).node with tree := rebuild (g.app i) }
      phase := .idle }

theorem step_cases (g : Cluster T n) (a : SyncStep n) :
    g.step a = g ∨ (∃ i, g.step a = { g with notices := g.notices ++ [⟨i, T.pages (g.tree i)⟩] }) ∨
      ∃ i r, Moves g i a r ∧ g.step a = g.setReplica i r := by
  cases a with
  | publish i =>
    simp only [step, publish]
    split
    · exact .inl rfl
    · exact .inr (.inl ⟨i, rfl⟩)
  | receive i k =>
    simp only [step, receive]
    split
    · rename_i notice hphase hnotice
      have hmem : notice ∈ g.notices := mem_of_getElem? hnotice
      split
      · exact .inl rfl
      · split
        · exact .inr (.inr ⟨i, _, .inSync hphase hmem ‹_›, rfl⟩)
        · exact .inr (.inr ⟨i, _, .request hphase hmem, rfl⟩)
    · exact .inl rfl
  | fetch i =>
    simp only [step, fetch]
    split
    · exact .inr (.inr ⟨i, _, .answer ‹_›, rfl⟩)
    · exact .inl rfl
  | merge i =>
    simp only [step, merge]
    split
    · exact .inr (.inr ⟨i, _, .mergeDone ‹_›, rfl⟩)
    · exact .inr (.inr ⟨i, _, .mergeItem ‹_›, rfl⟩)
    · exact .inl rfl
  | client i op => exact .inr (.inr ⟨i, _, .client op, rfl⟩)
  | restart i => exact .inr (.inr ⟨i, _, .restart, rfl⟩)

/-! ## The steps of a round -/

theorem publish_eq (h : (g.tree i).get k = some v) :
    g.step (.publish i) = { g with notices := g.notices ++ [⟨i, T.pages (g.tree i)⟩] } := by
  have hne : ¬ (T.pages (g.tree i)).isEmpty := fun hempty => pages_ne_nil h (isEmpty_iff.1 hempty)
  simp only [step, publish, if_neg hne]

variable {peer : Fin n}

theorem receive_eq {m : Nat} (hphase : (g.replicas i).phase = .idle) (hm : g.notices[m]? = some ⟨peer, T.pages t⟩)
    (hpeer : peer ≠ i) (ht : t.get k = some v) (hlocal : (g.tree i).get k ≠ some v) :
    g.step (.receive i m) =
      g.setReplica i { g.replicas i with phase := .fetching peer (pageRequest T (g.tree i) (T.pages t)) } := by
  simp only [step, receive, hphase, hm, if_neg hpeer, if_neg (pageRequest_ne_nil ht hlocal)]

theorem fetch_eq (hphase : (g.replicas i).phase = .fetching peer ranges) :
    g.step (.fetch i) =
      g.setReplica i { g.replicas i with phase := .merging peer (pageItems (g.app peer) ranges) } := by
  simp only [step, fetch, hphase]

theorem run_merges (items rest : List (Bytes × Bytes)) :
    ∀ {g : Cluster T n}, (g.replicas i).phase = .merging peer (items ++ rest) → (g.replicas i).node.faults = [] →
    g.run (replicate items.length (.merge i)) = g.setReplica i { g.replicas i with
      node := { (g.replicas i).node with
        app := (g.app i).insertMany items, tree := (g.tree i).insertMany items }
      phase := .merging peer rest } := by
  induction items with
  | nil =>
    intro g hphase _
    have hself : ({ g.replicas i with phase := .merging peer rest } : MstReplica n) = g.replicas i := by
      rw [← nil_append rest, ← hphase]
    exact (setReplica_self.symm.trans (congrArg (g.setReplica i) hself.symm))
  | cons item items ih =>
    intro g hphase hf
    have hstep : g.step (.merge i) = g.setReplica i { g.replicas i with
        node := { (g.replicas i).node with
          app := (g.app i).insert item.1 item.2, tree := (g.tree i).insert item.1 item.2 }
        phase := .merging peer (items ++ rest) } := by
      rw [cons_append] at hphase
      simp only [step, merge, hphase, setRaw_healthy _ hf]
      rfl
    rw [length_cons, replicate_succ, run_cons, hstep, ih (by simp) (by simpa using hf)]
    simp [app, tree]

theorem run_mergeAll {items : List (Bytes × Bytes)} (hphase : (g.replicas i).phase = .merging peer items)
    (hf : (g.replicas i).node.faults = []) :
    g.run (replicate items.length (.merge i) ++ [.merge i]) = g.setReplica i {
      node := { (g.replicas i).node with
        app := (g.app i).insertMany items, tree := (g.tree i).insertMany items }
      phase := .idle
      completed := peer :: (g.replicas i).completed } := by
  rw [run_append, run_merges items [] (by simpa using hphase) hf]
  simp [run, step, merge]

end Cluster

end Odgm
