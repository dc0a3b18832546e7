import OaasIot.Lib.Program
import OaasIot.Odgm.Replication

/-!
# The Merkle search tree as an index of storage (`replication/mst/`)

The tree is meant to hold what storage holds. Every path that writes a record upserts it into the tree; no path takes
one out, and `delete_object_granular` removes the records of an object without the layer. Any puts may fail.
-/

namespace Odgm

open List OrdMap

/-! ## The index -/

def MstConfig.Lossless (config : MstConfig Bytes) : Prop :=
  ∀ entry bytes, config.serialize entry = .ok bytes → config.deserialize bytes = .ok entry

section
variable (config : MstConfig Bytes) (shardId : UInt64)

def Decodes (s : Store) (key entry : Bytes) : Prop :=
  ∃ bytes, s.get key = some bytes ∧ config.deserialize bytes = .ok entry

def MirrorsStorage (n : Node) : Prop := ∀ key entry, n.tree.get key = some entry ↔ Decodes config n.app key entry

def upsertAll (tree : OrdMap Bytes Bytes) : List (Bytes × Bytes) → OrdMap Bytes Bytes
  | [] => tree
  | record :: records =>
    match config.deserialize record.2 with
    | .ok entry => upsertAll (tree.insert record.1 entry) records
    | .error _ => upsertAll tree records

def rebuildInto (tree : OrdMap Bytes Bytes) (s : Store) : OrdMap Bytes Bytes := upsertAll config tree s.toList

def mergePage : List (Bytes × Bytes) → Node → Except StorageError Unit × Node
  | [], n => (.ok (), n)
  | item :: items, n =>
    match setRaw config shardId n item.1 item.2 with
    | (.ok _, n') => mergePage items n'
    | (.error e, n') => (.error e, n')

/-! ## Steps of a replica -/

inductive IndexStep
  | replicate (operation : Operation)
  | deleteObject (id : Str)
  | mergePage (items : List (Bytes × Bytes))
  | rebuild
  | restart

def IndexStep.run : IndexStep → Node → Node
  | .replicate operation, n => (mstReplicate config shardId operation n).2
  | .deleteObject id, n => n.deleteRange (buildObjectPrefix id) (computeObjectRangeEnd (buildObjectPrefix id))
  | .mergePage items, n => (Odgm.mergePage config shardId items n).2
  | .rebuild, n => { n with tree := rebuildInto config n.tree n.app }
  | .restart, n => { n with tree := rebuildInto config .empty n.app }

def initialized (s : Store) (faults : List (Option StorageError)) : Node := ⟨s, rebuildInto config .empty s, [], faults⟩

mutual

def Operation.Each (Q : Operation → Node → Prop) : Operation → Node → Prop
  | .write key value returnOld, n => Q (.write key value returnOld) n
  | .read key, n => Q (.read key) n
  | .delete key, n => Q (.delete key) n
  | .batch operations, n => eachOf Q operations n

def eachOf (Q : Operation → Node → Prop) : List Operation → Node → Prop
  | [], _ => True
  | operation :: operations, n =>
    operation.Each Q n ∧
      match mstReplicate config shardId operation n with
      | (.ok _, n') => eachOf Q operations n'
      | (.error _, _) => True

end

def EachItem (P : Node → Prop) : List (Bytes × Bytes) → Node → Prop
  | [], _ => True
  | item :: items, n =>
    P (setRaw config shardId n item.1 item.2).2 ∧
      match setRaw config shardId n item.1 item.2 with
      | (.ok _, n') => EachItem P items n'
      | (.error _, _) => True

def IndexStep.Through (P : Node → Prop) : IndexStep → Node → Prop
  | .replicate operation, n =>
    operation.Each config shardId (fun single n => P (mstReplicate config shardId single n).2) n
  | .mergePage items, n => EachItem config shardId P items n
  | step, n => P (step.run config shardId n)

def Operation.KeepsRecords : Operation → Node → Prop
  | .delete key, n => ∀ entry, ¬ Decodes config n.app key entry
  | _, _ => True

def IndexStep.KeepsRecords : IndexStep → Node → Prop
  | .replicate operation, n => operation.Each config shardId (Operation.KeepsRecords config) n
  | .deleteObject id, n => ∀ key entry, buildObjectPrefix id ≤ key →
      key < computeObjectRangeEnd (buildObjectPrefix id) → ¬ Decodes config n.app key entry
  | _, _ => True

def MirrorsAlong (n : Node) (steps : List IndexStep) : Prop :=
  MirrorsStorage config n ∧
    AlongRun (fun n step => step.run config shardId n)
      (fun n step => step.Through config shardId (MirrorsStorage config) n) n steps

def KeepsAlong (n : Node) (steps : List IndexStep) : Prop :=
  AlongRun (fun n step => step.run config shardId n) (fun n step => step.KeepsRecords config shardId n) n steps

end

/-! ## What each path does to the index -/

section
variable {config : MstConfig Bytes} {shardId : UInt64} {n : Node}

theorem Decodes.unique {s : Store} {key entry entry' : Bytes} (h : Decodes config s key entry)
    (h' : Decodes config s key entry') : entry = entry' := by
  obtain ⟨bytes, hget, hentry⟩ := h
  obtain ⟨bytes', hget', hentry'⟩ := h'
  rw [hget] at hget'
  cases hget'
  rw [hentry] at hentry'
  exact Except.ok.inj hentry'

theorem mirrors_setRaw (hlossless : config.Lossless) (h : MirrorsStorage config n) (shardId : UInt64)
    (key entry : Bytes) :
    MirrorsStorage config (setRaw config shardId n key entry).2 := by
  unfold setRaw
  cases finalEntry config shardId (n.app.get key) entry with
  | error e => exact h
  | ok final =>
    dsimp only
    cases hvalue : config.serialize final with
    | error e => exact h
    | ok value =>
      dsimp only
      rcases put_cases n key value with ⟨e, faults, _, hput⟩ | ⟨faults, _, hput⟩
      · rw [hput]
        exact h
      · rw [hput]
        intro key' entry'
        dsimp only [Decodes]
        by_cases hkey : key = key'
        · subst hkey
          rw [get_insert_self, get_insert_self]
          simp [hlossless final value hvalue]
        · rw [get_insert_of_ne _ _ hkey, get_insert_of_ne _ _ hkey]
          exact h key' entry'

theorem mirrors_removed_iff (h : MirrorsStorage config n) (removed : Bytes → Prop) {s : Store}
    (hgone : ∀ key, removed key → s.get key = none) (hkept : ∀ key, ¬ removed key → s.get key = n.app.get key) :
    MirrorsStorage config { n with app := s } ↔ ∀ key entry, removed key → ¬ Decodes config n.app key entry := by
  constructor
  · intro hmirrors key entry hremoved hdecodes
    obtain ⟨bytes, hget, _⟩ := (hmirrors key entry).1 ((h key entry).2 hdecodes)
    rw [hgone key hremoved] at hget
    cases hget
  · intro hnone key entry
    rw [h key entry]
    by_cases hremoved : removed key
    · refine iff_of_false (hnone key entry hremoved) ?_
      rintro ⟨bytes, hget, _⟩
      rw [hgone key hremoved] at hget
      cases hget
    · unfold Decodes
      rw [hkept key hremoved]

theorem mirrors_delete_iff (h : MirrorsStorage config n) (key : Bytes) :
    MirrorsStorage config (deleteRaw n key) ↔ ∀ entry, ¬ Decodes config n.app key entry := by
  have hiff := mirrors_removed_iff h (· = key) (s := n.app.erase key)
    (fun key' hkey => by rw [get_erase, if_pos hkey]) (fun key' hkey => by rw [get_erase, if_neg hkey])
  rw [deleteRaw, Node.delete, hiff]
  constructor
  · exact fun hall entry => hall key entry rfl
  · rintro hall _ entry rfl
    exact hall entry

theorem mirrors_deleteRange_iff (h : MirrorsStorage config n) (start stop : Bytes) :
    MirrorsStorage config (n.deleteRange start stop) ↔
      ∀ key entry, start ≤ key → key < stop → ¬ Decodes config n.app key entry := by
  have hiff := mirrors_removed_iff h (fun key => start ≤ key ∧ key < stop)
    (s := n.app.eraseRange start stop) (fun key hkey => by rw [get_eraseRange, if_pos hkey])
    (fun key hkey => by rw [get_eraseRange, if_neg hkey])
  rw [Node.deleteRange, hiff]
  exact forall₂_congr fun key entry => and_imp

/-! ### Rebuilds -/

def decodedRecords (config : MstConfig Bytes) (records : List (Bytes × Bytes)) : List (Bytes × Bytes) :=
  records.filterMap fun record => (config.deserialize record.2).toOption.map fun entry => (record.1, entry)

theorem upsertAll_eq (tree : OrdMap Bytes Bytes) (records : List (Bytes × Bytes)) :
    upsertAll config tree records = tree.insertMany (decodedRecords config records) := by
  induction records generalizing tree with
  | nil => rfl
  | cons record records ih =>
    unfold upsertAll decodedRecords
    rw [filterMap_cons]
    cases config.deserialize record.2 with
    | error e => exact ih tree
    | ok entry => exact ih (tree.insert record.1 entry)

theorem mem_decodedRecords {s : Store} {key entry : Bytes} :
    (key, entry) ∈ decodedRecords config s.toList ↔ Decodes config s key entry := by
  unfold decodedRecords Decodes
  rw [mem_filterMap]
  constructor
  · rintro ⟨⟨key', bytes⟩, hmem, hsome⟩
    obtain ⟨entry', hdecode, hpair⟩ := Option.map_eq_some_iff.1 hsome
    cases hpair
    refine ⟨bytes, get_eq_some.2 hmem, ?_⟩
    cases hcase : config.deserialize bytes with
    | error e => simp [hcase, Except.toOption] at hdecode
    | ok v =>
      simp only [hcase, Except.toOption, Option.some.injEq] at hdecode
      rw [hdecode]
  · rintro ⟨bytes, hget, hdecode⟩
    exact ⟨(key, bytes), get_eq_some.1 hget, by rw [hdecode]; rfl⟩

theorem mirrors_restart (config : MstConfig Bytes) (n : Node) :
    MirrorsStorage config { n with tree := rebuildInto config .empty n.app } := by
  intro key entry
  have hfrom : ∀ entry', (rebuildInto config .empty n.app).get key = some entry' → Decodes config n.app key entry' := by
    intro entry' hget
    rw [rebuildInto, upsertAll_eq] at hget
    rcases get_insertMany_eq_some _ hget with hmem | hempty
    · exact mem_decodedRecords.1 hmem
    · rw [get_empty] at hempty
      cases hempty
  refine ⟨hfrom entry, fun hdecodes => ?_⟩
  -- The key is among the records, so something is recorded for it, and only one value decodes.
  cases hget : (rebuildInto config .empty n.app).get key with
  | none =>
    rw [rebuildInto, upsertAll_eq] at hget
    have hnot := (get_insertMany_eq_none.1 hget).1
    exact absurd (mem_map_of_mem (mem_decodedRecords.2 hdecodes)) hnot
  | some entry' => rw [(hfrom entry' hget).unique hdecodes]

theorem mirrors_rebuild (h : MirrorsStorage config n) :
    MirrorsStorage config { n with tree := rebuildInto config n.tree n.app } := by
  have hself : rebuildInto config n.tree n.app = n.tree := by
    rw [rebuildInto, upsertAll_eq]
    refine insertMany_eq_self fun record hmem => ?_
    exact (h record.1 record.2).2 (mem_decodedRecords.1 hmem)
  rw [hself]
  exact h

/-! ## Steps and runs -/

theorem mirrors_write (hlossless : config.Lossless) (h : MirrorsStorage config n) (key value : Bytes)
    (returnOld : Bool) : MirrorsStorage config (mstReplicate config shardId (.write key value returnOld) n).2 := by
  rw [mstReplicate]
  cases config.deserialize value with
  | error e => exact h
  | ok entry =>
    have hset := mirrors_setRaw hlossless h shardId key entry
    dsimp only
    generalize setRaw config shardId n key entry = w at hset ⊢
    obtain ⟨out, n'⟩ := w
    cases out with
    | error e | ok old => exact hset

theorem mirrors_single (hlossless : config.Lossless) (h : MirrorsStorage config n) (shardId : UInt64)
    (operation : Operation) (hsingle : ∀ operations, operation ≠ .batch operations) :
    MirrorsStorage config (mstReplicate config shardId operation n).2 ↔ operation.KeepsRecords config n := by
  cases operation with
  | write key value returnOld => exact iff_of_true (mirrors_write hlossless h key value returnOld) trivial
  | read key =>
    rw [mstReplicate]
    exact iff_of_true h trivial
  | delete key =>
    rw [mstReplicate]
    exact mirrors_delete_iff h key
  | batch operations => exact absurd rfl (hsingle operations)

mutual

theorem Operation.each_mirrors_iff (hlossless : config.Lossless) : ∀ (operation : Operation) (n : Node),
    MirrorsStorage config n →
      (operation.Each config shardId (fun single n => MirrorsStorage config (mstReplicate config shardId single n).2) n ↔
        operation.Each config shardId (Operation.KeepsRecords config) n) ∧
      (operation.Each config shardId (Operation.KeepsRecords config) n →
        MirrorsStorage config (mstReplicate config shardId operation n).2)
  | .write key value returnOld, n, h => by
    simp only [Operation.Each]
    have hiff := mirrors_single hlossless h shardId (.write key value returnOld) nofun
    exact ⟨hiff, hiff.2⟩
  | .read key, n, h => by
    simp only [Operation.Each]
    have hiff := mirrors_single hlossless h shardId (.read key) nofun
    exact ⟨hiff, hiff.2⟩
  | .delete key, n, h => by
    simp only [Operation.Each]
    have hiff := mirrors_single hlossless h shardId (.delete key) nofun
    exact ⟨hiff, hiff.2⟩
  | .batch operations, n, h => by
    simp only [Operation.Each, mstReplicate]
    exact eachOf_mirrors_iff hlossless operations n h

theorem eachOf_mirrors_iff (hlossless : config.Lossless) : ∀ (operations : List Operation) (n : Node),
    MirrorsStorage config n →
      (eachOf config shardId (fun single n => MirrorsStorage config (mstReplicate config shardId single n).2)
          operations n ↔
        eachOf config shardId (Operation.KeepsRecords config) operations n) ∧
      (eachOf config shardId (Operation.KeepsRecords config) operations n →
        MirrorsStorage config (mstReplicateBatch config shardId operations n).2)
  | [], n, h => by
    simp only [mstReplicateBatch]
    exact ⟨by simp only [eachOf], fun _ => h⟩
  | operation :: operations, n, h => by
    obtain ⟨hiff, hkeep⟩ := Operation.each_mirrors_iff hlossless operation n h
    simp only [eachOf, mstReplicateBatch]
    rw [hiff]
    rcases hrun : mstReplicate config shardId operation n with ⟨e | response, n'⟩
    · rw [hrun] at hkeep
      exact ⟨Iff.rfl, fun heach => hkeep heach.1⟩
    · rw [hrun] at hkeep
      constructor
      · exact and_congr_right fun heach => (eachOf_mirrors_iff hlossless operations n' (hkeep heach)).1
      · exact fun heach => (eachOf_mirrors_iff hlossless operations n' (hkeep heach.1)).2 heach.2

end

theorem mirrors_mergePage (hlossless : config.Lossless) (shardId : UInt64) (items : List (Bytes × Bytes))
    (h : MirrorsStorage config n) :
    EachItem config shardId (MirrorsStorage config) items n ∧
      MirrorsStorage config (mergePage config shardId items n).2 := by
  induction items generalizing n with
  | nil => exact ⟨trivial, h⟩
  | cons item items ih =>
    have hset := mirrors_setRaw hlossless h shardId item.1 item.2
    unfold EachItem mergePage
    rcases hrun : setRaw config shardId n item.1 item.2 with ⟨e | old, n'⟩
    · rw [hrun] at hset
      exact ⟨⟨hset, trivial⟩, hset⟩
    · rw [hrun] at hset
      exact ⟨⟨hset, (ih hset).1⟩, (ih hset).2⟩

theorem IndexStep.mirrors_iff (hlossless : config.Lossless) (h : MirrorsStorage config n) (step : IndexStep) :
    (step.Through config shardId (MirrorsStorage config) n ↔ step.KeepsRecords config shardId n) ∧
      (step.KeepsRecords config shardId n → MirrorsStorage config (step.run config shardId n)) := by
  cases step with
  | replicate operation => exact Operation.each_mirrors_iff hlossless operation n h
  | deleteObject id =>
    have hiff := mirrors_deleteRange_iff h (buildObjectPrefix id) (computeObjectRangeEnd (buildObjectPrefix id))
    exact ⟨hiff, hiff.2⟩
  | mergePage items =>
    have hmerge := mirrors_mergePage hlossless shardId items h
    exact ⟨iff_of_true hmerge.1 trivial, fun _ => hmerge.2⟩
  | rebuild => exact ⟨iff_of_true (mirrors_rebuild h) trivial, fun _ => mirrors_rebuild h⟩
  | restart => exact ⟨iff_of_true (mirrors_restart config n) trivial, fun _ => mirrors_restart config n⟩

end

/-- **The tree mirrors storage** along a run in which no deletion finds a record that decodes. -/
theorem tree_mirrors_iff (config : MstConfig Bytes) (hlossless : config.Lossless) (shardId : UInt64) (s : Store)
    (faults : List (Option StorageError)) (steps : List IndexStep) :
    MirrorsAlong config shardId (initialized config s faults) steps ↔
      KeepsAlong config shardId (initialized config s faults) steps := by
  have hstart : MirrorsStorage config (initialized config s faults) :=
    mirrors_restart config ⟨s, .empty, [], faults⟩
  rw [MirrorsAlong, and_iff_right hstart]
  exact alongRun_iff_of_step (MirrorsStorage config) (fun n step hn => IndexStep.mirrors_iff hlossless hn step) hstart
    steps

/-! ## A deleted key -/

namespace DeletedKey

def store : Store := .empty
def steps : List IndexStep := [.replicate (.write [1] [10] false), .replicate (.delete [1])]
def deleted : Node := steps.foldl (fun n step => step.run defaultMstConfig 1 n) (initialized defaultMstConfig store [])

theorem lossless : defaultMstConfig.Lossless := by
  intro entry bytes h
  exact congrArg Except.ok (Except.ok.inj h).symm

/-- The tree still holds the pair, and after a rebuild as well; storage does not. -/
theorem tree_keeps_deleted :
    deleted.app.get [1] = none ∧ deleted.tree.get [1] = some [10] ∧
    (IndexStep.rebuild.run defaultMstConfig 1 deleted).tree.get [1] = some [10] ∧
    ¬ MirrorsStorage defaultMstConfig deleted ∧
    ¬ MirrorsStorage defaultMstConfig (IndexStep.rebuild.run defaultMstConfig 1 deleted) := by
  have hnone : ∀ entry, ¬ Decodes defaultMstConfig deleted.app [1] entry := by
    rintro entry ⟨bytes, hget, _⟩
    cases hget
  refine ⟨rfl, rfl, rfl, fun h => ?_, fun h => ?_⟩
  · exact hnone [10] ((h [1] [10]).1 rfl)
  · exact hnone [10] ((h [1] [10]).1 rfl)

def writes : List IndexStep :=
  [.replicate (.batch [.write [1] [10] false, .delete [2]]), .mergePage [([1], [11]), ([3], [12])], .rebuild,
    .deleteObject Str.empty, .restart]

theorem tree_mirrors_writes : MirrorsAlong defaultMstConfig 1 (initialized defaultMstConfig store []) writes := by
  refine (tree_mirrors_iff defaultMstConfig lossless 1 store [] writes).2 ⟨?_, trivial, trivial, ?_, trivial, trivial⟩
  · refine ⟨trivial, ⟨?_, trivial⟩⟩
    rintro entry ⟨bytes, hget, _⟩
    cases hget
  · rintro key entry _ hlt ⟨bytes, hget, _⟩
    have hmem : (key, bytes) ∈ [(([1] : Bytes), ([11] : Bytes)), ([3], [12])] := get_eq_some.1 hget
    simp only [mem_cons, Prod.mk.injEq, not_mem_nil, or_false] at hmem
    rcases hmem with ⟨rfl, _⟩ | ⟨rfl, _⟩
    · exact absurd hlt (by decide)
    · exact absurd hlt (by decide)

end DeletedKey

end Odgm
