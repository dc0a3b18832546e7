import OaasIot.Odgm.Runs

/-!
# Reading back a stored object

`set_object` writes the entries and the next version, but keeps the tombstone: `increment_version` does not touch it and
`batch_set_entries` does not clear it. An object stored again after its deletion is there, entry by entry, and
`get_object` answers that it is not.
-/

namespace Odgm

open List OrdMap

section
variable {Ev : Type} {c : Codec Ev} {kind : ReplicationKind} {cfg : ShardConfig} {s : Store} {id : ObjectId}

variable {k : Str}

theorem entryKey_inj {k' : Str} (h : buildEntryKey id k = buildEntryKey id k') : k = k' := by
  obtain ⟨_, hr⟩ := recordKey_inj (show recordKey id (.entry k) = recordKey id (.entry k') from h)
  injection hr

def entryRecords (c : Codec Ev) (id : Str) (values : List (Str × ObjectVal)) : List (Bytes × Bytes) :=
  values.map fun e => (buildEntryKey id e.1, c.encodeVal e.2)

variable {values : List (Str × ObjectVal)}

theorem mem_keys_entryRecords :
    buildEntryKey id k ∈ (entryRecords c id values).map Prod.fst ↔ k ∈ values.map Prod.fst := by
  simp only [entryRecords, map_map, mem_map, Function.comp]
  constructor
  · rintro ⟨e, he, hk⟩
    exact ⟨e, he, entryKey_inj hk⟩
  · rintro ⟨e, he, rfl⟩
    exact ⟨e, he, rfl⟩

theorem nodup_keys_entryRecords (h : (values.map Prod.fst).Nodup) :
    ((entryRecords c id values).map Prod.fst).Nodup := by
  have hmap : (entryRecords c id values).map Prod.fst = (values.map Prod.fst).map (buildEntryKey id) := by
    simp [entryRecords]
  rw [hmap]
  refine pairwise_map.2 (List.Pairwise.imp ?_ h)
  intro k k' hne hk
  exact hne (entryKey_inj hk)

theorem get_entry_batchWritten (metadata : Option ObjectMetadata) (values : List (Str × ObjectVal)) (k : Str) :
    (batchWritten c id metadata values s).get (buildEntryKey id k) =
      (s.insertMany (entryRecords c id values)).get (buildEntryKey id k) := by
  rw [batchWritten, Shard.batchRecords, insertMany_append, insertMany_cons, insertMany_nil]
  exact get_insert_of_ne _ _ (metaKey_ne_entryKey id k)

variable {metadata : Option ObjectMetadata}

theorem getMetadata_batchWritten (hm : (metadata.getD .default).Encodable) (values : List (Str × ObjectVal)) :
    getMetadata (batchWritten c id metadata values s) id =
      .ok (some (metadata.getD .default).incrementVersion) := by
  unfold getMetadata
  rw [batchWritten, Shard.batchRecords, insertMany_append, insertMany_cons, insertMany_nil,
    get_insert_self]
  simp only [ObjectMetadata.fromBytes_toBytes hm.incrementVersion]

theorem getEntry_congr {s s' : Store} {id : Str} (h : s'.get (buildEntryKey id k) = s.get (buildEntryKey id k)) :
    getEntry c s' id k = getEntry c s id k := by
  unfold getEntry
  rw [h]

theorem getEntry_insertMany_of_mem (hnd : (values.map Prod.fst).Nodup) {e : Str × ObjectVal} (h : e ∈ values) :
    getEntry c (s.insertMany (entryRecords c id values)) id e.1 = .ok (some e.2) := by
  have hrec : (buildEntryKey id e.1, c.encodeVal e.2) ∈ entryRecords c id values := mem_map.2 ⟨e, h, rfl⟩
  rw [getEntry_eq_ok]
  exact ⟨_, get_insertMany_of_mem _ (nodup_keys_entryRecords hnd) hrec, c.decodeVal_encodeVal e.2⟩

theorem getEntry_insertMany_of_notMem (h : k ∉ values.map Prod.fst) :
    getEntry c (s.insertMany (entryRecords c id values)) id k = getEntry c s id k :=
  getEntry_congr (get_insertMany_of_notMem _ fun hmem => h (mem_keys_entryRecords.1 hmem))

theorem getEntry_batchWritten (metadata : Option ObjectMetadata) (values : List (Str × ObjectVal)) (k : Str) :
    getEntry c (batchWritten c id metadata values s) id k =
      getEntry c (s.insertMany (entryRecords c id values)) id k :=
  getEntry_congr (get_entry_batchWritten metadata values k)

theorem getEntry_of_mem (hnd : (values.map Prod.fst).Nodup) {v : ObjectVal} (h : (k, v) ∈ values) :
    getEntry c (batchWritten c id metadata values s) id k = .ok (some v) := by
  rw [getEntry_batchWritten]
  exact getEntry_insertMany_of_mem hnd h

section
variable (hs : WellFormed c s)
include hs

theorem entryMap_congr {s' : Store} (hs' : WellFormed c s')
    (h : ∀ k, getEntry c s' id k = getEntry c s id k) : entryMap c s' id = entryMap c s id := by
  apply OrdMap.ext_get
  intro k
  have hafter := getEntry_eq_entryMap hs' id k
  rw [h k, getEntry_eq_entryMap hs id k] at hafter
  exact (Except.ok.inj hafter).symm

theorem entryMap_insertMany (hnd : (values.map Prod.fst).Nodup) :
    entryMap c (s.insertMany (entryRecords c id values)) id = (entryMap c s id).insertMany values := by
  apply OrdMap.ext_get
  intro k
  have hwf : WellFormed c (s.insertMany (entryRecords c id values)) := hs.putEntries values
  have hafter := getEntry_eq_entryMap hwf id k
  by_cases hk : k ∈ values.map Prod.fst
  · obtain ⟨e, hmem, rfl⟩ := mem_map.1 hk
    rw [getEntry_insertMany_of_mem hnd hmem] at hafter
    rw [OrdMap.get_insertMany_of_mem _ hnd hmem]
    exact (Except.ok.inj hafter).symm
  · rw [getEntry_insertMany_of_notMem hk, getEntry_eq_entryMap hs id k] at hafter
    rw [OrdMap.get_insertMany_of_notMem _ hk]
    exact (Except.ok.inj hafter).symm

theorem entryMap_batchWritten (hm : (metadata.getD .default).Encodable) (hnd : (values.map Prod.fst).Nodup) :
    entryMap c (batchWritten c id metadata values s) id = (entryMap c s id).insertMany values := by
  rw [← entryMap_insertMany hs hnd]
  apply entryMap_congr (hs.putEntries values) (hs.batchWritten hm values)
  intro k
  exact getEntry_batchWritten metadata values k

theorem entryMap_eventWritten (event : Option Ev) : entryMap c (eventWritten c id event s) id = entryMap c s id := by
  apply entryMap_congr hs (hs.eventWritten event)
  intro k
  cases event with
  | none => rfl
  | some ev => exact getEntry_congr (get_insert_of_ne _ _ (eventConfigKey_ne_entryKey id k))

end

variable {input : ObjectInput Ev}

theorem objectWritten_eq (hne : input.kv.toList ≠ []) :
    objectWritten c id metadata input s =
      batchWritten c id metadata input.kv.toList (eventWritten c id input.entry.event s) := by
  rw [objectWritten, batchStore, if_neg hne]
  rfl

theorem entryMap_objectWritten (hs : WellFormed c s) (hm : (metadata.getD .default).Encodable)
    (hne : input.kv.toList ≠ []) :
    entryMap c (objectWritten c id metadata input s) id = (entryMap c s id).insertMany input.kv.toList := by
  rw [objectWritten_eq hne, entryMap_batchWritten (hs.eventWritten _) hm input.kv.nodupKeys,
    entryMap_eventWritten hs]

/-! ## `get_object` after `set_object` -/

def ReadsBack (c : Codec Ev) (kind : ReplicationKind) (cfg : ShardConfig) (id : ObjectId)
    (entries : OrdMap Str ObjectVal) (sh : Shard Ev) : Prop :=
  ∃ obj, (Shard.run c kind (Shard.getObject cfg id) sh).1 = .ok (some obj) ∧
    ∀ k v, entries.get k = some v → obj.entries.get k = some v

def NotTombstoned (s : Store) (id : Str) : Prop := ∀ m, getMetadata s id = .ok (some m) → m.tombstone = false

theorem run_getObject (sh : Shard Ev) (id : Str) :
    Shard.run c kind (Shard.getObject cfg id) sh =
      (reconstructObjectFromEntries c sh.node.app id cfg.granularPrefetchLimit, sh) :=
  run_reconstruct _ _ _

theorem mem_kv_iff {v : ObjectVal} : (k, v) ∈ input.kv.toList ↔ input.entry.entries.get k = some v := by
  rw [input.collected.mem_iff, get_eq_some]

theorem kv_ne_nil (hne : input.entry.entries.toList ≠ []) : input.kv.toList ≠ [] := by
  intro h
  have hperm := input.collected
  rw [h] at hperm
  exact hne hperm.nil_eq.symm

theorem notTombstoned_iff (hm : getMetadata s id = .ok metadata) :
    NotTombstoned s id ↔ (metadata.getD .default).tombstone = false := by
  unfold NotTombstoned
  rw [hm]
  cases metadata with
  | none => simp [ObjectMetadata.default]
  | some m => simp

theorem readsBack_objectWritten (hs : WellFormed c s) (hm : getMetadata s id = .ok metadata)
    (hne : input.kv.toList ≠ []) {sh : Shard Ev} (happ : sh.node.app = objectWritten c id metadata input s) :
    ReadsBack c kind cfg id input.entry.entries sh ↔
      NotTombstoned s id ∧
      ((entryMap c s id).insertMany input.kv.toList).toList.length ≤
        maxPages * pageSize cfg.granularPrefetchLimit := by
  have henc := encodable_getMetadata hm
  have hwf : WellFormed c sh.node.app := happ ▸ hs.objectWritten henc input
  have hmap : entryMap c sh.node.app id = (entryMap c s id).insertMany input.kv.toList := by
    rw [happ, entryMap_objectWritten hs henc hne]
  have hmeta : getMetadata sh.node.app id = .ok (some (metadata.getD .default).incrementVersion) := by
    rw [happ, objectWritten_eq hne, getMetadata_batchWritten henc]
  have hpos : cfg.granularPrefetchLimit ≠ 0 := cfg.prefetch_pos.ne'
  rw [notTombstoned_iff hm, ← hmap, length_entryMap hwf]
  unfold ReadsBack
  rw [run_getObject]
  by_cases hle : (storedEntries c sh.node.app id).length ≤ maxPages * pageSize cfg.granularPrefetchLimit
  · rw [reconstructObject_eq hwf id hpos hle hmeta]
    simp only [reconstructed, ObjectMetadata.tombstone_incrementVersion, hle, and_true]
    by_cases ht : (metadata.getD .default).tombstone = true
    · simp [ht]
    · simp only [ht]
      refine iff_of_true ⟨_, rfl, ?_⟩ trivial
      intro k v hk
      rw [hmap]
      exact get_insertMany_of_mem _ input.kv.nodupKeys (mem_kv_iff.2 hk)
  · rw [reconstructObject_exceeded hwf id hpos (Nat.lt_of_not_le hle)]
    simp [hle]

/-- **Read your writes**: the object was not tombstoned before, and its entries fit the pages of a reconstruction. -/
theorem setObject_readsBack_iff (c : Codec Ev) (kind : ReplicationKind) (cfg : ShardConfig)
    (ms : List (Mutation Ev)) (id : ObjectId) (input : ObjectInput Ev) (hne : input.entry.entries.toList ≠ [])
    {p : ShardM Ev Unit}
    (hp : p = Shard.setObject c cfg id input ∨ p = Shard.internalSetObject c cfg id input) {sh' : Shard Ev}
    (hok : Shard.run c kind p (Shard.afterAll c kind cfg ms) = (.ok (), sh')) :
    ReadsBack c kind cfg id input.entry.entries sh' ↔
      NotTombstoned (Shard.afterAll c kind cfg ms).node.app id ∧
      ((entryMap c (Shard.afterAll c kind cfg ms).node.app id).insertMany input.kv.toList).toList.length ≤
        maxPages * pageSize cfg.granularPrefetchLimit := by
  obtain ⟨hwf, hf⟩ := afterAll_sound c kind cfg ms
  obtain ⟨metadata, hm⟩ := getMetadata_of_wellFormed hwf id
  -- Either program leaves the written object where it returned `Ok`.
  have happ : sh'.node.app = objectWritten c id metadata input (Shard.afterAll c kind cfg ms).node.app := by
    rcases hp with rfl | rfl
    · have hruns : Runs c kind (Shard.setObject c cfg id input) _ _ _ := runs_setObject hm input
      obtain ⟨sh₁, hrun, happ, _⟩ := hruns _ rfl hf
      rw [hok] at hrun
      obtain ⟨hout, rfl⟩ := Prod.mk.inj hrun
      rwa [← hout] at happ
    · have hruns : Runs c kind (Shard.internalSetObject c cfg id input) _ _ _ := runs_internalSetObject hm input
      obtain ⟨sh₁, hrun, happ, _⟩ := hruns _ rfl hf
      rw [hok] at hrun
      obtain ⟨_, rfl⟩ := Prod.mk.inj hrun
      exact happ
  exact readsBack_objectWritten hwf hm (kv_ne_nil hne) happ

end

/-! ## An object stored again after its deletion -/

namespace Recreated

def id : ObjectId := ⟨⟨[111], Str.valid_o, Str.short_o⟩, ObjectId.nulFree_o⟩
def key : Str := ⟨[107], Str.valid_k, Str.short_k⟩
def value : ObjectVal := ⟨[1, 2], .byte, short_12⟩
def config : ShardConfig := ⟨false, false, false, 8, Str.empty, 0, by decide⟩

def input : ObjectInput Unit where
  entry := ⟨0, OrdMap.empty.insert key value, none⟩
  kv := ⟨[(key, value)], by simp⟩
  collected := List.Perm.refl _

theorem nodup_key : ([(key, value)].map Prod.fst).Nodup := by simp

def deleted : Shard Unit := Shard.afterAll Postcard.codec .none config [.setObject id input, .deleteObject id]

/-- The call returns `Ok`, and `get_object` answers that there is no object. -/
theorem setObject_hidden :
    (Shard.run Postcard.codec .none (Shard.setObject Postcard.codec config id input) deleted).1 = .ok () ∧
    ¬ ReadsBack Postcard.codec .none config id input.entry.entries
      (Shard.run Postcard.codec .none (Shard.setObject Postcard.codec config id input) deleted).2 := by
  refine ⟨rfl, ?_⟩
  rintro ⟨obj, hobj, _⟩
  have hnone : (Shard.run Postcard.codec .none (Shard.getObject config id)
      (Shard.run Postcard.codec .none (Shard.setObject Postcard.codec config id input) deleted).2).1 = .ok none := rfl
  rw [hnone] at hobj
  cases hobj

theorem setObject_readsBack_new :
    ReadsBack Postcard.codec .none config id input.entry.entries
        (Shard.run Postcard.codec .none (Shard.setObject Postcard.codec config id input)
          (Shard.afterAll Postcard.codec .none config [])).2 ↔
      NotTombstoned (Shard.afterAll Postcard.codec .none config []).node.app id ∧
      ((entryMap Postcard.codec (Shard.afterAll Postcard.codec .none config []).node.app id).insertMany
        input.kv.toList).toList.length ≤ maxPages * pageSize config.granularPrefetchLimit :=
  setObject_readsBack_iff Postcard.codec .none config [] id input (by decide) (Or.inl rfl) rfl

end Recreated

end Odgm
