import OaasIot.Odgm.Events

/-!
# Storing whole objects (`shard/object_api.rs`)

"Upsert full object replacing existing entries" (object_api.rs:75): but `set_object_by_str_id` writes the given entries
as a batch and removes none. Entries of an earlier value that the new one does not have stay, and are read back with
it.
-/

namespace Odgm

open List OrdMap

section
variable {Ev : Type} (c : Codec Ev) (cfg : ShardConfig)

namespace ObjectApi

def prefetchLimit : Nat := 1024

def getObject (id : Str) : ShardM Ev (Option (ObjectData Ev)) := do
  match ← Shard.reconstructCall id prefetchLimit with
  | .ok object => pure object
  | .error e => throw e

def upsertObject (id : Str) (input : ObjectInput Ev) : ShardM Ev Unit := do
  if input.entry.entries.toList = [] then
    let _ ← Shard.ensureMetadataExists id
    if input.entry.event.isNone then pure ()
    else Shard.internalSetObject c cfg id input
  else Shard.internalSetObject c cfg id input

end ObjectApi

end

section
variable {Ev : Type} {c : Codec Ev} {kind : ReplicationKind} {cfg : ShardConfig} {s : Store} {sh sh' : Shard Ev}
  {id : ObjectId}

/-! ## What an upsert has done -/

def batchFaults (event : Option Ev) (faults : List (Option StorageError)) : List (Option StorageError) :=
  if event.isSome then faults.tail else faults

def landedCount (faults : List (Option StorageError)) (values : List (Str × ObjectVal)) : Nat :=
  (firstFault faults (values.length + 1)).getD values.length

theorem landedCount_nil (values : List (Str × ObjectVal)) : landedCount [] values = values.length := by
  simp [landedCount, firstFault]

theorem returned_writeEventConfig {event : Option Ev} {a : Unit}
    (h : Returned c kind (Shard.writeEventConfig c id event) sh a sh') :
    sh'.node.app = eventWritten c id event sh.node.app ∧ sh'.node.faults = batchFaults event sh.node.faults := by
  cases event with
  | none =>
    obtain ⟨_, rfl⟩ := returned_pure h
    exact ⟨rfl, rfl⟩
  | some ev =>
    obtain ⟨response, sh₁, hwrite, hrest⟩ := h.of_bind
    obtain ⟨_, rfl⟩ := returned_pure hrest
    exact ⟨(returned_replicate_write hwrite).1, (replicateWrite_write_ok (returned_replicate hwrite).1).2⟩

theorem returned_batchSetEntries_nil {values : ValueMap} (hnil : values.toList = []) {expected : Option UInt64}
    {version : UInt64} (h : Returned c kind (Shard.batchSetEntries c cfg id values expected) sh version sh') :
    sh'.node = sh.node := by
  obtain ⟨m, sh₁, hmeta, hrest⟩ := h.of_bind
  rw [if_pos hnil] at hrest
  obtain ⟨_, rfl⟩ := returned_pure hrest
  obtain ⟨_, _, _, rfl⟩ := returned_metadataOrDefault hmeta
  rfl

/-! ## The event configuration -/

theorem getEventConfig_eventWritten (event : Option Ev) (s : Store) :
    getEventConfig c (eventWritten c id event s) id = event.or (getEventConfig c s id) := by
  cases event with
  | none => rfl
  | some ev =>
    rw [getEventConfig, eventWritten, get_insert_self, Option.bind_some, c.decodeEvent_encodeEvent, Option.some_or]

theorem getEventConfig_insertMany_entries (values : List (Str × ObjectVal)) (s : Store) :
    getEventConfig c (s.insertMany (entryRecords c id values)) id = getEventConfig c s id := by
  have hnot : eventConfigKey id ∉ (entryRecords c id values).map Prod.fst := by
    intro hmem
    simp only [entryRecords, map_map, mem_map, Function.comp] at hmem
    obtain ⟨e, _, he⟩ := hmem
    exact eventConfigKey_ne_entryKey id e.1 he.symm
  rw [getEventConfig, get_insertMany_of_notMem _ hnot, getEventConfig]

theorem getEventConfig_batchWritten (metadata : Option ObjectMetadata) (values : List (Str × ObjectVal)) (s : Store) :
    getEventConfig c (batchWritten c id metadata values s) id = getEventConfig c s id := by
  have hsplit : batchWritten c id metadata values s = (s.insertMany (entryRecords c id values)).insert
      (buildMetadataKey id) (metadata.getD .default).incrementVersion.toBytes := insertMany_append _ _ _
  rw [getEventConfig, hsplit, get_insert_of_ne _ _ (eventConfigKey_ne_metaKey id id).symm]
  exact getEventConfig_insertMany_entries values s

/-! ## What storing an object has done -/

def ObjectInput.landed (input : ObjectInput Ev) (faults : List (Option StorageError)) : List (Str × ObjectVal) :=
  input.kv.toList.take (landedCount (batchFaults input.entry.event faults) input.kv.toList)

/-- What is stored once `internal_set_object` has returned `Ok`; a batch may have been cut short. -/
structure ObjectStored (c : Codec Ev) (id : ObjectId) (input : ObjectInput Ev) (faults : List (Option StorageError))
    (s s' : Store) : Prop where
  wf : WellFormed c s'
  entries : entryMap c s' id = (entryMap c s id).insertMany (input.landed faults)
  event : getEventConfig c s' id = input.entry.event.or (getEventConfig c s id)
  tombstone : NotTombstoned s' id ↔ NotTombstoned s id
  kept : getMetadata s id ≠ .ok none → getMetadata s' id ≠ .ok none
  fresh : getMetadata s id = .ok none → getMetadata s' id ≠ .ok none → input.landed faults ≠ []

variable {input : ObjectInput Ev}

theorem returned_internalSetObject (hs : WellFormed c sh.node.app)
    (h : Returned c kind (Shard.internalSetObject c cfg id input) sh () sh') :
    ObjectStored c id input sh.node.faults sh.node.app sh'.node.app := by
  obtain ⟨_, sh₁, hevent, hrest⟩ := h.of_bind
  obtain ⟨version, sh₂, hbatch, hrest⟩ := hrest.of_bind
  obtain ⟨_, rfl⟩ := returned_pure hrest
  obtain ⟨happ₁, hf₁⟩ := returned_writeEventConfig hevent
  obtain ⟨metadata, hm⟩ := getMetadata_of_wellFormed hs id
  have hwf₁ : WellFormed c sh₁.node.app := happ₁ ▸ hs.eventWritten _
  have hm₁ : getMetadata sh₁.node.app id = .ok metadata := by
    rw [happ₁, getMetadata_eventWritten, hm]
  have hmap₁ : entryMap c sh₁.node.app id = entryMap c sh.node.app id := by
    rw [happ₁, entryMap_eventWritten hs]
  have hevent₁ : getEventConfig c sh₁.node.app id = input.entry.event.or (getEventConfig c sh.node.app id) := by
    rw [happ₁, getEventConfig_eventWritten]
  have hlanded : input.landed sh.node.faults =
      input.kv.toList.take ((firstFault sh₁.node.faults (input.kv.toList.length + 1)).getD input.kv.toList.length) := by
    rw [ObjectInput.landed, landedCount, hf₁]
  by_cases hnil : input.kv.toList = []
  · have hnode := returned_batchSetEntries_nil hnil hbatch
    rw [hnil, take_nil] at hlanded
    refine ⟨hnode ▸ hwf₁, ?_, ?_, ?_, ?_, ?_⟩
    · rw [hnode, hlanded, hmap₁, insertMany_nil]
    · rw [hnode, hevent₁]
    · rw [hnode, notTombstoned_iff hm₁, notTombstoned_iff hm]
    · rw [hnode, hm₁, hm]
      exact fun hsome => hsome
    · rw [hnode, hm₁, hm]
      exact fun hnone hsome => absurd hnone hsome
  · rcases returned_batchSetEntries_store hm₁ hnil hbatch with ⟨hfault, happ⟩ | ⟨j, hfault, _, happ⟩
    · have henc := encodable_getMetadata hm
      have hm₂ : getMetadata sh'.node.app id = .ok (some (metadata.getD .default).incrementVersion) := by
        rw [happ, getMetadata_batchWritten henc]
      rw [hfault, Option.getD_none, take_length] at hlanded
      refine ⟨happ ▸ hwf₁.batchWritten henc _, ?_, ?_, ?_, ?_, ?_⟩
      · rw [happ, hlanded, ← hmap₁]
        exact entryMap_batchWritten hwf₁ henc input.kv.nodupKeys
      · rw [happ, getEventConfig_batchWritten, hevent₁]
      · rw [notTombstoned_iff hm₂, notTombstoned_iff hm, Option.getD_some]
        exact Iff.rfl
      · rw [hm₂]
        simp
      · rw [hlanded]
        exact fun _ _ => hnil
    · have hm₂ : getMetadata sh'.node.app id = .ok metadata := by
        rw [happ, getMetadata_insertMany_entries, hm₁]
      rw [hfault, Option.getD_some] at hlanded
      refine ⟨happ ▸ hwf₁.putEntries _, ?_, ?_, ?_, ?_, ?_⟩
      · rw [happ, hlanded, ← hmap₁]
        exact entryMap_insertMany hwf₁ (nodup_take input.kv.nodupKeys j)
      · rw [happ, getEventConfig_insertMany_entries, hevent₁]
      · rw [notTombstoned_iff hm₂, notTombstoned_iff hm]
      · rw [hm₂, hm]
        exact fun hsome => hsome
      · rw [hm₂, hm]
        exact fun hnone hsome => absurd hnone hsome

theorem returned_upsertObject (hs : WellFormed c sh.node.app) (hne : input.entry.entries.toList ≠ [])
    (h : Returned c kind (ObjectApi.upsertObject c cfg id input) sh () sh') :
    WellFormed c sh'.node.app ∧ (NotTombstoned sh'.node.app id ↔ NotTombstoned sh.node.app id) ∧
      entryMap c sh'.node.app id = (entryMap c sh.node.app id).insertMany
        (input.kv.toList.take (landedCount (batchFaults input.entry.event sh.node.faults) input.kv.toList)) := by
  rw [ObjectApi.upsertObject, if_neg hne] at h
  have hstored := returned_internalSetObject hs h
  exact ⟨hstored.wf, hstored.tombstone, hstored.entries⟩

/-! ## Reading the object -/

theorem run_objectApi_getObject (sh : Shard Ev) (id : Str) :
    Shard.run c kind (ObjectApi.getObject id) sh =
      (reconstructObjectFromEntries c sh.node.app id ObjectApi.prefetchLimit, sh) :=
  run_reconstruct _ _ _

def AnswersEntries (c : Codec Ev) (kind : ReplicationKind) (id : ObjectId) (entries : OrdMap Str ObjectVal)
    (sh : Shard Ev) : Prop :=
  ∃ obj, (Shard.run c kind (ObjectApi.getObject id) sh).1 = .ok (some obj) ∧ obj.entries = entries

theorem answersEntries_iff (hs : WellFormed c sh.node.app) (hlive : NotTombstoned sh.node.app id)
    {entries : OrdMap Str ObjectVal} (hne : entries.toList ≠ []) :
    AnswersEntries c kind id entries sh ↔
      entries.toList.length ≤ maxPages * ObjectApi.prefetchLimit ∧ entryMap c sh.node.app id = entries := by
  obtain ⟨metadata, hm⟩ := getMetadata_of_wellFormed hs id
  have hlimit : pageSize ObjectApi.prefetchLimit = ObjectApi.prefetchLimit := by decide
  have hpos : ObjectApi.prefetchLimit ≠ 0 := by decide
  unfold AnswersEntries
  simp only [run_objectApi_getObject]
  constructor
  · rintro ⟨obj, hobj, rfl⟩
    obtain ⟨_, hle, hfound⟩ := reconstructObject_ok hs id hobj hm
    rw [hlimit, ← length_entryMap hs] at hle
    rw [(reconstructed_eq_some hfound.symm).1]
    exact ⟨hle, rfl⟩
  · rintro ⟨hle, rfl⟩
    have hsome : reconstructed metadata (entryMap c sh.node.app id) (getEventConfig c sh.node.app id) ≠ none :=
      reconstructed_ne_none_iff.2 ⟨(notTombstoned_iff hm).1 hlive, .inr hne⟩
    obtain ⟨obj, hobj⟩ := Option.ne_none_iff_exists'.1 hsome
    rw [length_entryMap hs, ← hlimit] at hle
    refine ⟨obj, ?_, (reconstructed_eq_some hobj).1⟩
    rw [reconstructObject_eq hs id hpos hle hm, hobj]

theorem agree_outside_landed_iff (j : Nat) (before : OrdMap Str ObjectVal) :
    (∀ k, k ∉ (input.kv.toList.take j).map Prod.fst → before.get k = input.entry.entries.get k) ↔
      (∀ k, before.get k ≠ none → input.entry.entries.get k ≠ none) ∧
        ∀ e ∈ input.kv.toList.drop j, before.get e.1 = some e.2 := by
  have hsplit := take_append_drop j input.kv.toList
  have hnd := input.kv.nodupKeys
  rw [← hsplit, map_append] at hnd
  constructor
  · intro hagree
    refine ⟨?_, ?_⟩
    · intro k hk hnone
      refine hk ((hagree k ?_).trans hnone)
      intro hmem
      obtain ⟨⟨_, v⟩, he, rfl⟩ := mem_map.1 hmem
      rw [mem_kv_iff.1 (mem_of_mem_take he)] at hnone
      cases hnone
    · intro e he
      have hout : e.1 ∉ (input.kv.toList.take j).map Prod.fst := by
        intro hmem
        exact (disjoint_of_nodup_append hnd) hmem (mem_map_of_mem he)
      rw [hagree e.1 hout]
      exact mem_kv_iff.1 (mem_of_mem_drop he)
  · rintro ⟨hgone, hlost⟩ k hk
    cases hget : input.entry.entries.get k with
    | none => exact by_contra fun hne => hgone k hne hget
    | some v =>
      have hmem := mem_kv_iff.2 hget
      rw [← hsplit, mem_append] at hmem
      rcases hmem with htake | hdrop
      · exact absurd (mem_map_of_mem htake) hk
      · exact hlost _ hdrop

theorem insertMany_landed_eq_iff (hs : WellFormed c s) (input : ObjectInput Ev) (faults : List (Option StorageError)) :
    (entryMap c s id).insertMany (input.landed faults) = input.entry.entries ↔
      (∀ key, Stored s id key → input.entry.entries.get key ≠ none) ∧
      ∀ e ∈ input.kv.toList.drop (landedCount (batchFaults input.entry.event faults) input.kv.toList),
        getEntry c s id e.1 = .ok (some e.2) := by
  unfold ObjectInput.landed
  generalize landedCount (batchFaults input.entry.event faults) input.kv.toList = j
  have hput : ∀ e ∈ input.kv.toList.take j, input.entry.entries.get e.1 = some e.2 := by
    intro e he
    exact mem_kv_iff.1 (mem_of_mem_take he)
  rw [insertMany_eq_iff (nodup_take input.kv.nodupKeys j) hput, agree_outside_landed_iff]
  simp only [stored_iff_entryMap hs, getEntry_eq_entryMap hs, Except.ok.injEq]

/-- **Upsert replaces** an object: the entries fit the pages, none stored before is dropped, and no put was lost. -/
theorem upsert_replaces_iff (c : Codec Ev) (kind : ReplicationKind) (cfg : ShardConfig) (sh : Shard Ev)
    (hs : WellFormed c sh.node.app) (id : ObjectId) (hlive : NotTombstoned sh.node.app id) (input : ObjectInput Ev)
    (hne : input.entry.entries.toList ≠ []) {sh' : Shard Ev}
    (hok : Shard.run c kind (ObjectApi.upsertObject c cfg id input) sh = (.ok (), sh')) :
    AnswersEntries c kind id input.entry.entries sh' ↔
      input.entry.entries.toList.length ≤ maxPages * ObjectApi.prefetchLimit ∧
      (∀ key, Stored sh.node.app id key → input.entry.entries.get key ≠ none) ∧
      ∀ e ∈ input.kv.toList.drop (landedCount (batchFaults input.entry.event sh.node.faults) input.kv.toList),
        getEntry c sh.node.app id e.1 = .ok (some e.2) := by
  obtain ⟨hs', hsame, hmap⟩ := returned_upsertObject hs hne hok
  rw [answersEntries_iff hs' (hsame.2 hlive) hne, hmap]
  exact and_congr_right' (insertMany_landed_eq_iff hs input sh.node.faults)

end

/-! ## An entry that is dropped from an object -/

namespace Shrunk

def otherKey : Str := ⟨[108], Str.valid_l, Str.short_l⟩

def entries : OrdMap Str ObjectVal :=
  (OrdMap.empty.insert Recreated.key Recreated.value).insert otherKey Recreated.value

def larger : ObjectInput Unit where
  entry := ⟨0, entries, none⟩
  kv := ⟨[(Recreated.key, Recreated.value), (otherKey, Recreated.value)], by decide⟩
  collected := List.Perm.refl _

def stored : Shard Unit := Shard.afterAll Postcard.codec .none Recreated.config [.setObject Recreated.id larger]

/-- The call returns `Ok`, and the dropped entry is read back. -/
theorem upsert_keeps_dropped_entry :
    (Shard.run Postcard.codec .none (ObjectApi.upsertObject Postcard.codec Recreated.config Recreated.id Recreated.input)
      stored).1 = .ok () ∧
    ¬ AnswersEntries Postcard.codec .none Recreated.id Recreated.input.entry.entries
      (Shard.run Postcard.codec .none
        (ObjectApi.upsertObject Postcard.codec Recreated.config Recreated.id Recreated.input) stored).2 := by
  refine ⟨rfl, ?_⟩
  rintro ⟨obj, hobj, hentries⟩
  have hboth : (Shard.run Postcard.codec .none (ObjectApi.getObject Recreated.id)
      (Shard.run Postcard.codec .none
        (ObjectApi.upsertObject Postcard.codec Recreated.config Recreated.id Recreated.input) stored).2).1 =
      .ok (some ⟨2, entries, none⟩) := rfl
  rw [hboth] at hobj
  cases hobj
  exact absurd (congrArg toList hentries) (by decide)

theorem upsert_replaces_new :
    AnswersEntries Postcard.codec .none Recreated.id Recreated.input.entry.entries
        (Shard.run Postcard.codec .none
          (ObjectApi.upsertObject Postcard.codec Recreated.config Recreated.id Recreated.input)
          (Shard.afterAll Postcard.codec .none Recreated.config [])).2 ↔
      Recreated.input.entry.entries.toList.length ≤ maxPages * ObjectApi.prefetchLimit ∧
      (∀ key, Stored (Shard.afterAll Postcard.codec .none Recreated.config []).node.app Recreated.id key →
        Recreated.input.entry.entries.get key ≠ none) ∧
      ∀ e ∈ Recreated.input.kv.toList.drop (landedCount (batchFaults Recreated.input.entry.event
          (Shard.afterAll Postcard.codec .none Recreated.config []).node.faults) Recreated.input.kv.toList),
        getEntry Postcard.codec (Shard.afterAll Postcard.codec .none Recreated.config []).node.app Recreated.id e.1 =
          .ok (some e.2) :=
  upsert_replaces_iff Postcard.codec .none Recreated.config (Shard.afterAll Postcard.codec .none Recreated.config [])
    (afterAll_sound Postcard.codec .none Recreated.config []).1 Recreated.id (fun m hm => by cases hm) Recreated.input
    (by decide) rfl

end Shrunk

end Odgm
