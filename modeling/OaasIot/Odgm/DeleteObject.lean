import OaasIot.Odgm.ReadYourWrites

/-!
# What a deleted object leaves behind

`delete_object` decides from the metadata alone: where there is none, or a tombstone, it removes nothing. Entries
written behind a tombstone and an event configuration stored without entries survive every later deletion.
-/

namespace Odgm

open OrdMap

section
variable {Ev : Type} {c : Codec Ev} {kind : ReplicationKind} {cfg : ShardConfig} {s : Store} {id : ObjectId}

structure Gone (c : Codec Ev) (kind : ReplicationKind) (cfg : ShardConfig) (id : ObjectId) (sh : Shard Ev) :
    Prop where
  object : (Shard.run c kind (Shard.getObject cfg id) sh).1 = .ok none
  entry : ∀ key, getEntry c sh.node.app id key = .ok none
  listing : ∀ keyPrefix limit, listEntries c sh.node.app id ⟨keyPrefix, limit, none⟩ = .ok ⟨[], none⟩
  event : sh.node.app.get (eventConfigKey id) = none

def Live (s : Store) (id : Str) : Prop := ∃ m, getMetadata s id = .ok (some m) ∧ m.tombstone = false

theorem tombstone_of_not_live {s : Store} {id : Str} {metadata : Option ObjectMetadata}
    (hm : getMetadata s id = .ok metadata) (h : ¬ Live s id) : ∀ m ∈ metadata, m.tombstone = true := by
  rintro m rfl
  by_contra ht
  exact h ⟨m, hm, Bool.eq_false_iff.2 ht⟩

def NoRecords (s : Store) (id : Str) : Prop :=
  (∀ key, s.get (buildEntryKey id key) = none) ∧ s.get (eventConfigKey id) = none

theorem deleteOutcome_iff (hs : WellFormed c s) :
    deleteOutcome c cfg id s = .ok () ↔
      (cfg.v2Dispatcher = true →
        (entryMap c s id).toList.length ≤ maxPages * pageSize cfg.granularPrefetchLimit) := by
  obtain ⟨metadata, hm⟩ := getMetadata_of_wellFormed hs id
  have hpos : cfg.granularPrefetchLimit ≠ 0 := cfg.prefetch_pos.ne'
  unfold deleteOutcome
  cases hv2 : cfg.v2Dispatcher with
  | false => simp
  | true =>
    rw [length_entryMap hs]
    by_cases hle : (storedEntries c s id).length ≤ maxPages * pageSize cfg.granularPrefetchLimit
    · simp [reconstructObject_eq hs id hpos hle hm, hle, Except.map]
    · simp [reconstructObject_exceeded hs id hpos (Nat.lt_of_not_le hle), hle, Except.map]

/-! ## Objects without live metadata -/

theorem get_entry_eq_none_of_getEntry {key : Str} (h : getEntry c s id key = .ok none) :
    s.get (buildEntryKey id key) = none := by
  unfold getEntry at h
  split at h
  · assumption
  · split at h
    · cases h
    · cases h

theorem storedEntries_eq_nil (hs : WellFormed c s) (h : ∀ key, s.get (buildEntryKey id key) = none) :
    storedEntries c s id = [] := by
  rw [List.eq_nil_iff_forall_not_mem]
  intro e he
  rw [mem_storedEntries hs, h] at he
  cases he

theorem listEntries_nil (hs : WellFormed c s) (h : storedEntries c s id = []) (keyPrefix : Option Str) (limit : Nat) :
    listEntries c s id ⟨keyPrefix, limit, none⟩ = .ok ⟨[], none⟩ := by
  by_cases hl : limit = 0
  · subst hl
    rfl
  · have hc : CursorAt c s id none [] := Or.inl ⟨rfl, h.symm⟩
    obtain ⟨more, hcall, hshort, _, _⟩ := listEntries_page hs hc keyPrefix hl
    have hmore : more = false := hshort (pageSize_pos hl)
    have hrun : firstRun keyPrefix ([] : List (StoredEntry c)) = [] := rfl
    rw [hcall, hmore, hrun, List.take_nil]
    rfl

theorem reconstructObject_of_empty (hs : WellFormed c s) (h : storedEntries c s id = []) (hdead : ¬ Live s id)
    {prefetch : Nat} (hp : prefetch ≠ 0) : reconstructObjectFromEntries c s id prefetch = .ok none := by
  obtain ⟨metadata, hm⟩ := getMetadata_of_wellFormed hs id
  have hle : (storedEntries c s id).length ≤ maxPages * pageSize prefetch := by
    rw [h]
    exact Nat.zero_le _
  rw [reconstructObject_eq hs id hp hle hm]
  cases metadata with
  | none =>
    have hmap : entryMap c s id = empty := by
      rw [entryMap, h]
      rfl
    rw [reconstructed, hmap]
    rfl
  | some m =>
    have ht : m.tombstone = true := by
      by_contra hlive
      exact hdead ⟨m, hm, Bool.eq_false_iff.2 hlive⟩
    simp [reconstructed, ht]

/-- **Without live metadata** an object is gone exactly when it has no records. -/
theorem gone_iff {sh : Shard Ev} (hsh : sh.Sound c) (hdead : ¬ Live sh.node.app id) :
    Gone c kind cfg id sh ↔ NoRecords sh.node.app id := by
  constructor
  · intro h
    exact ⟨fun key => get_entry_eq_none_of_getEntry (h.entry key), h.event⟩
  · rintro ⟨hentries, hevent⟩
    have hnil := storedEntries_eq_nil hsh.wf hentries
    refine ⟨?_, ?_, listEntries_nil hsh.wf hnil, hevent⟩
    · rw [run_getObject]
      exact reconstructObject_of_empty hsh.wf hnil hdead cfg.prefetch_pos.ne'
    · intro key
      unfold getEntry
      rw [hentries key]

/-! ## Deletions -/

theorem getMetadata_buried {m : ObjectMetadata} (hm : m.Encodable) :
    getMetadata (buried id m s) id = .ok (some m.incrementVersion.markTombstone) := by
  unfold getMetadata
  rw [buried, get_insert_self]
  simp only [ObjectMetadata.fromBytes_toBytes hm.incrementVersion.markTombstone]

theorem not_live_buried {m : ObjectMetadata} (hm : m.Encodable) : ¬ Live (buried id m s) id := by
  rintro ⟨m', hm', hlive⟩
  rw [getMetadata_buried hm] at hm'
  cases hm'
  cases hlive

theorem get_record_buried {m : ObjectMetadata} {r : GranularRecord} (hr : recordKey id r ≠ buildMetadataKey id) :
    (buried id m s).get (recordKey id r) = none := by
  rw [buried, get_insert_of_ne _ _ hr.symm, get_eraseRange, if_pos (mem_objectRange_iff.2 rfl)]

theorem noRecords_buried (m : ObjectMetadata) (s : Store) (id : ObjectId) : NoRecords (buried id m s) id := by
  constructor
  · intro key
    exact get_record_buried (r := .entry key) (metaKey_ne_entryKey id key).symm
  · exact get_record_buried (r := .eventConfig) (eventConfigKey_ne_metaKey id id)

/-- A store of granular records of ids without a NUL, whatever their values. -/
structure RecordStore where
  raw : Store
  keyed : ∀ k v, raw.get k = some v → ∃ (id : ObjectId) (r : GranularRecord), k = recordKey id r

def RecordStore.on (st : RecordStore) (sh : Shard Ev) : Shard Ev := { sh with node := { sh.node with app := st.raw } }

/-- **Object isolation**: the range of an object holds its records and no others, and deleting it removes exactly
them. -/
theorem object_isolation (c : Codec Ev) (kind : ReplicationKind) (st : RecordStore) (sh : Shard Ev) (id : ObjectId) :
    (∀ k v, (k, v) ∈ st.raw.range (buildObjectPrefix id) (computeObjectRangeEnd (buildObjectPrefix id)) ↔
      st.raw.get k = some v ∧ ∃ r, k = recordKey id r) ∧
    ∃ sh', Shard.run c kind (Shard.deleteObjectGranular id) (st.on sh) = (.ok (), sh') ∧
      (∀ r, sh'.node.app.get (recordKey id r) = none) ∧
      ∀ id' : ObjectId, id' ≠ id → ∀ r, sh'.node.app.get (recordKey id' r) = st.raw.get (recordKey id' r) := by
  refine ⟨fun k v => ?_, _, rfl, fun r => ?_, fun id' hne r => ?_⟩
  · rw [mem_range, and_congr_right_iff]
    intro hget
    obtain ⟨id', r, rfl⟩ := st.keyed k v hget
    rw [mem_objectRange_iff]
    constructor
    · rintro rfl
      exact ⟨r, rfl⟩
    · rintro ⟨r', hr'⟩
      exact (recordKey_inj hr').1
  · exact (get_eraseRange _ _ _ _).trans (if_pos (mem_objectRange_iff.2 rfl))
  · exact (get_eraseRange _ _ _ _).trans (if_neg fun hmem => hne (mem_objectRange_iff.1 hmem))

/-- **Delete completeness**: the metadata was live, or there was nothing to delete. -/
theorem deleteObject_gone_iff (c : Codec Ev) (kind : ReplicationKind) (cfg : ShardConfig)
    (ms : List (Mutation Ev)) (id : ObjectId) {p : ShardM Ev Unit}
    (hp : p = Shard.deleteObject c cfg id ∨ p = Shard.internalDeleteObject c cfg id) {sh' : Shard Ev}
    (hok : Shard.run c kind p (Shard.afterAll c kind cfg ms) = (.ok (), sh')) :
    Gone c kind cfg id sh' ↔
      Live (Shard.afterAll c kind cfg ms).node.app id ∨ NoRecords (Shard.afterAll c kind cfg ms).node.app id := by
  have hsound := afterAll_sound c kind cfg ms
  generalize Shard.afterAll c kind cfg ms = sh at *
  have hok' : Shard.run c kind (Shard.deleteObject c cfg id) sh = (.ok (), sh') := by
    rcases hp with rfl | rfl
    · exact hok
    · exact hok
  obtain ⟨metadata, hm⟩ := getMetadata_of_wellFormed hsound.wf id
  by_cases hlive : Live sh.node.app id
  · obtain ⟨m, hm', ht⟩ := hlive
    have hruns : Runs c kind (Shard.deleteObject c cfg id) _ _ _ := runs_deleteObject_live hm' ht
    obtain ⟨sh₁, hrun, happ, hf⟩ := hruns sh rfl hsound.healthy
    rw [hok'] at hrun
    obtain ⟨hout, rfl⟩ := Prod.mk.inj hrun
    rw [← hout] at happ
    have henc : m.Encodable := encodable_getMetadata hm'
    have hsound' : sh'.Sound c := ⟨happ ▸ hsound.wf.buried henc, hf⟩
    have hdead : ¬ Live sh'.node.app id := happ ▸ not_live_buried henc
    refine iff_of_true ((gone_iff hsound' hdead).2 ?_) (Or.inl ⟨m, hm', ht⟩)
    rw [happ]
    exact noRecords_buried m sh.node.app id
  · have hearly : ∀ m ∈ metadata, m.tombstone = true := tombstone_of_not_live hm hlive
    have hruns : Runs c kind (Shard.deleteObject c cfg id) _ _ _ := runs_deleteObject_early hm hearly
    obtain ⟨sh₁, hrun, happ, hf⟩ := hruns sh rfl hsound.healthy
    rw [hok'] at hrun
    obtain ⟨_, rfl⟩ := Prod.mk.inj hrun
    have hsound' : sh'.Sound c := ⟨happ ▸ hsound.wf, hf⟩
    rw [gone_iff hsound' (happ ▸ hlive), happ]
    simp [hlive]

end

/-! ## An entry written behind a tombstone -/

namespace Behind

open Recreated

def written : Shard Unit :=
  Shard.afterAll Postcard.codec .none config [.setObject id input, .deleteObject id, .setEntry id key value]

theorem deleteObject_incomplete :
    (Shard.run Postcard.codec .none (Shard.deleteObject Postcard.codec config id) written).1 = .ok () ∧
    ¬ Gone Postcard.codec .none config id
      (Shard.run Postcard.codec .none (Shard.deleteObject Postcard.codec config id) written).2 := by
  refine ⟨rfl, ?_⟩
  intro h
  have hentry : getEntry Postcard.codec
      (Shard.run Postcard.codec .none (Shard.deleteObject Postcard.codec config id) written).2.node.app id key =
      .ok (some value) := rfl
  have hnone := h.entry key
  rw [hentry] at hnone
  cases hnone

theorem deleteObject_gone_iff_first :
    Gone Postcard.codec .none config id (Shard.run Postcard.codec .none (Shard.deleteObject Postcard.codec config id)
        (Shard.afterAll Postcard.codec .none config [.setObject id input])).2 ↔
      Live (Shard.afterAll Postcard.codec .none config [.setObject id input]).node.app id ∨
      NoRecords (Shard.afterAll Postcard.codec .none config [.setObject id input]).node.app id :=
  deleteObject_gone_iff Postcard.codec .none config [.setObject id input] id (Or.inl rfl) rfl

end Behind

end Odgm
