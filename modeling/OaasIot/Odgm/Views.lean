import OaasIot.Odgm.BatchPaths
import OaasIot.Odgm.DeleteObject
import OaasIot.Odgm.ObjectListing

/-!
# Four readers of one store

An object counts for `get_object` with live metadata, or with entries and no metadata; for `list_objects` with live
metadata; for `scan_objects` with metadata where `get_object` returns it; for `count_objects` with metadata, tombstones
included. In all runs no entry is stored without metadata (`Covered`), so the first three agree.
-/

namespace Odgm

open List OrdMap

/-! ## The readers -/

def countObjectsLoop : List (Bytes × Bytes) → Nat → Except Panic Nat
  | [], total => pure total
  | (k, _) :: results, total => do
    match ← parseGranularKey k with
    | some (_, .metadata) => countObjectsLoop results (total + 1)
    | _ => countObjectsLoop results total

def countObjects (s : Store) : Result Nat := liftPanic (countObjectsLoop s.toList 0)

def scanObjectsLoop {Ev : Type} (c : Codec Ev) (s : Store) (idPrefix : Option Str) (prefetchLimit : Nat) :
    List (Bytes × Bytes) → List (Str × ObjectData Ev) → Result (List (Str × ObjectData Ev))
  | [], out => pure out
  | (k, _) :: all, out => do
    match ← liftPanic (parseGranularKey k) with
    | some (oid, .metadata) =>
      if hasKeyPrefix idPrefix oid = false then scanObjectsLoop c s idPrefix prefetchLimit all out
      else
        match ← reconstructObjectFromEntries c s oid prefetchLimit with
        | some entry => scanObjectsLoop c s idPrefix prefetchLimit all (out ++ [(oid, entry)])
        | none => scanObjectsLoop c s idPrefix prefetchLimit all out
    | _ => scanObjectsLoop c s idPrefix prefetchLimit all out

def scanObjects {Ev : Type} (c : Codec Ev) (s : Store) (idPrefix : Option Str) (prefetchLimit : Nat) :
    Result (List (Str × ObjectData Ev)) :=
  scanObjectsLoop c s idPrefix prefetchLimit s.toList []

inductive ShardMutation (Ev : Type)
  | call (m : Mutation Ev)
  | ensureMetadataExists (id : ObjectId)
  | deleteObjectGranular (id : ObjectId)
  | batchMutateEntries (id : ObjectId) (values : ValueMap) (deleteKeys : List Str) (expectedVersion : Option UInt64)

section
variable {Ev : Type} (c : Codec Ev) (kind : ReplicationKind) (cfg : ShardConfig)

def ShardMutation.program : ShardMutation Ev → ShardM Ev Unit
  | .call m => m.program c cfg
  | .ensureMetadataExists id => do
    let _ ← Shard.ensureMetadataExists id
    pure ()
  | .deleteObjectGranular id => Shard.deleteObjectGranular id
  | .batchMutateEntries id values deleteKeys expected => do
    let _ ← Shard.batchMutateEntries c cfg id values deleteKeys expected
    pure ()

def Shard.afterEach (ms : List (ShardMutation Ev)) : Shard Ev :=
  ms.foldl (fun sh m => (Shard.run c kind (m.program c cfg) sh).2) Shard.new

def enumerated (s : Store) (limit : Nat) : Option (List ObjectListItem) :=
  followObjects c s none limit (s.toList.length + 1) none

def ViewsAgree (sh : Shard Ev) : Prop :=
  ∀ limit, limit ≠ 0 → ∃ listed, enumerated c sh.node.app limit = some listed ∧
    (∀ id : ObjectId,
      ((∃ obj, (Shard.run c kind (Shard.getObject cfg id) sh).1 = .ok (some obj)) ↔
        id.str ∈ listed.map ObjectListItem.objectId) ∧
      (id.str ∈ listed.map ObjectListItem.objectId ↔
        ∃ found, scanObjects c sh.node.app none cfg.granularPrefetchLimit = .ok found ∧ id.str ∈ found.map Prod.fst)) ∧
    countObjects sh.node.app = .ok listed.length

end

def NoTombstones (s : Store) : Prop :=
  ∀ (id : ObjectId) (m : ObjectMetadata), getMetadata s id = .ok (some m) → m.tombstone = false

def AllFitPages {Ev : Type} (c : Codec Ev) (cfg : ShardConfig) (s : Store) : Prop :=
  ∀ id : ObjectId, (storedEntries c s id).length ≤ maxPages * pageSize cfg.granularPrefetchLimit

/-! ## Entries have metadata -/

def Covered (s : Store) : Prop :=
  ∀ (id : ObjectId) (key : Str), s.get (recordKey id (.entry key)) ≠ none → s.get (recordKey id .metadata) ≠ none

section
variable {Ev : Type} {c : Codec Ev} {kind : ReplicationKind} {cfg : ShardConfig} {s t : Store}

theorem get_putEntries_other {id id' : ObjectId} (h : id' ≠ id) (t : Store) (values : List (Str × ObjectVal))
    (r : GranularRecord) :
    (t.insertMany (values.map fun e => (buildEntryKey id e.1, c.encodeVal e.2))).get (recordKey id' r) =
      t.get (recordKey id' r) := by
  refine get_insertMany_of_notMem t ?_
  intro hmem
  rw [map_map, mem_map] at hmem
  obtain ⟨e, _, heq⟩ := hmem
  have hkeys : recordKey id (.entry e.1) = recordKey id' r := heq
  exact h (recordKey_inj hkeys).1.symm

theorem Effect.covered (h : Effect c s t) (hs : Covered s) : Covered t := by
  induction h with
  | refl => exact hs
  | @event t _ id ev ih =>
    intro id' key hentry
    have hsame : ∀ r, r ≠ GranularRecord.eventConfig →
        (t.insert (eventConfigKey id) (c.encodeEvent ev)).get (recordKey id' r) = t.get (recordKey id' r) :=
      fun r hr => get_insert_of_ne _ _ (recordKey_ne id id' hr.symm)
    rw [hsame _ (show GranularRecord.entry key ≠ .eventConfig from nofun)] at hentry
    rw [hsame _ (show GranularRecord.metadata ≠ .eventConfig from nofun)]
    exact ih id' key hentry
  | @erase t _ id key ih =>
    intro id' key' hentry
    have hsame : (t.erase (buildEntryKey id key)).get (recordKey id' .metadata) = t.get (recordKey id' .metadata) :=
      (get_erase _ _ _).trans (if_neg (entryKey_ne_metaKey id' id key).symm)
    rw [hsame]
    rw [get_erase] at hentry
    split at hentry
    · exact absurd rfl hentry
    · exact ih id' key' hentry
  | @clear t _ id ih =>
    intro id' key hentry
    by_cases hid : id' = id
    · have hgone : (t.eraseRange (buildObjectPrefix id) (computeObjectRangeEnd (buildObjectPrefix id))).get
          (recordKey id' (.entry key)) = none :=
        (get_eraseRange _ _ _ _).trans (if_pos (mem_objectRange_iff.2 hid))
      exact absurd hgone hentry
    · have hsame : ∀ r, (t.eraseRange (buildObjectPrefix id) (computeObjectRangeEnd (buildObjectPrefix id))).get
          (recordKey id' r) = t.get (recordKey id' r) :=
        fun r => (get_eraseRange _ _ _ _).trans (if_neg fun hmem => hid (mem_objectRange_iff.1 hmem))
      rw [hsame] at hentry ⊢
      exact ih id' key hentry
  | @write t _ id values m hm ih =>
    intro id' key hentry
    by_cases hid : id' = id
    · subst hid
      have hput : ∀ u : Store, (u.insert (buildMetadataKey id') m.toBytes).get (recordKey id' .metadata) =
          some m.toBytes := fun u => get_insert_self u _ _
      rw [hput]
      exact Option.some_ne_none _
    · have hsame : ∀ (u : Store) r, (u.insert (buildMetadataKey id) m.toBytes).get (recordKey id' r) =
          u.get (recordKey id' r) := by
        intro u r
        refine get_insert_of_ne _ _ fun heq => hid ?_
        have hkeys : recordKey id .metadata = recordKey id' r := heq
        exact (recordKey_inj hkeys).1.symm
      rw [hsame, get_putEntries_other hid] at hentry ⊢
      exact ih id' key hentry

/-! ## Runs -/

theorem runs_ensureMetadataExists (kind : ReplicationKind) (cfg : ShardConfig) (hs : WellFormed c s) (id : ObjectId) :
    ∃ s', Runs c kind ((ShardMutation.ensureMetadataExists id).program c cfg) s (.ok ()) s' ∧ Effect c s s' := by
  obtain ⟨metadata, hm⟩ := getMetadata_of_wellFormed hs id
  have hread : Runs c kind (Shard.getMetadata id : ShardM Ev _) s (.ok metadata) s := hm ▸ (reads_getMetadata id).runs s
  cases metadata with
  | some m => exact ⟨s, Runs.bind (Runs.bind hread (Runs.pure _ _)) (Runs.pure _ _), .refl⟩
  | none =>
    refine ⟨_, ?_, Effect.refl.write id [] ObjectMetadata.encodable_default⟩
    simp only [ShardMutation.program, Shard.ensureMetadataExists, bind_assoc]
    refine Runs.bind hread ?_
    rw [bind_assoc]
    -- The Boolean depends on what the layer answers; the store does not.
    refine runs_replicate_write _ _ _ fun response => ?_
    cases response.extra with
    | write overrode | none => exact Runs.bind (Runs.pure _ _) (Runs.pure _ _)

theorem runs_batchMutateEntries_effect (kind : ReplicationKind) (cfg : ShardConfig) (hs : WellFormed c s)
    (id : ObjectId) (values : ValueMap) (keys : List Str) (expected : Option UInt64) :
    ∃ out s', Runs c kind (Shard.batchMutateEntries c cfg id values keys expected) s out s' ∧ Effect c s s' := by
  obtain ⟨metadata, hm⟩ := getMetadata_of_wellFormed hs id
  by_cases hempty : values.toList = [] ∧ keys = []
  · obtain ⟨hnil, rfl⟩ := hempty
    exact ⟨_, s, runs_batchMutateEntries_empty kind cfg hm hnil expected, .refl⟩
  · cases hv : Shard.versionMatches expected (metadata.getD .default) with
    | error e => exact ⟨_, s, runs_batchMutateEntries_mismatch kind cfg hm hempty hv, .refl⟩
    | ok _ =>
      by_cases hnil : values.toList = []
      · have hkeys : keys ≠ [] := fun h => hempty ⟨hnil, h⟩
        obtain ⟨s', hrun, heffect, _⟩ := runs_batchMutateEntries_deletes kind cfg hs hm hnil hkeys hv
        exact ⟨_, s', hrun, heffect⟩
      · obtain ⟨s', hrun, heffect, _⟩ := runs_batchMutateEntries_sets kind cfg hs hm hnil keys hv
        exact ⟨_, s', hrun, heffect⟩

theorem ShardMutation.runs_effect (m : ShardMutation Ev) (hs : WellFormed c s) :
    ∃ out s', Runs c kind (m.program c cfg) s out s' ∧ Effect c s s' := by
  cases m with
  | call m => exact m.runs_effect hs
  | ensureMetadataExists id =>
    obtain ⟨s', hrun, heffect⟩ := runs_ensureMetadataExists kind cfg hs id
    exact ⟨_, s', hrun, heffect⟩
  | deleteObjectGranular id => exact ⟨_, _, runs_deleteObjectGranular id s, Effect.refl.clear id⟩
  | batchMutateEntries id values keys expected =>
    obtain ⟨out, s', hrun, heffect⟩ := runs_batchMutateEntries_effect kind cfg hs id values keys expected
    cases out with
    | ok version => exact ⟨_, s', Runs.bind hrun (Runs.pure _ _), heffect⟩
    | error e => exact ⟨_, s', Runs.bind_error hrun, heffect⟩

theorem covered_afterEach (c : Codec Ev) (kind : ReplicationKind) (cfg : ShardConfig) (ms : List (ShardMutation Ev)) :
    (Shard.afterEach c kind cfg ms).Sound c ∧ Covered (Shard.afterEach c kind cfg ms).node.app := by
  refine foldlRecOn (motive := fun sh : Shard Ev => sh.Sound c ∧ Covered sh.node.app) ms _
    ⟨⟨wellFormed_empty, rfl⟩, fun id key h => absurd (get_empty _) h⟩ ?_
  rintro sh ⟨hsound, hcovered⟩ m _
  obtain ⟨out, s', hruns, heffect⟩ : ∃ out s', Runs c kind (m.program c cfg) sh.node.app out s' ∧
      Effect c sh.node.app s' := m.runs_effect hsound.wf
  obtain ⟨sh', hsh, rfl, hf⟩ := hruns sh rfl hsound.healthy
  rw [hsh]
  exact ⟨⟨heffect.wellFormed hsound.wf, hf⟩, heffect.covered hcovered⟩

/-! ## What the readers see -/

def metadataRecords (rs : List (StoredRecord c)) : List (StoredRecord c) := rs.filter fun r => r.kind = .metadata

theorem metadataRecords_cons_of_pos {r : StoredRecord c} (h : r.kind = .metadata) (rs : List (StoredRecord c)) :
    metadataRecords (r :: rs) = r :: metadataRecords rs :=
  filter_cons_of_pos (decide_eq_true h)

theorem metadataRecords_cons_of_neg {r : StoredRecord c} (h : r.kind ≠ .metadata) (rs : List (StoredRecord c)) :
    metadataRecords (r :: rs) = metadataRecords rs :=
  filter_cons_of_neg (by simpa using h)

theorem liveRecords_none (rs : List (StoredRecord c)) :
    liveRecords none rs = (metadataRecords rs).filter fun r => (metadataOrDefault r.raw).tombstone = false := by
  rw [liveRecords, metadataRecords, filter_filter]
  refine filter_congr fun r _ => ?_
  simp [hasKeyPrefix, Bool.and_comm]

theorem countObjectsLoop_eq (rs : List (StoredRecord c)) (total : Nat) :
    countObjectsLoop (rs.map StoredRecord.record) total = .ok (total + (metadataRecords rs).length) := by
  induction rs generalizing total with
  | nil => rfl
  | cons r rs ih =>
    have hparse : parseGranularKey r.record.1 = .ok (some (r.id.str, r.kind)) := parseGranularKey_recordKey r.id r.kind
    rw [map_cons, countObjectsLoop, hparse]
    by_cases hkind : r.kind = .metadata
    · rw [metadataRecords_cons_of_pos hkind, hkind, length_cons, ← Nat.add_assoc, Nat.add_right_comm]
      exact ih (total + 1)
    · rw [metadataRecords_cons_of_neg hkind, ← ih total]
      cases hk : r.kind with
      | metadata => exact absurd hk hkind
      | eventConfig | entry key => rfl

variable {all : List (StoredRecord c)}

theorem countObjects_eq (hall : s.toList = all.map StoredRecord.record) :
    countObjects s = .ok (metadataRecords all).length := by
  rw [countObjects, hall, countObjectsLoop_eq, Nat.zero_add]
  rfl

theorem scanObjectsLoop_eq (hs : WellFormed c s) (hfits : AllFitPages c cfg s)
    (hall : s.toList = all.map StoredRecord.record) (rs : List (StoredRecord c)) (hsub : ∀ r ∈ rs, r ∈ all)
    (out : List (Str × ObjectData Ev)) :
    ∃ found, scanObjectsLoop c s none cfg.granularPrefetchLimit (rs.map StoredRecord.record) out = .ok (out ++ found) ∧
      found.map Prod.fst = (liveRecords none rs).map fun r => r.id.str := by
  induction rs generalizing out with
  | nil => exact ⟨[], by rw [append_nil]; rfl, rfl⟩
  | cons r rs ih =>
    have hparse : parseGranularKey r.record.1 = .ok (some (r.id.str, r.kind)) := parseGranularKey_recordKey r.id r.kind
    have hrest : ∀ r ∈ rs, r ∈ all := fun r' hr' => hsub r' (mem_cons_of_mem _ hr')
    rw [map_cons, scanObjectsLoop, hparse]
    by_cases hkind : r.kind = .metadata
    · have hm : getMetadata s r.id = .ok (some (metadataOrDefault r.raw)) :=
        (exists_metadataRecord_iff hall r.id _).1 ⟨r, hsub r mem_cons_self, hkind, rfl, rfl⟩
      have hrec := reconstructObject_eq hs r.id cfg.prefetch_pos.ne' (hfits r.id) hm
      rw [hkind, liveRecords_none, metadataRecords_cons_of_pos hkind]
      simp only [liftPanic, bind, Except.bind, hasKeyPrefix, hrec, reconstructed]
      cases ht : (metadataOrDefault r.raw).tombstone with
      | true =>
        rw [filter_cons_of_neg (by simp [ht]), ← liveRecords_none]
        exact ih hrest out
      | false =>
        obtain ⟨found, hfound, hids⟩ := ih hrest (out ++ [(r.id.str,
          ⟨(metadataOrDefault r.raw).objectVersion, entryMap c s r.id, getEventConfig c s r.id⟩)])
        rw [append_assoc, singleton_append] at hfound
        refine ⟨_, hfound, ?_⟩
        rw [filter_cons_of_pos (by simp [ht]), ← liveRecords_none, map_cons, map_cons, hids]
    · obtain ⟨found, hfound, hids⟩ := ih hrest out
      refine ⟨found, ?_, ?_⟩
      · rw [← hfound]
        cases hk : r.kind with
        | metadata => exact absurd hk hkind
        | eventConfig | entry key => rfl
      · rw [hids, liveRecords_none, liveRecords_none, metadataRecords_cons_of_neg hkind]

theorem storedEntries_nil_of_covered (hs : WellFormed c s) (hcovered : Covered s) {id : ObjectId}
    (hm : getMetadata s id = .ok none) : storedEntries c s id = [] := by
  have hmeta : s.get (buildMetadataKey id) = none := by
    unfold getMetadata at hm
    split at hm
    · assumption
    · split at hm <;> cases hm
  refine eq_nil_iff_forall_not_mem.2 fun e he => ?_
  have hget : s.get (buildEntryKey id e.key) = some e.raw := (mem_storedEntries hs).1 he
  exact hcovered id e.key (fun hnone => by cases hget.symm.trans hnone) hmeta

theorem getObject_some_iff {sh : Shard Ev} (hsound : sh.Sound c) (hcovered : Covered sh.node.app)
    (hfits : AllFitPages c cfg sh.node.app) (id : ObjectId) :
    (∃ obj, (Shard.run c kind (Shard.getObject cfg id) sh).1 = .ok (some obj)) ↔ Live sh.node.app id := by
  obtain ⟨metadata, hm⟩ := getMetadata_of_wellFormed hsound.wf id
  rw [run_getObject, reconstructObject_eq hsound.wf id cfg.prefetch_pos.ne' (hfits id) hm, Live, hm]
  cases metadata with
  | none =>
    have hnil : (entryMap c sh.node.app id).toList = [] := by
      rw [← length_eq_zero_iff, length_entryMap hsound.wf, storedEntries_nil_of_covered hsound.wf hcovered hm,
        length_nil]
    simp [reconstructed, hnil]
  | some m => cases ht : m.tombstone <;> simp [reconstructed, ht]

theorem mem_liveRecords_id_iff (hall : s.toList = all.map StoredRecord.record) (id : ObjectId) :
    id.str ∈ (liveRecords none all).map (fun r => r.id.str) ↔ Live s id := by
  rw [mem_map]
  constructor
  · rintro ⟨r, hr, hid⟩
    obtain rfl : r.id = id := ObjectId.ext_str hid
    simp only [liveRecords, mem_filter, decide_eq_true_eq] at hr
    obtain ⟨hmem, hkind, _, ht⟩ := hr
    exact ⟨_, (exists_metadataRecord_iff hall _ _).1 ⟨r, hmem, hkind, rfl, rfl⟩, ht⟩
  · rintro ⟨m, hm, ht⟩
    obtain ⟨r, hmem, hkind, rfl, rfl⟩ := (exists_metadataRecord_iff hall id m).2 hm
    exact ⟨r, by simp [liveRecords, hmem, hkind, ht, hasKeyPrefix], rfl⟩

theorem count_eq_iff (hall : s.toList = all.map StoredRecord.record) :
    (metadataRecords all).length = (liveRecords none all).length ↔ NoTombstones s := by
  rw [liveRecords_none, eq_comm, length_filter_eq_length_iff]
  constructor
  · intro hlive id m hm
    obtain ⟨r, hmem, hkind, rfl, rfl⟩ := (exists_metadataRecord_iff hall id m).2 hm
    exact of_decide_eq_true (hlive r (mem_filter.2 ⟨hmem, decide_eq_true hkind⟩))
  · intro hno r hr
    obtain ⟨hmem, hkind⟩ := mem_filter.1 hr
    exact decide_eq_true (hno r.id _ ((exists_metadataRecord_iff hall _ _).1 ⟨r, hmem, of_decide_eq_true hkind, rfl, rfl⟩))

theorem enumerated_eq (hs : WellFormed c s) (hall : s.toList = all.map StoredRecord.record) {limit : Nat}
    (hl : limit ≠ 0) : enumerated c s limit = some ((liveRecords none all).map (itemOf c s)) := by
  refine followObjects_eq hs hall none hl _ none all (Or.inl ⟨rfl, rfl⟩) ?_
  rw [hall, length_map]
  exact Nat.lt_succ_self _

/-- **When the views agree**: no stored metadata is a tombstone, and all objects fit the pages of a reconstruction. -/
theorem views_agree_iff (c : Codec Ev) (kind : ReplicationKind) (cfg : ShardConfig) (ms : List (ShardMutation Ev)) :
    ViewsAgree c kind cfg (Shard.afterEach c kind cfg ms) ↔
      NoTombstones (Shard.afterEach c kind cfg ms).node.app ∧
      AllFitPages c cfg (Shard.afterEach c kind cfg ms).node.app := by
  obtain ⟨hsound, hcovered⟩ := covered_afterEach c kind cfg ms
  generalize Shard.afterEach c kind cfg ms = sh at hsound hcovered ⊢
  obtain ⟨all, hall⟩ := exists_storedRecords hsound.wf
  have hids : ((liveRecords none all).map (itemOf c sh.node.app)).map ObjectListItem.objectId =
      (liveRecords none all).map fun r => r.id.str := map_map
  constructor
  · intro hagree
    obtain ⟨listed, hlisted, hviews, hcount⟩ := hagree 1 one_ne_zero
    rw [enumerated_eq hsound.wf hall one_ne_zero, Option.some.injEq] at hlisted
    subst hlisted
    rw [countObjects_eq hall, Except.ok.injEq, length_map] at hcount
    have hno := (count_eq_iff hall).1 hcount
    refine ⟨hno, fun id => not_lt.1 fun hlt => ?_⟩
    -- An object with that many entries has metadata, so it is listed; but it cannot be read.
    have hlive : Live sh.node.app id := by
      obtain ⟨metadata, hm⟩ := getMetadata_of_wellFormed hsound.wf id
      cases metadata with
      | none =>
        rw [storedEntries_nil_of_covered hsound.wf hcovered hm, length_nil] at hlt
        exact absurd hlt (Nat.not_lt_zero _)
      | some m => exact ⟨m, hm, hno id m hm⟩
    have hmem : id.str ∈ ((liveRecords none all).map (itemOf c sh.node.app)).map ObjectListItem.objectId := by
      rw [hids]
      exact (mem_liveRecords_id_iff hall id).2 hlive
    obtain ⟨obj, hobj⟩ := (hviews id).1.2 hmem
    rw [run_getObject, reconstructObject_exceeded hsound.wf id cfg.prefetch_pos.ne' hlt] at hobj
    cases hobj
  · rintro ⟨hno, hfits⟩ limit hl
    refine ⟨_, enumerated_eq hsound.wf hall hl, fun id => ?_, ?_⟩
    · rw [hids, mem_liveRecords_id_iff hall, getObject_some_iff hsound hcovered hfits]
      obtain ⟨found, hfound, hfst⟩ := scanObjectsLoop_eq hsound.wf hfits hall all (fun _ h => h) []
      rw [← hall] at hfound
      refine ⟨Iff.rfl, ?_⟩
      rw [← mem_liveRecords_id_iff hall, ← hfst]
      constructor
      · exact fun hmem => ⟨found, hfound, hmem⟩
      · rintro ⟨found', hfound', hmem⟩
        obtain rfl : found = found' := Except.ok.inj (hfound.symm.trans hfound')
        exact hmem
    · rw [countObjects_eq hall, length_map, (count_eq_iff hall).2 hno]

end

namespace Recreated

def storedAndDeleted : List (ShardMutation Unit) := [.call (.setObject id input), .call (.deleteObject id)]

/-- A deleted object is not listed, scanned or returned, but counted. -/
theorem deleted_object_counted :
    let sh := Shard.afterEach Postcard.codec .none config storedAndDeleted
    enumerated Postcard.codec sh.node.app 1 = some [] ∧
    scanObjects Postcard.codec sh.node.app none config.granularPrefetchLimit = .ok [] ∧
    (Shard.run Postcard.codec .none (Shard.getObject config id) sh).1 = .ok none ∧
    countObjects sh.node.app = .ok 1 ∧ ¬ ViewsAgree Postcard.codec .none config sh := by
  intro sh
  have hlisted : enumerated Postcard.codec sh.node.app 1 = some [] := rfl
  have hcount : countObjects sh.node.app = .ok 1 := rfl
  refine ⟨hlisted, rfl, rfl, hcount, fun hagree => ?_⟩
  obtain ⟨listed, henum, _, hlength⟩ := hagree 1 one_ne_zero
  rw [hlisted, Option.some.injEq] at henum
  rw [hcount, ← henum] at hlength
  cases hlength

end Recreated

end Odgm
