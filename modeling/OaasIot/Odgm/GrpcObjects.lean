import OaasIot.Odgm.BatchPaths
import OaasIot.Odgm.ObjectApi

/-!
# Objects over gRPC: `set`, then `get_value`

`get_value`, `set_value` and `batch_set_values` normalize the keys they are given; `set` converts the object with
`ObjectData::from` and stores its keys as they are. A key that normalization changes is written under one name and
looked up under another.
-/

namespace Odgm

open List OrdMap

/-! ## The service -/

def ValType.toInt : ValType → Int32
  | .byte => 0
  | .crdtMap => 1

def ObjectVal.intoVal (value : ObjectVal) : ValData := ⟨value.data, value.type.toInt, value.len_lt⟩

/-- `entries` is a hash map, listed in its order of iteration. -/
structure ObjData (Ev : Type) where
  entries : List (Str × ValData)
  event : Option Ev
  nodupKeys : (entries.map Prod.fst).Nodup

structure SetObjectRequest (Ev : Type) where
  objectId : Option Str
  object : Option (ObjData Ev)

structure SingleKeyRequest where
  objectId : Option Str
  key : Option Str

structure ValueResponse where
  value : Option ValData
  objectVersion : Option UInt64
  key : Option Str
  deleted : Option Bool

/-- As the batch call fails, with a status, or by unwrapping an object that is not there. -/
inductive ObjectCallError
  | status (e : GrpcError)
  | unimplemented (message : String)
  | upsertFailed (fault : Fault)
  | panicked

structure DataService where
  maxStringIdLen : Nat
  enableStringEntryKeys : Bool

section
variable {Ev : Type}

def ObjectData.ofObjData (now : UInt64) (object : ObjData Ev) : ObjectData Ev :=
  ⟨now, OrdMap.empty.insertMany (object.entries.map fun e => (e.1, .ofValData e.2)), object.event⟩

def HashMaps.input (hash : HashMaps) (entry : ObjectData Ev) : ObjectInput Ev where
  entry := entry
  kv := hash.collect entry.entries.toList
  collected := by
    have h := hash.collect_perm entry.entries.toList
    rwa [OrdMap.insertMany_toList] at h

namespace DataService

variable (svc : DataService)

def buildIdentityFromString (objectId : Str) : Except ObjectCallError Str :=
  if objectId.bytes = [] then .error (.status (.invalidArgument "object_id required"))
  else
    match normalizeObjectId objectId svc.maxStringIdLen with
    | .ok id => .ok id
    | .error e => .error (.status (.invalidArgument ("invalid identity: " ++ e.message)))

def resolveEntryKey : Option Str → Except ObjectCallError Str
  | none => .error (.status (.invalidArgument "key required"))
  | some key =>
    if svc.enableStringEntryKeys then
      match normalizeEntryKey key svc.maxStringIdLen with
      | .ok norm => .ok norm
      | .error e => .error (.status (mapNormalizationError e))
    else .error (.unimplemented "string entry keys feature disabled")

variable (c : Codec Ev) (kind : ReplicationKind) (cfg : ShardConfig)

def readValue (id key : Str) : ShardM Ev ValueResponse := do
  let value ← Shard.getEntry c id key
  let metadata ← Shard.getMetadata id
  pure ⟨value.map ObjectVal.intoVal, metadata.map ObjectMetadata.objectVersion, some key, none⟩

def getValue (req : SingleKeyRequest) (sh : Shard Ev) : Except ObjectCallError ValueResponse × Shard Ev :=
  match svc.buildIdentityFromString (req.objectId.getD Str.empty) with
  | .error e => (.error e, sh)
  | .ok id =>
    match svc.resolveEntryKey req.key with
    | .error e => (.error e, sh)
    | .ok key =>
      match Shard.run c kind (readValue c id key) sh with
      | (.ok response, sh') => (.ok response, sh')
      | (.error f, sh') => (.error (.status (.shard f)), sh')

def set (hash : HashMaps) (now : UInt64) (req : SetObjectRequest Ev) (sh : Shard Ev) :
    Except ObjectCallError Unit × Shard Ev :=
  match svc.buildIdentityFromString (req.objectId.getD Str.empty) with
  | .error e => (.error e, sh)
  | .ok id =>
    match req.object with
    | none => (.error .panicked, sh)
    | some object =>
      if !svc.enableStringEntryKeys ∧ object.entries ≠ [] then
        (.error (.unimplemented "string entry keys feature disabled"), sh)
      else
        match Shard.run c kind (ObjectApi.upsertObject c cfg id (hash.input (.ofObjData now object))) sh with
        | (.ok (), sh') => (.ok (), sh')
        | (.error f, sh') => (.error (.upsertFailed f), sh')

end DataService

end

section
variable {Ev : Type} {c : Codec Ev} {kind : ReplicationKind} {cfg : ShardConfig} {s : Store} {sh sh' : Shard Ev}
  {svc : DataService}

/-! ## Values and their types -/

variable {value : ObjectVal}

theorem intoVal_eq_iff {v : ValData} : value.intoVal = v ↔ (v.type = 0 ∨ v.type = 1) ∧ value = .ofValData v := by
  obtain ⟨data, type, hlen⟩ := v
  obtain ⟨data', type', hlen'⟩ := value
  cases type' with
  | byte | crdtMap =>
    simp only [ObjectVal.intoVal, ValType.toInt, ObjectVal.ofValData, ValType.ofInt, ValData.mk.injEq,
      ObjectVal.mk.injEq]
    grind

/-! ## Normalized ids -/

variable {norm : Str}

theorem normalizeObjectId_ok {raw : Str} {maxLen : Nat} (h : normalizeObjectId raw maxLen = .ok norm) :
    norm.bytes = raw.bytes.map asciiLower ∧ ∀ b ∈ norm.bytes, validChar b = true := by
  unfold normalizeObjectId at h
  split at h
  · cases h
  · split at h
    · cases h
    · split at h
      · rename_i hvalid
        cases h
        exact ⟨rfl, hvalid⟩
      · cases h

theorem normalizeObjectId_nulFree {raw : Str} {maxLen : Nat} (h : normalizeObjectId raw maxLen = .ok norm) :
    0x00 ∉ norm.bytes := by
  intro hzero
  have hvalid := (normalizeObjectId_ok h).2 0x00 hzero
  exact absurd hvalid (by decide)

theorem DataService.exists_objectId {objectId id : Str} (h : svc.buildIdentityFromString objectId = .ok id) :
    ∃ oid : ObjectId, oid.str = id := by
  unfold DataService.buildIdentityFromString at h
  split at h
  · cases h
  · split at h
    · rename_i hnorm
      cases h
      exact ⟨⟨_, normalizeObjectId_nulFree hnorm⟩, rfl⟩
    · cases h

/-! ## Reading a value -/

theorem run_readValue (hs : WellFormed c sh.node.app) (id : ObjectId) (key : Str) :
    ∃ version, (Shard.run c kind (DataService.readValue c id key) sh).1 =
      .ok ⟨((entryMap c sh.node.app id).get key).map ObjectVal.intoVal, version, some key, none⟩ := by
  obtain ⟨metadata, hm⟩ := getMetadata_of_wellFormed hs id
  have hentry : RunsOn c kind (Shard.getEntry c id key) sh.node (getEntry c sh.node.app id key) sh.node :=
    (reads_getEntry id key).runsOn _
  have hmeta : RunsOn c kind (Shard.getMetadata id) sh.node (getMetadata sh.node.app id) sh.node :=
    (reads_getMetadata id).runsOn _
  rw [getEntry_eq_entryMap hs] at hentry
  rw [hm] at hmeta
  have hread : RunsOn c kind (DataService.readValue c id key) sh.node
      (.ok ⟨((entryMap c sh.node.app id).get key).map ObjectVal.intoVal,
        metadata.map ObjectMetadata.objectVersion, some key, none⟩) sh.node := by
    refine RunsOn.bind hentry ?_
    refine RunsOn.bind hmeta ?_
    exact RunsOn.pure _ _
  obtain ⟨sh', hrun, _⟩ := hread sh rfl
  exact ⟨_, congrArg Prod.fst hrun⟩

variable {key : Str}

theorem run_getValue (hs : WellFormed c sh.node.app) {objectId : Option Str} {id : ObjectId}
    (hid : svc.buildIdentityFromString (objectId.getD Str.empty) = .ok id.str)
    (henabled : svc.enableStringEntryKeys = true) (hkey : normalizeEntryKey key svc.maxStringIdLen = .ok norm) :
    ∃ version, (svc.getValue c kind ⟨objectId, some key⟩ sh).1 =
      .ok ⟨((entryMap c sh.node.app id).get norm).map ObjectVal.intoVal, version, some norm, none⟩ := by
  have hread : ∃ version, (Shard.run c kind (DataService.readValue c id norm) sh).1 = .ok ⟨_, version, _, _⟩ :=
    run_readValue hs id norm
  obtain ⟨version, hread⟩ := hread
  refine ⟨version, ?_⟩
  have hresolve : svc.resolveEntryKey (some key) = .ok norm := by
    simp only [DataService.resolveEntryKey, henabled, if_true, hkey]
  simp only [DataService.getValue, hid, hresolve]
  rcases hrun : Shard.run c kind (DataService.readValue c id norm) sh with ⟨out, sh'⟩
  rw [hrun] at hread
  obtain rfl : out = _ := hread
  rfl

theorem getValue_of_not_normalizes {objectId : Option Str} {e : NormalizationError}
    (hkey : normalizeEntryKey key svc.maxStringIdLen = .error e) :
    ∃ e', (svc.getValue c kind ⟨objectId, some key⟩ sh).1 = .error e' := by
  have hresolve : ∃ e', svc.resolveEntryKey (some key) = .error e' := by
    simp only [DataService.resolveEntryKey, hkey]
    split
    · exact ⟨_, rfl⟩
    · exact ⟨_, rfl⟩
  obtain ⟨e', hresolve⟩ := hresolve
  simp only [DataService.getValue, hresolve]
  cases svc.buildIdentityFromString (objectId.getD Str.empty) <;> exact ⟨_, rfl⟩

/-! ## Reading what was set -/

variable {object : ObjData Ev}

theorem DataService.set_ok {hash : HashMaps} {now : UInt64} {req : SetObjectRequest Ev}
    (hobj : req.object = some object) {id : Str}
    (hid : svc.buildIdentityFromString (req.objectId.getD Str.empty) = .ok id)
    (h : svc.set c kind cfg hash now req sh = (.ok (), sh')) :
    (object.entries ≠ [] → svc.enableStringEntryKeys = true) ∧
      Returned c kind (ObjectApi.upsertObject c cfg id (hash.input (.ofObjData now object))) sh () sh' := by
  simp only [DataService.set, hid, hobj] at h
  split at h
  · cases h
  · rename_i henabled
    refine ⟨?_, ?_⟩
    · intro hne
      by_contra hoff
      exact henabled ⟨by simp [hoff], hne⟩
    · split at h
      · rename_i sh₁ hrun
        cases h
        exact hrun
      · cases h

def ObjData.putEntries (hash : HashMaps) (now : UInt64) (object : ObjData Ev) (faults : List (Option StorageError)) :
    List (Str × ObjectVal) :=
  (hash.input (.ofObjData now object)).kv.toList.take
    (landedCount (batchFaults object.event faults) (hash.input (.ofObjData now object)).kv.toList)

theorem ofObjData_entries_get (now : UInt64) :
    (ObjectData.ofObjData now object).entries.get key = some value ↔
      ∃ v, (key, v) ∈ object.entries ∧ value = .ofValData v := by
  have hnd : ((object.entries.map fun e => (e.1, ObjectVal.ofValData e.2)).map Prod.fst).Nodup := by
    rw [map_map]
    exact object.nodupKeys
  rw [ObjectData.ofObjData, get_insertMany_of_nodup hnd, mem_map]
  constructor
  · rintro ⟨e, he, heq⟩
    obtain ⟨rfl, rfl⟩ := Prod.mk.inj heq
    exact ⟨e.2, he, rfl⟩
  · rintro ⟨v, hv, rfl⟩
    exact ⟨(key, v), hv, rfl⟩

theorem ofObjData_ne_nil (now : UInt64) {v : ValData} (h : (key, v) ∈ object.entries) :
    (ObjectData.ofObjData now object).entries.toList ≠ [] := by
  have hget := (ofObjData_entries_get now).2 ⟨v, h, rfl⟩
  exact ne_nil_of_mem (get_eq_some.1 hget)

theorem mem_putEntries {hash : HashMaps} {now : UInt64} :
    (key, value) ∈ object.putEntries hash now [] ↔ ∃ v, (key, v) ∈ object.entries ∧ value = .ofValData v := by
  have hnone : batchFaults object.event [] = [] := by
    unfold batchFaults
    split <;> rfl
  have hput : object.putEntries hash now [] = (hash.input (.ofObjData now object)).kv.toList := by
    rw [ObjData.putEntries, hnone, landedCount_nil, take_length]
  rw [hput, mem_kv_iff]
  exact ofObjData_entries_get now

theorem get_after_set {before : OrdMap Str ObjectVal} {put : List (Str × ObjectVal)} (hnd : (put.map Prod.fst).Nodup) :
    (before.insertMany put).get key = some value ↔
      (key, value) ∈ put ∨ key ∉ put.map Prod.fst ∧ before.get key = some value := by
  constructor
  · intro h
    by_cases hkey : key ∈ put.map Prod.fst
    · obtain ⟨e, he, rfl⟩ := mem_map.1 hkey
      rw [get_insertMany_of_mem _ hnd he] at h
      obtain rfl := Option.some.inj h
      exact .inl he
    · rw [get_insertMany_of_notMem _ hkey] at h
      exact .inr ⟨hkey, h⟩
  · rintro (hmem | ⟨hkey, h⟩)
    · exact get_insertMany_of_mem _ hnd hmem
    · rw [get_insertMany_of_notMem _ hkey, h]

/-- **Entry keys agree**: the value has a known type, and the normalized key is one the object brings, or had. -/
theorem set_getValue_iff (c : Codec Ev) (kind : ReplicationKind) (cfg : ShardConfig) (svc : DataService)
    (hash : HashMaps) (now : UInt64) (req : SetObjectRequest Ev) (sh : Shard Ev) (hs : WellFormed c sh.node.app)
    {sh' : Shard Ev} (hok : svc.set c kind cfg hash now req sh = (.ok (), sh'))
    {object : ObjData Ev} (hobj : req.object = some object) {key : Str} {v : ValData} (hmem : (key, v) ∈ object.entries)
    {id : Str} (hid : svc.buildIdentityFromString (req.objectId.getD Str.empty) = .ok id)
    {objectId : Option Str} (hsame : svc.buildIdentityFromString (objectId.getD Str.empty) = .ok id) :
    (∃ response, (svc.getValue c kind ⟨objectId, some key⟩ sh').1 = .ok response ∧ response.value = some v) ↔
      (v.type = 0 ∨ v.type = 1) ∧
      ∃ norm, normalizeEntryKey key svc.maxStringIdLen = .ok norm ∧
        ((norm, .ofValData v) ∈ object.putEntries hash now sh.node.faults ∨
          norm ∉ (object.putEntries hash now sh.node.faults).map Prod.fst ∧
            getEntry c sh.node.app id norm = .ok (some (.ofValData v))) := by
  obtain ⟨id, rfl⟩ := DataService.exists_objectId hid
  obtain ⟨henabled, hupsert⟩ := DataService.set_ok hobj hid hok
  obtain ⟨hs', _, hmap⟩ := returned_upsertObject hs (ofObjData_ne_nil now hmem) hupsert
  have hput : entryMap c sh'.node.app id =
      (entryMap c sh.node.app id).insertMany (object.putEntries hash now sh.node.faults) := hmap
  have hnd : ((object.putEntries hash now sh.node.faults).map Prod.fst).Nodup :=
    nodup_take (hash.input (.ofObjData now object)).kv.nodupKeys _
  cases hnorm : normalizeEntryKey key svc.maxStringIdLen with
  | error e =>
    have hfails : ∃ e', (svc.getValue c kind ⟨objectId, some key⟩ sh').1 = .error e' := getValue_of_not_normalizes hnorm
    obtain ⟨e', hfails⟩ := hfails
    simp [hfails]
  | ok norm =>
    have hanswer : ∃ version, (svc.getValue c kind ⟨objectId, some key⟩ sh').1 = .ok ⟨_, version, _, _⟩ :=
      run_getValue hs' hsame (henabled (ne_nil_of_mem hmem)) hnorm
    obtain ⟨version, hanswer⟩ := hanswer
    simp only [hanswer, Except.ok.injEq, exists_eq_left', Option.map_eq_some_iff, hput, intoVal_eq_iff,
      getEntry_eq_entryMap hs]
    rw [← get_after_set hnd]
    constructor
    · rintro ⟨value, hget, htype, rfl⟩
      exact ⟨htype, hget⟩
    · rintro ⟨htype, hget⟩
      exact ⟨_, hget, htype, rfl⟩

end

/-! ## A key in capitals -/

namespace CapitalKey

open Recreated (config)

def service : DataService := ⟨160, true⟩
def objectId : Str := ⟨[111], Str.valid_o, Str.short_o⟩
def value : ValData := ⟨[1, 2], 0, short_12⟩
def request (key : Str) : SetObjectRequest Unit := ⟨some objectId, some ⟨[(key, value)], none, by simp⟩⟩
def empty : Shard Unit := Shard.afterAll Postcard.codec .none config []
def stored (key : Str) : Shard Unit := (service.set Postcard.codec .none config .sorted 0 (request key) empty).2
def capital : Str := ⟨[75], Str.valid_K, Str.short_K⟩

/-- The object with the entry `K` is accepted, and `get_value` of `K` answers that there is no value. -/
theorem capital_key_unread :
    (service.set Postcard.codec .none config .sorted 0 (request capital) empty).1 = .ok () ∧
      ∃ response, (service.getValue Postcard.codec .none ⟨some objectId, some capital⟩ (stored capital)).1 =
        .ok response ∧ response.value = none :=
  ⟨rfl, _, rfl, rfl⟩

theorem identity_objectId :
    service.buildIdentityFromString ((some objectId).getD Str.empty) = .ok Recreated.id.str := rfl

theorem small_key_read :
    ∃ response, (service.getValue Postcard.codec .none ⟨some objectId, some Recreated.key⟩ (stored Recreated.key)).1 =
      .ok response ∧ response.value = some value :=
  (set_getValue_iff Postcard.codec .none config service .sorted 0 (request Recreated.key) empty
    (afterAll_sound Postcard.codec .none config []).1 rfl rfl mem_cons_self identity_objectId identity_objectId).2
    ⟨.inl rfl, Recreated.key, rfl, .inl (mem_putEntries.2 ⟨value, mem_cons_self, rfl⟩)⟩

end CapitalKey

end Odgm
