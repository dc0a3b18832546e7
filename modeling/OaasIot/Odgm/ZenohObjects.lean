import OaasIot.Lib.BigEndian
import OaasIot.Odgm.KeyExpr

/-!
# Objects over Zenoh: put, delete, get (`helpers.rs`, `setter.rs`, `getter.rs`)

A put stores the object under its storage id, for a number the decimal one. A delete of a number goes to the eight bytes
of the number ("Legacy blob delete for numeric IDs"), which is no key of the object. The handlers only log what goes
wrong.
-/

namespace Odgm

open List

def storageKeyForIdentity : ObjectIdentity → Bytes
  | .numeric oid => beBytes 8 oid.toNat
  | .str sid => sid.bytes

section
variable {Ev : Type} (c : Codec Ev) (kind : ReplicationKind) (cfg : ShardConfig) (hash : HashMaps)
  (maxStringIdLen : Nat)

namespace SetterHandler

def handlePut (now : UInt64) (expr : Bytes) (payload : Option (ObjData Ev)) (sh : Shard Ev) : Shard Ev :=
  match extractIdentityFromExpr expr maxStringIdLen, payload with
  | some identity, some object =>
    (Shard.run c kind (ObjectApi.upsertObject c cfg identity.storageId (hash.input (.ofObjData now object))) sh).2
  | _, _ => sh

def handleDelete (expr : Bytes) (sh : Shard Ev) : Shard Ev :=
  match extractIdentityFromExpr expr maxStringIdLen with
  | none => sh
  | some (.numeric oid) =>
    { sh with node := (replicateWrite kind (.delete (storageKeyForIdentity (.numeric oid))) sh.node).2 }
  | some (.str sid) => (Shard.run c kind (Shard.internalDeleteObject c cfg sid) sh).2

end SetterHandler

inductive GetReply (Ev : Type)
  | object (id : Str) (object : ObjectData Ev)
  | value (response : ValueResponse)
  | error (message : Bytes)
  | getFailed (fault : Fault)
  | entryUndecodable

namespace GetterHandler

def replyObject (id : Str) (sh : Shard Ev) : GetReply Ev :=
  match (Shard.run c kind (ObjectApi.getObject id) sh).1 with
  | .ok (some object) => .object id object
  | .ok none => .error (text "object not found")
  | .error fault => .getFailed fault

def replyVersion (value : ObjectVal) (key : Str) : Option Bytes → GetReply Ev
  | none => .value ⟨some value.intoVal, some 0, some key, none⟩
  | some bytes =>
    match ObjectMetadata.fromBytes bytes with
    | some m => .value ⟨some value.intoVal, some m.objectVersion, some key, none⟩
    | none => .error (text "failed to deserialize metadata")

def replyEntry (id key : Str) (n : Node) : GetReply Ev :=
  match (BatchSetHandler.replicateReadValue kind (buildEntryKey id key) n).1 with
  | .error message => .error message
  | .ok none => .error (text "entry not found")
  | .ok (some bytes) =>
    match c.decodeVal bytes with
    | none => .entryUndecodable
    | some value =>
      match (BatchSetHandler.replicateReadValue kind (buildMetadataKey id) n).1 with
      | .error message => .error message
      | .ok raw => replyVersion value key raw

def handle (query : Query) (sh : Shard Ev) : GetReply Ev :=
  match getterAddress query maxStringIdLen with
  | .error message => .error message
  | .ok (.entry id key) => replyEntry c kind id key sh.node
  | .ok (.object id) => replyObject c kind id sh

end GetterHandler

end

/-! ## Identities and keys -/

theorem nulFree_ofU64 (oid : UInt64) : 0x00 ∉ (Str.ofU64 oid).bytes := by
  intro hmem
  exact absurd (decimal_isDigit hmem) (by decide)

theorem parseSegment_nulFree {segment : Bytes} {maxLen : Nat} {identity : ObjectIdentity}
    (h : parseObjectIdentitySegment segment maxLen = some identity) : 0x00 ∉ identity.storageId.bytes := by
  unfold parseObjectIdentitySegment at h
  split at h
  · cases h
    exact nulFree_ofU64 _
  · split at h
    · cases h
    · split at h
      · rename_i hnorm
        cases h
        exact normalizeObjectId_nulFree hnorm
      · cases h

theorem extractIdentity_objectId {expr : Bytes} {maxLen : Nat} {identity : ObjectIdentity}
    (h : extractIdentityFromExpr expr maxLen = some identity) : ∃ id : ObjectId, id.str = identity.storageId := by
  have hparse : ∃ segment, parseObjectIdentitySegment segment maxLen = some identity := by
    unfold extractIdentityFromExpr at h
    obtain ⟨pos, _, h⟩ := Option.bind_eq_some_iff.1 h
    obtain ⟨candidate, _, h⟩ := Option.bind_eq_some_iff.1 h
    split at h
    · obtain ⟨next, _, h⟩ := Option.bind_eq_some_iff.1 h
      exact ⟨next, h⟩
    · exact ⟨candidate, h⟩
  obtain ⟨segment, hparse⟩ := hparse
  exact ⟨⟨_, parseSegment_nulFree hparse⟩, rfl⟩

theorem head_entryKey_ofU64 (oid : UInt64) (key : Str) :
    ∃ b tail, buildEntryKey (Str.ofU64 oid) key = b :: tail ∧ isDigitByte b = true := by
  obtain ⟨b, digits, hdigits⟩ := exists_cons_of_ne_nil (decimal_ne_nil oid.toNat)
  refine ⟨b, digits ++ [0x00, 0x11] ++ encodeVarint key.bytes.length ++ key.bytes, ?_, ?_⟩
  · have hbytes : (Str.ofU64 oid).bytes = b :: digits := hdigits
    rw [buildEntryKey, hbytes]
    rfl
  · exact decimal_isDigit (hdigits ▸ mem_cons_self)

theorem entryKey_ne_legacyKey (oid : UInt64) (key : Str) :
    buildEntryKey (Str.ofU64 oid) key ≠ storageKeyForIdentity (.numeric oid) := by
  intro heq
  have hlen : (buildEntryKey (Str.ofU64 oid) key).length = 8 := by
    rw [heq]
    exact length_beBytes 8 oid.toNat
  have hdigits : (decimal oid.toNat).length ≤ 6 := by
    have hbytes : (Str.ofU64 oid).bytes.length = (decimal oid.toNat).length := rfl
    simp only [buildEntryKey, length_append, length_cons, length_nil, hbytes] at hlen
    omega
  have hlt : oid.toNat < 10 ^ 6 := lt_of_length_decimal (by decide) hdigits
  obtain ⟨b, tail, hcons, hdigit⟩ := head_entryKey_ofU64 oid key
  have hzero : oid.toNat / 256 ^ 7 = 0 := Nat.div_eq_of_lt (hlt.trans (by decide))
  rw [hcons, storageKeyForIdentity, beBytes, hzero] at heq
  obtain ⟨rfl, _⟩ := cons.inj heq
  exact absurd hdigit (by decide)

section
variable {Ev : Type} {c : Codec Ev} {kind : ReplicationKind} {cfg : ShardConfig} {hash : HashMaps} {maxLen : Nat}
  {now : UInt64} {expr : Bytes} {sh : Shard Ev} {identity : ObjectIdentity} {object : ObjData Ev} {id : ObjectId}

/-! ## The store behind each sample -/

abbrev ObjData.asInput (hash : HashMaps) (now : UInt64) (object : ObjData Ev) : ObjectInput Ev :=
  hash.input (.ofObjData now object)

theorem asInput_ne_nil (hne : object.entries ≠ []) : (object.asInput hash now).entry.entries.toList ≠ [] := by
  obtain ⟨e, he⟩ := exists_mem_of_ne_nil _ hne
  exact ofObjData_ne_nil now he

theorem handlePut_spec (hsh : sh.Sound c) (hid : extractIdentityFromExpr expr maxLen = some identity)
    (hstr : id.str = identity.storageId) (hne : object.entries ≠ []) {metadata : Option ObjectMetadata}
    (hm : getMetadata sh.node.app id = .ok metadata) :
    (SetterHandler.handlePut c kind cfg hash maxLen now expr (some object) sh).node.app =
        objectWritten c id metadata (object.asInput hash now) sh.node.app ∧
      (SetterHandler.handlePut c kind cfg hash maxLen now expr (some object) sh).Sound c := by
  have hruns : Runs c kind (Shard.internalSetObject c cfg id (object.asInput hash now)) _ _ _ :=
    runs_internalSetObject hm _
  obtain ⟨sh', hrun, happ, hf⟩ := hruns sh rfl hsh.healthy
  have hput : SetterHandler.handlePut c kind cfg hash maxLen now expr (some object) sh = sh' := by
    simp only [SetterHandler.handlePut, hid]
    rw [← hstr, ObjectApi.upsertObject, if_neg (asInput_ne_nil hne), hrun]
  rw [hput]
  exact ⟨happ, happ ▸ hsh.wf.objectWritten (encodable_getMetadata hm) _, hf⟩

theorem handleDelete_numeric {oid : UInt64} (hid : extractIdentityFromExpr expr maxLen = some (.numeric oid)) :
    (SetterHandler.handleDelete c kind cfg maxLen expr sh).node.app =
      sh.node.app.erase (storageKeyForIdentity (.numeric oid)) := by
  obtain ⟨response, n', hrun, happ, _⟩ := replicateWrite_delete kind (storageKeyForIdentity (.numeric oid)) (n := sh.node)
  simp only [SetterHandler.handleDelete, hid, hrun]
  exact happ

theorem handleDelete_str (kind : ReplicationKind) (cfg : ShardConfig) (hsh : sh.Sound c)
    (hid : extractIdentityFromExpr expr maxLen = some (.str id.str)) {m : ObjectMetadata}
    (hm : getMetadata sh.node.app id = .ok (some m)) :
    (m.tombstone = false ∧ deleteOutcome c cfg id sh.node.app = .ok () →
        (SetterHandler.handleDelete c kind cfg maxLen expr sh).node.app = buried id m sh.node.app) ∧
      (¬ (m.tombstone = false ∧ deleteOutcome c cfg id sh.node.app = .ok ()) →
        (SetterHandler.handleDelete c kind cfg maxLen expr sh).node.app = sh.node.app) := by
  simp only [SetterHandler.handleDelete, hid]
  cases htomb : m.tombstone with
  | true =>
    have hearly : ∀ m' ∈ some m, m'.tombstone = true := by
      rintro _ ⟨⟩
      exact htomb
    have hruns : Runs c kind (Shard.deleteObject c cfg id) _ _ _ := runs_deleteObject_early hm hearly
    obtain ⟨sh', hrun, happ, _⟩ := hruns sh rfl hsh.healthy
    rw [Shard.internalDeleteObject, hrun]
    simpa using happ
  | false =>
    have hruns : Runs c kind (Shard.deleteObject c cfg id) _ _ _ := runs_deleteObject_live hm htomb
    obtain ⟨sh', hrun, happ, _⟩ := hruns sh rfl hsh.healthy
    rw [Shard.internalDeleteObject, hrun]
    cases hout : deleteOutcome c cfg id sh.node.app with
    | ok u | error e => simpa [hout] using happ

/-! ## Put, then delete -/

def objectKey (path segment : Bytes) : Bytes := path ++ slash :: (objectsWord ++ slash :: segment)

theorem getterAddress_objectKey {path segment : Bytes} (hseg : slash ∉ segment)
    (hid : extractIdentityFromExpr (objectKey path segment) maxLen = some identity) (oid oidStr : Option Bytes) :
    getterAddress ⟨objectKey path segment, oid, oidStr⟩ maxLen = .ok (.object identity.storageId) := by
  have hsplit : splitPathSegments (objectKey path segment) =
      segments slash path ++ objectsWord :: segments slash segment := by
    rw [splitPathSegments, objectKey, segments_append, segments_append,
      segments_word slash (by decide +kernel : objectsWord ≠ []) (by decide +kernel)]
    rfl
  have hentry : parseEntryRequest (objectKey path segment) maxLen = none := by
    rcases segments_cases slash hseg with hnil | hone
    · rw [hnil] at hsplit
      exact parseEntryRequest_of_split hsplit not_mem_nil
    · rw [hone] at hsplit
      by_cases hobj : segment = objectsWord
      · rw [hobj, ← singleton_append, ← append_assoc] at hsplit
        rw [hobj]
        exact parseEntryRequest_of_split hsplit not_mem_nil
      · exact parseEntryRequest_of_split hsplit (by simpa using Ne.symm hobj)
  simp only [getterAddress, hentry, parseIdentityFromQuery, hid]

def NothingLeft (c : Codec Ev) (kind : ReplicationKind) (maxLen : Nat) (id : Str) (query : Query) (sh : Shard Ev) :
    Prop :=
  (∀ key, sh.node.app.get (buildEntryKey id key) = none) ∧
    GetterHandler.handle c kind maxLen query sh = .error (text "object not found")

theorem exists_stored_objectWritten {s : Store} (hs : WellFormed c s) {metadata : Option ObjectMetadata}
    (hm : getMetadata s id = .ok metadata) (hne : object.entries ≠ []) :
    ∃ key, (objectWritten c id metadata (object.asInput hash now) s).get (buildEntryKey id key) ≠ none := by
  obtain ⟨⟨key, v⟩, he⟩ := exists_mem_of_ne_nil _ hne
  have henc := encodable_getMetadata hm
  have hkv : (key, ObjectVal.ofValData v) ∈ (object.asInput hash now).kv.toList :=
    mem_kv_iff.2 ((ofObjData_entries_get now).2 ⟨v, he, rfl⟩)
  refine ⟨key, ?_⟩
  have hwf : WellFormed c (objectWritten c id metadata (object.asInput hash now) s) := hs.objectWritten henc _
  have hstored : Stored (objectWritten c id metadata (object.asInput hash now) s) id key := by
    rw [stored_iff_entryMap hwf, entryMap_objectWritten hs henc (kv_ne_nil (asInput_ne_nil hne)),
      OrdMap.get_insertMany_of_mem _ (object.asInput hash now).kv.nodupKeys hkv]
    exact Option.some_ne_none _
  exact hstored

theorem nothingLeft_of_buried {s : Store} (hs : WellFormed c s) {m : ObjectMetadata} (hm : m.Encodable)
    (happ : sh.node.app = buried id m s) {query : Query}
    (haddr : getterAddress query maxLen = .ok (.object id.str)) : NothingLeft c kind maxLen id query sh := by
  have hwf : WellFormed c sh.node.app := happ ▸ hs.buried hm
  have hentries : ∀ key, sh.node.app.get (buildEntryKey id key) = none := by
    rw [happ]
    exact (noRecords_buried m s id).1
  have hdead : ¬ Live sh.node.app id := happ ▸ not_live_buried hm
  refine ⟨hentries, ?_⟩
  simp only [GetterHandler.handle, haddr, GetterHandler.replyObject, run_objectApi_getObject]
  rw [reconstructObject_of_empty hwf (storedEntries_eq_nil hwf hentries) hdead (by decide)]

/-- **Put, then delete** leaves nothing if the id is no number, was not tombstoned, and its entries can be read for
the events. -/
theorem put_delete_iff (c : Codec Ev) (kind : ReplicationKind) (cfg : ShardConfig) (hash : HashMaps) (maxLen : Nat)
    (now : UInt64) (sh : Shard Ev) (hsh : sh.Sound c) {path segment : Bytes} (hseg : slash ∉ segment)
    {identity : ObjectIdentity} (hid : extractIdentityFromExpr (objectKey path segment) maxLen = some identity)
    (object : ObjData Ev) (hne : object.entries ≠ []) (oid oidStr : Option Bytes) :
    NothingLeft c kind maxLen identity.storageId ⟨objectKey path segment, oid, oidStr⟩
        (SetterHandler.handleDelete c kind cfg maxLen (objectKey path segment)
          (SetterHandler.handlePut c kind cfg hash maxLen now (objectKey path segment) (some object) sh)) ↔
      ∃ sid, identity = .str sid ∧ NotTombstoned sh.node.app sid ∧
        (cfg.v2Dispatcher = true →
          ((entryMap c sh.node.app sid).insertMany (object.asInput hash now).kv.toList).toList.length ≤
            maxPages * pageSize cfg.granularPrefetchLimit) := by
  obtain ⟨id, hstr⟩ := extractIdentity_objectId hid
  obtain ⟨metadata, hm⟩ := getMetadata_of_wellFormed hsh.wf id
  have haddr := getterAddress_objectKey hseg hid oid oidStr
  have hput : (SetterHandler.handlePut c kind cfg hash maxLen now (objectKey path segment) (some object) sh).node.app =
      _ ∧ _ := handlePut_spec hsh hid hstr hne hm
  obtain ⟨happ, hsound⟩ := hput
  generalize SetterHandler.handlePut c kind cfg hash maxLen now (objectKey path segment) (some object) sh = sh₁ at *
  have henc := encodable_getMetadata hm
  have hstored : ∃ key, (objectWritten c id metadata (object.asInput hash now) sh.node.app).get
      (buildEntryKey id key) ≠ none := exists_stored_objectWritten hsh.wf hm hne
  obtain ⟨key, hstored⟩ := hstored
  rw [← happ, hstr] at hstored
  cases identity with
  | numeric oid =>
    refine iff_of_false ?_ ?_
    · rintro ⟨hgone, _⟩
      refine hstored ?_
      have hother : buildEntryKey (ObjectIdentity.numeric oid).storageId key ≠ storageKeyForIdentity (.numeric oid) :=
        entryKey_ne_legacyKey oid key
      have hget := hgone key
      rwa [handleDelete_numeric hid, OrdMap.get_erase, if_neg hother] at hget
    · rintro ⟨sid, hsid, _⟩
      cases hsid
  | str sid =>
    obtain rfl : id.str = sid := hstr
    have hmeta : getMetadata sh₁.node.app id = .ok (some (metadata.getD .default).incrementVersion) := by
      rw [happ, objectWritten_eq (kv_ne_nil (asInput_ne_nil hne)), getMetadata_batchWritten henc]
    have hmap : entryMap c sh₁.node.app id =
        (entryMap c sh.node.app id).insertMany (object.asInput hash now).kv.toList := by
      rw [happ, entryMap_objectWritten hsh.wf henc (kv_ne_nil (asInput_ne_nil hne))]
    obtain ⟨hburied, hleft⟩ := handleDelete_str kind cfg hsound hid hmeta
    rw [deleteOutcome_iff hsound.wf, hmap, ObjectMetadata.tombstone_incrementVersion, ← notTombstoned_iff hm]
      at hburied hleft
    simp only [ObjectIdentity.str.injEq, exists_eq_left']
    constructor
    · rintro ⟨hgone, _⟩
      by_contra hcond
      exact hstored (hleft hcond ▸ hgone key)
    · intro hcond
      exact nothingLeft_of_buried hsound.wf henc.incrementVersion (hburied hcond) haddr

end

/-! ## A numeric id -/

namespace NumericId

open Recreated (config)

def key : Bytes := objectKey (text "oprc/c/0") [0x37]
def object : ObjData Unit := ⟨[(Recreated.key, ⟨[1, 2], 0, short_12⟩)], none, by simp⟩
def empty : Shard Unit := Shard.afterAll Postcard.codec .none config []

def deleted (key : Bytes) : Shard Unit :=
  SetterHandler.handleDelete Postcard.codec .none config 160 key
    (SetterHandler.handlePut Postcard.codec .none config .sorted 160 0 key (some object) empty)

theorem delete_leaves_object :
    GetterHandler.handle Postcard.codec .none 160 ⟨key, none, none⟩ (deleted key) =
        .object (Str.ofU64 7) ⟨1, OrdMap.empty.insert Recreated.key Recreated.value, none⟩ ∧
      ¬ NothingLeft Postcard.codec .none 160 (Str.ofU64 7) ⟨key, none, none⟩ (deleted key) := by
  have hget : GetterHandler.handle Postcard.codec .none 160 ⟨key, none, none⟩ (deleted key) =
      .object (Str.ofU64 7) ⟨1, OrdMap.empty.insert Recreated.key Recreated.value, none⟩ := rfl
  refine ⟨hget, ?_⟩
  rintro ⟨_, hnone⟩
  rw [hget] at hnone
  cases hnone

def stringKey : Bytes := objectKey (text "oprc/c/0") [0x6F]

theorem delete_string_id :
    NothingLeft Postcard.codec .none 160 (ObjectIdentity.str Recreated.id.str).storageId ⟨stringKey, none, none⟩
      (deleted stringKey) :=
  (put_delete_iff Postcard.codec .none config .sorted 160 0 empty (afterAll_sound Postcard.codec .none config [])
    (by decide) (show extractIdentityFromExpr stringKey 160 = some (.str Recreated.id.str) from rfl) object
    (cons_ne_nil _ _) none none).2 ⟨_, rfl, (fun m hm => by cases hm), (fun hv2 => by cases hv2)⟩

end NumericId

end Odgm
