import OaasIot.Lib.OrdMap
import OaasIot.Odgm.StorageKey
import OaasIot.Odgm.Metadata

/-!
# Shard data and stores

A `GranularStore` holds granular records only, each under a key of a normalized id and with a value its reader decodes.
`postcard` and `prost` are not part of the repository: a `Codec` reads back what it wrote. The shard never looks inside
an event configuration, so its type `Ev` is a parameter too.
-/

namespace Odgm

open OrdMap

/-! ## Values and codecs -/

inductive ValType
  | byte
  | crdtMap
  deriving DecidableEq, Repr

structure ObjectVal where
  data : Bytes
  type : ValType
  len_lt : data.length < 2 ^ 62
  deriving DecidableEq

theorem short_1 : [(1 : UInt8)].length < 2 ^ 62 := by decide
theorem short_2 : [(2 : UInt8)].length < 2 ^ 62 := by decide
theorem short_12 : [(1 : UInt8), 2].length < 2 ^ 62 := by decide

structure Codec (Ev : Type) where
  encodeVal : ObjectVal → Bytes
  decodeVal : Bytes → Option ObjectVal
  decodeVal_encodeVal : ∀ v, decodeVal (encodeVal v) = some v
  encodeEvent : Ev → Bytes
  decodeEvent : Bytes → Option Ev
  decodeEvent_encodeEvent : ∀ e, decodeEvent (encodeEvent e) = some e

namespace Postcard

def variantIndex : ValType → UInt8
  | .byte => 0
  | .crdtMap => 1

def encode (v : ObjectVal) : Bytes :=
  encodeVarint v.data.length ++ v.data ++ [variantIndex v.type]

def decodeBody (len : Nat) (rest : Bytes) : Option ObjectVal :=
  if h : (rest.take len).length < 2 ^ 62 then
    match (rest.drop len).head? with
    | some 0 => some ⟨rest.take len, .byte, h⟩
    | some 1 => some ⟨rest.take len, .crdtMap, h⟩
    | _ => none
  else none

def decode (input : Bytes) : Option ObjectVal :=
  (decodeVarint input).bind fun x => decodeBody x.1 (input.drop x.2)

theorem decode_encode (v : ObjectVal) : decode (encode v) = some v := by
  obtain ⟨data, type, hlen⟩ := v
  have hdec := decodeVarint_encodeVarint (n := data.length) (by omega) (data ++ [variantIndex type])
  have hbody : decodeBody data.length (data ++ [variantIndex type]) = some ⟨data, type, hlen⟩ := by
    cases type <;> simp [decodeBody, variantIndex] <;> omega
  rw [decode, encode, List.append_assoc, hdec, Option.bind_some, List.drop_left' rfl, hbody]

end Postcard

/-- The codec of entry values, with the event configuration whose triggers are all empty: a
message `prost` writes as no bytes at all. -/
def Postcard.codec : Codec Unit where
  encodeVal := Postcard.encode
  decodeVal := Postcard.decode
  decodeVal_encodeVal := Postcard.decode_encode
  encodeEvent _ := []
  decodeEvent _ := some ()
  decodeEvent_encodeEvent _ := rfl

/-! ## Errors -/

inductive StorageError
  | serialization (msg : String)
  | transaction (msg : String)
  | backend (msg : String)
  | invalidOperation (msg : String)
  deriving DecidableEq, Repr

inductive ReplicationError
  | storageError (e : StorageError)
  | networkError (msg : String)
  | consensusError (msg : String)
  | unsupportedOperation (msg : String)
  deriving DecidableEq, Repr

inductive ShardError
  | storageError (e : StorageError)
  | replicationError (e : ReplicationError)
  | configurationError (msg : String)
  | invalidMetadata
  | deserializationError
  | versionMismatch (expected actual : UInt64)
  deriving DecidableEq, Repr

/-- An error, a panic, or a loop that never ends. -/
inductive Fault
  | err (e : ShardError)
  | panic (p : Panic)
  | diverge
  deriving DecidableEq, Repr

abbrev Result (α : Type) := Except Fault α

def liftPanic {α : Type} : Except Panic α → Result α
  | .ok a => .ok a
  | .error p => .error (.panic p)

@[simp] theorem liftPanic_ok {α : Type} (a : α) : liftPanic (.ok a) = .ok a := rfl

/-! ## Stores -/

abbrev Store := OrdMap Bytes Bytes

def Store.scanRangePaginated (s : Store) (start stop : Bytes) (limit : Nat) :
    Except Panic (List (Bytes × Bytes) × Option Bytes) :=
  if stop < start then .error .rangeStart else .ok (s.page start stop limit)

def RecordOk {Ev : Type} (c : Codec Ev) : GranularRecord → Bytes → Prop
  | .metadata, v => (ObjectMetadata.fromBytes v).isSome
  | .eventConfig, v => (c.decodeEvent v).isSome
  | .entry _, v => (c.decodeVal v).isSome

def WellFormed {Ev : Type} (c : Codec Ev) (s : Store) : Prop :=
  ∀ k v, s.get k = some v → ∃ (id : ObjectId) (r : GranularRecord), k = recordKey id r ∧ RecordOk c r v

structure GranularStore {Ev : Type} (c : Codec Ev) where
  raw : Store
  wf : WellFormed c raw

section
variable {Ev : Type} {c : Codec Ev} {s : Store}

theorem WellFormed.of_recordKey (h : WellFormed c s) (id : ObjectId) (r : GranularRecord) {v : Bytes}
    (hv : s.get (recordKey id r) = some v) : RecordOk c r v := by
  obtain ⟨id', r', hk, hok⟩ := h _ _ hv
  obtain ⟨_, rfl⟩ := recordKey_inj hk
  exact hok

theorem wellFormed_empty : WellFormed c empty := fun k v h => by simp at h

theorem WellFormed.insert (h : WellFormed c s) {id : ObjectId} {r : GranularRecord} {v : Bytes}
    (hv : RecordOk c r v) : WellFormed c (s.insert (recordKey id r) v) := by
  intro k w hw
  rw [get_insert] at hw
  split at hw
  · rename_i hk
    cases hw
    exact ⟨id, r, hk.symm, hv⟩
  · exact h k w hw

theorem WellFormed.erase (h : WellFormed c s) (k : Bytes) : WellFormed c (s.erase k) := by
  intro k' w hw
  rw [get_erase] at hw
  split at hw
  · cases hw
  · exact h k' w hw

theorem WellFormed.eraseRange (h : WellFormed c s) (a b : Bytes) : WellFormed c (s.eraseRange a b) := by
  intro k' w hw
  rw [get_eraseRange] at hw
  split at hw
  · cases hw
  · exact h k' w hw

theorem RecordOk.encodeVal (v : ObjectVal) (key : Str) : RecordOk c (.entry key) (c.encodeVal v) := by
  simp [RecordOk, c.decodeVal_encodeVal]

theorem RecordOk.encodeEvent (ev : Ev) : RecordOk c .eventConfig (c.encodeEvent ev) := by
  simp [RecordOk, c.decodeEvent_encodeEvent]

theorem RecordOk.toBytes {m : ObjectMetadata} (h : m.Encodable) : RecordOk c .metadata m.toBytes := by
  simp [RecordOk, ObjectMetadata.fromBytes_toBytes h]

namespace GranularStore

def empty (c : Codec Ev) : GranularStore c := ⟨OrdMap.empty, wellFormed_empty⟩

def putEntry (st : GranularStore c) (id : ObjectId) (key : Str) (v : ObjectVal) : GranularStore c :=
  ⟨st.raw.insert (buildEntryKey id key) (c.encodeVal v),
    st.wf.insert (r := .entry key) (RecordOk.encodeVal v key)⟩

def putVersion (st : GranularStore c) (id : ObjectId) (version : UInt64) (tombstone : Bool) : GranularStore c :=
  ⟨st.raw.insert (buildMetadataKey id) (ObjectMetadata.toBytes ⟨version, tombstone, []⟩),
    st.wf.insert (r := .metadata) (RecordOk.toBytes (by simp [ObjectMetadata.Encodable]))⟩

end GranularStore

end

end Odgm
