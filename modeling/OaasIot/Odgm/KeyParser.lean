import OaasIot.Lib.BigEndian
import OaasIot.Lib.Checked
import OaasIot.Odgm.StorageKey

/-!
# The key parser on arbitrary bytes (`storage_key.rs:56-103`, `granular_key.rs:182-193`)

`parseGranularKey` (StorageKey) reads a key by its structure. Here the parser is embedded a second time, index by
index, with every sum and every slice of the source able to trap, and connected with the first.
-/

namespace Odgm

open List

structure RawKey where
  bytes : Bytes
  len_lt : bytes.length < 2 ^ 64

inductive StringObjectRecord
  | metadata
  | eventConfig
  | stringEntry (key : Str)
  deriving DecidableEq

def StringObjectRecord.granular : StringObjectRecord → GranularRecord
  | .metadata => .metadata
  | .eventConfig => .eventConfig
  | .stringEntry key => .entry key

def stringObjectKey (id : Str) (r : StringObjectRecord) : Bytes := recordKey id r.granular

namespace Checked

open Machine

def decodeVarintLoop (checks : Bool) : Nat → Nat → Nat → Bytes → Except Trap (Option (Nat × Nat))
  | _, _, _, [] => .ok none
  | shift, value, i, b :: input => do
    let chunk ← shl checks (b &&& 0x7F).toNat shift
    let value := value ||| chunk
    if b &&& 0x80 = 0 then
      let consumed ← add checks i 1
      pure (some (value, consumed))
    else
      let shift ← add checks shift 7
      if 63 < shift then pure none else decodeVarintLoop checks shift value (i + 1) input

def decodeVarint (checks : Bool) (input : Bytes) : Except Trap (Option (Nat × Nat)) :=
  decodeVarintLoop checks 0 0 0 input

def parseStringEntry (checks : Bool) (raw : RawKey) (id : Str) (term : Nat) :
    Except Trap (Option (Str × StringObjectRecord)) := do
  let varint ← add checks term 2
  let input ← slice raw.bytes varint raw.bytes.length
  match ← decodeVarint checks input with
  | none => pure none
  | some (len, consumed) =>
    let start ← add checks varint consumed
    let stop ← add checks start len
    if raw.bytes.length < stop then pure none
    else
      let keySlice ← slice raw.bytes start stop
      pure ((Str.fromUtf8 keySlice).map fun key => (id, .stringEntry key))

def parseStringObjectKey (checks : Bool) (raw : RawKey) : Except Trap (Option (Str × StringObjectRecord)) :=
  match raw.bytes.idxOf? 0x00 with
  | none => .ok none
  | some term => do
    let next ← add checks term 1
    if raw.bytes.length ≤ next then pure none
    else
      let recordType ← readAt raw.bytes next
      let objectIdBytes ← slice raw.bytes 0 term
      match Str.fromUtf8 objectIdBytes with
      | none => pure none
      | some objectId =>
        if recordType = 0x00 then pure (some (objectId, .metadata))
        else if recordType = 0x01 then pure (some (objectId, .eventConfig))
        else if recordType = 0x11 then parseStringEntry checks raw objectId term
        else pure none

def parseGranularKey (checks : Bool) (raw : RawKey) : Except Trap (Option (Str × GranularRecord)) :=
  (parseStringObjectKey checks raw).map (Option.map fun x => (x.1, x.2.granular))

end Checked

/-! ## The two embeddings agree -/

namespace Checked

open Machine

theorem decodeVarintLoop_eq (checks : Bool) (input : Bytes) : ∀ {shift : Nat} (value : Nat) {i : Nat},
    shift ≤ 63 → i ≤ shift →
      decodeVarintLoop checks shift value i input = .ok (Odgm.decodeVarintLoop shift value i input) := by
  induction input with
  | nil => intros; rfl
  | cons b input ih =>
    intro shift value i hs hi
    simp only [decodeVarintLoop, Odgm.decodeVarintLoop, shl_of_lt (show shift < 64 by omega),
      add_of_lt (show i + 1 < 2 ^ 64 by omega), add_of_lt (show shift + 7 < 2 ^ 64 by omega), bind, Except.bind]
    split
    · rfl
    · split
      · rfl
      · exact ih _ (by omega) (by omega)

theorem decodeVarint_eq (checks : Bool) (input : Bytes) :
    decodeVarint checks input = .ok (Odgm.decodeVarint input) :=
  decodeVarintLoop_eq checks input 0 (by omega) (le_refl 0)

end Checked

theorem splitNul_eq_none {raw : Bytes} : splitNul raw = none ↔ 0x00 ∉ raw := by
  induction raw with
  | nil => simp [splitNul]
  | cons b l ih =>
    by_cases hb : b = 0x00
    · simp [splitNul, hb]
    · simp [splitNul, hb, Ne.symm hb, ih]

theorem splitNul_eq_some {raw idBytes tail : Bytes} (h : splitNul raw = some (idBytes, tail)) :
    raw = idBytes ++ 0x00 :: tail ∧ 0x00 ∉ idBytes := by
  induction raw generalizing idBytes with
  | nil => cases h
  | cons b l ih =>
    by_cases hb : b = 0x00
    · rw [splitNul, if_pos hb] at h
      cases h
      exact ⟨by rw [hb]; rfl, by simp⟩
    · rw [splitNul, if_neg hb, Option.map_eq_some_iff] at h
      obtain ⟨⟨a, t⟩, hl, heq⟩ := h
      cases heq
      obtain ⟨hraw, hnot⟩ := ih hl
      exact ⟨by rw [hraw]; rfl, by simp [hnot, Ne.symm hb]⟩

theorem idxOf?_append {a : Bytes} (tail : Bytes) (h : 0x00 ∉ a) : (a ++ 0x00 :: tail).idxOf? 0x00 = some a.length := by
  induction a with
  | nil => simp [idxOf?_cons]
  | cons b a ih =>
    simp only [mem_cons, not_or] at h
    simp [idxOf?_cons, ih h.2, Ne.symm h.1]

theorem decodeVarintLoop_spec : ∀ (input : Bytes) {shift value i len consumed : Nat},
    decodeVarintLoop shift value i input = some (len, consumed) →
      (value < 2 ^ 64 → len < 2 ^ 64) ∧
        ∃ (groups : Bytes) (last : UInt8) (rest : Bytes), input = groups ++ last :: rest ∧
          (∀ b ∈ groups, 128 ≤ b.toNat) ∧ last.toNat < 128 ∧ consumed = i + groups.length + 1
  | [], _, _, _, _, _, h => by cases h
  | b :: input, shift, value, i, len, consumed, h => by
    simp only [decodeVarintLoop] at h
    have hor : value < 2 ^ 64 → value ||| ((b &&& 0x7F).toNat <<< shift) % 2 ^ 64 < 2 ^ 64 :=
      fun hv => Nat.or_lt_two_pow hv (Nat.mod_lt _ (by omega))
    split at h
    · rename_i hb
      cases h
      exact ⟨hor, [], b, input, rfl, by simp, (and_80_eq_zero b).1 hb, rfl⟩
    · rename_i hb
      split at h
      · cases h
      · obtain ⟨hword, groups, last, rest, rfl, hgroups, hlast, rfl⟩ := decodeVarintLoop_spec input h
        have hcont : 128 ≤ b.toNat := Nat.not_lt.1 fun hlt => hb ((and_80_eq_zero b).2 hlt)
        refine ⟨fun hv => hword (hor hv), b :: groups, last, rest, rfl, ?_, hlast, ?_⟩
        · intro x hx
          rcases mem_cons.1 hx with rfl | hx
          · exact hcont
          · exact hgroups x hx
        · simp only [length_cons]
          omega

def overflowTrap (checks : Bool) : Panic → Trap := fun _ => if checks then .overflow else .sliceOrder

namespace Checked

open Machine

theorem parseStringEntry_eq (checks : Bool) {raw : RawKey} {a input : Bytes}
    (hraw : raw.bytes = a ++ 0x00 :: 0x11 :: input) (id : Str) :
    (parseStringEntry checks raw id a.length).map (Option.map fun x => (x.1, x.2.granular)) =
      (parseEntryRecord raw.bytes id a.length input).mapError (overflowTrap checks) := by
  have hlen : raw.bytes.length = a.length + 2 + input.length := by
    rw [hraw]
    simp
    omega
  have hword := raw.len_lt
  have hinput : slice raw.bytes (a.length + 2) raw.bytes.length = .ok input := by
    rw [slice_of_le (by omega) (le_refl _), take_length, hraw, ← drop_drop, drop_left]
    rfl
  rw [parseStringEntry, parseEntryRecord]
  simp only [add_of_lt (show a.length + 2 < 2 ^ 64 by omega), hinput, decodeVarint_eq, bind, Except.bind]
  cases hdec : Odgm.decodeVarint input with
  | none => rfl
  | some field =>
    obtain ⟨len, consumed⟩ := field
    obtain ⟨hfield, groups, last, rest, hgroups, _, _, hconsumed⟩ := decodeVarintLoop_spec input hdec
    have hfield := hfield (by omega)
    have hgroups := congrArg length hgroups
    simp only [length_append, length_cons] at hgroups
    simp only [add_of_lt (show a.length + 2 + consumed < 2 ^ 64 by omega)]
    by_cases hover : 2 ^ 64 ≤ a.length + 2 + consumed + len
    · rw [if_pos hover]
      cases checks with
      | true => rw [add_checked hover]; rfl
      | false =>
        -- The wrapped end passes the comparison with the length and lies below the start.
        have hend : a.length + 2 + consumed + len - 2 ^ 64 < a.length + 2 + consumed := by omega
        rw [add_wraps (by omega) hfield hover]
        simp only
        rw [if_neg (by omega), slice_of_gt hend]
        rfl
    · rw [if_neg hover, add_of_lt (by omega)]
      simp only
      split
      · rfl
      · rw [slice_of_le (by omega) (by omega), drop_take]
        simp only [Nat.add_sub_cancel_left]
        cases Str.fromUtf8 ((raw.bytes.drop (a.length + 2 + consumed)).take len) <;> rfl

/-- **One parser**: the index by index embedding is the structural one, and traps where that panics. -/
theorem parseGranularKey_eq (checks : Bool) (raw : RawKey) :
    parseGranularKey checks raw = (Odgm.parseGranularKey raw.bytes).mapError (overflowTrap checks) := by
  rw [parseGranularKey, parseStringObjectKey, Odgm.parseGranularKey]
  cases hsplit : splitNul raw.bytes with
  | none =>
    rw [idxOf?_eq_none_iff.2 (splitNul_eq_none.1 hsplit)]
    rfl
  | some parts =>
    obtain ⟨a, tail⟩ := parts
    obtain ⟨hraw, hnul⟩ := splitNul_eq_some hsplit
    have hword := raw.len_lt
    have hlen : raw.bytes.length = a.length + 1 + tail.length := by
      rw [hraw]
      simp
      omega
    have hidx : raw.bytes.idxOf? 0x00 = some a.length := by rw [hraw, idxOf?_append tail hnul]
    rw [hidx]
    simp only [add_of_lt (show a.length + 1 < 2 ^ 64 by omega), bind, Except.bind]
    cases tail with
    | nil => rw [if_pos (by simp at hlen; omega)]; rfl
    | cons recordType input =>
      have htype : readAt raw.bytes (a.length + 1) = .ok recordType := by
        rw [hraw]
        simp [readAt]
      have hid : slice raw.bytes 0 a.length = .ok a := by rw [hraw, slice_left]
      rw [if_neg (by simp at hlen; omega)]
      simp only [htype, hid]
      cases Str.fromUtf8 a with
      | none => rfl
      | some id =>
        simp only
        split
        · rfl
        · split
          · rfl
          · split
            · rename_i h11
              rw [h11] at hraw
              exact parseStringEntry_eq checks hraw id
            · rfl

end Checked

theorem StringObjectRecord.granular_inj {r r' : StringObjectRecord} : r.granular = r'.granular ↔ r = r' := by
  cases r <;> cases r' <;> simp [granular]

theorem StringObjectRecord.exists_granular (r : GranularRecord) : ∃ r' : StringObjectRecord, r'.granular = r := by
  cases r with
  | metadata => exact ⟨.metadata, rfl⟩
  | eventConfig => exact ⟨.eventConfig, rfl⟩
  | entry key => exact ⟨.stringEntry key, rfl⟩

theorem parseStringObjectKey_eq_some {checks : Bool} {raw : RawKey} {id : Str} {r : StringObjectRecord} :
    Checked.parseStringObjectKey checks raw = .ok (some (id, r)) ↔
      parseGranularKey raw.bytes = .ok (some (id, r.granular)) := by
  have hgranular : Checked.parseGranularKey checks raw = .ok (some (id, r.granular)) ↔
      Checked.parseStringObjectKey checks raw = .ok (some (id, r)) := by
    rw [Checked.parseGranularKey]
    cases Checked.parseStringObjectKey checks raw with
    | error e => simp [Except.map]
    | ok answer => simp [Except.map, StringObjectRecord.granular_inj]
  rw [← hgranular, Checked.parseGranularKey_eq]
  cases parseGranularKey raw.bytes with
  | error e | ok answer => simp [Except.mapError]

theorem returns_iff {checks : Bool} {raw : RawKey} :
    (∃ answer, Checked.parseStringObjectKey checks raw = .ok answer) ↔
      ∃ answer, Checked.parseGranularKey checks raw = .ok answer := by
  rw [Checked.parseGranularKey]
  cases Checked.parseStringObjectKey checks raw with
  | error e | ok answer => simp [Except.map]

/-! ## Built keys -/

theorem length_recordKey_lt (id : Str) (r : GranularRecord) : (recordKey id r).length < 2 ^ 64 := by
  have hid := id.len_lt
  cases r with
  | metadata => simp only [recordKey, buildMetadataKey, length_append, length_cons, length_nil]; omega
  | eventConfig => simp only [recordKey, eventConfigKey, length_append, length_cons, length_nil]; omega
  | entry key =>
    have hkey := key.len_lt
    have hvar := length_encodeVarint_le (n := key.bytes.length) (by omega)
    simp only [recordKey, buildEntryKey, length_append, length_cons, length_nil]
    omega

def RawKey.record (id : Str) (r : GranularRecord) : RawKey := ⟨recordKey id r, length_recordKey_lt id r⟩

theorem parsers_record (checks : Bool) (id : ObjectId) (r : StringObjectRecord) :
    Checked.parseStringObjectKey checks (.record id r.granular) = .ok (some (id, r)) ∧
      Checked.parseGranularKey checks (.record id r.granular) = .ok (some (id, r.granular)) := by
  have hparse := parseGranularKey_recordKey id r.granular
  refine ⟨parseStringObjectKey_eq_some.2 hparse, ?_⟩
  rw [Checked.parseGranularKey_eq]
  simp only [RawKey.record, hparse]
  rfl

/-- **Key codec**: both parsers return what a key was built for, so no two keys share their bytes. -/
theorem key_codec_round_trip :
    (∀ (checks : Bool) (id : ObjectId) (key : Str),
      (Checked.parseStringObjectKey checks (.record id .metadata) = .ok (some (id, .metadata)) ∧
        Checked.parseGranularKey checks (.record id .metadata) = .ok (some (id, .metadata))) ∧
      (Checked.parseStringObjectKey checks (.record id .eventConfig) = .ok (some (id, .eventConfig)) ∧
        Checked.parseGranularKey checks (.record id .eventConfig) = .ok (some (id, .eventConfig))) ∧
      Checked.parseStringObjectKey checks (.record id (.entry key)) = .ok (some (id, .stringEntry key)) ∧
        Checked.parseGranularKey checks (.record id (.entry key)) = .ok (some (id, .entry key))) ∧
    (∀ id id' : ObjectId, buildMetadataKey id = buildMetadataKey id' → id = id') ∧
    (∀ id id' : ObjectId, eventConfigKey id = eventConfigKey id' → id = id') ∧
    (∀ (id id' : ObjectId) (key key' : Str), buildEntryKey id key = buildEntryKey id' key' → id = id' ∧ key = key') ∧
    ∀ (id id' : ObjectId) (key : Str), buildMetadataKey id ≠ eventConfigKey id' ∧
      buildMetadataKey id ≠ buildEntryKey id' key ∧ eventConfigKey id ≠ buildEntryKey id' key := by
  refine ⟨fun checks id key => ?_, fun id id' h => metaKey_inj.1 h, fun id id' h => ?_, fun id id' key key' h => ?_,
    fun id id' key => ?_⟩
  · exact ⟨parsers_record checks id .metadata, parsers_record checks id .eventConfig,
      parsers_record checks id (.stringEntry key)⟩
  · have hkeys : recordKey id .eventConfig = recordKey id' .eventConfig := h
    exact (recordKey_inj hkeys).1
  · have hkeys : recordKey id (.entry key) = recordKey id' (.entry key') := h
    obtain ⟨hid, hkey⟩ := recordKey_inj hkeys
    exact ⟨hid, GranularRecord.entry.inj hkey⟩
  · exact ⟨(eventConfigKey_ne_metaKey id id').symm, (entryKey_ne_metaKey id id' key).symm,
      recordKey_ne id id' (show GranularRecord.eventConfig ≠ .entry key from nofun)⟩

/-! ## Arbitrary keys -/

def ReadsAs (tail : Bytes) : GranularRecord → Prop
  | .metadata => ∃ rest, tail = 0x00 :: rest
  | .eventConfig => ∃ rest, tail = 0x01 :: rest
  | .entry key => ∃ input len consumed, tail = 0x11 :: input ∧ decodeVarint input = some (len, consumed) ∧
      consumed + len ≤ input.length ∧ (input.drop consumed).take len = key.bytes

def LengthOverflows (raw : Bytes) : Prop :=
  ∃ (id : ObjectId) (input : Bytes) (len consumed : Nat), raw = id.str.bytes ++ 0x00 :: 0x11 :: input ∧
    decodeVarint input = some (len, consumed) ∧ 2 ^ 64 ≤ id.str.bytes.length + 2 + consumed + len

variable {r : GranularRecord} {raw : Bytes} {input : Bytes}

theorem exists_id_of_parsed (h : parseGranularKey raw ≠ .ok none) :
    ∃ (id : ObjectId) (recordType : UInt8) (input : Bytes), raw = id.str.bytes ++ 0x00 :: recordType :: input := by
  rw [parseGranularKey] at h
  split at h
  · exact absurd rfl h
  · exact absurd rfl h
  · rename_i a recordType input hsplit
    obtain ⟨hraw, hnul⟩ := splitNul_eq_some hsplit
    split at h
    · exact absurd rfl h
    · rename_i id hid
      have hbytes := Str.bytes_of_fromUtf8 hid
      exact ⟨⟨id, by rw [hbytes]; exact hnul⟩, recordType, input, by rw [hbytes]; exact hraw⟩

theorem exists_tail_of_parsed {id : Str} (h : parseGranularKey raw = .ok (some (id, r))) :
    ∃ (id' : ObjectId) (tail : Bytes), id'.str = id ∧ raw = id.bytes ++ 0x00 :: tail ∧ ReadsAs tail r := by
  obtain ⟨id', recordType, input, rfl⟩ := exists_id_of_parsed (by rw [h]; simp)
  rw [parseGranularKey_append] at h
  split at h
  · rename_i h00
    cases h
    exact ⟨id', _, rfl, rfl, input, by rw [h00]⟩
  · split at h
    · rename_i h01
      cases h
      exact ⟨id', _, rfl, rfl, input, by rw [h01]⟩
    · split at h
      · rename_i h11
        rw [h11, parseEntryRecord_append] at h
        split at h
        · cases h
        · rename_i len consumed hdec
          split at h
          · cases h
          · split at h
            · cases h
            · rename_i hlen
              simp only [Except.ok.injEq, Option.map_eq_some_iff, Prod.mk.injEq] at h
              obtain ⟨key, hkey, hid, rfl⟩ := h
              refine ⟨id', _, hid, by rw [← hid], input, len, consumed, by rw [h11], hdec, by omega, ?_⟩
              exact (Str.bytes_of_fromUtf8 hkey).symm
      · cases h

theorem parseGranularKey_eq_some (hword : raw.length < 2 ^ 64) {id : Str} : parseGranularKey raw = .ok (some (id, r)) ↔
      ∃ (id' : ObjectId) (tail : Bytes), id'.str = id ∧ raw = id.bytes ++ 0x00 :: tail ∧ ReadsAs tail r := by
  constructor
  · exact exists_tail_of_parsed
  · rintro ⟨id', tail, rfl, rfl, hreads⟩
    cases r with
    | metadata =>
      obtain ⟨rest, rfl⟩ := hreads
      rw [parseGranularKey_append, if_pos rfl]
    | eventConfig =>
      obtain ⟨rest, rfl⟩ := hreads
      rw [parseGranularKey_append, if_neg (by decide), if_pos rfl]
    | entry key =>
      obtain ⟨input, len, consumed, rfl, hdec, hlen, hkey⟩ := hreads
      simp only [length_append, length_cons] at hword
      rw [parseGranularKey_append, if_neg (by decide), if_neg (by decide), if_pos rfl, parseEntryRecord_append, hdec]
      simp only
      rw [if_neg (by omega), if_neg (by omega), hkey, Str.fromUtf8_bytes]
      rfl

theorem parseGranularKey_eq_error {e : Panic} :
    parseGranularKey raw = .error e ↔ e = .keyOverflow ∧ LengthOverflows raw := by
  constructor
  · intro h
    obtain ⟨id, recordType, input, rfl⟩ := exists_id_of_parsed (by rw [h]; simp)
    rw [parseGranularKey_append] at h
    split at h
    · cases h
    · split at h
      · cases h
      · split at h
        · rename_i h11
          rw [h11, parseEntryRecord_append] at h
          split at h
          · cases h
          · rename_i len consumed hdec
            split at h
            · rename_i hover
              cases h
              exact ⟨rfl, id, input, len, consumed, by rw [h11], hdec, hover⟩
            · split at h <;> cases h
        · cases h
  · rintro ⟨rfl, id, input, len, consumed, rfl, hdec, hover⟩
    rw [parseGranularKey_append, if_neg (by decide), if_neg (by decide), if_pos rfl, parseEntryRecord_append, hdec]
    simp only
    rw [if_pos hover]

/-- **When the parsers return**: unless the position and the length of an entry's key add up past the machine
word. -/
theorem parsers_return_iff (checks : Bool) (raw : RawKey) :
    ((∃ answer, Checked.parseStringObjectKey checks raw = .ok answer) ∧
      ∃ answer, Checked.parseGranularKey checks raw = .ok answer) ↔ ¬ LengthOverflows raw.bytes := by
  rw [returns_iff, and_self, Checked.parseGranularKey_eq]
  cases hp : parseGranularKey raw.bytes with
  | error e => simp [Except.mapError, (parseGranularKey_eq_error.1 hp).2]
  | ok answer =>
    have hno : ¬ LengthOverflows raw.bytes := by
      intro hover
      rw [parseGranularKey_eq_error.2 ⟨rfl, hover⟩] at hp
      cases hp
    simp [Except.mapError, hno]

/-- `00 11` and a length of `2 ^ 64 - 1`: a cursor a client may send. -/
def overlongCursor : RawKey := ⟨[0x00, 0x11, 0xFF, 0xFF, 0xFF, 0xFF, 0xFF, 0xFF, 0xFF, 0xFF, 0xFF, 0x01], by decide⟩

theorem parsers_trap :
    Checked.parseStringObjectKey true overlongCursor = .error .overflow ∧
      Checked.parseStringObjectKey false overlongCursor = .error .sliceOrder ∧
      Checked.parseGranularKey true overlongCursor = .error .overflow ∧
      Checked.parseGranularKey false overlongCursor = .error .sliceOrder := by
  decide +kernel
/-! ## Exactness -/

/-- A length field as `encode_varint` writes it: no more bytes than a length takes, and no empty group on top. -/
def Shortest (field : Bytes) : Prop := field.length ≤ 9 ∧ (field.length = 1 ∨ field.getLast? ≠ some 0x00)

theorem groupsValue_pos {last : UInt8} (hlast : last.toNat < 128) (h0 : last ≠ 0) :
    ∀ groups : Bytes, 0 < groupsValue (groups ++ [last])
  | [] => by
    have hne : last.toNat ≠ 0 := fun h => h0 (UInt8.toNat_inj.1 h)
    simp only [nil_append, groupsValue]
    omega
  | b :: groups => by
    have ih := groupsValue_pos hlast h0 groups
    simp only [cons_append, groupsValue]
    omega

theorem encodeVarintLoop_groups {last : UInt8} (hlast : last.toNat < 128) : ∀ (groups : Bytes) {f : Nat},
    (∀ b ∈ groups, 128 ≤ b.toNat) → (groups ≠ [] → last ≠ 0) → groups.length ≤ f →
      encodeVarintLoop f (groupsValue (groups ++ [last])) = groups ++ [last]
  | [], f, _, _, _ => by
    have hval : groupsValue ([] ++ [last]) = last.toNat := by simp [groupsValue, Nat.mod_eq_of_lt hlast]
    have hbyte : UInt8.ofNat last.toNat = last := UInt8.ofNat_toNat
    rw [hval]
    cases f with
    | zero => simp [encodeVarintLoop, hbyte]
    | succ f => simp [encodeVarintLoop, hbyte, Nat.not_le.2 hlast]
  | b :: groups, 0, _, _, hf => by simp at hf
  | b :: groups, f + 1, hg, htop, hf => by
    have hb := hg b (by simp)
    have hlt := b.toNat_lt
    have hlast0 : last ≠ 0 := htop (by simp)
    have ih := encodeVarintLoop_groups hlast groups (fun x hx => hg x (by simp [hx])) (fun _ => hlast0)
      (show groups.length ≤ f by simpa using hf)
    have hpos := groupsValue_pos hlast hlast0 groups
    have hdiv : (b.toNat % 128 + 128 * groupsValue (groups ++ [last])) >>> 7 = groupsValue (groups ++ [last]) := by
      rw [Nat.shiftRight_eq_div_pow]
      omega
    rw [cons_append, groupsValue, encodeVarintLoop, if_pos (by omega), hdiv, ih]
    congr 1
    rw [← UInt8.toNat_inj, toNat_continuation]
    omega

theorem encodeVarint_of_shortest {len consumed : Nat}
    (hdec : decodeVarint input = some (len, consumed)) (hs : Shortest (input.take consumed)) :
    encodeVarint len = input.take consumed := by
  obtain ⟨_, groups, last, rest, rfl, hgroups, hlast, rfl⟩ := decodeVarintLoop_spec input hdec
  have htake : (groups ++ last :: rest).take (0 + groups.length + 1) = groups ++ [last] := by
    rw [show groups ++ last :: rest = (groups ++ [last]) ++ rest by simp, take_left' (by simp)]
  rw [htake] at hs ⊢
  obtain ⟨hnine, htop⟩ := hs
  simp only [length_append, length_singleton] at hnine htop
  have hval := decodeVarintLoop_groups rest hlast groups 0 0 0 hgroups (by omega) (by omega)
  rw [decodeVarint, hval] at hdec
  cases hdec
  rw [encodeVarint]
  simp only [Nat.zero_add, pow_zero, Nat.mul_one]
  refine encodeVarintLoop_groups hlast groups hgroups (fun hne h0 => ?_) (by omega)
  rcases htop with hone | hne0
  · exact hne (length_eq_zero_iff.1 (by omega))
  · exact hne0 (by rw [h0, getLast?_concat])

theorem shortest_encodeVarint {n : Nat} (h : n < 2 ^ 63) : Shortest (encodeVarint n) := by
  obtain ⟨groups, last, heq, hlen, _, _, htop, _⟩ := encodeVarint_spec h
  rw [heq, Shortest, length_append, getLast?_concat]
  refine ⟨Nat.succ_le_succ hlen, ?_⟩
  rcases Nat.eq_zero_or_pos n with rfl | hpos
  · exact .inl (by rw [← length_append, ← heq]; rfl)
  · exact .inr fun h0 => htop hpos (Option.some.inj h0)

structure EndsAsBuilt (recordType : UInt8) (input : Bytes) : Prop where
  fixed : recordType = 0x00 ∨ recordType = 0x01 → input = []
  entry : recordType = 0x11 → ∀ (len consumed : Nat) (key : Str), decodeVarint input = some (len, consumed) →
    consumed + len ≤ input.length → (input.drop consumed).take len = key.bytes →
      consumed + len = input.length ∧ Shortest (input.take consumed)

/-- The key of an object under the numeric ids of before (`transaction.rs:96`). -/
def legacyKey (key : UInt64) : RawKey := ⟨beBytes 8 key.toNat, by simp⟩

theorem recordTail_of_readsAs {recordType : UInt8} (hends : EndsAsBuilt recordType input) (hreads : ReadsAs (recordType :: input) r) : recordTail r = recordType :: input := by
  cases r with
  | metadata =>
    obtain ⟨rest, heq⟩ := hreads
    cases heq
    rw [hends.fixed (Or.inl rfl), recordTail]
  | eventConfig =>
    obtain ⟨rest, heq⟩ := hreads
    cases heq
    rw [hends.fixed (Or.inr rfl), recordTail]
  | entry key =>
    obtain ⟨input, len, consumed, heq, hdec, hlen, hkey⟩ := hreads
    cases heq
    obtain ⟨hend, hshort⟩ := hends.entry rfl len consumed key hdec hlen hkey
    have hdrop : input.drop consumed = key.bytes := by
      rw [← hkey, take_of_length_le (by simp; omega)]
    have hkeylen : key.bytes.length = len := by
      rw [← hdrop, length_drop]
      omega
    rw [recordTail, hkeylen, encodeVarint_of_shortest hdec hshort, ← hdrop, take_append_drop]

theorem endsAsBuilt_recordTail {recordType : UInt8}
    (h : ∀ r, ReadsAs (recordType :: input) r → recordTail r = recordType :: input) : EndsAsBuilt recordType input where
  fixed := by
    rintro (rfl | rfl)
    · have htail := h .metadata ⟨input, rfl⟩
      rw [recordTail] at htail
      exact (cons.inj htail).2.symm
    · have htail := h .eventConfig ⟨input, rfl⟩
      rw [recordTail] at htail
      exact (cons.inj htail).2.symm
  entry := by
    rintro rfl len consumed key hdec hlen hkey
    have htail := h (.entry key) ⟨input, len, consumed, rfl, hdec, hlen, hkey⟩
    rw [recordTail] at htail
    obtain rfl := (cons.inj htail).2
    have hbound := key.len_lt
    -- The parser reads back what the builder wrote, so the two lengths are the same.
    rw [decodeVarint_encodeVarint (by omega)] at hdec
    cases hdec
    rw [length_append, take_left]
    exact ⟨rfl, shortest_encodeVarint (by omega)⟩

/-- **When the parser is exact**: nothing follows the record and its length is not padded. A legacy key is read as a
record if its bytes after the first zero start like one. -/
theorem parser_exact_iff (checks : Bool) (raw : RawKey) (key : UInt64) :
    ((∀ id r, Checked.parseStringObjectKey checks raw = .ok (some (id, r)) → raw.bytes = stringObjectKey id r) ↔
      ∀ (id : ObjectId) (recordType : UInt8) (input : Bytes),
        raw.bytes = id.str.bytes ++ 0x00 :: recordType :: input → EndsAsBuilt recordType input) ∧
    ((∀ id r, Checked.parseStringObjectKey checks (legacyKey key) ≠ .ok (some (id, r))) ↔
      ∀ (id : ObjectId) (tail : Bytes), (legacyKey key).bytes = id.str.bytes ++ 0x00 :: tail → ∀ r, ¬ ReadsAs tail r) := by
  refine ⟨⟨fun h id recordType input hraw => ?_, fun h id r hparse => ?_⟩, fun h id tail hraw r hreads => ?_,
    fun h id r hparse => ?_⟩
  · refine endsAsBuilt_recordTail fun r hreads => ?_
    obtain ⟨r', rfl⟩ := StringObjectRecord.exists_granular r
    have hread := (parseGranularKey_eq_some raw.len_lt).2 ⟨id, _, rfl, hraw, hreads⟩
    have hbuilt := h id r' (parseStringObjectKey_eq_some.2 hread)
    rw [hraw, stringObjectKey, recordKey_eq, append_cancel_left_eq] at hbuilt
    exact (cons.inj hbuilt).2.symm
  · obtain ⟨id', tail, rfl, hraw, hreads⟩ :=
      (parseGranularKey_eq_some raw.len_lt).1 (parseStringObjectKey_eq_some.1 hparse)
    rw [stringObjectKey, recordKey_eq, hraw]
    cases tail with
    | nil => cases r <;> simp [ReadsAs, StringObjectRecord.granular] at hreads
    | cons recordType input => rw [recordTail_of_readsAs (h id' recordType input hraw) hreads]
  · obtain ⟨r', rfl⟩ := StringObjectRecord.exists_granular r
    refine h id r' (parseStringObjectKey_eq_some.2 ?_)
    exact (parseGranularKey_eq_some (legacyKey key).len_lt).2 ⟨id, tail, rfl, hraw, hreads⟩
  · obtain ⟨id', tail, rfl, hraw, hreads⟩ :=
      (parseGranularKey_eq_some (legacyKey key).len_lt).1 (parseStringObjectKey_eq_some.1 hparse)
    exact h id' tail hraw _ hreads

def paddedKey : RawKey := ⟨[0x61, 0x00, 0x11, 0x81, 0x00, 0x6B], by decide⟩

theorem parser_reads_unbuilt_keys :
    Checked.parseStringObjectKey false (legacyKey 0) = .ok (some (Str.empty, .metadata)) ∧
      (legacyKey 0).bytes ≠ stringObjectKey Str.empty .metadata ∧
      Checked.parseStringObjectKey false paddedKey =
        .ok (some (⟨[0x61], rfl, by decide⟩, .stringEntry ⟨[0x6B], rfl, by decide⟩)) ∧
      paddedKey.bytes ≠ stringObjectKey ⟨[0x61], rfl, by decide⟩ (.stringEntry ⟨[0x6B], rfl, by decide⟩) := by
  decide +kernel

end Odgm
