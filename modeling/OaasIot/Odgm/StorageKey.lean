import OaasIot.Lib.Utf8

/-!
# Storage keys (`storage_key.rs`, `granular_key.rs`)

Every record of an object lives under `<id> 00 <type> …`: metadata under type `00`, the event configuration under `01`,
an entry under `11`, the LEB128 length of its key and the key. A `start + len` in the parser that leaves `usize` panics
at the sum or at the slice after it, so the parser returns `Except Panic`.
-/

namespace Odgm

open List

inductive Panic
  | keyOverflow
  | rangeStart
  deriving DecidableEq, Repr

/-! ## Varints -/

def encodeVarintLoop : Nat → Nat → Bytes
  | 0, n => [UInt8.ofNat n]
  | fuel + 1, n =>
    if 0x80 ≤ n then ((UInt8.ofNat n &&& 0x7F) ||| 0x80) :: encodeVarintLoop fuel (n >>> 7)
    else [UInt8.ofNat n]

def encodeVarint (n : Nat) : Bytes := encodeVarintLoop 9 n

def decodeVarintLoop : Nat → Nat → Nat → Bytes → Option (Nat × Nat)
  | _, _, _, [] => none
  | shift, value, i, b :: input =>
    let value := value ||| ((b &&& 0x7F).toNat <<< shift) % 2 ^ 64
    if b &&& 0x80 = 0 then some (value, i + 1)
    else if 63 < shift + 7 then none
    else decodeVarintLoop (shift + 7) value (i + 1) input

def decodeVarint (input : Bytes) : Option (Nat × Nat) := decodeVarintLoop 0 0 0 input

theorem and_7F (b : UInt8) : (b &&& 0x7F).toNat = b.toNat % 128 := by
  rw [UInt8.toNat_and, show (0x7F : UInt8).toNat = 2 ^ 7 - 1 from rfl, Nat.and_two_pow_sub_one_eq_mod]

theorem and_80_eq_zero (b : UInt8) : b &&& 0x80 = 0 ↔ b.toNat < 128 := by
  rw [← UInt8.toNat_inj, UInt8.toNat_and, show (0x80 : UInt8).toNat = 2 ^ 7 from rfl, Nat.and_two_pow,
    show (0 : UInt8).toNat = 0 from rfl, Nat.testBit_eq_decide_div_mod_eq]
  have := b.toNat_lt
  by_cases h : b.toNat < 128
  · rw [show b.toNat / 2 ^ 7 = 0 by omega]; simp [h]
  · rw [show b.toNat / 2 ^ 7 = 1 by omega]; simp [h]

theorem toNat_continuation (n : Nat) : ((UInt8.ofNat n &&& 0x7F) ||| 0x80).toNat = n % 128 + 128 := by
  rw [UInt8.toNat_or, and_7F, show (0x80 : UInt8).toNat = 2 ^ 7 * 1 from rfl, Nat.or_comm,
    ← Nat.two_pow_add_eq_or_of_lt (by omega), UInt8.toNat_ofNat']
  omega

theorem or_shift_step {v s b : Nat} (hv : v < 2 ^ s) (hb : b * 2 ^ s < 2 ^ 64) :
    v ||| (b <<< s) % 2 ^ 64 = v + b * 2 ^ s := by
  rw [Nat.shiftLeft_eq, Nat.mod_eq_of_lt hb, Nat.or_comm, Nat.mul_comm, ← Nat.two_pow_add_eq_or_of_lt hv]
  omega

def groupsValue : Bytes → Nat
  | [] => 0
  | b :: l => b.toNat % 128 + 128 * groupsValue l

theorem decodeVarintLoop_groups (rest : Bytes) {last : UInt8} (hlast : last.toNat < 128) :
    ∀ (groups : Bytes) (shift value i : Nat), (∀ b ∈ groups, 128 ≤ b.toNat) → value < 2 ^ shift →
      shift + 7 * (groups.length + 1) ≤ 63 → decodeVarintLoop shift value i (groups ++ last :: rest) =
        some (value + groupsValue (groups ++ [last]) * 2 ^ shift, i + groups.length + 1)
  | [], shift, value, i, _, hv, hs => by
    have hpow : 2 ^ shift ≤ 2 ^ 56 := Nat.pow_le_pow_right (by omega) (by simp at hs; omega)
    have hmul : last.toNat * 2 ^ shift ≤ 127 * 2 ^ 56 := Nat.mul_le_mul (by omega) hpow
    simp only [nil_append, decodeVarintLoop, and_7F, if_pos ((and_80_eq_zero last).2 hlast), groupsValue]
    rw [Nat.mod_eq_of_lt hlast, or_shift_step hv (by omega)]
    simp
  | b :: groups, shift, value, i, hg, hv, hs => by
    simp only [length_cons] at hs
    have hpow : 2 ^ shift ≤ 2 ^ 49 := Nat.pow_le_pow_right (by omega) (by omega)
    have hmul : b.toNat % 128 * 2 ^ shift ≤ 127 * 2 ^ 49 := Nat.mul_le_mul (by omega) hpow
    have hnext : 2 ^ (shift + 7) = 2 ^ shift * 128 := by rw [pow_add]; rfl
    have hb : ¬ b &&& 0x80 = 0 := by
      rw [and_80_eq_zero]
      have := hg b (by simp)
      omega
    simp only [cons_append, decodeVarintLoop, and_7F, if_neg hb, if_neg (show ¬ 63 < shift + 7 by omega)]
    rw [or_shift_step hv (by omega), decodeVarintLoop_groups rest hlast groups (shift + 7) _ (i + 1)
      (fun x hx => hg x (by simp [hx])) ?_ (by omega)]
    · simp only [groupsValue, length_cons, Option.some.injEq, Prod.mk.injEq]
      refine ⟨?_, by omega⟩
      rw [hnext]
      ring
    · have : b.toNat % 128 * 2 ^ shift ≤ 127 * 2 ^ shift := Nat.mul_le_mul_right _ (by omega)
      rw [hnext]
      omega

theorem encodeVarintLoop_spec : ∀ {k f n : Nat}, k ≤ f → n < 128 ^ (k + 1) →
    ∃ (groups : Bytes) (last : UInt8), encodeVarintLoop f n = groups ++ [last] ∧ groups.length ≤ k ∧
      (∀ b ∈ groups, 128 ≤ b.toNat) ∧ last.toNat < 128 ∧ (0 < n → last ≠ 0) ∧ groupsValue (groups ++ [last]) = n
  | k, f, n, hk, hn => by
    rcases Nat.lt_or_ge n 128 with h128 | h128
    · have hone : encodeVarintLoop f n = [UInt8.ofNat n] := by
        cases f with
        | zero => rfl
        | succ f => rw [encodeVarintLoop, if_neg (by omega)]
      have hb : (UInt8.ofNat n).toNat = n := by rw [UInt8.toNat_ofNat']; omega
      refine ⟨[], .ofNat n, hone, Nat.zero_le k, by simp, by omega, fun hpos h0 => ?_, ?_⟩
      · rw [h0] at hb
        exact hpos.ne hb
      · simp [groupsValue, hb, Nat.mod_eq_of_lt h128]
    · match k, f with
      | 0, _ => simp at hn; omega
      | k + 1, f + 1 =>
        obtain ⟨groups, last, heq, hlen, hgroups, hlast, htop, hvalue⟩ := encodeVarintLoop_spec (n := n / 128)
          (Nat.le_of_succ_le_succ hk) (Nat.div_lt_of_lt_mul (by rw [← pow_succ']; exact hn))
        refine ⟨((UInt8.ofNat n &&& 0x7F) ||| 0x80) :: groups, last, ?_, Nat.succ_le_succ hlen, ?_, hlast,
          fun _ => htop (by omega), ?_⟩
        · rw [encodeVarintLoop, if_pos h128, Nat.shiftRight_eq_div_pow, heq]
          rfl
        · intro b hb
          rcases mem_cons.1 hb with rfl | hb
          · rw [toNat_continuation]
            omega
          · exact hgroups b hb
        · rw [cons_append, groupsValue, toNat_continuation, hvalue]
          omega

theorem encodeVarint_spec {n : Nat} (h : n < 2 ^ 63) :
    ∃ (groups : Bytes) (last : UInt8), encodeVarint n = groups ++ [last] ∧ groups.length ≤ 8 ∧
      (∀ b ∈ groups, 128 ≤ b.toNat) ∧ last.toNat < 128 ∧ (0 < n → last ≠ 0) ∧ groupsValue (groups ++ [last]) = n :=
  encodeVarintLoop_spec (by omega) (by omega)

theorem length_encodeVarint_le {n : Nat} (h : n < 2 ^ 63) : (encodeVarint n).length ≤ 9 := by
  obtain ⟨groups, last, heq, hlen, _⟩ := encodeVarint_spec h
  rw [heq, length_append]
  exact Nat.succ_le_succ hlen

theorem decodeVarint_encodeVarint {n : Nat} (h : n < 2 ^ 63) (rest : Bytes) :
    decodeVarint (encodeVarint n ++ rest) = some (n, (encodeVarint n).length) := by
  obtain ⟨groups, last, heq, hlen, hgroups, hlast, _, hvalue⟩ := encodeVarint_spec h
  rw [heq, decodeVarint, append_assoc, singleton_append,
    decodeVarintLoop_groups rest hlast groups 0 0 0 hgroups (by omega) (by omega), hvalue]
  simp

/-! ## Builders and parser -/

inductive GranularRecord
  | metadata
  | eventConfig
  | entry (key : Str)
  deriving DecidableEq

def buildObjectPrefix (id : Str) : Bytes := id.bytes ++ [0x00]
def buildMetadataKey (id : Str) : Bytes := id.bytes ++ [0x00, 0x00]
def eventConfigKey (id : Str) : Bytes := id.bytes ++ [0x00, 0x01]

def buildEntryKey (id key : Str) : Bytes :=
  id.bytes ++ [0x00, 0x11] ++ encodeVarint key.bytes.length ++ key.bytes

def recordKey (id : Str) : GranularRecord → Bytes
  | .metadata => buildMetadataKey id
  | .eventConfig => eventConfigKey id
  | .entry key => buildEntryKey id key

def computeObjectRangeEnd : Bytes → Bytes
  | [] => [1]
  | [b] => [if b = 0xFF then 0xFF else b + 1]
  | b :: c :: l => b :: computeObjectRangeEnd (c :: l)

def splitNul : Bytes → Option (Bytes × Bytes)
  | [] => none
  | b :: l => if b = 0x00 then some ([], l) else (splitNul l).map fun x => (b :: x.1, x.2)

def parseEntryRecord (raw : Bytes) (id : Str) (term : Nat) (input : Bytes) :
    Except Panic (Option (Str × GranularRecord)) :=
  match decodeVarint input with
  | none => .ok none
  | some (len, consumed) =>
    let start := term + 2 + consumed
    if 2 ^ 64 ≤ start + len then .error .keyOverflow
    else if raw.length < start + len then .ok none
    else .ok ((Str.fromUtf8 ((raw.drop start).take len)).map fun key => (id, .entry key))

def parseGranularKey (raw : Bytes) : Except Panic (Option (Str × GranularRecord)) :=
  match splitNul raw with
  | none => .ok none
  | some (_, []) => .ok none
  | some (idBytes, recordType :: input) =>
    match Str.fromUtf8 idBytes with
    | none => .ok none
    | some id =>
      if recordType = 0x00 then .ok (some (id, .metadata))
      else if recordType = 0x01 then .ok (some (id, .eventConfig))
      else if recordType = 0x11 then parseEntryRecord raw id idBytes.length input
      else .ok none

/-- A normalized object id: `normalize_object_id` leaves out the NUL that terminates ids in keys. -/
structure ObjectId where
  str : Str
  nulFree : 0x00 ∉ str.bytes

namespace ObjectId

theorem ext_str : ∀ {a b : ObjectId}, a.str = b.str → a = b
  | ⟨_, _⟩, ⟨_, _⟩, rfl => rfl

theorem str_inj {a b : ObjectId} : a.str = b.str ↔ a = b := ⟨ext_str, congrArg _⟩

instance : LinearOrder ObjectId := LinearOrder.lift' ObjectId.str fun _ _ h => ext_str h
instance : Coe ObjectId Str := ⟨ObjectId.str⟩

theorem nulFree_o : 0x00 ∉ (⟨[111], Str.valid_o, Str.short_o⟩ : Str).bytes := by decide

theorem lt_iff {a b : ObjectId} : a < b ↔ a.str.bytes < b.str.bytes := Iff.rfl

end ObjectId

theorem splitNul_append {a s : Bytes} (h : 0x00 ∉ a) : splitNul (a ++ 0x00 :: s) = some (a, s) := by
  induction a with
  | nil => simp [splitNul]
  | cons b a ih =>
    simp only [mem_cons, not_or] at h
    simp [splitNul, ih h.2, Ne.symm h.1]

theorem parseGranularKey_append (id : ObjectId) (recordType : UInt8) (input : Bytes) :
    parseGranularKey (id.str.bytes ++ 0x00 :: recordType :: input) =
      if recordType = 0x00 then .ok (some (id.str, .metadata))
      else if recordType = 0x01 then .ok (some (id.str, .eventConfig))
      else if recordType = 0x11 then
        parseEntryRecord (id.str.bytes ++ 0x00 :: recordType :: input) id.str id.str.bytes.length input
      else .ok none := by
  rw [parseGranularKey, splitNul_append id.nulFree]
  simp only [Str.fromUtf8_bytes]

theorem parseEntryRecord_append (id : ObjectId) (input : Bytes) :
    parseEntryRecord (id.str.bytes ++ 0x00 :: 0x11 :: input) id id.str.bytes.length input =
      match decodeVarint input with
      | none => .ok none
      | some (len, consumed) =>
        if 2 ^ 64 ≤ id.str.bytes.length + 2 + consumed + len then .error .keyOverflow
        else if input.length < consumed + len then .ok none
        else .ok ((Str.fromUtf8 ((input.drop consumed).take len)).map fun key => (id.str, .entry key)) := by
  rw [parseEntryRecord]
  cases decodeVarint input with
  | none => rfl
  | some field =>
    obtain ⟨len, consumed⟩ := field
    have hdrop : (id.str.bytes ++ 0x00 :: 0x11 :: input).drop (id.str.bytes.length + 2 + consumed) =
        input.drop consumed := by
      rw [← drop_drop, ← drop_drop, drop_left]
      rfl
    have hlen : (id.str.bytes ++ 0x00 :: 0x11 :: input).length < id.str.bytes.length + 2 + consumed + len ↔
        input.length < consumed + len := by
      simp only [length_append, length_cons]
      omega
    simp only [hdrop, hlen]

theorem parseGranularKey_recordKey (id : ObjectId) (r : GranularRecord) :
    parseGranularKey (recordKey id r) = .ok (some (id, r)) := by
  cases r with
  | metadata => exact (parseGranularKey_append id 0x00 []).trans (if_pos rfl)
  | eventConfig => exact (parseGranularKey_append id 0x01 []).trans ((if_neg (by decide)).trans (if_pos rfl))
  | entry key =>
    have hid := id.str.len_lt
    have hkey := key.len_lt
    have hvar := length_encodeVarint_le (n := key.bytes.length) (by omega)
    have hraw : recordKey id (.entry key) =
        id.str.bytes ++ 0x00 :: 0x11 :: (encodeVarint key.bytes.length ++ key.bytes) := by
      simp [recordKey, buildEntryKey]
    rw [hraw, parseGranularKey_append, if_neg (by decide), if_neg (by decide), if_pos rfl, parseEntryRecord_append,
      decodeVarint_encodeVarint (by omega)]
    simp only
    rw [if_neg (by omega), if_neg (by simp), drop_left, take_length, Str.fromUtf8_bytes]
    rfl

variable {id id' : ObjectId} {r r' : GranularRecord}

theorem recordKey_inj (h : recordKey id r = recordKey id' r') : id = id' ∧ r = r' := by
  have h1 := parseGranularKey_recordKey id r
  rw [h, parseGranularKey_recordKey] at h1
  simp only [Except.ok.injEq, Option.some.injEq, Prod.mk.injEq] at h1
  exact ⟨(ObjectId.ext_str h1.1).symm, h1.2.symm⟩

theorem recordKey_ne (id id' : ObjectId) (h : r ≠ r') : recordKey id r ≠ recordKey id' r' :=
  fun heq => h (recordKey_inj heq).2

theorem entryKey_ne_metaKey (id id' : ObjectId) (key : Str) : buildEntryKey id' key ≠ buildMetadataKey id :=
  recordKey_ne id' id (show GranularRecord.entry key ≠ .metadata from nofun)

theorem eventConfigKey_ne_metaKey (id id' : ObjectId) : eventConfigKey id' ≠ buildMetadataKey id :=
  recordKey_ne id' id (show GranularRecord.eventConfig ≠ .metadata from nofun)

theorem eventConfigKey_ne_entryKey (id : ObjectId) (key : Str) : eventConfigKey id ≠ buildEntryKey id key :=
  recordKey_ne id id (show GranularRecord.eventConfig ≠ .entry key from nofun)

theorem metaKey_ne_entryKey (id : ObjectId) (key : Str) : buildMetadataKey id ≠ buildEntryKey id key :=
  (entryKey_ne_metaKey id id key).symm

theorem metaKey_inj : buildMetadataKey id' = buildMetadataKey id ↔ id' = id := by
  refine ⟨fun heq => ?_, fun heq => by rw [heq]⟩
  have hkeys : recordKey id' .metadata = recordKey id .metadata := heq
  exact (recordKey_inj hkeys).1

/-! ## The order of the keys -/

def recordTail : GranularRecord → Bytes
  | .metadata => [0x00]
  | .eventConfig => [0x01]
  | .entry key => 0x11 :: (encodeVarint key.bytes.length ++ key.bytes)

theorem recordKey_eq (id : Str) (r : GranularRecord) : recordKey id r = id.bytes ++ 0x00 :: recordTail r := by
  cases r <;> simp [recordKey, recordTail, buildMetadataKey, eventConfigKey, buildEntryKey]

theorem zero_le_uint8 (b : UInt8) : 0 ≤ b := by rw [UInt8.le_iff_toNat_le]; exact Nat.zero_le _

theorem zero_covBy_one : (0 : UInt8) ⋖ 1 := by
  refine ⟨by decide, fun c h0 h1 => ?_⟩
  rw [UInt8.lt_iff_toNat_lt] at h0 h1
  simp only [UInt8.toNat_zero, UInt8.toNat_one] at h0 h1
  omega

theorem recordKey_lt_iff : recordKey id r < recordKey id' r' ↔ id < id' ∨ id = id' ∧ recordTail r < recordTail r' := by
  rw [recordKey_eq, recordKey_eq, Lex.terminated_lt_iff zero_le_uint8 id.nulFree id'.nulFree,
    ← ObjectId.lt_iff, Str.bytes_inj, ObjectId.str_inj]

theorem metaKey_lt_iff : buildMetadataKey id < buildMetadataKey id' ↔ id < id' := by
  show recordKey id .metadata < recordKey id' .metadata ↔ id < id'
  rw [recordKey_lt_iff]
  simp

theorem computeObjectRangeEnd_append_zero (l : Bytes) : computeObjectRangeEnd (l ++ [0x00]) = l ++ [0x01] := by
  induction l with
  | nil => rfl
  | cons b l ih =>
    cases l with
    | nil => rfl
    | cons c l => simpa [computeObjectRangeEnd] using ih

theorem objectRangeEnd_eq (id : Str) : computeObjectRangeEnd (buildObjectPrefix id) = id.bytes ++ [0x01] :=
  computeObjectRangeEnd_append_zero id.bytes

theorem objectPrefix_le_recordKey (id : Str) (r : GranularRecord) : buildObjectPrefix id ≤ recordKey id r := by
  rw [recordKey_eq, buildObjectPrefix]
  exact Lex.le_of_extends ⟨recordTail r, by simp⟩

theorem recordKey_lt_rangeEnd (id : Str) (r : GranularRecord) :
    recordKey id r < computeObjectRangeEnd (buildObjectPrefix id) := by
  rw [objectRangeEnd_eq, recordKey_eq]
  exact Lex.lt_of_extends zero_covBy_one.lt ⟨recordTail r, by simp⟩

theorem mem_objectRange_iff :
    (buildObjectPrefix id ≤ recordKey id' r ∧ recordKey id' r < computeObjectRangeEnd (buildObjectPrefix id)) ↔
      id' = id := by
  constructor
  · rintro ⟨hle, hlt⟩
    rw [objectRangeEnd_eq] at hlt
    obtain ⟨t, ht⟩ := Lex.prefix_of_between zero_covBy_one hle hlt
    rw [recordKey_eq, append_assoc, singleton_append] at ht
    exact ObjectId.ext_str (Str.ext_bytes (Lex.terminated_inj id.nulFree id'.nulFree ht).1.symm)
  · rintro rfl
    exact ⟨objectPrefix_le_recordKey _ _, recordKey_lt_rangeEnd _ _⟩

theorem entryKey_empty_eq (id : Str) : buildEntryKey id Str.empty = id.bytes ++ 0x00 :: [0x11, 0x00] := by
  have hvarint : encodeVarint Str.empty.bytes.length = [0x00] := rfl
  have hempty : Str.empty.bytes = [] := rfl
  rw [buildEntryKey, hvarint, hempty, append_nil, append_assoc]
  rfl

theorem encodeVarint_ne_nil (n : Nat) : encodeVarint n ≠ [] := by
  rw [encodeVarint, encodeVarintLoop]
  split <;> exact cons_ne_nil _ _

theorem entryKey_empty_le_recordKey_iff (id : Str) (r : GranularRecord) :
    buildEntryKey id Str.empty ≤ recordKey id r ↔ ∃ key, r = .entry key := by
  rw [entryKey_empty_eq, recordKey_eq, Lex.append_le_append_iff]
  simp only [Lex.cons_le_cons_iff', lt_irrefl, true_and, false_or]
  cases r with
  | metadata | eventConfig =>
    refine iff_of_false (by decide) ?_
    rintro ⟨key, h⟩
    cases h
  | entry key =>
    simp only [recordTail, Lex.cons_le_cons_iff', lt_irrefl, true_and, false_or, GranularRecord.entry.injEq,
      exists_eq', iff_true]
    cases h : encodeVarint key.bytes.length with
    | nil => exact absurd h (encodeVarint_ne_nil _)
    | cons b l =>
      rw [cons_append, Lex.cons_le_cons_iff']
      rcases (zero_le_uint8 b).lt_or_eq with hb | hb
      · exact Or.inl hb
      · exact Or.inr ⟨hb, by rw [← not_lt]; exact not_lt_nil _⟩

end Odgm
