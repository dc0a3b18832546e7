import OaasIot.Lib.Checked
import OaasIot.Lib.Utf8

/-!
# Object metadata (`granular_key.rs`)

Metadata is stored as version (8 bytes, little endian), tombstone (1), attribute count (2), then each attribute as two
length-tagged strings. `as u16` truncates a count or a length, so the round trip holds of the metadata that fits its
fields (`Encodable`), which is all the metadata `fromBytes` returns.
-/

namespace Odgm

open List

/-! ## Little-endian numbers -/

def leBytes : Nat → Nat → Bytes
  | 0, _ => []
  | w + 1, n => UInt8.ofNat n :: leBytes w (n / 256)

def leNat : Bytes → Nat
  | [] => 0
  | b :: l => b.toNat + 256 * leNat l

@[simp] theorem length_leBytes (w n : Nat) : (leBytes w n).length = w := by
  induction w generalizing n with
  | zero => rfl
  | succ w ih => simp [leBytes, ih]

theorem leNat_leBytes (w n : Nat) : leNat (leBytes w n) = n % 256 ^ w := by
  induction w generalizing n with
  | zero => simp [leBytes, leNat, Nat.mod_one]
  | succ w ih =>
    have hsplit : n % 256 ^ (w + 1) = n % 256 + 256 * (n / 256 % 256 ^ w) := by rw [pow_succ', Nat.mod_mul]
    rw [leBytes, leNat, ih, UInt8.toNat_ofNat', hsplit]

theorem leNat_lt (l : Bytes) : leNat l < 256 ^ l.length := by
  induction l with
  | nil => simp [leNat]
  | cons b l ih =>
    have := b.toNat_lt
    rw [leNat, length_cons, pow_succ']
    omega

/-! ## The record -/

structure ObjectMetadata where
  objectVersion : UInt64
  tombstone : Bool
  attributes : List (Str × Str)
  deriving DecidableEq

namespace ObjectMetadata

def default : ObjectMetadata := ⟨0, false, []⟩

def incrementVersion (m : ObjectMetadata) : ObjectMetadata :=
  { m with objectVersion := if m.objectVersion = 0xFFFFFFFFFFFFFFFF then m.objectVersion else m.objectVersion + 1 }

def markTombstone (m : ObjectMetadata) : ObjectMetadata := { m with tombstone := true }

def attributeBytes (kv : Str × Str) : Bytes :=
  leBytes 2 kv.1.bytes.length ++ kv.1.bytes ++ leBytes 2 kv.2.bytes.length ++ kv.2.bytes

def toBytes (m : ObjectMetadata) : Bytes :=
  leBytes 8 m.objectVersion.toNat ++ [if m.tombstone then 1 else 0] ++ leBytes 2 m.attributes.length ++
    m.attributes.flatMap attributeBytes

def attributesFrom : Nat → Bytes → Option (List (Str × Str))
  | 0, _ => some []
  | count + 1, bytes =>
    if bytes.length < 2 then none
    else
      let klen := leNat (bytes.take 2)
      let bytes := bytes.drop 2
      if bytes.length < klen + 2 then none
      else
        (Str.fromUtf8 (bytes.take klen)).bind fun key =>
          let bytes := bytes.drop klen
          let vlen := leNat (bytes.take 2)
          let bytes := bytes.drop 2
          if bytes.length < vlen then none
          else
            (Str.fromUtf8 (bytes.take vlen)).bind fun value =>
              (attributesFrom count (bytes.drop vlen)).map fun attributes => (key, value) :: attributes

def fromBytes (bytes : Bytes) : Option ObjectMetadata :=
  if bytes.length < 11 then none
  else
    (attributesFrom (leNat ((bytes.drop 9).take 2)) (bytes.drop 11)).map fun attributes =>
      { objectVersion := UInt64.ofNat (leNat (bytes.take 8))
        tombstone := bytes[8]?.getD 0 != 0
        attributes }

def Encodable (m : ObjectMetadata) : Prop :=
  m.attributes.length < 2 ^ 16 ∧
    ∀ kv ∈ m.attributes, kv.1.bytes.length < 2 ^ 16 ∧ kv.2.bytes.length < 2 ^ 16

theorem encodable_default : default.Encodable := by simp [Encodable, default]

variable {m : ObjectMetadata}

theorem Encodable.incrementVersion (h : m.Encodable) : m.incrementVersion.Encodable := h

theorem Encodable.markTombstone (h : m.Encodable) : m.markTombstone.Encodable := h

@[simp] theorem tombstone_incrementVersion (m : ObjectMetadata) : m.incrementVersion.tombstone = m.tombstone := rfl

/-! ## Round trip -/

theorem leNat_leBytes_two {n : Nat} (h : n < 2 ^ 16) : leNat (leBytes 2 n) = n := by
  rw [leNat_leBytes]; exact Nat.mod_eq_of_lt (by simpa using h)

theorem attributesFrom_flatMap (attributes : List (Str × Str)) (rest : Bytes)
    (h : ∀ kv ∈ attributes, kv.1.bytes.length < 2 ^ 16 ∧ kv.2.bytes.length < 2 ^ 16) :
    attributesFrom attributes.length (attributes.flatMap attributeBytes ++ rest) = some attributes := by
  induction attributes with
  | nil => rfl
  | cons kv l ih =>
    obtain ⟨hk, hv⟩ := h kv (by simp)
    have ih := ih fun x hx => h x (mem_cons_of_mem _ hx)
    generalize hr : l.flatMap attributeBytes ++ rest = r at ih
    have hb : (kv :: l).flatMap attributeBytes ++ rest =
        leBytes 2 kv.1.bytes.length ++ (kv.1.bytes ++ (leBytes 2 kv.2.bytes.length ++ (kv.2.bytes ++ r))) := by
      simp [attributeBytes, ← hr]
    rw [hb, length_cons, attributesFrom, take_left' (length_leBytes 2 _),
      drop_left' (length_leBytes 2 _), leNat_leBytes_two hk,
      if_neg (by simp only [length_append, length_leBytes]; omega),
      if_neg (by simp only [length_append, length_leBytes]; omega),
      take_left' rfl, drop_left' rfl, Str.fromUtf8_bytes, Option.bind_some]
    dsimp only
    rw [take_left' (length_leBytes 2 _), drop_left' (length_leBytes 2 _), leNat_leBytes_two hv,
      take_left' rfl, drop_left' rfl, Str.fromUtf8_bytes, Option.bind_some,
      if_neg (by simp only [length_append]; omega), ih]
    rfl

theorem fromBytes_toBytes_eq (m : ObjectMetadata) :
    fromBytes m.toBytes = (attributesFrom (m.attributes.length % 2 ^ 16) (m.attributes.flatMap attributeBytes)).map
      fun attributes => { m with attributes } := by
  obtain ⟨version, tombstone, attributes⟩ := m
  have hv : UInt64.ofNat (leNat (leBytes 8 version.toNat)) = version := by
    rw [leNat_leBytes, Nat.mod_eq_of_lt (show _ < 256 ^ 8 from version.toNat_lt), UInt64.ofNat_toNat]
  generalize hf : attributes.flatMap attributeBytes = flat
  have hb : toBytes ⟨version, tombstone, attributes⟩ =
      leBytes 8 version.toNat ++ ((if tombstone then 1 else 0) :: (leBytes 2 attributes.length ++ flat)) := by
    simp [toBytes, ← hf]
  have h8 : (leBytes 8 version.toNat).length = 8 := length_leBytes _ _
  have h2 : (leBytes 2 attributes.length).length = 2 := length_leBytes _ _
  have hget : (toBytes ⟨version, tombstone, attributes⟩)[8]? = some (if tombstone then 1 else 0) := by
    rw [hb, getElem?_append_right (by omega), h8]; rfl
  have hdrop : ∀ n, (toBytes ⟨version, tombstone, attributes⟩).drop (9 + n) =
      (leBytes 2 attributes.length ++ flat).drop n := by
    intro n
    rw [hb, show 9 + n = (leBytes 8 version.toNat).length + (n + 1) by omega, ← drop_drop,
      drop_left' rfl]
    rfl
  rw [fromBytes, if_neg (by rw [hb]; simp [h8]; omega), hget, hdrop 0, show (11 : Nat) = 9 + 2 from rfl, hdrop 2,
    drop_zero, take_left' h2, drop_left' h2, leNat_leBytes, hb, take_left' h8, hv]
  cases tombstone <;> rfl

theorem fromBytes_toBytes (h : m.Encodable) : fromBytes m.toBytes = some m := by
  have hflat := attributesFrom_flatMap m.attributes [] h.2
  rw [append_nil] at hflat
  rw [fromBytes_toBytes_eq, Nat.mod_eq_of_lt h.1, hflat]
  rfl

theorem attributesFrom_bounds : ∀ {count : Nat} {bytes : Bytes} {attributes : List (Str × Str)},
    attributesFrom count bytes = some attributes → attributes.length = count ∧
      ∀ kv ∈ attributes, kv.1.bytes.length < 2 ^ 16 ∧ kv.2.bytes.length < 2 ^ 16
  | 0, _, _, h => by cases h; simp
  | count + 1, bytes, attributes, h => by
    have hle : ∀ l : Bytes, leNat (l.take 2) < 2 ^ 16 := fun l =>
      lt_of_lt_of_le (leNat_lt _) (Nat.pow_le_pow_right (show 0 < 256 by omega) (length_take_le 2 l))
    simp only [attributesFrom, Option.bind_eq_some_iff, Option.map_eq_some_iff,
      Option.ite_none_left_eq_some] at h
    obtain ⟨_, _, key, hkey, _, value, hvalue, attrs, hattrs, rfl⟩ := h
    obtain ⟨hlen, hall⟩ := attributesFrom_bounds hattrs
    refine ⟨by simp [hlen], fun kv hkv => ?_⟩
    rcases mem_cons.1 hkv with rfl | hkv
    · rw [Str.bytes_of_fromUtf8 hkey, Str.bytes_of_fromUtf8 hvalue]
      exact ⟨lt_of_le_of_lt (length_take_le _ _) (hle _), lt_of_le_of_lt (length_take_le _ _) (hle _)⟩
    · exact hall kv hkv

theorem encodable_of_fromBytes {bytes : Bytes} (h : fromBytes bytes = some m) : m.Encodable := by
  simp only [fromBytes, Option.ite_none_left_eq_some, Option.map_eq_some_iff] at h
  obtain ⟨_, attributes, hattrs, rfl⟩ := h
  obtain ⟨hlen, hall⟩ := attributesFrom_bounds hattrs
  refine ⟨?_, hall⟩
  rw [hlen]
  exact lt_of_lt_of_le (leNat_lt _) (Nat.pow_le_pow_right (show 0 < 256 by omega) (length_take_le 2 _))

/-! ## Index by index -/

open Machine

/-- The loop of `from_bytes`; a position is one in the slice, whose length leaves room for the sums. -/
def readAttributes (bytes : Bytes) : Nat → Nat → Except Trap (Option (List (Str × Str)))
  | 0, _ => .ok (some [])
  | count + 1, pos =>
    if bytes.length < pos + 2 then .ok none
    else do
      let klen := leNat (← slice bytes pos (pos + 2))
      let pos := pos + 2
      if bytes.length < pos + klen + 2 then pure none
      else
        match Str.fromUtf8 (← slice bytes pos (pos + klen)) with
        | none => pure none
        | some key =>
          let pos := pos + klen
          let vlen := leNat (← slice bytes pos (pos + 2))
          let pos := pos + 2
          if bytes.length < pos + vlen then pure none
          else
            match Str.fromUtf8 (← slice bytes pos (pos + vlen)) with
            | none => pure none
            | some value => pure ((← readAttributes bytes count (pos + vlen)).map fun attributes => (key, value) :: attributes)

def readMetadata (bytes : Bytes) : Except Trap (Option ObjectMetadata) :=
  if bytes.length < 11 then .ok none
  else do
    let version ← slice bytes 0 8
    let tombstone ← readAt bytes 8
    let count ← slice bytes 9 11
    pure ((← readAttributes bytes (leNat count) 11).map fun attributes =>
      ⟨UInt64.ofNat (leNat version), tombstone != 0, attributes⟩)

theorem slice_add {bytes : Bytes} {pos n : Nat} (h : pos + n ≤ bytes.length) :
    slice bytes pos (pos + n) = .ok ((bytes.drop pos).take n) := by
  rw [slice_of_le (by omega) h, drop_take, Nat.add_sub_cancel_left]

theorem readAttributes_eq (bytes : Bytes) (count pos : Nat) :
    readAttributes bytes count pos = .ok (attributesFrom count (bytes.drop pos)) := by
  induction count generalizing pos with
  | zero => rfl
  | succ count ih =>
    rw [readAttributes, attributesFrom]
    by_cases hlen : bytes.length < pos + 2
    · rw [if_pos hlen, if_pos (by rw [length_drop]; omega)]
    rw [if_neg hlen, if_neg (by rw [length_drop]; omega), slice_add (by omega)]
    simp only [bind, Except.bind, pure, Except.pure, drop_drop, length_drop]
    generalize leNat ((bytes.drop pos).take 2) = klen
    by_cases hkey : bytes.length < pos + 2 + klen + 2
    · rw [if_pos hkey, if_pos (by omega)]
    rw [if_neg hkey, if_neg (by omega), slice_add (by omega)]
    dsimp only
    cases Str.fromUtf8 ((bytes.drop (pos + 2)).take klen) with
    | none => rfl
    | some key =>
      simp only [slice_add (show pos + 2 + klen + 2 ≤ bytes.length by omega), Option.bind_some]
      generalize leNat ((bytes.drop (pos + 2 + klen)).take 2) = vlen
      by_cases hvalue : bytes.length < pos + 2 + klen + 2 + vlen
      · rw [if_pos hvalue, if_pos (by omega)]
      rw [if_neg hvalue, if_neg (by omega), slice_add (by omega)]
      dsimp only
      cases Str.fromUtf8 ((bytes.drop (pos + 2 + klen + 2)).take vlen) with
      | none => rfl
      | some value => simp only [ih, Option.bind_some]

theorem readMetadata_eq (bytes : Bytes) : readMetadata bytes = .ok (fromBytes bytes) := by
  rw [readMetadata, fromBytes]
  by_cases hlen : bytes.length < 11
  · rw [if_pos hlen, if_pos hlen]
  · have hget : bytes[8]? = some bytes[8] := getElem?_eq_getElem (by omega)
    rw [if_neg hlen, if_neg hlen, slice_of_le (by omega) (by omega), slice_of_le (by omega) (by omega), readAt, hget]
    simp [bind, Except.bind, pure, Except.pure, readAttributes_eq, drop_take]

/-- **The codec** never reads out of bounds, and is a round trip for what fits its 16-bit fields. -/
theorem metadata_codec_iff (m : ObjectMetadata) :
    (readMetadata m.toBytes = .ok (some m) ∧ ∀ bytes, ∃ r, readMetadata bytes = .ok r) ↔ m.Encodable := by
  simp only [readMetadata_eq, Except.ok.injEq, exists_eq', implies_true, and_true]
  exact ⟨encodable_of_fromBytes, fromBytes_toBytes⟩

/-- The count of 65,536 attributes is written as 0. -/
theorem attributes_lost :
    readMetadata (toBytes ⟨0, false, replicate 65536 (Str.empty, Str.empty)⟩) = .ok (some ⟨0, false, []⟩) := by
  rw [readMetadata_eq, fromBytes_toBytes_eq, length_replicate]
  rfl

end ObjectMetadata

/-! ## Versions -/

def maxVersion : Nat := 2 ^ 64 - 1

theorem toNat_le_maxVersion (v : UInt64) : v.toNat ≤ maxVersion := Nat.le_pred_of_lt v.toNat_lt

theorem toNat_incrementVersion (m : ObjectMetadata) :
    m.incrementVersion.objectVersion.toNat = min (m.objectVersion.toNat + 1) maxVersion := by
  unfold ObjectMetadata.incrementVersion
  have hlt := m.objectVersion.toNat_lt
  by_cases h : m.objectVersion = 0xFFFFFFFFFFFFFFFF
  · rw [if_pos h, h]
    decide
  · have hne : m.objectVersion.toNat ≠ 2 ^ 64 - 1 := fun heq => h (UInt64.toNat_inj.1 heq)
    simp only [if_neg h, UInt64.toNat_add, UInt64.toNat_one, maxVersion]
    omega

end Odgm
