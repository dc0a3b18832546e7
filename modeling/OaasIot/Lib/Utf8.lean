import OaasIot.Lib.Bytes

/-!
# UTF-8 strings as bytes

The strings of the modelled program, as their UTF-8 bytes: `Str` carries the proof that the
bytes are well formed and that they fit in memory, so that `fromUtf8` is the only way in
from raw bytes. Strings are compared byte by byte, which is also how the program compares them.
-/

/-- What must follow the lead byte `b` of a character: one inclusive range for each byte. -/
def utf8Tail (b : UInt8) : Option (List (UInt8 × UInt8)) :=
  if b ≤ 0x7F then some []
  else if 0xC2 ≤ b ∧ b ≤ 0xDF then some [(0x80, 0xBF)]
  else if b = 0xE0 then some [(0xA0, 0xBF), (0x80, 0xBF)]
  else if b = 0xED then some [(0x80, 0x9F), (0x80, 0xBF)]
  else if 0xE1 ≤ b ∧ b ≤ 0xEF then some [(0x80, 0xBF), (0x80, 0xBF)]
  else if b = 0xF0 then some [(0x90, 0xBF), (0x80, 0xBF), (0x80, 0xBF)]
  else if 0xF1 ≤ b ∧ b ≤ 0xF3 then some [(0x80, 0xBF), (0x80, 0xBF), (0x80, 0xBF)]
  else if b = 0xF4 then some [(0x80, 0x8F), (0x80, 0xBF), (0x80, 0xBF)]
  else none

/-- Well-formed UTF-8, where `owed` are the ranges the current character still owes. -/
def utf8From : List (UInt8 × UInt8) → Bytes → Bool
  | [], [] => true
  | _ :: _, [] => false
  | [], b :: l =>
    match utf8Tail b with
    | some owed => utf8From owed l
    | none => false
  | r :: owed, b :: l => (r.1 ≤ b && b ≤ r.2) && utf8From owed l

def utf8Valid (l : Bytes) : Bool := utf8From [] l

/-- A string: well-formed UTF-8, and short enough that a key made of two strings is one allocation. -/
structure Str where
  bytes : Bytes
  valid : utf8Valid bytes = true
  len_lt : bytes.length < 2 ^ 62

namespace Str

theorem ext_bytes : ∀ {a b : Str}, a.bytes = b.bytes → a = b
  | ⟨_, _, _⟩, ⟨_, _, _⟩, rfl => rfl

theorem bytes_inj {a b : Str} : a.bytes = b.bytes ↔ a = b := ⟨ext_bytes, congrArg _⟩

instance : LinearOrder Str := LinearOrder.lift' Str.bytes fun _ _ h => ext_bytes h

def empty : Str := ⟨[], rfl, by decide⟩

def fromUtf8 (l : Bytes) : Option Str :=
  if h : utf8Valid l = true ∧ l.length < 2 ^ 62 then some ⟨l, h.1, h.2⟩ else none

@[simp] theorem fromUtf8_bytes (s : Str) : fromUtf8 s.bytes = some s := by
  rw [fromUtf8, dif_pos ⟨s.valid, s.len_lt⟩]

theorem bytes_of_fromUtf8 {l : Bytes} {s : Str} (h : fromUtf8 l = some s) : s.bytes = l := by
  unfold fromUtf8 at h
  split at h
  · cases h; rfl
  · cases h

def startsWith (s p : Str) : Bool := p.bytes.isPrefixOf s.bytes

theorem startsWith_iff {s p : Str} : s.startsWith p = true ↔ p.bytes <+: s.bytes := by
  rw [startsWith, List.isPrefixOf_iff_prefix]

/-! ### One letter -/

theorem valid_a : utf8Valid [97] = true := by decide
theorem short_a : [(97 : UInt8)].length < 2 ^ 62 := by decide
theorem valid_K : utf8Valid [75] = true := by decide
theorem short_K : [(75 : UInt8)].length < 2 ^ 62 := by decide
theorem valid_k : utf8Valid [107] = true := by decide
theorem short_k : [(107 : UInt8)].length < 2 ^ 62 := by decide
theorem valid_l : utf8Valid [108] = true := by decide
theorem short_l : [(108 : UInt8)].length < 2 ^ 62 := by decide
theorem valid_o : utf8Valid [111] = true := by decide
theorem short_o : [(111 : UInt8)].length < 2 ^ 62 := by decide

end Str

theorem utf8Valid_head_ne {b : UInt8} {l : Bytes} (h : utf8Valid (b :: l) = true) : b ≠ 0xFF := by
  rintro rfl
  exact absurd h (by simp [utf8Valid, utf8From, utf8Tail])

theorem utf8Valid_ascii : ∀ {l : Bytes}, (∀ b ∈ l, b ≤ 0x7F) → utf8Valid l = true
  | [], _ => rfl
  | b :: l, h => by
    have hb : utf8Tail b = some [] := if_pos (h b (by simp))
    have hl := utf8Valid_ascii fun c hc => h c (List.mem_cons_of_mem _ hc)
    simpa [utf8Valid, utf8From, hb] using hl
