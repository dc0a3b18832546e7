import OaasIot.Lib.Utf8

/-!
# Decimal numerals

Numbers of 64 bits as text: printed with `to_string`, read with `parse`. Reading accepts a plus sign and leading zeros,
which printing never writes, so a text that can be read need not be what its number is printed as.
-/

def isDigitByte (b : UInt8) : Bool := 0x30 ≤ b && b ≤ 0x39
def digitsValue (digits : Bytes) : Nat := digits.foldl (fun n b => n * 10 + (b.toNat - 0x30)) 0

/-- `parse::<u64>()`: an optional plus sign and at least one digit; what does not fit is an error. -/
def parseU64 (text : Bytes) : Option UInt64 :=
  let digits := if text.head? = some 0x2B then text.tail else text
  if digits ≠ [] ∧ digits.all isDigitByte = true ∧ digitsValue digits < 2 ^ 64 then
    some (UInt64.ofNat (digitsValue digits))
  else none

def decimal (n : Nat) : Bytes := (Nat.toDigits 10 n).map fun ch => UInt8.ofNat ch.toNat

theorem decimal_isDigit {n : Nat} {b : UInt8} (h : b ∈ decimal n) : isDigitByte b = true := by
  obtain ⟨ch, hch, rfl⟩ := List.mem_map.1 h
  have hdigit := Nat.isDigit_of_mem_toDigits (by decide) (by decide) hch
  simp only [Char.isDigit, Bool.and_eq_true, decide_eq_true_eq] at hdigit
  obtain ⟨hlo, hhi⟩ := hdigit
  have hlo' : 48 ≤ ch.toNat := hlo
  have hhi' : ch.toNat ≤ 57 := hhi
  simp only [isDigitByte, Bool.and_eq_true, decide_eq_true_eq, UInt8.le_iff_toNat_le, UInt8.toNat_ofNat']
  constructor
  · simpa [Nat.mod_eq_of_lt (show ch.toNat < 256 by omega)] using hlo'
  · simpa [Nat.mod_eq_of_lt (show ch.toNat < 256 by omega)] using hhi'

theorem decimal_ne_nil (n : Nat) : decimal n ≠ [] := by
  simp [decimal]

theorem lt_of_length_decimal {n k : Nat} (hk : 0 < k) (h : (decimal n).length ≤ k) : n < 10 ^ k := by
  rw [decimal, List.length_map] at h
  exact (Nat.length_toDigits_le_iff (by decide) hk).1 h

theorem length_decimal_le (n : UInt64) : (decimal n.toNat).length ≤ 20 := by
  rw [decimal, List.length_map]
  refine (Nat.length_toDigits_le_iff (by decide) (by decide)).2 ?_
  have hlt := n.toNat_lt
  omega

theorem ascii_of_isDigitByte {b : UInt8} (h : isDigitByte b = true) : b ≤ 0x7F := by
  simp only [isDigitByte, Bool.and_eq_true, decide_eq_true_eq] at h
  exact h.2.trans (by decide)

def Str.ofU64 (n : UInt64) : Str where
  bytes := decimal n.toNat
  valid := utf8Valid_ascii fun _ hb => ascii_of_isDigitByte (decimal_isDigit hb)
  len_lt := (length_decimal_le n).trans_lt (by decide)
