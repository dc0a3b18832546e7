import OaasIot.Lib.Bytes

/-!
# Big-endian numbers

Numbers written with the most significant byte first, in a fixed number of bytes: as keys of an
ordered store they sort as the numbers do.
-/

def beBytes : Nat → Nat → Bytes
  | 0, _ => []
  | w + 1, n => UInt8.ofNat (n / 256 ^ w) :: beBytes w n

def beNat : Bytes → Nat
  | [] => 0
  | b :: l => b.toNat * 256 ^ l.length + beNat l

@[simp] theorem length_beBytes (w n : Nat) : (beBytes w n).length = w := by
  induction w with
  | zero => rfl
  | succ w ih => simp [beBytes, ih]

theorem beNat_beBytes (w n : Nat) : beNat (beBytes w n) = n % 256 ^ w := by
  induction w with
  | zero => simp [beBytes, beNat, Nat.mod_one]
  | succ w ih =>
    have hsplit : n % 256 ^ (w + 1) = n % 256 ^ w + 256 ^ w * (n / 256 ^ w % 256) := Nat.mod_pow_succ
    rw [beBytes, beNat, ih, length_beBytes, UInt8.toNat_ofNat', hsplit, Nat.mul_comm, Nat.add_comm]

theorem beNat_beBytes_of_lt {w n : Nat} (h : n < 256 ^ w) : beNat (beBytes w n) = n := by
  rw [beNat_beBytes, Nat.mod_eq_of_lt h]

theorem mul_add_lt_mul_add_iff {b q q' r r' : Nat} (hr : r < b) (hr' : r' < b) :
    r + b * q < r' + b * q' ↔ q < q' ∨ q = q' ∧ r < r' := by
  rcases Nat.lt_trichotomy q q' with h | rfl | h
  · have := Nat.mul_le_mul_left b h
    rw [Nat.mul_succ] at this
    omega
  · omega
  · have := Nat.mul_le_mul_left b h
    rw [Nat.mul_succ] at this
    omega

theorem beBytes_lt_beBytes_iff (w m n : Nat) : beBytes w m < beBytes w n ↔ m % 256 ^ w < n % 256 ^ w := by
  induction w with
  | zero => simp [beBytes, Nat.mod_one]
  | succ w ih =>
    have hpos : 0 < 256 ^ w := Nat.pos_of_ne_zero (by simp)
    rw [beBytes, beBytes, List.cons_lt_cons_iff, ih, Nat.mod_pow_succ, Nat.mod_pow_succ,
      mul_add_lt_mul_add_iff (Nat.mod_lt _ hpos) (Nat.mod_lt _ hpos), UInt8.lt_iff_toNat_lt, ← UInt8.toNat_inj,
      UInt8.toNat_ofNat', UInt8.toNat_ofNat']

theorem beBytes_lt_iff {w m n : Nat} (hm : m < 256 ^ w) (hn : n < 256 ^ w) : beBytes w m < beBytes w n ↔ m < n := by
  rw [beBytes_lt_beBytes_iff, Nat.mod_eq_of_lt hm, Nat.mod_eq_of_lt hn]

theorem beBytes_le_iff {w m n : Nat} (hm : m < 256 ^ w) (hn : n < 256 ^ w) : beBytes w m ≤ beBytes w n ↔ m ≤ n := by
  rw [← not_lt, beBytes_lt_iff hn hm, not_lt]
