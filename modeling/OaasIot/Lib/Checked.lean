import OaasIot.Lib.Bytes

/-!
# Machine arithmetic and slicing that can trap

A build with overflow checks (`checks = true`) stops at a sum that leaves the machine word; one without wraps around,
and only an index or a slice can stop it later. These are checked in both.
-/

inductive Trap
  | overflow
  | indexOutOfBounds
  | sliceOrder
  | sliceEnd
  deriving DecidableEq, Repr

namespace Machine

def add (checks : Bool) (a b : Nat) : Except Trap Nat :=
  if a + b < 2 ^ 64 then .ok (a + b) else if checks then .error .overflow else .ok ((a + b) % 2 ^ 64)

/-- `a << s` on 64-bit words: bits shifted out are lost, a shift by the whole word is an overflow. -/
def shl (checks : Bool) (a s : Nat) : Except Trap Nat :=
  if s < 64 then .ok ((a <<< s) % 2 ^ 64) else if checks then .error .overflow else .ok ((a <<< (s % 64)) % 2 ^ 64)

def readAt {α : Type*} (l : List α) (i : Nat) : Except Trap α :=
  match l[i]? with
  | some a => .ok a
  | none => .error .indexOutOfBounds

def slice {α : Type*} (l : List α) (start stop : Nat) : Except Trap (List α) :=
  if stop < start then .error .sliceOrder
  else if l.length < stop then .error .sliceEnd
  else .ok ((l.take stop).drop start)

theorem add_of_lt {checks : Bool} {a b : Nat} (h : a + b < 2 ^ 64) : add checks a b = .ok (a + b) := if_pos h

theorem add_checked {a b : Nat} (h : 2 ^ 64 ≤ a + b) : add true a b = .error .overflow := by
  rw [add, if_neg (by omega)]
  rfl

theorem add_wraps {a b : Nat} (ha : a < 2 ^ 64) (hb : b < 2 ^ 64) (h : 2 ^ 64 ≤ a + b) :
    add false a b = .ok (a + b - 2 ^ 64) := by
  have hmod : (a + b) % 2 ^ 64 = a + b - 2 ^ 64 := by omega
  rw [add, if_neg (by omega), ← hmod]
  rfl

theorem shl_of_lt {checks : Bool} {a s : Nat} (h : s < 64) : shl checks a s = .ok ((a <<< s) % 2 ^ 64) := if_pos h

section
variable {α : Type*}

theorem slice_of_le {l : List α} {start stop : Nat} (h : start ≤ stop) (h' : stop ≤ l.length) :
    slice l start stop = .ok ((l.take stop).drop start) := by
  rw [slice, if_neg (by omega), if_neg (by omega)]

theorem slice_of_gt {l : List α} {start stop : Nat} (h : stop < start) : slice l start stop = .error .sliceOrder :=
  if_pos h

theorem slice_left (l m : List α) : slice (l ++ m) 0 l.length = .ok l := by
  rw [slice_of_le (by omega) (by simp)]
  simp

end

end Machine
