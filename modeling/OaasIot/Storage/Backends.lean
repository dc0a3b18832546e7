import OaasIot.Lib.Bounds
import OaasIot.Odgm.Types

/-!
# The storage backends (`oprc-dp-storage/src/backends/`)

The skip list and the keyspace of Fjall are ordered maps that do not fail. In the memory backend `range` panics on
crossed bounds, once the `BTreeMap` has a root, and `increment` on overflow in a build with overflow checks. The skip
list has no `increment` of its own: what runs on it is that of `AnyStorage`.
-/

namespace DpStorage

open Odgm

/-! ## Calls and answers -/

inductive StorageCall
  | get (key : Bytes)
  | existsKey (key : Bytes)
  | put (key value : Bytes)
  | putWithReturn (key value : Bytes)
  | delete (key : Bytes)
  | deleteRange (lo hi : Bound Bytes)
  | scanRange (lo hi : Bound Bytes)
  | count
  | increment (key : Bytes) (delta : Int64)
  deriving DecidableEq

inductive Answer
  | value (v : Option Bytes)
  | flag (b : Bool)
  | done
  | number (n : Nat)
  | pairs (l : List (Bytes × Bytes))
  | integer (i : Int64)
  | failed (e : StorageError)
  | panicked (msg : String)
  deriving DecidableEq

/-! ## Integers -/

def int64OfBytes (bytes : Bytes) : Int64 := (UInt64.ofNat (leNat bytes)).toInt64
def int64Bytes (i : Int64) : Bytes := leBytes 8 i.toUInt64.toNat
def Overflows (a b : Int64) : Prop := a.toInt + b.toInt < -2 ^ 63 ∨ 2 ^ 63 ≤ a.toInt + b.toInt

instance (a b : Int64) : Decidable (Overflows a b) :=
  inferInstanceAs (Decidable (a.toInt + b.toInt < -2 ^ 63 ∨ 2 ^ 63 ≤ a.toInt + b.toInt))

def currentInt : Option Bytes → Option Int64
  | none => some 0
  | some value => if value.length = 8 then some (int64OfBytes value) else none

def incrementMap (notAnInt : String) (panics : Int64 → Int64 → Bool) (key : Bytes) (delta : Int64) (m : Store) :
    Answer × Store :=
  match currentInt (m.get key) with
  | none => (.failed (.serialization notAnInt), m)
  | some current =>
    if panics current delta then (.panicked "attempt to add with overflow", m)
    else (.integer (current + delta), m.insert key (int64Bytes (current + delta)))

/-! ## Memory -/

structure MemoryStorage where
  data : Store
  rooted : Bool
  deriving DecidableEq

namespace MemoryStorage

def new : MemoryStorage := ⟨.empty, false⟩
def insert (s : MemoryStorage) (key value : Bytes) : MemoryStorage := ⟨s.data.insert key value, true⟩

def crossedMessage : Bound Bytes → Bound Bytes → String
  | .excluded a, .excluded b =>
    if a = b then "range start and end are equal and excluded in BTreeMap"
    else "range start is greater than range end in BTreeMap"
  | _, _ => "range start is greater than range end in BTreeMap"

def rangePanic (s : MemoryStorage) (lo hi : Bound Bytes) : Option String :=
  if s.rooted = true ∧ lo.Crossed hi then some (crossedMessage lo hi) else none

def deleteRange (s : MemoryStorage) (lo hi : Bound Bytes) : Answer × MemoryStorage :=
  match s.rangePanic lo hi with
  | some msg => (.panicked msg, s)
  | none => (.number (s.data.between lo hi).length, { s with data := s.data.eraseBetween lo hi })

def scanRange (s : MemoryStorage) (lo hi : Bound Bytes) : Answer :=
  match s.rangePanic lo hi with
  | some msg => .panicked msg
  | none => .pairs (s.data.between lo hi)

def increment (overflowChecks : Bool) (s : MemoryStorage) (key : Bytes) (delta : Int64) : Answer × MemoryStorage :=
  match incrementMap "Value is not an i64" (fun a b => overflowChecks && decide (Overflows a b)) key delta s.data with
  | (.integer i, data) => (.integer i, ⟨data, true⟩)
  | (answer, _) => (answer, s)

def step (overflowChecks : Bool) (s : MemoryStorage) : StorageCall → Answer × MemoryStorage
  | .get key => (.value (s.data.get key), s)
  | .existsKey key => (.flag (s.data.get key).isSome, s)
  | .put key value => (.flag (s.data.get key).isSome, s.insert key value)
  | .putWithReturn key value => (.value (s.data.get key), s.insert key value)
  | .delete key => (.done, { s with data := s.data.erase key })
  | .deleteRange lo hi => s.deleteRange lo hi
  | .scanRange lo hi => (s.scanRange lo hi, s)
  | .count => (.number s.data.toList.length, s)
  | .increment key delta => s.increment overflowChecks key delta

end MemoryStorage

/-! ## Skip list -/

def removeIfPresent (m : Store) (key : Bytes) : Store :=
  match m.get key with
  | some _ => m.erase key
  | none => m

variable (overflowChecks : Bool)

def skipListStep (m : Store) : StorageCall → Answer × Store
  | .get key => (.value (m.get key), m)
  | .existsKey key => (.flag (m.get key).isSome, m)
  | .put key value => (.flag (m.get key).isSome, m.insert key value)
  | .putWithReturn key value => (.value (m.get key), m.insert key value)
  | .delete key => (.done, removeIfPresent m key)
  | .deleteRange lo hi => (.number (m.between lo hi).length, m.eraseBetween lo hi)
  | .scanRange lo hi => (.pairs (m.between lo hi), m)
  | .count => (.number m.toList.length, m)
  | .increment key delta =>
    incrementMap "Value is not an i64" (fun a b => overflowChecks && decide (Overflows a b)) key delta m

/-! ## Fjall -/

def fjallStep (m : Store) : StorageCall → Answer × Store
  | .get key => (.value (m.get key), m)
  | .existsKey key => (.flag (m.get key).isSome, m)
  | .put key value => (.flag !(m.get key).isSome, m.insert key value)
  | .putWithReturn key value => (.value (m.get key), m.insert key value)
  | .delete key => (.done, m.erase key)
  | .deleteRange lo hi => (.number (m.between lo hi).length, m.eraseBetween lo hi)
  | .scanRange lo hi => (.pairs (m.between lo hi), m)
  | .count => (.number m.toList.length, m)
  | .increment key delta => incrementMap "Key does not contain i64 value" (fun _ _ => false) key delta m

/-! ## Runs -/

theorem rangePanic_eq_none {s : MemoryStorage} {lo hi : Bound Bytes} (h : s.rooted = true → ¬ lo.Crossed hi) :
    s.rangePanic lo hi = none := if_neg fun hc => h hc.1 hc.2

end DpStorage
