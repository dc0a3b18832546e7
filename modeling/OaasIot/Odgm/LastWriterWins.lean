import OaasIot.Lib.Latest
import OaasIot.Odgm.Replication

/-!
# Merging by timestamp (`replication/mst/config.rs`)

`MstConfig::simple_lww` keeps the later entry. On a tie an even node takes the remote entry and an odd one keeps its own
("deterministic tiebreaking using node_id", config.rs:31). Two even nodes therefore swap their entries, and two odd ones
both keep theirs.
-/

namespace Odgm

structure EntryJson (T : Type) where
  toVec : T → Except String Bytes
  fromSlice : Bytes → Except String T

/-- `simple_lww` (config.rs:17-46). -/
def simpleLww {T : Type} (json : EntryJson T) (extractTimestamp : T → UInt64) : MstConfig T where
  extractTimestamp := extractTimestamp
  mergeFunction mine remote nodeId :=
    match compare (extractTimestamp remote) (extractTimestamp mine) with
    | .gt => remote
    | .lt => mine
    | .eq => if nodeId % 2 = 0 then remote else mine
  serialize value := (json.toVec value).mapError .serialization
  deserialize bytes := (json.fromSlice bytes).mapError .serialization

section
variable {T : Type} (json : EntryJson T) (timestamp : T → UInt64)

def evenNode (nodeId : UInt64) : Bool := decide (nodeId % 2 = 0)
def rankOf (entry : T) : Nat := (timestamp entry).toNat

theorem rankOf_eq_iff {a b : T} : rankOf timestamp a = rankOf timestamp b ↔ timestamp a = timestamp b :=
  UInt64.toNat_inj

theorem mergeFunction_eq (nodeId : UInt64) (a b : T) :
    (simpleLww json timestamp).mergeFunction a b nodeId = latest (rankOf timestamp) (evenNode nodeId) a b := by
  have hcompare : compare (timestamp b) (timestamp a) = compare (rankOf timestamp b) (rankOf timestamp a) := by
    simp only [compare, compareOfLessAndEq, UInt64.lt_iff_toNat_lt, rankOf]
    simp only [UInt64.toNat_inj]
  simp only [simpleLww, hcompare]
  rcases lt_trichotomy (rankOf timestamp a) (rankOf timestamp b) with h | h | h
  · rw [latest_of_lt h, compare_gt_iff_gt.2 h]
  · rw [latest_of_eq h, compare_eq_iff_eq.2 h.symm]
    simp [evenNode]
  · rw [latest_of_gt h, compare_lt_iff_lt.2 h]

/-- **A replica-independent join**: only different entries of one timestamp, at nodes of one parity, come out
differently. -/
theorem simple_lww_join_iff (a b : T) (n m : UInt64) :
    ((simpleLww json timestamp).mergeFunction a b n = (simpleLww json timestamp).mergeFunction b a m ∧
      (∀ c, (simpleLww json timestamp).mergeFunction ((simpleLww json timestamp).mergeFunction a b n) c n =
        (simpleLww json timestamp).mergeFunction a ((simpleLww json timestamp).mergeFunction b c n) n) ∧
      (simpleLww json timestamp).mergeFunction a a n = a) ↔
    timestamp a ≠ timestamp b ∨ a = b ∨ n % 2 ≠ m % 2 := by
  simp only [mergeFunction_eq]
  have hassoc : ∀ c, latest (rankOf timestamp) (evenNode n) (latest (rankOf timestamp) (evenNode n) a b) c =
      latest (rankOf timestamp) (evenNode n) a (latest (rankOf timestamp) (evenNode n) b c) := latest_assoc _ _ a b
  have hparity : evenNode n ≠ evenNode m ↔ n % 2 ≠ m % 2 := by
    unfold evenNode
    grind
  rw [and_iff_left ⟨hassoc, latest_self _ _ a⟩, latest_swap_iff, hparity, ne_eq, rankOf_eq_iff]

end

namespace Tie

structure TestValue where
  data : String
  timestamp : UInt64
  deriving DecidableEq

def json : EntryJson TestValue := ⟨fun v => .ok v.data.toUTF8.data.toList, fun _ => .error "expected value"⟩

def first : TestValue := ⟨"a", 7⟩
def second : TestValue := ⟨"b", 7⟩

/-- Nodes 2 and 4 swap their entries of one timestamp. -/
theorem tie_swaps :
    (simpleLww json TestValue.timestamp).mergeFunction first second 2 = second ∧
      (simpleLww json TestValue.timestamp).mergeFunction second first 4 = first ∧ first ≠ second := by
  decide

end Tie

end Odgm
