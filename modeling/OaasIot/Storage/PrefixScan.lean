import OaasIot.Storage.Backends

/-!
# Scanning by prefix (`oprc-dp-storage/src/backends/`)

`scan(prefix)` reads up to a bound made from the prefix: the last byte plus one. For a last byte 255 the code appends a
zero byte instead, and then finds nothing but the prefix itself. Fjall has a prefix scan of its own; the table of Redb
is an ordered map that does not fail.
-/

namespace DpStorage

open Odgm List

/-! ## The scans -/

def prefixEnd (pre : Bytes) : Bound Bytes :=
  match pre.getLast? with
  | some last => if last = 255 then .excluded (pre ++ [0]) else .excluded (pre.dropLast ++ [last + 1])
  | none => .unbounded

def MemoryStorage.scan (s : MemoryStorage) (pre : Bytes) : Answer := s.scanRange (.included pre) (prefixEnd pre)
def skipListScan (m : Store) (pre : Bytes) : Answer := .pairs (m.between (.included pre) (prefixEnd pre))

def redbOwnedEnd (pre : Bytes) : Option Bytes :=
  if pre.isEmpty then none
  else
    match pre.getLast? with
    | some last => some (if last = 255 then pre ++ [0] else pre.set (pre.length - 1) (last + 1))
    | none => some pre

def redbScan (m : Store) (pre : Bytes) : Answer :=
  let stop : Bound Bytes :=
    match redbOwnedEnd pre with
    | none => .unbounded
    | some v => .excluded v
  .pairs (m.between (.included pre) stop)

inductive ScanBackend
  | memory
  | skipList
  | redb
  deriving DecidableEq

def ScanBackend.scan (backend : ScanBackend) (s : MemoryStorage) (pre : Bytes) : Answer :=
  match backend with
  | .memory => s.scan pre
  | .skipList => skipListScan s.data pre
  | .redb => redbScan s.data pre

def ScansPrefix (m : Store) (pre : Bytes) (answer : Answer) : Prop :=
  ∃ pairs, answer = .pairs pairs ∧ pairs.Pairwise (fun a b => a.1 < b.1) ∧
    ∀ key value, (key, value) ∈ pairs ↔ m.get key = some value ∧ pre <+: key

/-! ## The range -/

theorem prefixEnd_nil : prefixEnd [] = .unbounded := rfl

theorem prefixEnd_concat (q : Bytes) (x : UInt8) :
    prefixEnd (q ++ [x]) = if x = 255 then .excluded (q ++ [x] ++ [0]) else .excluded (q ++ [x + 1]) := by
  simp [prefixEnd]

theorem redbOwnedEnd_eq (pre : Bytes) :
    (match redbOwnedEnd pre with
      | none => .unbounded
      | some v => .excluded v) = prefixEnd pre := by
  rcases eq_nil_or_concat pre with rfl | ⟨q, x, rfl⟩
  · rfl
  · rw [concat_eq_append, prefixEnd_concat]
    by_cases hx : x = 255
    · simp [redbOwnedEnd, hx]
    · simp [redbOwnedEnd, hx]

theorem covBy_add_one {x : UInt8} (hx : x ≠ 255) : x ⋖ x + 1 := by
  have hne : x.toNat ≠ 255 := fun h => hx (UInt8.toNat_inj.1 h)
  have hlt := x.toNat_lt
  have hsucc : (x + 1).toNat = x.toNat + 1 := by
    rw [UInt8.toNat_add]
    exact Nat.mod_eq_of_lt (by change x.toNat + 1 < 256; omega)
  constructor
  · rw [UInt8.lt_iff_toNat_lt, hsucc]
    exact Nat.lt_succ_self _
  · intro y hxy hyx
    rw [UInt8.lt_iff_toNat_lt] at hxy hyx
    omega

theorem eq_of_between_zero {p k : Bytes} (hle : p ≤ k) (hlt : k < p ++ [0]) : k = p := by
  obtain ⟨t, rfl⟩ := Lex.prefix_convex (prefix_refl p) (prefix_append p [0]) hle hlt.le
  rw [Lex.append_lt_append_iff] at hlt
  cases t with
  | nil => exact append_nil p
  | cons b t =>
    rw [cons_lt_cons_iff] at hlt
    rcases hlt with hb | ⟨_, ht⟩
    · exact absurd hb (not_lt_of_ge (UInt8.le_iff_toNat_le.2 (Nat.zero_le _)))
    · exact absurd ht (not_lt_nil t)

theorem inPrefixRange_iff (pre key : Bytes) :
    (pre ≤ key ∧ (prefixEnd pre).endsAfter key) ↔ pre <+: key ∧ (pre.getLast? = some 255 → key = pre) := by
  rcases eq_nil_or_concat pre with rfl | ⟨q, x, rfl⟩
  · rw [prefixEnd_nil]
    exact iff_of_true ⟨Lex.le_of_extends nil_prefix, trivial⟩ ⟨List.nil_prefix, by simp⟩
  · rw [concat_eq_append, prefixEnd_concat, getLast?_concat]
    by_cases hx : x = 255
    · rw [if_pos hx, hx]
      constructor
      · rintro ⟨hle, hlt⟩
        have heq := eq_of_between_zero hle hlt
        exact ⟨heq ▸ prefix_refl _, fun _ => heq⟩
      · rintro ⟨_, heq⟩
        rw [heq rfl]
        exact ⟨le_refl _, (Lex.le_append _ _).lt_of_ne (by simp)⟩
    · rw [if_neg hx]
      have hcov := covBy_add_one hx
      constructor
      · rintro ⟨hle, hlt⟩
        exact ⟨Lex.prefix_of_between hcov hle hlt, fun h => absurd (Option.some.inj h) hx⟩
      · rintro ⟨hpre, _⟩
        exact ⟨Lex.le_of_extends hpre, Lex.lt_of_extends hcov.lt hpre⟩

theorem prefixEnd_not_crossed (pre : Bytes) : ¬ (Bound.included pre).Crossed (prefixEnd pre) := by
  have hmem := ((inPrefixRange_iff pre pre).2 ⟨prefix_refl pre, fun _ => rfl⟩).2
  cases hend : prefixEnd pre with
  | unbounded => exact id
  | included b =>
    rw [hend] at hmem
    exact not_lt_of_ge hmem
  | excluded b =>
    rw [hend] at hmem
    exact not_lt_of_gt hmem

theorem ScanBackend.scan_eq (backend : ScanBackend) (s : MemoryStorage) (pre : Bytes) :
    backend.scan s pre = .pairs (s.data.between (.included pre) (prefixEnd pre)) := by
  cases backend with
  | memory =>
    have hpanic : s.rangePanic (.included pre) (prefixEnd pre) = none :=
      rangePanic_eq_none fun _ => prefixEnd_not_crossed pre
    simp only [scan, MemoryStorage.scan, MemoryStorage.scanRange, hpanic]
  | skipList => rfl
  | redb => simp only [scan, redbScan, redbOwnedEnd_eq]

theorem mem_prefix_range {m : Store} {pre key value : Bytes} :
    (key, value) ∈ m.between (.included pre) (prefixEnd pre) ↔
      m.get key = some value ∧ pre <+: key ∧ (pre.getLast? = some 255 → key = pre) := by
  rw [OrdMap.between, mem_filter, ← OrdMap.get_eq_some, decide_eq_true_eq, ← inPrefixRange_iff]
  rfl

/-! ## When a scan is right -/

/-- **Prefix scans**: the prefix does not end in 255, or no stored key goes on after it. -/
theorem prefix_scan_iff (backend : ScanBackend) (s : MemoryStorage) (pre : Bytes) :
    ScansPrefix s.data pre (backend.scan s pre) ↔
      (pre.getLast? = some 255 → ∀ key, s.data.get key ≠ none → pre <+: key → key = pre) := by
  rw [ScanBackend.scan_eq]
  constructor
  · rintro ⟨pairs, heq, _, hmem⟩ hlast key hkey hpre
    obtain ⟨value, hvalue⟩ := Option.ne_none_iff_exists'.1 hkey
    have hin := (hmem key value).2 ⟨hvalue, hpre⟩
    rw [← Answer.pairs.inj heq, mem_prefix_range] at hin
    exact hin.2.2 hlast
  · intro h
    refine ⟨_, rfl, s.data.sorted.filter _, ?_⟩
    intro key value
    rw [mem_prefix_range]
    constructor
    · rintro ⟨hget, hpre, _⟩
      exact ⟨hget, hpre⟩
    · rintro ⟨hget, hpre⟩
      exact ⟨hget, hpre, fun hlast => h hlast key (by rw [hget]; simp) hpre⟩

/-- The key `FF 01` starts with `FF`; no backend finds it. -/
theorem scan_misses_longer_key :
    (MemoryStorage.new.insert [255, 1] [118]).scan [255] = .pairs [] ∧
      skipListScan (OrdMap.insert .empty [255, 1] [118]) [255] = .pairs [] ∧
      redbScan (OrdMap.insert .empty [255, 1] [118]) [255] = .pairs [] ∧
      [255] <+: ([255, 1] : Bytes) := by
  decide

end DpStorage
