import OaasIot.Lib.Words
import OaasIot.Odgm.RaftLog
import OaasIot.Storage.Backends

/-!
# Reading a range of the Raft log (`raft_log.rs:325-376`)

`try_get_log_entries` turns its bounds into a first index and an index past the last, with plain additions, and hands
them to `scan_range` of the log backend. Here the backends are kept apart, and the builds with and without overflow
checks. The Raft layer keeps its log in a `MemoryStorage`.
-/

namespace Odgm

open List

def maxIndex : UInt64 := 0xFFFFFFFFFFFFFFFF

structure LogContent (P : Type) where
  entries : List (Entry P)
  increasing : entries.Pairwise fun e e' => e.logId.index < e'.logId.index

namespace OpenraftLogStore

variable {P : Type} {c : LogCodec P}

def ofContent (c : LogCodec P) (log : LogContent P) : OpenraftLogStore where
  logBackend := ⟨log.entries.map (record c),
    List.pairwise_map.2 (log.increasing.imp fun h => logIdToKey_lt_iff.2 h)⟩
  metadataBackend := .empty

/-- What holds the log. A `BTreeMap` has a root once something was put into it. -/
inductive LogBackend
  | memory (rooted : Bool)
  | skipList
  | fjall

def LogBackend.scanRange (backend : LogBackend) (m : Store) (lo hi : Bound Bytes) :
    Except String (List (Bytes × Bytes)) :=
  match backend with
  | .memory rooted =>
    match (DpStorage.MemoryStorage.mk m rooted).rangePanic lo hi with
    | some msg => .error msg
    | none => .ok (m.between lo hi)
  | .skipList => .ok (m.between lo hi)
  | .fjall => .ok (m.between lo hi)

theorem scanRange_answer (m : Store) (lo hi : Bound Bytes) :
    let answer : Except String (List (Bytes × Bytes)) → DpStorage.Answer
      | .ok pairs => .pairs pairs
      | .error msg => .panicked msg
    (∀ rooted, (DpStorage.MemoryStorage.mk m rooted).scanRange lo hi =
        answer ((LogBackend.memory rooted).scanRange m lo hi)) ∧
      (DpStorage.skipListStep true m (.scanRange lo hi)).1 = answer (LogBackend.skipList.scanRange m lo hi) ∧
      (DpStorage.fjallStep m (.scanRange lo hi)).1 = answer (LogBackend.fjall.scanRange m lo hi) := by
  refine ⟨fun rooted => ?_, rfl, rfl⟩
  simp only [DpStorage.MemoryStorage.scanRange, LogBackend.scanRange]
  cases (DpStorage.MemoryStorage.mk m rooted).rangePanic lo hi <;> rfl

def startOverflows (start : Bound UInt64) : Prop := start = .excluded maxIndex
def endOverflows (stop : Bound UInt64) : Prop := stop = .included maxIndex
instance (start : Bound UInt64) : Decidable (startOverflows start) := inferInstanceAs (Decidable (_ = _))
instance (stop : Bound UInt64) : Decidable (endOverflows stop) := inferInstanceAs (Decidable (_ = _))

inductive LogRead (P : Type)
  | returned (result : Except LogStoreError (List (Entry P)))
  | panicked (msg : String)

def readRange (overflowChecks : Bool) (backend : LogBackend) (c : LogCodec P) (s : OpenraftLogStore)
    (start stop : Bound UInt64) : LogRead P :=
  if overflowChecks = true ∧ (startOverflows start ∨ endOverflows stop) then .panicked "attempt to add with overflow"
  else
    match backend.scanRange s.logBackend (.included (logIdToKey (startIndex start)))
        (.excluded (logIdToKey (endIndex stop))) with
    | .error msg => .panicked msg
    | .ok scanned =>
      .returned (decodeAll c (scanned.filterMap fun kv => (keyToLogId kv.1).map fun _ => kv.2))

/-- No addition overflows, and the read returns the entries with an index in the range, in their order. -/
def ReadsRange (overflowChecks : Bool) (backend : LogBackend) (c : LogCodec P) (log : LogContent P)
    (start stop : Bound UInt64) : Prop :=
  ¬ startOverflows start ∧ ¬ endOverflows stop ∧
    readRange overflowChecks backend c (ofContent c log) start stop =
      .returned (.ok (log.entries.filter fun e => start.startsBy e.logId.index ∧ stop.endsAfter e.logId.index))

/-! ## What is read -/

section
variable {start stop : Bound UInt64} {i : UInt64}

theorem add_one_le_iff {x i : UInt64} (hx : x ≠ maxIndex) : x + 1 ≤ i ↔ x < i := by
  have hlt : x.toNat + 1 < 2 ^ 64 := by
    have hx' := x.toNat_lt
    have hne : x.toNat ≠ maxIndex.toNat := fun h => hx (UInt64.toNat_inj.1 h)
    have hmax : maxIndex.toNat = 2 ^ 64 - 1 := rfl
    omega
  rw [UInt64.le_iff_toNat_le, UInt64.lt_iff_toNat_lt, toNat_add_one hlt]
  exact Iff.rfl

theorem startIndex_le_iff (h : ¬ startOverflows start) : startIndex start ≤ i ↔ start.startsBy i := by
  cases start with
  | included x => exact Iff.rfl
  | excluded x => exact add_one_le_iff fun hx => h (congrArg Bound.excluded hx)
  | unbounded => exact iff_of_true (UInt64.le_iff_toNat_le.2 (Nat.zero_le _)) trivial

theorem lt_endIndex_iff (h : ¬ endOverflows stop) (hne : stop ≠ .unbounded) :
    i < endIndex stop ↔ stop.endsAfter i := by
  cases stop with
  | included x =>
    have hx : x ≠ maxIndex := fun hx => h (congrArg Bound.included hx)
    rw [← UInt64.not_le]
    exact (not_congr (add_one_le_iff hx)).trans UInt64.not_lt
  | excluded x => exact Iff.rfl
  | unbounded => exact absurd rfl hne

theorem lt_endIndex_unbounded_iff : i < endIndex .unbounded ↔ i ≠ maxIndex := by
  have hlt := i.toNat_lt
  have hmax : maxIndex.toNat = 2 ^ 64 - 1 := rfl
  rw [endIndex, UInt64.lt_iff_toNat_lt, Ne, ← UInt64.toNat_inj]
  change i.toNat < maxIndex.toNat ↔ _
  omega

theorem startsBy_maxIndex (h : ¬ startOverflows start) : start.startsBy maxIndex := by
  rw [← startIndex_le_iff h, UInt64.le_iff_toNat_le]
  have hlt := (startIndex start).toNat_lt
  have hmax : maxIndex.toNat = 2 ^ 64 - 1 := rfl
  omega

end

theorem keyCrossed_iff {a b : UInt64} :
    (Bound.included (logIdToKey a)).Crossed (.excluded (logIdToKey b)) ↔ b < a := logIdToKey_lt_iff

theorem between_ofContent (log : LogContent P) (a b : UInt64) :
    (ofContent c log).logBackend.between (.included (logIdToKey a)) (.excluded (logIdToKey b)) =
      (log.entries.filter fun e => a ≤ e.logId.index ∧ e.logId.index < b).map (record c) := by
  change ((log.entries.map (record c)).filter _) = _
  rw [filter_map]
  refine congrArg _ (filter_congr fun e _ => ?_)
  simp only [Function.comp_apply, record, Bound.startsBy, Bound.endsAfter, logIdToKey_le_iff, logIdToKey_lt_iff]

def ScanPanics (backend : LogBackend) (start stop : Bound UInt64) : Prop :=
  match backend with
  | .memory rooted => rooted = true ∧ endIndex stop < startIndex start
  | _ => False

theorem readRange_eq (overflowChecks : Bool) (backend : LogBackend) (log : LogContent P) {start stop : Bound UInt64}
    (hstart : ¬ startOverflows start) (hstop : ¬ endOverflows stop) :
    (ScanPanics backend start stop →
      ∃ msg, readRange overflowChecks backend c (ofContent c log) start stop = .panicked msg) ∧
    (¬ ScanPanics backend start stop →
      readRange overflowChecks backend c (ofContent c log) start stop =
        .returned (.ok (log.entries.filter fun e =>
          startIndex start ≤ e.logId.index ∧ e.logId.index < endIndex stop))) := by
  have hno : ¬ (overflowChecks = true ∧ (startOverflows start ∨ endOverflows stop)) :=
    fun h => h.2.elim hstart hstop
  have hread : .returned (decodeAll c (((ofContent c log).logBackend.between
      (.included (logIdToKey (startIndex start))) (.excluded (logIdToKey (endIndex stop)))).filterMap
        fun kv => (keyToLogId kv.1).map fun _ => kv.2)) =
      LogRead.returned (.ok (log.entries.filter fun e =>
        startIndex start ≤ e.logId.index ∧ e.logId.index < endIndex stop)) := by
    rw [between_ofContent, decodeAll_records]
  rw [readRange, if_neg hno]
  cases backend with
  | skipList | fjall => exact ⟨False.elim, fun _ => hread⟩
  | memory rooted =>
    simp only [LogBackend.scanRange, DpStorage.MemoryStorage.rangePanic, keyCrossed_iff, ScanPanics]
    constructor
    · intro hpanic
      rw [if_pos hpanic]
      exact ⟨_, rfl⟩
    · intro hpanic
      rw [if_neg hpanic]
      exact hread

theorem scanned_eq_iff (log : LogContent P) {start stop : Bound UInt64} (hstart : ¬ startOverflows start)
    (hstop : ¬ endOverflows stop) :
    (log.entries.filter fun e => startIndex start ≤ e.logId.index ∧ e.logId.index < endIndex stop) =
        (log.entries.filter fun e => start.startsBy e.logId.index ∧ stop.endsAfter e.logId.index) ↔
      (stop = .unbounded → ∀ e ∈ log.entries, e.logId.index ≠ maxIndex) := by
  constructor
  · rintro heq rfl e he hmax
    have hmem : e ∈ log.entries.filter fun e => start.startsBy e.logId.index ∧ Bound.unbounded.endsAfter e.logId.index :=
      mem_filter.2 ⟨he, decide_eq_true ⟨hmax ▸ startsBy_maxIndex hstart, trivial⟩⟩
    rw [← heq] at hmem
    have hlt := (of_decide_eq_true (mem_filter.1 hmem).2).2
    exact lt_endIndex_unbounded_iff.1 hlt hmax
  · intro hlast
    refine filter_congr fun e he => ?_
    rw [decide_eq_decide, startIndex_le_iff hstart]
    by_cases hend : stop = .unbounded
    · subst hend
      exact and_congr_right fun _ => iff_of_true (lt_endIndex_unbounded_iff.2 (hlast rfl e he)) trivial
    · exact and_congr_right fun _ => lt_endIndex_iff hstop hend

/-- **Log range reads**: no bound is increased past the last index, no range of a rooted `BTreeMap` is crossed, and
the last index is not asked for without an end. -/
theorem log_range_iff (overflowChecks : Bool) (backend : LogBackend) (c : LogCodec P) (log : LogContent P)
    (start stop : Bound UInt64) :
    ReadsRange overflowChecks backend c log start stop ↔
      start ≠ .excluded maxIndex ∧ stop ≠ .included maxIndex ∧
        (backend = .memory true → startIndex start ≤ endIndex stop) ∧
        (stop = .unbounded → ∀ e ∈ log.entries, e.logId.index ≠ maxIndex) := by
  unfold ReadsRange
  refine and_congr_right fun hstart => and_congr_right fun hstop => ?_
  obtain ⟨hpanics, hreturns⟩ := readRange_eq (c := c) overflowChecks backend log hstart hstop
  have hscan : (backend = .memory true → startIndex start ≤ endIndex stop) ↔ ¬ ScanPanics backend start stop := by
    cases backend with
    | skipList | fjall => simp [ScanPanics]
    | memory rooted => cases rooted <;> simp [ScanPanics]
  rw [hscan]
  by_cases hpanic : ScanPanics backend start stop
  · obtain ⟨msg, hread⟩ := hpanics hpanic
    rw [hread]
    refine iff_of_false (fun h => ?_) fun h => h.1 hpanic
    cases h
  · rw [hreturns hpanic, and_iff_right hpanic, ← scanned_eq_iff log hstart hstop]
    simp only [LogRead.returned.injEq, Except.ok.injEq]

def oneEntry : LogContent Unit := ⟨[⟨⟨⟨1, 1⟩, 1⟩, ()⟩], List.pairwise_singleton _ _⟩

theorem crossed_range_panics :
    readRange true (.memory true) plainCodec (ofContent plainCodec oneEntry) (.included 10) (.included 5) =
        .panicked "range start is greater than range end in BTreeMap" ∧
      ¬ ReadsRange true (.memory true) plainCodec oneEntry (.included 10) (.included 5) := by
  refine ⟨rfl, ?_⟩
  rintro ⟨_, _, h⟩
  cases h

end OpenraftLogStore

end Odgm
