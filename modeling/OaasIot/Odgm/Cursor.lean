import OaasIot.Odgm.KeyParser
import OaasIot.Odgm.Reconstruct

/-!
# Cursors from clients (`entry_store_impl.rs:322-373`)

A cursor that parses as a key of this object is where the scan starts; any other is ignored. In both cases the record
found at the start is passed over, since `skip_cursor_match` is `options.cursor.is_some()`. A length field that
overflows makes the parser panic.
-/

namespace Odgm

open List

section
variable {Ev : Type} {c : Codec Ev} {s : Store}

/-- `Some((ref obj_id, _)) if obj_id == normalized_id`: the cursor parses as a key of this object. -/
def belongsTo (id : Str) (cursor : Bytes) : Bool :=
  match parseGranularKey cursor with
  | .ok (some (objId, _)) => decide (objId = id)
  | _ => false

/-! ## The loop from any start -/

section
variable (id : Str) (p : Option Str) (limit : Nat) (scanStart : Bytes) (storageCursor : Option Bytes)

theorem listChunk_extra (chunk : List (Bytes × Bytes)) : ∀ (extra : List (Bytes × Bytes)) (st : ListState),
    extra ≠ [] → (∀ r ∈ extra, entryOf id r.1 = .ok none) →
      listChunk c id p limit scanStart storageCursor (extra ++ chunk) st =
        listChunk c id p limit scanStart storageCursor chunk { st with skipCursorMatch := false }
  | [], _, hne, _ => absurd rfl hne
  | r :: extra, st, _, hextra => by
    have hstep : listChunk c id p limit scanStart storageCursor (r :: (extra ++ chunk)) st =
        listChunk c id p limit scanStart storageCursor (extra ++ chunk) { st with skipCursorMatch := false } := by
      rw [listChunk.eq_def]
      simp only
      split
      · rfl
      · simp only [hextra r (by simp), bind, Except.bind]
    rw [cons_append, hstep]
    by_cases hnil : extra = []
    · rw [hnil, nil_append]
    · exact listChunk_extra chunk extra { st with skipCursorMatch := false } hnil fun r hr => hextra r (by simp [hr])

theorem listChunk_noSkip {r : Bytes × Bytes} (chunk : List (Bytes × Bytes)) (st : ListState) (h : r.1 ≠ scanStart) :
    listChunk c id p limit scanStart storageCursor (r :: chunk) st =
      listChunk c id p limit scanStart storageCursor (r :: chunk) { st with skipCursorMatch := false } := by
  rw [listChunk.eq_def]
  conv_rhs => rw [listChunk.eq_def]
  simp [h]

end

variable {limit : Nat}

theorem passed_extra {id : Str} {p : Option Str} {scanStart : Bytes} {extra : List (Bytes × Bytes)}
    {es : List (StoredEntry c)} {st : ListState} (hextra : ∀ r ∈ extra, entryOf id r.1 = .ok none)
    (hstart : extra = [] → ∀ e ∈ es.head?, buildEntryKey id e.key ≠ scanStart) :
    Passed c id p limit scanStart extra es st := by
  intro storageCursor n hne
  by_cases hno : extra = []
  · cases es with
    | nil => exact absurd (by simp [hno]) hne
    | cons e es =>
      rw [hno, nil_append, take_succ_cons, map_cons]
      exact listChunk_noSkip _ _ _ _ _ _ _ (hstart hno e rfl)
  · exact listChunk_extra _ _ _ _ _ _ _ _ hno hextra

/-! ## What lies behind a cursor -/

variable {cursor : Bytes}

def entriesFrom (c : Codec Ev) (s : Store) (id : Str) (cursor : Bytes) : List (StoredEntry c) :=
  (storedEntries c s id).filter fun e => cursor ≤ buildEntryKey id e.key

def entriesAfter (c : Codec Ev) (s : Store) (id : Str) (cursor : Bytes) : List (StoredEntry c) :=
  (storedEntries c s id).filter fun e => cursor < buildEntryKey id e.key

section
variable (hs : WellFormed c s)
include hs

theorem mem_range_before_entries {id : ObjectId} (hlo : buildObjectPrefix id ≤ cursor)
    {r : Bytes × Bytes} (hr : r ∈ s.range cursor (buildEntryKey id Str.empty)) :
    r.1 = recordKey id .metadata ∨ r.1 = recordKey id .eventConfig := by
  obtain ⟨k, v⟩ := r
  obtain ⟨hget, hk, hend⟩ := OrdMap.mem_range.1 hr
  obtain ⟨id', rec, rfl, _⟩ := hs k v hget
  have hbound : recordKey id' rec < objectEnd id := hend.trans (recordKey_lt_rangeEnd id (.entry Str.empty))
  obtain rfl : id' = id := mem_objectRange_iff.1 ⟨hlo.trans hk, hbound⟩
  cases rec with
  | metadata => exact Or.inl rfl
  | eventConfig => exact Or.inr rfl
  | entry key => exact absurd ((entryKey_empty_le_recordKey_iff id' (.entry key)).2 ⟨key, rfl⟩) (not_le.2 hend)

theorem length_range_before_entries {id : ObjectId} (hlo : buildObjectPrefix id ≤ cursor) :
    (s.range cursor (buildEntryKey id Str.empty)).length ≤ listScanSlack := by
  have hnodup : ((s.range cursor (buildEntryKey id Str.empty)).map Prod.fst).Nodup := by
    rw [List.Nodup, pairwise_map]
    exact (s.sorted_range _ _).imp fun h => h.ne
  have hsub : (s.range cursor (buildEntryKey id Str.empty)).map Prod.fst ⊆
      [recordKey id .metadata, recordKey id .eventConfig] := by
    intro k hk
    obtain ⟨r, hr, rfl⟩ := mem_map.1 hk
    rcases mem_range_before_entries hs hlo hr with h | h <;> simp [h]
  have hlen := (List.Nodup.subperm hnodup hsub).length_le
  simp only [length_map, length_cons, length_nil] at hlen
  unfold listScanSlack
  omega

theorem range_from_cursor (id : ObjectId) (hlo : buildObjectPrefix id ≤ cursor) :
    ∃ extra, s.range cursor (objectEnd id) = extra ++ (entriesFrom c s id cursor).map (StoredEntry.record id) ∧
      (∀ r ∈ extra, entryOf id r.1 = .ok none) ∧ extra.length ≤ listScanSlack := by
  rcases le_total cursor (buildEntryKey id Str.empty) with hle | hge
  · have hall : entriesFrom c s id cursor = storedEntries c s id := by
      rw [entriesFrom, filter_eq_self]
      intro e _
      have hkey : buildEntryKey id Str.empty ≤ buildEntryKey id e.key :=
        (entryKey_empty_le_recordKey_iff id (.entry e.key)).2 ⟨e.key, rfl⟩
      exact decide_eq_true (hle.trans hkey)
    refine ⟨s.range cursor (buildEntryKey id Str.empty), ?_, ?_, length_range_before_entries hs hlo⟩
    · rw [hall, ← range_eq_map_storedEntries hs]
      exact s.range_append hle (recordKey_lt_rangeEnd id (.entry Str.empty)).le
    · intro r hr
      rcases mem_range_before_entries hs hlo hr with h | h <;>
        simp [h, entryOf, parseGranularKey_recordKey, bind, Except.bind, pure, Except.pure]
  · refine ⟨[], ?_, by simp, by simp⟩
    rw [s.range_of_ge hge, range_eq_map_storedEntries hs, filter_map, nil_append]
    rfl

theorem entriesFrom_cases (id : ObjectId) (cursor : Bytes) :
    (∀ e ∈ (entriesFrom c s id cursor).head?, buildEntryKey id e.key ≠ cursor) ∧
      entriesFrom c s id cursor = entriesAfter c s id cursor ∨
    ∃ e, buildEntryKey id e.key = cursor ∧ entriesFrom c s id cursor = e :: entriesAfter c s id cursor := by
  unfold entriesFrom entriesAfter
  have hsorted := storedEntries_sorted hs id
  by_cases hstored : ∃ e ∈ storedEntries c s id, buildEntryKey id e.key = cursor
  · obtain ⟨e, he, rfl⟩ := hstored
    obtain ⟨done, rest, hsplit⟩ := append_of_mem he
    rw [hsplit] at hsorted ⊢
    obtain ⟨hge, hgt⟩ := OrdMap.filter_of_sorted hsorted
    refine Or.inr ⟨e, rfl, hge.trans ?_⟩
    congr 1
    convert hgt.symm
  · have hne : ∀ e ∈ storedEntries c s id, cursor ≠ buildEntryKey id e.key :=
      fun e he h => hstored ⟨e, he, h.symm⟩
    refine Or.inl ⟨fun e he => (hne e (mem_of_mem_filter (mem_of_mem_head? he))).symm, ?_⟩
    exact filter_congr fun e he => decide_eq_decide.2 (hne e he).le_iff_lt

end

/-! ## One page -/

variable {id : Str}

theorem bounds_of_belongsTo (h : belongsTo id cursor = true) :
    scanStartOf id (some cursor) = .ok cursor ∧ buildObjectPrefix id ≤ cursor ∧ cursor < objectEnd id := by
  unfold belongsTo at h
  split at h
  · rename_i objId r hparse
    obtain rfl := of_decide_eq_true h
    obtain ⟨_, tail, _, hraw, _⟩ := exists_tail_of_parsed hparse
    refine ⟨by simp [scanStartOf, hparse, bind, Except.bind, pure, Except.pure], ?_, ?_⟩
    · rw [hraw, buildObjectPrefix]
      exact Lex.le_of_extends ⟨tail, by simp⟩
    · rw [hraw, objectEnd, objectRangeEnd_eq]
      exact Lex.lt_of_extends zero_covBy_one.lt ⟨tail, by simp⟩
  · cases h

theorem scanStartOf_ignored (h : belongsTo id cursor = false) (hno : ¬ LengthOverflows cursor) :
    scanStartOf id (some cursor) = .ok (buildEntryKey id Str.empty) := by
  unfold belongsTo at h
  cases hparse : parseGranularKey cursor with
  | error e => exact absurd (parseGranularKey_eq_error.1 hparse).2 hno
  | ok answer =>
    cases answer with
    | none => simp [scanStartOf, hparse, bind, Except.bind, pure, Except.pure]
    | some found =>
      obtain ⟨objId, r⟩ := found
      rw [hparse] at h
      have hne : objId ≠ id := of_decide_eq_false h
      simp [scanStartOf, hparse, hne, bind, Except.bind, pure, Except.pure]

theorem listEntries_overflow {p : Option Str} (hl : limit ≠ 0) (h : LengthOverflows cursor) :
    listEntries c s id ⟨p, limit, some cursor⟩ = .error (.panic .keyOverflow) := by
  simp only [listEntries, if_neg hl, scanStartOf, parseGranularKey_eq_error.2 ⟨rfl, h⟩, bind, Except.bind, liftPanic]

theorem listEntries_from (hs : WellFormed c s) (id : ObjectId) {scanStart : Bytes} (hl : limit ≠ 0)
    (hstart : scanStartOf id (some cursor) = .ok scanStart) (hlo : buildObjectPrefix id ≤ scanStart)
    (hhi : scanStart < objectEnd id) :
    ∃ next, listEntries c s id ⟨none, limit, some cursor⟩ =
      .ok ⟨((entriesAfter c s id scanStart).take (pageSize limit)).map StoredEntry.pair, next⟩ := by
  have hpos := pageSize_pos hl
  obtain ⟨extra, hrange, hextra, hslack⟩ := range_from_cursor hs id hlo
  have hloop : ScansAs id none (pageSize limit) (entriesAfter c s id scanStart) (ListState.init (some cursor))
      (listLoop c s id none (pageSize limit) (s.toList.length + 1) scanStart (ListState.init (some cursor))) := by
    have hlen : (entriesAfter c s id scanStart).length < s.toList.length + 1 :=
      Nat.lt_succ_of_le ((length_filter_le _ _).trans (storedEntries_length_le _))
    rcases entriesFrom_cases hs id scanStart with ⟨hnone, heq⟩ | ⟨e, hkey, heq⟩
    · rw [heq] at hrange hnone
      exact listLoop_walk id none _ _ _ _ _ _ hrange hhi.le hslack (passed_extra hextra fun _ => hnone) rfl rfl hpos hlen
    · -- The scan finds the entry at its start first, and passes over it.
      rw [heq, map_cons] at hrange
      have hfirst := OrdMap.range_from_key hrange
      subst hkey
      exact listLoop_walk id none _ _ _ [e.record id] _ _ hfirst hhi.le (by simp [listScanSlack]) (passed_cursor e rfl)
        rfl rfl hpos hlen
  obtain ⟨more, hcall, _⟩ := listEntries_of_loop hl hstart hloop
  rw [firstRun_none] at hcall
  exact ⟨_, hcall⟩

def asked (c : Codec Ev) (s : Store) (id : Str) (cursor : Bytes) : List (StoredEntry c) :=
  if belongsTo id cursor then (storedEntries c s id).filter fun e => cursor < buildEntryKey id e.key
  else storedEntries c s id

theorem listEntries_cursor (hs : WellFormed c s) (id : ObjectId) (hno : ¬ LengthOverflows cursor) (hl : limit ≠ 0) :
    ∃ next, listEntries c s id ⟨none, limit, some cursor⟩ =
      .ok ⟨(((asked c s id cursor).filter fun e => belongsTo id cursor || e.key ≠ Str.empty).take (pageSize limit)).map
        StoredEntry.pair, next⟩ := by
  cases hb : belongsTo id cursor with
  | true =>
    obtain ⟨hstart, hlo, hhi⟩ := bounds_of_belongsTo hb
    have hall : ((asked c s id cursor).filter fun e => true || e.key ≠ Str.empty) = entriesAfter c s id cursor := by
      simp [asked, entriesAfter, hb]
    rw [hall]
    exact listEntries_from hs id hl hstart hlo hhi
  | false =>
    have hstart := scanStartOf_ignored hb hno
    have hbehind : ((asked c s id cursor).filter fun e => false || e.key ≠ Str.empty) =
        entriesAfter c s id (buildEntryKey id Str.empty) := by
      rw [asked, hb, if_neg (by simp)]
      refine filter_congr fun e _ => ?_
      have hle : buildEntryKey id Str.empty ≤ buildEntryKey id e.key :=
        (entryKey_empty_le_recordKey_iff id (.entry e.key)).2 ⟨e.key, rfl⟩
      have hlt : buildEntryKey id Str.empty < buildEntryKey id e.key ↔ e.key ≠ Str.empty := by
        rw [hle.lt_iff_ne, ne_eq, not_iff_not]
        constructor
        · intro h
          have hkeys : recordKey id (.entry Str.empty) = recordKey id (.entry e.key) := h
          exact (GranularRecord.entry.inj (recordKey_inj hkeys).2).symm
        · intro h
          rw [h]
      simp [hlt]
    rw [hbehind]
    exact listEntries_from hs id hl hstart (objectPrefix_le_recordKey id (.entry Str.empty))
      (recordKey_lt_rangeEnd id (.entry Str.empty))

/-- **Cursor semantics**: the parser returns on the cursor, what it asks for fits a page, and no entry under the empty
key is skipped. -/
theorem cursor_semantics_iff (c : Codec Ev) (st : GranularStore c) (id : ObjectId) (cursor : Bytes) :
    (∃ large, ∀ limit, large ≤ limit → ∃ next, listEntries c st.raw id ⟨none, limit, some cursor⟩ =
      .ok ⟨(asked c st.raw id cursor).map StoredEntry.pair, next⟩) ↔
      ¬ LengthOverflows cursor ∧
      (belongsTo id cursor = true ∨ st.raw.get (buildEntryKey id Str.empty) = none) ∧
      (asked c st.raw id cursor).length ≤ maxListLimit := by
  constructor
  · rintro ⟨large, h⟩
    obtain ⟨next, hpage⟩ := h (large + 1) (by omega)
    have hno : ¬ LengthOverflows cursor := by
      intro hover
      rw [listEntries_overflow (by omega) hover] at hpage
      cases hpage
    obtain ⟨next', hpage'⟩ := listEntries_cursor st.wf id hno (show large + 1 ≠ 0 by omega)
    rw [hpage', Except.ok.injEq, EntryListResult.mk.injEq] at hpage
    have hentries := hpage.1
    refine ⟨hno, ?_, ?_⟩
    · by_contra hneither
      push Not at hneither
      obtain ⟨hb, hstored⟩ := hneither
      obtain ⟨raw, hraw⟩ := Option.ne_none_iff_exists'.1 hstored
      obtain ⟨val, hval⟩ := Option.isSome_iff_exists.1 (st.wf.of_recordKey id (.entry Str.empty) hraw)
      have hmem : (⟨Str.empty, raw, val, hval⟩ : StoredEntry c) ∈ asked c st.raw id cursor := by
        rw [asked, if_neg hb]
        exact (mem_storedEntries st.wf).2 hraw
      have hpair := mem_map_of_mem (f := StoredEntry.pair) hmem
      rw [← hentries, mem_map] at hpair
      obtain ⟨e, he, heq⟩ := hpair
      have hkey := (mem_filter.1 (mem_of_mem_take he)).2
      simp only [Bool.not_eq_true] at hb
      have hempty : e.key = Str.empty := congrArg Prod.fst heq
      simp [hb, hempty] at hkey
    · have hlen := congrArg length hentries
      simp only [length_map, length_take] at hlen
      have hsize : pageSize (large + 1) ≤ maxListLimit := Nat.min_le_right _ _
      omega
  · rintro ⟨hno, hempty, hlen⟩
    refine ⟨maxListLimit, fun limit hlimit => ?_⟩
    have hpos : limit ≠ 0 := by
      unfold maxListLimit at hlimit
      omega
    have hsize : pageSize limit = maxListLimit := Nat.min_eq_right hlimit
    have hall : ((asked c st.raw id cursor).filter fun e => belongsTo id cursor || e.key ≠ Str.empty) =
        asked c st.raw id cursor := by
      rw [filter_eq_self]
      intro e he
      rcases hempty with hb | hnone
      · simp [hb]
      · by_cases hb : belongsTo id cursor = true
        · simp [hb]
        · rw [asked, if_neg hb, mem_storedEntries st.wf] at he
          have hkey : e.key ≠ Str.empty := by
            intro h
            rw [h, hnone] at he
            cases he
          simp [hkey]
    obtain ⟨next, hpage⟩ := listEntries_cursor st.wf id hno hpos
    rw [hall, hsize, take_of_length_le hlen] at hpage
    exact ⟨next, hpage⟩

end

namespace UnderEmptyKey

def id : ObjectId := ⟨⟨[111], Str.valid_o, Str.short_o⟩, ObjectId.nulFree_o⟩
def value : ObjectVal := ⟨[1, 2], .byte, short_12⟩
def store : GranularStore Postcard.codec := (GranularStore.empty Postcard.codec).putEntry id Str.empty value

/-- The metadata key of another object: a cursor that is ignored, but for the entry it takes with it. -/
theorem foreign_cursor_skips_entry :
    belongsTo id [112, 0, 0] = false ∧ getEntry Postcard.codec store.raw id Str.empty = .ok (some value) ∧
      ∀ limit, limit ≠ 0 → ∃ next,
        listEntries Postcard.codec store.raw id ⟨none, limit, some [112, 0, 0]⟩ = .ok ⟨[], next⟩ := by
  refine ⟨rfl, rfl, fun limit hl => ?_⟩
  have hparse : parseGranularKey [112, 0, 0] = .ok (some (⟨[112], by decide, by decide⟩, .metadata)) := by
    decide +kernel
  have hno : ¬ LengthOverflows [112, 0, 0] := by
    intro hover
    rw [parseGranularKey_eq_error.2 ⟨rfl, hover⟩] at hparse
    cases hparse
  obtain ⟨next, hpage⟩ := listEntries_cursor store.wf id hno hl
  have hnil : ((asked Postcard.codec store.raw id [112, 0, 0]).filter
      fun e => belongsTo id [112, 0, 0] || e.key ≠ Str.empty) = [] := rfl
  rw [hnil, take_nil] at hpage
  exact ⟨next, hpage⟩

end UnderEmptyKey

end Odgm
