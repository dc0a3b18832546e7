import OaasIot.Odgm.Reconstruct

/-!
# Object listing over all pages

`list_objects` scans the whole store and picks the metadata records. These are ordered as the ids are, and the ids with
a prefix are an interval, so the early stop behind the last match loses nothing (compare `PrefixListing`). `walkObjects`
is the scan uncut by chunks.
-/

namespace Odgm

open List OrdMap

section
variable {Ev : Type} {c : Codec Ev} {s : Store}

/-! ## Stored records -/

structure StoredRecord (c : Codec Ev) where
  id : ObjectId
  kind : GranularRecord
  raw : Bytes
  ok : RecordOk c kind raw

def StoredRecord.rawKey (r : StoredRecord c) : Bytes := recordKey r.id r.kind
def StoredRecord.record (r : StoredRecord c) : Bytes × Bytes := (r.rawKey, r.raw)

theorem exists_storedRecords (hs : WellFormed c s) :
    ∃ rs : List (StoredRecord c), s.toList = rs.map StoredRecord.record := by
  have h : ∀ x ∈ s.toList, ∃ r : StoredRecord c, x = r.record := by
    rintro ⟨k, v⟩ hx
    obtain ⟨id, kind, rfl, hok⟩ := hs k v (get_eq_some.2 hx)
    exact ⟨⟨id, kind, v, hok⟩, rfl⟩
  generalize s.toList = l at h
  induction l with
  | nil => exact ⟨[], rfl⟩
  | cons x l ih =>
    obtain ⟨r, rfl⟩ := h x (by simp)
    obtain ⟨rs, rfl⟩ := ih fun x hx => h x (mem_cons_of_mem _ hx)
    exact ⟨r :: rs, rfl⟩

theorem recordKey_scanBounds (id : ObjectId) (kind : GranularRecord) :
    [0x00] ≤ recordKey id kind ∧ recordKey id kind < [0xFF] := by
  rw [recordKey_eq]
  cases hb : id.str.bytes with
  | nil =>
    rw [nil_append]
    exact ⟨Lex.le_of_extends ⟨_, rfl⟩, List.Lex.rel (by decide)⟩
  | cons b l =>
    have hne : b ≠ 0xFF := utf8Valid_head_ne (l := l) (hb ▸ id.str.valid)
    have hlt : b < 0xFF := by
      have := b.toNat_lt
      have hne' : b.toNat ≠ 255 := fun h => hne (UInt8.toNat_inj.1 h)
      rw [UInt8.lt_iff_toNat_lt]
      show b.toNat < 255
      omega
    rw [cons_append]
    refine ⟨?_, List.Lex.rel hlt⟩
    rw [Lex.cons_le_cons_iff']
    rcases (zero_le_uint8 b).lt_or_eq with h | h
    · exact Or.inl h
    · exact Or.inr ⟨h, by rw [← not_lt]; exact not_lt_nil _⟩

theorem range_scanBounds (hs : WellFormed c s) : s.range [0x00] [0xFF] = s.toList := by
  rw [OrdMap.range, filter_eq_self]
  rintro ⟨k, v⟩ hx
  obtain ⟨id, kind, rfl, _⟩ := hs k v (OrdMap.get_eq_some.2 hx)
  simpa using recordKey_scanBounds id kind

/-! ## The scan, uncut -/

def itemOf (c : Codec Ev) (s : Store) (r : StoredRecord c) : ObjectListItem :=
  ⟨r.id, (metadataOrDefault r.raw).objectVersion, (storedEntries c s r.id).length⟩

def ObjectListState.push (c : Codec Ev) (s : Store) (st : ObjectListState) (r : StoredRecord c) : ObjectListState :=
  { st with objects := st.objects ++ [itemOf c s r], lastEmittedKey := some r.rawKey }

def ObjectListState.see (p : Option Str) (st : ObjectListState) : ObjectListState :=
  { st with prefixSeen := st.prefixSeen || p.isSome }

def walkObjects (c : Codec Ev) (s : Store) (p : Option Str) (limit : Nat) :
    List (StoredRecord c) → ObjectListState → ObjectListState × Bool
  | [], st => (st, false)
  | r :: rs, st =>
    if r.kind = .metadata then
      if hasKeyPrefix p r.id = false then
        if st.prefixSeen then (st, true) else walkObjects c s p limit rs st
      else if (metadataOrDefault r.raw).tombstone then walkObjects c s p limit rs (st.see p)
      else if limit ≤ st.objects.length + 1 then ((st.see p).push c s r, true)
      else walkObjects c s p limit rs ((st.see p).push c s r)
    else walkObjects c s p limit rs st

section
variable (p : Option Str) (limit : Nat) (rs : List (StoredRecord c)) (st : ObjectListState)

theorem walkObjects_skipCursorMatch : (walkObjects c s p limit rs st).1.skipCursorMatch = st.skipCursorMatch := by
  induction rs generalizing st with
  | nil => rfl
  | cons r rs ih =>
    unfold walkObjects
    split
    · split
      · split
        · rfl
        · exact ih st
      · split
        · exact ih (st.see p)
        · split
          · rfl
          · exact ih ((st.see p).push c s r)
    · exact ih st

theorem walkObjects_append (rest : List (StoredRecord c)) :
    walkObjects c s p limit (rs ++ rest) st =
      if (walkObjects c s p limit rs st).2 then walkObjects c s p limit rs st
      else walkObjects c s p limit rest (walkObjects c s p limit rs st).1 := by
  induction rs generalizing st with
  | nil => rfl
  | cons r rs ih =>
    rw [cons_append, walkObjects, walkObjects]
    split
    · split
      · split
        · rfl
        · exact ih st
      · split
        · exact ih (st.see p)
        · split
          · rfl
          · exact ih ((st.see p).push c s r)
    · exact ih st

end

theorem countEntriesOrZero_eq (hs : WellFormed c s) (id : ObjectId) :
    countEntriesOrZero c s id = .ok (storedEntries c s id).length := by
  rw [countEntriesOrZero, countEntries_eq hs id]

theorem listObjectsChunk_eq (hs : WellFormed c s) (p : Option Str) (limit : Nat) (start : Bytes) :
    ∀ (rs : List (StoredRecord c)) (st : ObjectListState), st.skipCursorMatch = false →
      listObjectsChunk c s p limit start (rs.map StoredRecord.record) st = .ok (walkObjects c s p limit rs st)
  | [], st, _ => rfl
  | ⟨id, kind, raw, ok⟩ :: rs, st, hskip => by
    have hst : { st with skipCursorMatch := false } = st := by rw [← hskip]
    rw [map_cons, listObjectsChunk.eq_def]
    simp only [StoredRecord.record, StoredRecord.rawKey, hskip, Bool.false_eq_true, false_and, if_false,
      parseGranularKey_recordKey, liftPanic_ok, bind, Except.bind]
    have ih := fun st' h => listObjectsChunk_eq hs p limit start rs st' h
    cases kind with
    | eventConfig | entry key =>
      simp only [walkObjects, reduceCtorEq, if_false, hst]
      exact ih st hskip
    | metadata =>
      rw [walkObjects, if_pos rfl]
      dsimp only
      by_cases hp : hasKeyPrefix p id = false
      · rw [if_pos hp, if_pos hp]
        simp only [hst]
        by_cases hseen : st.prefixSeen = true
        · rw [if_pos hseen, if_pos hseen]
          rfl
        · rw [if_neg hseen, if_neg hseen]
          exact ih st hskip
      · rw [if_neg hp, if_neg hp]
        have hsee : ({ st with prefixSeen := st.prefixSeen || p.isSome, skipCursorMatch := false } :
            ObjectListState) = st.see p := by rw [← hskip]; rfl
        by_cases ht : (metadataOrDefault raw).tombstone = true
        · simp only [ht, if_true, hsee]
          exact ih _ hskip
        · have ht' : (metadataOrDefault raw).tombstone = false := by simpa using ht
          have hpush : ({ st with
              objects := st.objects ++ [⟨id, (metadataOrDefault raw).objectVersion, (storedEntries c s id).length⟩]
              lastEmittedKey := some (recordKey id .metadata)
              prefixSeen := st.prefixSeen || p.isSome
              skipCursorMatch := false } : ObjectListState) = (st.see p).push c s ⟨id, .metadata, raw, ok⟩ := by
            rw [← hskip]; rfl
          simp only [ht', Bool.false_eq_true, if_false, countEntriesOrZero_eq hs id, hpush, length_append,
            length_singleton]
          by_cases hfull : limit ≤ st.objects.length + 1
          · simp only [hfull, if_true]
            rfl
          · simp only [hfull, if_false]
            exact ih ((st.see p).push c s ⟨id, .metadata, raw, ok⟩) hskip

variable {all : List (StoredRecord c)} {rs : List (StoredRecord c)} {p : Option Str} {limit : Nat} {st : ObjectListState}

theorem ObjectListState.noSkip_eq_self (h : st.skipCursorMatch = false) : { st with skipCursorMatch := false } = st := by
  rw [← h]

def ObjectsPassed (c : Codec Ev) (s : Store) (p : Option Str) (limit : Nat) (start : Bytes)
    (extra rs : List (StoredRecord c)) (st : ObjectListState) : Prop :=
  ∀ n, extra ++ rs.take (n + 1) ≠ [] →
    listObjectsChunk c s p limit start ((extra ++ rs.take (n + 1)).map StoredRecord.record) st =
      listObjectsChunk c s p limit start ((rs.take (n + 1)).map StoredRecord.record)
        { st with skipCursorMatch := false }

theorem objectsPassed_nil {start : Bytes} (h : st.skipCursorMatch = false) : ObjectsPassed c s p limit start [] rs st := by
  intro _ _
  rw [ObjectListState.noSkip_eq_self h, nil_append]

theorem objectsPassed_cursor
    (r : StoredRecord c) (h : st.skipCursorMatch = true) : ObjectsPassed c s p limit r.rawKey [r] rs st := by
  intro _ _
  rw [singleton_append, map_cons, listObjectsChunk.eq_def]
  simp [StoredRecord.record, h]

theorem listObjectsLoop_walk (hs : WellFormed c s) (p : Option Str) (limit : Nat) :
    ∀ (fuel : Nat) (start : Bytes) (extra rs : List (StoredRecord c)) (st : ObjectListState),
      s.range start [0xFF] = (extra ++ rs).map StoredRecord.record → start ≤ [0xFF] → extra.length < listScanSlack →
      ObjectsPassed c s p limit start extra rs st → rs.length < fuel →
      ∃ st', listObjectsLoop c s p limit fuel start st = .ok st' ∧ { st' with skipCursorMatch := false } =
        (walkObjects c s p limit rs { st with skipCursorMatch := false }).1
  | 0, _, _, _, _, _, _, _, _, hfuel => absurd hfuel (Nat.not_lt_zero _)
  | fuel + 1, start, extra, rs, st, hrange, hle, hslack, hpass, hfuel => by
    unfold listObjectsLoop
    obtain ⟨m, hn⟩ : ∃ m, limit - st.objects.length + listScanSlack = extra.length + (m + 1) :=
      ⟨limit - st.objects.length + listScanSlack - extra.length - 1, by omega⟩
    have hdrop : (((extra ++ rs).map StoredRecord.record).drop (extra.length + (m + 1))).head?.map Prod.fst =
        (rs.drop (m + 1)).head?.map StoredRecord.rawKey := by
      rw [← map_drop, drop_length_add_append, head?_map, Option.map_map]
      rfl
    simp only [hn, Store.scanRangePaginated, if_neg (not_lt.2 hle), page, hrange, ← map_take,
      take_length_add_append, hdrop, liftPanic_ok, bind, Except.bind, map_eq_nil_iff]
    by_cases hnil : extra ++ rs.take (m + 1) = []
    · obtain ⟨rfl, rfl⟩ : extra = [] ∧ rs = [] := by simpa using hnil
      exact ⟨st, rfl, rfl⟩
    rw [if_neg hnil, hpass m hnil, listObjectsChunk_eq hs p limit start _ { st with skipCursorMatch := false } rfl]
    have hwalk := walkObjects_append (s := s) p limit (rs.take (m + 1)) { st with skipCursorMatch := false }
      (rs.drop (m + 1))
    have hskip := walkObjects_skipCursorMatch (s := s) p limit (rs.take (m + 1)) { st with skipCursorMatch := false }
    rw [take_append_drop] at hwalk
    rw [hwalk]
    generalize walkObjects c s p limit (rs.take (m + 1)) { st with skipCursorMatch := false } = w at hskip
    obtain ⟨st', stop⟩ := w
    cases stop with
    | true => exact ⟨st', rfl, ObjectListState.noSkip_eq_self hskip⟩
    | false =>
      cases hr : rs.drop (m + 1) with
      | nil => exact ⟨st', rfl, ObjectListState.noSkip_eq_self hskip⟩
      | cons r rest =>
        have hsplit : s.range start [0xFF] =
            (extra ++ rs.take (m + 1)).map StoredRecord.record ++ r.record :: rest.map StoredRecord.record := by
          rw [hrange, ← map_cons, ← hr, ← map_append, append_assoc, take_append_drop]
        have hlen : (r :: rest).length < fuel := by
          have hpos : 0 < (rs.drop (m + 1)).length := by simp [hr]
          rw [← hr]
          rw [length_drop] at hpos ⊢
          omega
        have ih := listObjectsLoop_walk hs p limit fuel r.rawKey [] (r :: rest) st' (range_from_key hsplit)
          (recordKey_scanBounds r.id r.kind).2.le (by simp [listScanSlack]) (objectsPassed_nil hskip) hlen
        rwa [ObjectListState.noSkip_eq_self hskip] at ih

/-! ## The live records -/

def liveRecords (p : Option Str) (rs : List (StoredRecord c)) : List (StoredRecord c) :=
  rs.filter fun r => r.kind = .metadata ∧ hasKeyPrefix p r.id = true ∧ (metadataOrDefault r.raw).tombstone = false

def Ordered (rs : List (StoredRecord c)) : Prop := rs.Pairwise fun a b => a.rawKey < b.rawKey

theorem ordered_of_toList (hall : s.toList = all.map StoredRecord.record) : Ordered all := by
  have hsorted := s.sorted
  rwa [hall, pairwise_map] at hsorted

theorem le_id_of_rawKey_lt {a b : StoredRecord c} (h : a.rawKey < b.rawKey) : a.id ≤ b.id := by
  rcases recordKey_lt_iff.1 h with h | ⟨h, _⟩
  · exact h.le
  · exact h.le

theorem hasKeyPrefix_convex {a b d : ObjectId} (ha : hasKeyPrefix p a = true)
    (hd : hasKeyPrefix p d = true) (hab : a ≤ b) (hbd : b ≤ d) : hasKeyPrefix p b = true := by
  cases p with
  | none => rfl
  | some p =>
    simp only [hasKeyPrefix, Str.startsWith_iff] at *
    exact Lex.prefix_convex ha hd hab hbd

theorem liveRecords_eq_nil {a : ObjectId} {r : StoredRecord c}
    (ha : hasKeyPrefix p a = true) (har : a ≤ r.id) (hr : hasKeyPrefix p r.id = false) (hord : Ordered (r :: rs)) :
    liveRecords p (r :: rs) = [] := by
  rw [liveRecords, filter_eq_nil_iff]
  intro r' hr' hlive
  simp only [decide_eq_true_eq] at hlive
  obtain ⟨_, hmatch, _⟩ := hlive
  rcases mem_cons.1 hr' with rfl | hmem
  · rw [hr] at hmatch
    cases hmatch
  · have hle := le_id_of_rawKey_lt ((pairwise_cons.1 hord).1 r' hmem)
    have := hasKeyPrefix_convex ha hmatch har hle
    rw [hr] at this
    cases this

def lastKey (rs : List (StoredRecord c)) (default : Option Bytes) : Option Bytes :=
  match rs.getLast? with
  | some r => some r.rawKey
  | none => default

theorem lastKey_cons (r : StoredRecord c) (rs : List (StoredRecord c)) (d : Option Bytes) :
    lastKey (r :: rs) d = lastKey rs (some r.rawKey) := by
  cases rs with
  | nil => rfl
  | cons r' rs =>
    simp only [lastKey, getLast?_cons_cons]
    rw [getLast?_eq_some_getLast (cons_ne_nil r' rs)]

theorem walkObjects_eq (p : Option Str) (limit : Nat) : ∀ (rs : List (StoredRecord c)) (st : ObjectListState),
    Ordered rs → st.objects.length < limit →
    (st.prefixSeen = true → ∃ a : ObjectId, hasKeyPrefix p a = true ∧ ∀ r ∈ rs, a ≤ r.id) →
    (walkObjects c s p limit rs st).1.objects =
        st.objects ++ ((liveRecords p rs).take (limit - st.objects.length)).map (itemOf c s) ∧
      (walkObjects c s p limit rs st).1.lastEmittedKey =
        lastKey ((liveRecords p rs).take (limit - st.objects.length)) st.lastEmittedKey
  | [], st, _, _, _ => by simp [walkObjects, liveRecords, lastKey]
  | r :: rs, st, hord, hlt, hseen => by
    obtain ⟨hfirst, hord'⟩ := pairwise_cons.1 hord
    have hseen' : st.prefixSeen = true → ∃ a : ObjectId, hasKeyPrefix p a = true ∧ ∀ r ∈ rs, a ≤ r.id := by
      intro h
      obtain ⟨a, ha, hall⟩ := hseen h
      exact ⟨a, ha, fun r hr => hall r (mem_cons_of_mem _ hr)⟩
    unfold walkObjects
    by_cases hkind : r.kind = .metadata
    · rw [if_pos hkind]
      by_cases hp : hasKeyPrefix p r.id = false
      · rw [if_pos hp]
        by_cases hs : st.prefixSeen = true
        · obtain ⟨a, ha, hall⟩ := hseen hs
          rw [if_pos hs, liveRecords_eq_nil ha (hall r (by simp)) hp hord]
          simp [lastKey]
        · rw [if_neg hs, liveRecords, filter_cons_of_neg (by simp [hp])]
          exact walkObjects_eq p limit rs st hord' hlt hseen'
      · have hp' : hasKeyPrefix p r.id = true := by simpa using hp
        -- From here on a match has been seen: this record.
        have hsee : ∃ a : ObjectId, hasKeyPrefix p a = true ∧ ∀ r ∈ rs, a ≤ r.id :=
          ⟨r.id, hp', fun r' hr' => le_id_of_rawKey_lt (hfirst r' hr')⟩
        rw [if_neg hp]
        by_cases ht : (metadataOrDefault r.raw).tombstone = true
        · rw [if_pos ht, liveRecords, filter_cons_of_neg (by simp [ht])]
          exact walkObjects_eq p limit rs (st.see p) hord' hlt fun _ => hsee
        · have hlive : liveRecords p (r :: rs) = r :: liveRecords p rs :=
            filter_cons_of_pos (by simpa [hkind, hp'] using ht)
          rw [if_neg ht, hlive]
          by_cases hfull : limit ≤ st.objects.length + 1
          · rw [if_pos hfull, show limit - st.objects.length = 1 by omega]
            simp [ObjectListState.push, ObjectListState.see, lastKey]
          · rw [if_neg hfull]
            have hlen : ((st.see p).push c s r).objects.length = st.objects.length + 1 := by
              simp [ObjectListState.push, ObjectListState.see]
            obtain ⟨h1, h2⟩ := walkObjects_eq p limit rs ((st.see p).push c s r) hord' (by omega) fun _ => hsee
            obtain ⟨k, hk⟩ : ∃ k, limit - st.objects.length = k + 1 := ⟨limit - st.objects.length - 1, by omega⟩
            rw [hlen, show limit - (st.objects.length + 1) = k by omega] at h1 h2
            rw [h1, h2, hk, take_succ_cons, lastKey_cons]
            simp [ObjectListState.push, ObjectListState.see]
    · rw [if_neg hkind, liveRecords, filter_cons_of_neg (by simp [hkind])]
      exact walkObjects_eq p limit rs st hord' hlt hseen'

/-! ## Following the cursor -/

def ObjectCursorAt (all : List (StoredRecord c)) (cursor : Option Bytes) (rs : List (StoredRecord c)) : Prop :=
  (cursor = none ∧ rs = all) ∨ ∃ done r, all = done ++ r :: rs ∧ cursor = some r.rawKey

theorem listObjects_of_walk {cursor : Option Bytes} (hl : limit ≠ 0) (hord : Ordered rs)
    (hloop : ∃ st', listObjectsLoop c s p (pageSize limit) (s.toList.length + 1) (cursor.getD [0x00])
        ⟨[], none, false, cursor.isSome⟩ = .ok st' ∧
      { st' with skipCursorMatch := false } = (walkObjects c s p (pageSize limit) rs ⟨[], none, false, false⟩).1) :
    listObjects c s ⟨p, limit, cursor⟩ = .ok ⟨((liveRecords p rs).take (pageSize limit)).map (itemOf c s),
        if pageSize limit ≤ (liveRecords p rs).length then lastKey ((liveRecords p rs).take (pageSize limit)) none
        else none⟩ := by
  obtain ⟨st', hloop, hst⟩ := hloop
  obtain ⟨h1, h2⟩ := walkObjects_eq (s := s) p (pageSize limit) rs ⟨[], none, false, false⟩ hord (pageSize_pos hl)
    (by intro h; cases h)
  rw [← hst, length_nil, Nat.sub_zero] at h1 h2
  rw [nil_append] at h1
  dsimp only at h1 h2
  have hfull : pageSize limit ≤ (((liveRecords p rs).take (pageSize limit)).map (itemOf c s)).length ↔
      pageSize limit ≤ (liveRecords p rs).length := by
    rw [length_map, length_take]
    omega
  simp only [listObjects, if_neg hl, bind, Except.bind]
  rw [← pageSize, hloop]
  simp only [pure, Except.pure, h1, h2, hfull]

theorem listObjects_page (hs : WellFormed c s) (hall : s.toList = all.map StoredRecord.record) {cursor : Option Bytes}
    (hc : ObjectCursorAt all cursor rs) (p : Option Str) (hl : limit ≠ 0) : listObjects c s ⟨p, limit, cursor⟩ =
      .ok ⟨((liveRecords p rs).take (pageSize limit)).map (itemOf c s),
        if pageSize limit ≤ (liveRecords p rs).length then lastKey ((liveRecords p rs).take (pageSize limit)) none
        else none⟩ := by
  have hord := ordered_of_toList hall
  have hlen : s.toList.length = all.length := by rw [hall, length_map]
  rcases hc with ⟨rfl, rfl⟩ | ⟨done, r, rfl, rfl⟩
  · refine listObjects_of_walk hl hord ?_
    exact listObjectsLoop_walk hs p _ _ [0x00] [] rs _ (by rw [range_scanBounds hs, hall, nil_append]) (by decide)
      (by simp [listScanSlack]) (objectsPassed_nil rfl) (by omega)
  · refine listObjects_of_walk hl (pairwise_cons.1 (pairwise_append.1 hord).2.1).2 ?_
    have hsplit : s.range [0x00] [0xFF] = done.map StoredRecord.record ++ r.record :: rs.map StoredRecord.record := by
      rw [range_scanBounds hs, hall, map_append, map_cons]
    rw [length_append, length_cons] at hlen
    exact listObjectsLoop_walk hs p _ _ r.rawKey [r] rs _ (range_from_key hsplit)
      (recordKey_scanBounds r.id r.kind).2.le (by simp [listScanSlack]) (objectsPassed_cursor r rfl) (by omega)

def followObjects (c : Codec Ev) (s : Store) (p : Option Str) (limit : Nat) :
    Nat → Option Bytes → Option (List ObjectListItem)
  | 0, _ => none
  | pages + 1, cursor =>
    match listObjects c s ⟨p, limit, cursor⟩ with
    | .ok page =>
      match page.nextCursor with
      | none => some page.objects
      | some next => (followObjects c s p limit pages (some next)).map (page.objects ++ ·)
    | .error _ => none

theorem liveRecords_split : ∀ (n : Nat) (rs : List (StoredRecord c)), 0 < n →
    n ≤ (liveRecords p rs).length → ∃ done r rest, rs = done ++ r :: rest ∧
      lastKey ((liveRecords p rs).take n) none = some r.rawKey ∧ liveRecords p rest = (liveRecords p rs).drop n
  | n, [], hpos, hn => by simp [liveRecords] at hn; omega
  | n, r :: rs, hpos, hn => by
    by_cases hr : r.kind = .metadata ∧ hasKeyPrefix p r.id = true ∧ (metadataOrDefault r.raw).tombstone = false
    · have hlive : liveRecords p (r :: rs) = r :: liveRecords p rs := filter_cons_of_pos (by simpa using hr)
      obtain ⟨m, rfl⟩ : ∃ m, n = m + 1 := ⟨n - 1, by omega⟩
      rw [hlive, length_cons] at hn
      rw [hlive, take_succ_cons, drop_succ_cons]
      rcases Nat.eq_zero_or_pos m with rfl | hm
      · exact ⟨[], r, rs, rfl, rfl, rfl⟩
      · obtain ⟨done, r', rest, hsplit, hlast, hrest⟩ := liveRecords_split m rs hm (by omega)
        refine ⟨r :: done, r', rest, by rw [hsplit]; rfl, ?_, hrest⟩
        rw [lastKey_cons]
        unfold lastKey at hlast ⊢
        cases hg : ((liveRecords p rs).take m).getLast? with
        | none => rw [hg] at hlast; cases hlast
        | some r'' => rw [hg] at hlast; exact hlast
    · have hskip : liveRecords p (r :: rs) = liveRecords p rs := filter_cons_of_neg (by simpa using hr)
      rw [hskip] at hn ⊢
      obtain ⟨done, r', rest, hsplit, hlast, hrest⟩ := liveRecords_split n rs hpos hn
      exact ⟨r :: done, r', rest, by rw [hsplit]; rfl, hlast, hrest⟩

theorem followObjects_eq (hs : WellFormed c s)
    (hall : s.toList = all.map StoredRecord.record) (p : Option Str) (hl : limit ≠ 0) :
    ∀ (pages : Nat) (cursor : Option Bytes) (rs : List (StoredRecord c)), ObjectCursorAt all cursor rs →
      rs.length < pages → followObjects c s p limit pages cursor = some ((liveRecords p rs).map (itemOf c s))
  | 0, _, _, _, hpages => absurd hpages (Nat.not_lt_zero _)
  | pages + 1, cursor, rs, hc, hpages => by
    unfold followObjects
    rw [listObjects_page hs hall hc p hl]
    by_cases hfull : pageSize limit ≤ (liveRecords p rs).length
    · obtain ⟨done, r, rest, hsplit, hlast, hrest⟩ := liveRecords_split _ rs (pageSize_pos hl) hfull
      have hnext : ObjectCursorAt all (some r.rawKey) rest := by
        rcases hc with ⟨_, rfl⟩ | ⟨done', r', hall', _⟩
        · exact Or.inr ⟨done, r, hsplit, rfl⟩
        · refine Or.inr ⟨done' ++ r' :: done, r, ?_, rfl⟩
          rw [hall', hsplit]
          simp
      have ih := followObjects_eq hs hall p hl pages (some r.rawKey) rest hnext (by
        rw [hsplit, length_append, length_cons] at hpages
        omega)
      simp only [if_pos hfull, hlast, ih, Option.map_some, hrest]
      rw [← map_append, take_append_drop]
    · simp only [if_neg hfull]
      rw [take_of_length_le (not_le.1 hfull).le]

/-! ## What is listed -/

theorem exists_metadataRecord_iff (hall : s.toList = all.map StoredRecord.record) (id : ObjectId) (m : ObjectMetadata) :
    (∃ r ∈ all, r.kind = .metadata ∧ r.id = id ∧ metadataOrDefault r.raw = m) ↔ getMetadata s id = .ok (some m) := by
  constructor
  · rintro ⟨r, hmem, hkind, rfl, hdef⟩
    have hget : s.get (buildMetadataKey r.id) = some r.raw := by
      rw [get_eq_some, hall]
      exact mem_map.2 ⟨r, hmem, by simp [StoredRecord.record, StoredRecord.rawKey, hkind, recordKey]⟩
    have hok := r.ok
    rw [hkind] at hok
    obtain ⟨m', hm'⟩ := Option.isSome_iff_exists.1 hok
    rw [metadataOrDefault, hm', Option.getD_some] at hdef
    simp [getMetadata, hget, hm', hdef]
  · intro hm
    unfold getMetadata at hm
    cases hget : s.get (buildMetadataKey id) with
    | none => rw [hget] at hm; cases hm
    | some raw =>
      rw [hget] at hm
      cases hfrom : ObjectMetadata.fromBytes raw with
      | none => simp [hfrom] at hm
      | some m' =>
        obtain rfl : m' = m := by simpa [hfrom] using hm
        have hmem : (buildMetadataKey id, raw) ∈ all.map StoredRecord.record := by
          rw [← hall]
          exact get_eq_some.1 hget
        obtain ⟨r, hr, hrec⟩ := mem_map.1 hmem
        simp only [StoredRecord.record, Prod.mk.injEq] at hrec
        obtain ⟨hkey, rfl⟩ := hrec
        obtain ⟨hid, hkind⟩ := recordKey_inj (show recordKey r.id r.kind = recordKey id .metadata from hkey)
        exact ⟨r, hr, hkind, hid, by rw [metadataOrDefault, hfrom]; rfl⟩

theorem mem_liveItems_iff (hall : s.toList = all.map StoredRecord.record) (p : Option Str) (item : ObjectListItem) :
    item ∈ (liveRecords p all).map (itemOf c s) ↔ ∃ (id : ObjectId) (m : ObjectMetadata),
      getMetadata s id = .ok (some m) ∧ m.tombstone = false ∧ hasKeyPrefix p id = true ∧
      item = ⟨id, m.objectVersion, (storedEntries c s id).length⟩ := by
  rw [mem_map]
  constructor
  · rintro ⟨r, hr, rfl⟩
    simp only [liveRecords, mem_filter, decide_eq_true_eq] at hr
    obtain ⟨hmem, hkind, hp, ht⟩ := hr
    exact ⟨r.id, _, (exists_metadataRecord_iff hall _ _).1 ⟨r, hmem, hkind, rfl, rfl⟩, ht, hp, rfl⟩
  · rintro ⟨id, m, hm, ht, hp, rfl⟩
    obtain ⟨r, hmem, hkind, rfl, rfl⟩ := (exists_metadataRecord_iff hall id m).2 hm
    refine ⟨r, ?_, rfl⟩
    simp only [liveRecords, mem_filter, decide_eq_true_eq]
    exact ⟨hmem, hkind, hp, ht⟩

theorem pairwise_liveItems (hord : Ordered all) (p : Option Str) :
    ((liveRecords p all).map (itemOf c s)).Pairwise fun a b => a.objectId < b.objectId := by
  rw [pairwise_map]
  refine (hord.filter _).imp_of_mem ?_
  intro a b ha hb hlt
  simp only [mem_filter, decide_eq_true_eq] at ha hb
  have hlt' : buildMetadataKey a.id < buildMetadataKey b.id := by
    simpa [StoredRecord.rawKey, ha.2.1, hb.2.1, recordKey] using hlt
  exact metaKey_lt_iff.1 hlt'

/-- **Object listing is complete** after finitely many pages: every live object with the prefix, in id order. -/
theorem listObjects_complete (st : GranularStore c) (p : Option Str) (limit : Nat) (hl : 1 ≤ limit) :
    ∃ pages out, followObjects c st.raw p limit pages none = some out ∧
      (out.Pairwise fun a b => a.objectId < b.objectId) ∧
      ∀ item, item ∈ out ↔ ∃ (id : ObjectId) (m : ObjectMetadata), getMetadata st.raw id = .ok (some m) ∧
        m.tombstone = false ∧ hasKeyPrefix p id = true ∧
        item = ⟨id, m.objectVersion, (storedEntries c st.raw id).length⟩ := by
  obtain ⟨all, hall⟩ := exists_storedRecords st.wf
  refine ⟨all.length + 1, _, followObjects_eq st.wf hall p (by omega) _ none all (Or.inl ⟨rfl, rfl⟩)
    (Nat.lt_succ_self _), ?_, mem_liveItems_iff hall p⟩
  exact pairwise_liveItems (ordered_of_toList hall) p

end

namespace TwoObjects

def a : ObjectId := ⟨⟨[97], Str.valid_a, Str.short_a⟩, by decide⟩
def ab : ObjectId := ⟨⟨[97, 98], by decide, by decide⟩, by decide⟩
def value : ObjectVal := ⟨[1], .byte, short_1⟩

def store : GranularStore Postcard.codec :=
  (((GranularStore.empty _).putVersion a 3 false).putEntry a Str.empty value).putVersion ab 5 true

example : followObjects Postcard.codec store.raw (some a) 1 2 none = some [⟨a, 3, 1⟩] := by decide

theorem listObjects_complete_store :
    ∃ pages out, followObjects Postcard.codec store.raw (some a) 1 pages none = some out ∧
      (out.Pairwise fun a b => a.objectId < b.objectId) ∧
      ∀ item, item ∈ out ↔ ∃ (id : ObjectId) (m : ObjectMetadata), getMetadata store.raw id = .ok (some m) ∧
        m.tombstone = false ∧ hasKeyPrefix (some a.str) id = true ∧
        item = ⟨id, m.objectVersion, (storedEntries Postcard.codec store.raw id).length⟩ :=
  listObjects_complete store (some a) 1 (by decide)

end TwoObjects

end Odgm
