import OaasIot.Odgm.Listing

/-!
# What one page of `list_entries` holds

The page is read in storage chunks, with slack. `walk` is the same scan over the whole list of entries at once;
`listLoop_walk` shows that the chunks change nothing but the `more_available` flag of a page that became full, which is
off if nothing follows and on if the next stored entry matches.
-/

namespace Odgm

open List OrdMap

section
variable {Ev : Type} {c : Codec Ev} {s : Store}

abbrev objectEnd (id : Str) : Bytes := computeObjectRangeEnd (buildObjectPrefix id)

/-! ## Stored entries -/

structure StoredEntry (c : Codec Ev) where
  key : Str
  raw : Bytes
  val : ObjectVal
  decodes : c.decodeVal raw = some val

namespace StoredEntry

def record (id : Str) (e : StoredEntry c) : Bytes × Bytes := (buildEntryKey id e.key, e.raw)
def pair (e : StoredEntry c) : Str × ObjectVal := (e.key, e.val)

theorem ext_key_raw : ∀ {a b : StoredEntry c}, a.key = b.key → a.raw = b.raw → a = b
  | ⟨k, r, v, h⟩, ⟨_, _, w, h'⟩, rfl, rfl => by
    have : v = w := Option.some.inj (h.symm.trans h')
    subst this
    rfl

end StoredEntry

theorem entryOf_entryKey (id : ObjectId) (key : Str) : entryOf id (buildEntryKey id key) = .ok (some key) := by
  have h := parseGranularKey_recordKey id (.entry key)
  simp only [recordKey] at h
  simp [entryOf, h, bind, Except.bind, pure, Except.pure]

def toStoredEntry (c : Codec Ev) (id : Str) (r : Bytes × Bytes) : Option (StoredEntry c) :=
  match entryOf id r.1 with
  | .ok (some key) =>
    match h : c.decodeVal r.2 with
    | some v => some ⟨key, r.2, v, h⟩
    | none => none
  | _ => none

def storedEntries (c : Codec Ev) (s : Store) (id : Str) : List (StoredEntry c) :=
  (s.range (buildEntryKey id Str.empty) (objectEnd id)).filterMap (toStoredEntry c id)

theorem toStoredEntry_record (id : ObjectId) (e : StoredEntry c) :
    toStoredEntry c id (e.record id) = some e := by
  unfold toStoredEntry StoredEntry.record
  rw [entryOf_entryKey]
  simp only
  split
  · rename_i v hv
    exact congrArg some (StoredEntry.ext_key_raw rfl rfl)
  · rename_i hv
    exact absurd (e.decodes.symm.trans hv) (by simp)

section
variable (hs : WellFormed c s)
include hs

theorem record_of_mem_range {id : ObjectId} {r : Bytes × Bytes}
    (hr : r ∈ s.range (buildEntryKey id Str.empty) (objectEnd id)) :
    ∃ e : StoredEntry c, r = e.record id := by
  obtain ⟨k, v⟩ := r
  obtain ⟨hget, hlo, hhi⟩ := mem_range.1 hr
  obtain ⟨id', rec, rfl, hok⟩ := hs k v hget
  have hid : id' = id := mem_objectRange_iff.1 ⟨(objectPrefix_le_recordKey id (.entry Str.empty)).trans hlo, hhi⟩
  subst hid
  obtain ⟨key, rfl⟩ := (entryKey_empty_le_recordKey_iff _ _).1 hlo
  obtain ⟨val, hval⟩ := Option.isSome_iff_exists.1 hok
  exact ⟨⟨key, v, val, hval⟩, rfl⟩

theorem range_eq_map_storedEntries (id : ObjectId) : s.range (buildEntryKey id Str.empty) (objectEnd id) =
      (storedEntries c s id).map (StoredEntry.record id) := by
  unfold storedEntries
  have h : ∀ r ∈ s.range (buildEntryKey id Str.empty) (objectEnd id), ∃ e : StoredEntry c, r = e.record id :=
    fun r hr => record_of_mem_range hs hr
  generalize s.range (buildEntryKey id Str.empty) (objectEnd id) = l at h
  induction l with
  | nil => rfl
  | cons r l ih =>
    obtain ⟨e, rfl⟩ := h r (by simp)
    rw [filterMap_cons_some (toStoredEntry_record id e), map_cons,
      ← ih fun r hr => h r (mem_cons_of_mem _ hr)]

theorem mem_storedEntries {id : ObjectId} {e : StoredEntry c} :
    e ∈ storedEntries c s id ↔ s.get (buildEntryKey id e.key) = some e.raw := by
  have hmem : e ∈ storedEntries c s id ↔ e.record id ∈ s.range (buildEntryKey id Str.empty) (objectEnd id) := by
    rw [range_eq_map_storedEntries hs, mem_map]
    constructor
    · exact fun h => ⟨e, h, rfl⟩
    · rintro ⟨e', he', h⟩
      have := toStoredEntry_record id e'
      rw [h, toStoredEntry_record id e] at this
      exact Option.some.inj this ▸ he'
  rw [hmem, StoredEntry.record, OrdMap.mem_range]
  constructor
  · exact fun h => h.1
  · intro h
    exact ⟨h, (entryKey_empty_le_recordKey_iff id (.entry e.key)).2 ⟨_, rfl⟩, recordKey_lt_rangeEnd id (.entry e.key)⟩

theorem storedEntries_sorted (id : ObjectId) :
    (storedEntries c s id).Pairwise fun a b => buildEntryKey id a.key < buildEntryKey id b.key := by
  have h := s.sorted_range (buildEntryKey id Str.empty) (objectEnd id)
  rw [range_eq_map_storedEntries hs, pairwise_map] at h
  exact h

end

theorem storedEntries_length_le (id : Str) : (storedEntries c s id).length ≤ s.toList.length :=
  (length_filterMap_le _ _).trans (length_filter_le _ _)

/-! ## The scan, uncut -/

def ListState.emit (id : Str) (p : Option Str) (st : ListState) (e : StoredEntry c) : ListState :=
  { st with
    prefixSeen := st.prefixSeen || p.isSome
    entries := st.entries ++ [e.pair]
    lastEmittedKey := some (buildEntryKey id e.key) }

def ListState.flag (st : ListState) (more : Bool) : ListState := { st with moreAvailable := more }

theorem ListState.flag_eq_self {st : ListState} {more : Bool} (h : st.moreAvailable = more) : st.flag more = st := by
  subst h; rfl

theorem ListState.noSkip_eq_self {st : ListState} (h : st.skipCursorMatch = false) :
    { st with skipCursorMatch := false } = st := by
  rw [← h]

def walk (id : Str) (p : Option Str) (limit : Nat) :
    List (StoredEntry c) → ListState → ListState × Option (List (StoredEntry c))
  | [], st => (st, none)
  | e :: es, st =>
    if hasKeyPrefix p e.key = false then
      if st.prefixSeen then ({ st with prefixExhausted := true }, none) else walk id p limit es st
    else if (st.emit id p e).entries.length = limit then (st.emit id p e, some es)
    else walk id p limit es (st.emit id p e)

def moreAfter (p : Option Str) (next rest : List (StoredEntry c)) : Bool :=
  match p with
  | none => !next.isEmpty || !rest.isEmpty
  | some p =>
    match next with
    | e :: _ => e.key.startsWith p || !rest.isEmpty
    | [] =>
      match rest with
      | e :: _ => e.key.startsWith p
      | [] => false

theorem additionalMatches_eq (id : ObjectId) (p : Option Str) (next rest : List (StoredEntry c)) :
    additionalMatches id p (next.map (StoredEntry.record id)).head?
      (rest.head?.map fun e => buildEntryKey id e.key) = .ok (moreAfter p next rest) := by
  cases p with
  | none => cases next <;> cases rest <;> rfl
  | some p =>
    cases next with
    | nil =>
      cases rest with
      | nil => rfl
      | cons e rest =>
        simp [additionalMatches, additionalMatches.cursorIsEntry, entryOf_entryKey, moreAfter, bind, Except.bind,
          pure, Except.pure]
    | cons e next =>
      cases rest with
      | nil =>
        simp only [additionalMatches, additionalMatches.cursorIsEntry, entryOf_entryKey, moreAfter, map_cons,
          head?_cons, head?_nil, StoredEntry.record, bind, Except.bind, pure, Except.pure, Option.map_none]
        cases e.key.startsWith p <;> rfl
      | cons e' rest =>
        simp [additionalMatches, additionalMatches.cursorIsEntry, entryOf_entryKey, moreAfter,
          StoredEntry.record, bind, Except.bind, pure, Except.pure]

section
variable (id : ObjectId) (p : Option Str) (limit : Nat)

theorem listChunk_eq_walk (scanStart : Bytes) (rest : List (StoredEntry c)) :
    ∀ (cs : List (StoredEntry c)) (st : ListState), st.skipCursorMatch = false → st.prefixExhausted = false →
    listChunk c id p limit scanStart (rest.head?.map fun e => buildEntryKey id e.key)
        (cs.map (StoredEntry.record id)) st =
      .ok (match walk id p limit cs st with
        | (st', some next) => (st'.flag (moreAfter p next rest), true)
        | (st', none) => (st', st'.prefixExhausted))
  | [], st, _, hex => by simp [listChunk, walk, hex, pure, Except.pure]
  | e :: cs, st, hskip, hex => by
    rw [map_cons, listChunk.eq_def]
    simp only [StoredEntry.record, hskip, Bool.false_eq_true, false_and, if_false, entryOf_entryKey, e.decodes,
      bind, Except.bind]
    unfold walk
    by_cases hp : hasKeyPrefix p e.key = false
    · rw [if_pos hp, if_pos hp]
      by_cases hseen : st.prefixSeen = true
      · simp [hseen, hskip, pure, Except.pure]
      · rw [if_neg (by simpa using hseen), if_neg hseen, ← hskip]
        exact listChunk_eq_walk scanStart rest cs st hskip hex
    · rw [if_neg hp, if_neg hp]
      have hemit : ({ st with
          prefixSeen := st.prefixSeen || p.isSome
          entries := st.entries ++ [(e.key, e.val)]
          lastEmittedKey := some (buildEntryKey id e.key)
          skipCursorMatch := false } : ListState) = st.emit id p e := by
        rw [← hskip]; rfl
      rw [hemit]
      by_cases hfull : (st.emit id p e).entries.length = limit
      · have hfull' : (st.entries ++ [(e.key, e.val)]).length = limit := hfull
        rw [if_pos hfull, if_pos hfull', additionalMatches_eq]
        simp only [pure, Except.pure]
        rw [← hskip]
        rfl
      · have hfull' : ¬ (st.entries ++ [(e.key, e.val)]).length = limit := hfull
        rw [if_neg hfull, if_neg hfull']
        exact listChunk_eq_walk scanStart rest cs (st.emit id p e) hskip hex

variable (es : List (StoredEntry c)) (st : ListState)

theorem walk_append (rest : List (StoredEntry c)) (hex : st.prefixExhausted = false) :
    walk id p limit (es ++ rest) st =
      match walk id p limit es st with
      | (st', some next) => (st', some (next ++ rest))
      | (st', none) => if st'.prefixExhausted then (st', none) else walk id p limit rest st' := by
  induction es generalizing st with
  | nil => simp [walk, hex]
  | cons e es ih =>
    rw [cons_append, walk, walk]
    split
    · split
      · rfl
      · exact ih st hex
    · split
      · rfl
      · exact ih (st.emit id p e) hex

theorem walk_frame : (walk id p limit es st).1.skipCursorMatch = st.skipCursorMatch ∧
    (walk id p limit es st).1.moreAvailable = st.moreAvailable := by
  induction es generalizing st with
  | nil => exact ⟨rfl, rfl⟩
  | cons e es ih =>
    unfold walk
    split
    · split
      · exact ⟨rfl, rfl⟩
      · exact ih st
    · split
      · exact ⟨rfl, rfl⟩
      · exact ih (st.emit id p e)

theorem walk_length_lt (hlt : st.entries.length < limit) (h : (walk id p limit es st).2 = none) :
    (walk id p limit es st).1.entries.length < limit := by
  induction es generalizing st with
  | nil => exact hlt
  | cons e es ih =>
    unfold walk at h ⊢
    by_cases hp : hasKeyPrefix p e.key = false
    · rw [if_pos hp] at h ⊢
      by_cases hseen : st.prefixSeen = true
      · rwa [if_pos hseen]
      · rw [if_neg hseen] at h ⊢
        exact ih st hlt h
    · rw [if_neg hp] at h ⊢
      by_cases hfull : (st.emit id p e).entries.length = limit
      · rw [if_pos hfull] at h
        cases h
      · rw [if_neg hfull] at h ⊢
        refine ih (st.emit id p e) ?_ h
        have hlength : (st.emit id p e).entries.length = st.entries.length + 1 := by simp [ListState.emit]
        omega

end

def FlagOk (p : Option Str) : Option (List (StoredEntry c)) → Bool → Prop
  | none, more => more = false
  | some [], more => more = false
  | some (e :: _), more => hasKeyPrefix p e.key = true → more = true

theorem flagOk_moreAfter (p : Option Str) (next rest : List (StoredEntry c)) :
    FlagOk p (some (next ++ rest)) (moreAfter p next rest) := by
  cases p <;> cases next <;> cases rest <;> simp [FlagOk, moreAfter, hasKeyPrefix]

def ScansAs (id : Str) (p : Option Str) (limit : Nat) (es : List (StoredEntry c)) (st : ListState)
    (out : Result ListState) : Prop :=
  ∃ st' more, out = .ok st' ∧
    { st' with skipCursorMatch := false } = (walk id p limit es { st with skipCursorMatch := false }).1.flag more ∧
    FlagOk p (walk id p limit es { st with skipCursorMatch := false }).2 more

def Passed (c : Codec Ev) (id : Str) (p : Option Str) (limit : Nat) (scanStart : Bytes) (extra : List (Bytes × Bytes))
    (es : List (StoredEntry c)) (st : ListState) : Prop :=
  ∀ storageCursor n, extra ++ (es.take (n + 1)).map (StoredEntry.record id) ≠ [] →
    listChunk c id p limit scanStart storageCursor (extra ++ (es.take (n + 1)).map (StoredEntry.record id)) st =
      listChunk c id p limit scanStart storageCursor ((es.take (n + 1)).map (StoredEntry.record id))
        { st with skipCursorMatch := false }

variable {es : List (StoredEntry c)} {limit : Nat} {cursor : Option Bytes} {p : Option Str} {id : Str}

theorem passed_nil {scanStart : Bytes}
    {st : ListState} (h : st.skipCursorMatch = false) : Passed c id p limit scanStart [] es st := by
  intro _ _ _
  rw [ListState.noSkip_eq_self h, nil_append]

theorem passed_cursor {st : ListState} (e : StoredEntry c) (h : st.skipCursorMatch = true) :
    Passed c id p limit (buildEntryKey id e.key) [e.record id] es st := by
  intro _ _ _
  rw [singleton_append, listChunk.eq_def]
  simp [StoredEntry.record, h]

theorem listLoop_walk (id : ObjectId) (p : Option Str) (limit : Nat) :
    ∀ (fuel : Nat) (scanStart : Bytes) (extra : List (Bytes × Bytes)) (es : List (StoredEntry c)) (st : ListState),
    s.range scanStart (objectEnd id) = extra ++ es.map (StoredEntry.record id) → scanStart ≤ objectEnd id →
    extra.length ≤ listScanSlack → Passed c id p limit scanStart extra es st → st.prefixExhausted = false →
    st.moreAvailable = false → st.entries.length < limit → es.length < fuel →
    ScansAs id p limit es st (listLoop c s id p limit fuel scanStart st)
  | 0, _, _, _, _, _, _, _, _, _, _, _, hfuel => absurd hfuel (Nat.not_lt_zero _)
  | fuel + 1, scanStart, extra, es, st, hrange, hle, hslack, hpass, hex, hmore, hlt, hfuel => by
    unfold listLoop
    rw [if_pos hlt]
    obtain ⟨m, hn⟩ : ∃ m, limit - st.entries.length + listScanSlack = extra.length + (m + 1) :=
      ⟨limit - st.entries.length + listScanSlack - extra.length - 1, by omega⟩
    have hdrop : ((es.map (StoredEntry.record id)).drop (m + 1)).head?.map Prod.fst =
        (es.drop (m + 1)).head?.map fun e => buildEntryKey id e.key := by
      rw [← map_drop, head?_map, Option.map_map]
      rfl
    simp only [hn, Store.scanRangePaginated, if_neg (not_lt.2 hle), page, hrange, take_length_add_append,
      drop_length_add_append, hdrop, ← map_take, liftPanic_ok, bind, Except.bind]
    by_cases hnil : extra ++ (es.take (m + 1)).map (StoredEntry.record id) = []
    · obtain ⟨rfl, rfl⟩ : extra = [] ∧ es = [] := by simpa using hnil
      exact ⟨st, false, rfl, by simp [walk, ListState.flag, hmore], rfl⟩
    rw [if_neg hnil, hpass _ m hnil, listChunk_eq_walk id p limit scanStart (es.drop (m + 1)) _
      { st with skipCursorMatch := false } rfl hex]
    have hwalk := walk_append id p limit (es.take (m + 1)) { st with skipCursorMatch := false } (es.drop (m + 1)) hex
    obtain ⟨hskip', hmore'⟩ := walk_frame id p limit (es.take (m + 1)) { st with skipCursorMatch := false }
    have hlt' := walk_length_lt id p limit (es.take (m + 1)) { st with skipCursorMatch := false } hlt
    rw [take_append_drop] at hwalk
    unfold ScansAs
    rw [hwalk]
    generalize walk id p limit (es.take (m + 1)) { st with skipCursorMatch := false } = w at hskip' hmore' hlt'
    obtain ⟨st', stop⟩ := w
    simp only [hmore] at hskip' hmore' hlt'
    cases stop with
    | some next =>
      refine ⟨_, moreAfter p next (es.drop (m + 1)), rfl, ListState.noSkip_eq_self hskip', ?_⟩
      exact flagOk_moreAfter p next _
    | none =>
      simp only [liftPanic_ok, ListState.noSkip_eq_self hskip']
      by_cases hex' : st'.prefixExhausted = true
      · refine ⟨st', false, by simp [hex', pure, Except.pure], ?_, by simp [hex', FlagOk]⟩
        rw [ListState.noSkip_eq_self hskip', if_pos hex', ListState.flag_eq_self hmore']
      · simp only [hex', Bool.false_eq_true, if_false]
        cases hr : es.drop (m + 1) with
        | nil =>
          refine ⟨st', false, rfl, ?_, rfl⟩
          simp [walk, ListState.noSkip_eq_self hskip', ListState.flag_eq_self hmore']
        | cons e rest =>
          have hsplit : s.range scanStart (objectEnd id) =
              (extra ++ (es.take (m + 1)).map (StoredEntry.record id)) ++ e.record id :: rest.map (StoredEntry.record id) := by
            rw [hrange, append_assoc, ← map_cons, ← hr, ← map_append, take_append_drop]
          have hlen : (e :: rest).length < fuel := by
            have hpos : 0 < (es.drop (m + 1)).length := by simp [hr]
            rw [← hr]
            rw [length_drop] at hpos ⊢
            omega
          have ih := listLoop_walk id p limit fuel (buildEntryKey id e.key) [] (e :: rest) st'
            (range_from_key hsplit) (recordKey_lt_rangeEnd id (.entry e.key)).le (Nat.zero_le _)
            (passed_nil hskip') (by simpa using hex') hmore' (hlt' rfl) hlen
          rwa [ScansAs, ListState.noSkip_eq_self hskip'] at ih

/-! ## The page as a run of matching entries -/

def fromFirstMatch (p : Option Str) (es : List (StoredEntry c)) : List (StoredEntry c) :=
  es.dropWhile fun e => !hasKeyPrefix p e.key

def firstRun (p : Option Str) (es : List (StoredEntry c)) : List (StoredEntry c) :=
  (fromFirstMatch p es).takeWhile fun e => hasKeyPrefix p e.key

theorem hasKeyPrefix_of_mem_firstRun {e : StoredEntry c} (h : e ∈ firstRun p es) : hasKeyPrefix p e.key = true :=
  mem_takeWhile_imp (p := fun e : StoredEntry c => hasKeyPrefix p e.key) h

structure WalkEnds (id : Str) (st : ListState) (k : Nat) (run es : List (StoredEntry c))
    (w : ListState × Option (List (StoredEntry c))) : Prop where
  short : run.length < k → w.1.entries = st.entries ++ run.map StoredEntry.pair ∧ w.2 = none
  full : k ≤ run.length → w.1.entries = st.entries ++ (run.take k).map StoredEntry.pair ∧
    w.1.lastEmittedKey = (run.take k).getLast?.map (fun e => buildEntryKey id e.key) ∧
    w.1.prefixExhausted = st.prefixExhausted ∧ w.2 = some (es.drop k)

theorem walk_ends (id : Str) (p : Option Str) (limit : Nat) :
    ∀ (es : List (StoredEntry c)) (st : ListState), st.entries.length < limit →
    (st.prefixSeen = true → p.isSome = true) →
    (st.prefixSeen = p.isSome ∨ ∀ e ∈ es.head?, hasKeyPrefix p e.key = true) →
    WalkEnds id st (limit - st.entries.length) (es.takeWhile fun e => hasKeyPrefix p e.key) es
      (walk id p limit es st)
  | [], st, hlt, _, _ =>
    { short := fun _ => by simp [walk]
      full := fun h => by simp at h; omega }
  | e :: es, st, hlt, hsome, hseen => by
    unfold walk
    by_cases hp : hasKeyPrefix p e.key = true
    · have hlen : (st.emit id p e).entries.length = st.entries.length + 1 := by simp [ListState.emit]
      rw [takeWhile_cons_of_pos (p := fun e : StoredEntry c => hasKeyPrefix p e.key) hp, if_neg (by simp [hp])]
      by_cases hfull : (st.emit id p e).entries.length = limit
      · rw [if_pos hfull, show limit - st.entries.length = 1 by omega]
        exact
          { short := fun h => by simp at h
            full := fun _ => by simp [ListState.emit] }
      · rw [if_neg hfull]
        have ih := walk_ends id p limit es (st.emit id p e) (by omega)
          (by simp only [ListState.emit, Bool.or_eq_true]; exact fun h => h.elim hsome fun h => h)
          (Or.inl (by simp only [ListState.emit]; cases hs : st.prefixSeen <;> simp_all))
        rw [hlen] at ih
        obtain ⟨k, hk⟩ : ∃ k, limit - st.entries.length = k + 2 := ⟨limit - st.entries.length - 2, by omega⟩
        rw [show limit - (st.entries.length + 1) = k + 1 by omega] at ih
        rw [hk]
        constructor
        · intro h
          obtain ⟨h1, h2⟩ := ih.short (by simpa using h)
          exact ⟨by rw [h1]; simp [ListState.emit], h2⟩
        · intro h
          obtain ⟨h1, h2, h3, h4⟩ := ih.full (by simpa using h)
          refine ⟨by rw [h1]; simp [ListState.emit], ?_, h3, h4⟩
          rw [h2]
          cases hrun : es.takeWhile fun e => hasKeyPrefix p e.key with
          | nil => simp [hrun] at h
          | cons a l => simp [getLast?_cons_cons]
    · rw [takeWhile_cons_of_neg (p := fun e : StoredEntry c => hasKeyPrefix p e.key) hp, if_pos (by simpa using hp)]
      -- A mismatch is met first only where a prefix was asked for and a match was seen.
      have hs : st.prefixSeen = true := by
        rcases hseen with h | h
        · rw [h]
          cases p with
          | none => simp [hasKeyPrefix] at hp
          | some p => rfl
        · exact absurd (h e rfl) hp
      rw [if_pos hs]
      exact
        { short := fun _ => by simp
          full := fun h => by simp at h; omega }

theorem walk_fromFirstMatch (id : Str) (p : Option Str) (limit : Nat) (st : ListState)
    (hseen : st.prefixSeen = false) (es : List (StoredEntry c)) :
    walk id p limit es st = walk id p limit (fromFirstMatch p es) st := by
  induction es with
  | nil => rfl
  | cons e es ih =>
    by_cases hp : hasKeyPrefix p e.key = true
    · rw [fromFirstMatch, dropWhile_cons_of_neg (by simp [hp])]
    · rw [fromFirstMatch, dropWhile_cons_of_pos (by simpa using hp), walk, if_pos (by simpa using hp),
        if_neg (by simp [hseen])]
      exact ih

theorem head_fromFirstMatch (p : Option Str) (es : List (StoredEntry c)) :
    ∀ e ∈ (fromFirstMatch p es).head?, hasKeyPrefix p e.key = true := by
  intro e he
  have := head?_dropWhile_not (fun e : StoredEntry c => !hasKeyPrefix p e.key) es
  rw [fromFirstMatch] at he
  rw [Option.mem_def.1 he] at this
  simpa using this

theorem walk_init (id : Str) (p : Option Str) (hl : 0 < limit) (cursor : Option Bytes) (es : List (StoredEntry c)) :
    WalkEnds id (ListState.init none) limit (firstRun p es) (fromFirstMatch p es)
      (walk id p limit es { ListState.init cursor with skipCursorMatch := false }) := by
  rw [walk_fromFirstMatch id p limit _ rfl es]
  exact walk_ends id p limit (fromFirstMatch p es) (ListState.init none) hl (by simp [ListState.init])
    (Or.inr (head_fromFirstMatch p es))

/-! ## One call -/

def CursorAt (c : Codec Ev) (s : Store) (id : Str) (cursor : Option Bytes) (es : List (StoredEntry c)) : Prop :=
  (cursor = none ∧ es = storedEntries c s id) ∨
    ∃ done e, storedEntries c s id = done ++ e :: es ∧ cursor = some (buildEntryKey id e.key)

theorem scanStartOf_entryKey (id : ObjectId) (key : Str) :
    scanStartOf id (some (buildEntryKey id key)) = .ok (buildEntryKey id key) := by
  have h := parseGranularKey_recordKey id (.entry key)
  simp only [recordKey] at h
  simp [scanStartOf, h, bind, Except.bind, pure, Except.pure]

theorem listLoop_of_cursorAt (hs : WellFormed c s) {id : ObjectId} (hc : CursorAt c s id cursor es) (p : Option Str) (hl : 0 < limit) :
    ∃ scanStart, scanStartOf id cursor = .ok scanStart ∧ ScansAs id p limit es (ListState.init cursor)
      (listLoop c s id p limit (s.toList.length + 1) scanStart (ListState.init cursor)) := by
  rcases hc with ⟨rfl, rfl⟩ | ⟨done, e, hsplit, rfl⟩
  · refine ⟨_, rfl, listLoop_walk id p limit _ _ [] _ _ (range_eq_map_storedEntries hs id) ?_ (Nat.zero_le _)
      (passed_nil rfl) rfl rfl hl (Nat.lt_succ_of_le (storedEntries_length_le _))⟩
    exact (recordKey_lt_rangeEnd id (.entry Str.empty)).le
  · have hlen := storedEntries_length_le (c := c) (s := s) id
    rw [hsplit, length_append, length_cons] at hlen
    have hr := range_eq_map_storedEntries hs id
    rw [hsplit, map_append, map_cons] at hr
    refine ⟨_, scanStartOf_entryKey id e.key, listLoop_walk id p limit _ _ [e.record id] es _
      (range_from_key hr) ?_ (by simp [listScanSlack]) (passed_cursor e rfl) rfl rfl hl (by omega)⟩
    exact (recordKey_lt_rangeEnd id (.entry e.key)).le

def pageSize (limit : Nat) : Nat := min limit maxListLimit

theorem pageSize_pos (hl : limit ≠ 0) : 0 < pageSize limit := by
  unfold pageSize maxListLimit; omega

def cursorAfter (id : Str) (page : List (StoredEntry c)) : Option Bytes :=
  page.getLast?.map fun e => buildEntryKey id e.key

/-- **One page**: the first run of matches of `es`, cut at the limit. The cursor is absent when the run ended inside the
page and present when it goes on behind it. -/
def IsPage (c : Codec Ev) (s : Store) (id : Str) (p : Option Str) (limit : Nat) (cursor : Option Bytes)
    (es : List (StoredEntry c)) : Prop :=
  ∃ more : Bool,
    listEntries c s id ⟨p, limit, cursor⟩ =
      .ok ⟨((firstRun p es).take (pageSize limit)).map StoredEntry.pair,
        if more then cursorAfter id ((firstRun p es).take (pageSize limit)) else none⟩ ∧
    ((firstRun p es).length < pageSize limit → more = false) ∧
    (pageSize limit < (firstRun p es).length → more = true) ∧
    ((fromFirstMatch p es).length = pageSize limit → more = false)

theorem listEntries_of_loop {scanStart : Bytes} (hl : limit ≠ 0) (hstart : scanStartOf id cursor = .ok scanStart)
    (hloop : ScansAs id p (pageSize limit) es (ListState.init cursor)
      (listLoop c s id p (pageSize limit) (s.toList.length + 1) scanStart (ListState.init cursor))) :
    IsPage c s id p limit cursor es := by
  obtain ⟨st, more, hloop, hst, hflag⟩ := hloop
  have hends := walk_init id p (pageSize_pos hl) cursor es
  generalize walk id p (pageSize limit) es { ListState.init cursor with skipCursorMatch := false } = w at *
  simp only [ListState.flag, ListState.mk.injEq] at hst
  obtain ⟨hentries, hlast, hmore, _, hexhausted, _⟩ := hst
  have hcall : listEntries c s id ⟨p, limit, cursor⟩ = .ok ⟨w.1.entries,
      if (if w.1.prefixExhausted then false else more) then w.1.lastEmittedKey else none⟩ := by
    simp only [listEntries, if_neg hl, hstart, liftPanic_ok, bind, Except.bind]
    rw [← pageSize, hloop]
    simp only [hentries, hlast, hexhausted, hmore]
    rfl
  rcases Nat.lt_or_ge (firstRun p es).length (pageSize limit) with hlt | hge
  · obtain ⟨h1, h2⟩ := hends.short hlt
    have hfalse : more = false := by simpa [h2, FlagOk] using hflag
    refine ⟨false, ?_, fun _ => rfl, fun h => absurd h (by omega), fun _ => rfl⟩
    rw [hcall, h1, hfalse, take_of_length_le hlt.le]
    simp [ListState.init]
  · obtain ⟨h1, h2, h3, h4⟩ := hends.full hge
    rw [h4] at hflag
    refine ⟨more, ?_, fun h => absurd h (by omega), fun h => ?_, fun h => ?_⟩
    · rw [hcall, h1, h2, h3]
      simp [ListState.init, cursorAfter]
    · -- The entry behind the page is the next one of the run.
      have hrun : firstRun p es <+: fromFirstMatch p es := takeWhile_prefix _
      obtain ⟨t, ht⟩ := hrun
      have hdrop : (fromFirstMatch p es).drop (pageSize limit) =
          (firstRun p es)[pageSize limit] :: ((firstRun p es).drop (pageSize limit + 1) ++ t) := by
        rw [← ht, drop_append_of_le_length (by omega), drop_eq_getElem_cons h, cons_append]
      rw [hdrop] at hflag
      exact hflag (hasKeyPrefix_of_mem_firstRun (getElem_mem h))
    · rw [drop_eq_nil_of_le (by omega)] at hflag
      exact hflag

theorem listEntries_page (hs : WellFormed c s) {id : ObjectId} (hc : CursorAt c s id cursor es) (p : Option Str) (hl : limit ≠ 0) :
    IsPage c s id p limit cursor es := by
  obtain ⟨scanStart, hstart, hloop⟩ := listLoop_of_cursorAt hs hc p (pageSize_pos hl)
  exact listEntries_of_loop hl hstart hloop

theorem cursorAt_next {n : Nat} (hc : CursorAt c s id cursor es) (hpos : 0 < n) (hn : n ≤ (firstRun p es).length) :
    ∃ next, cursorAfter id ((firstRun p es).take n) = some next ∧
      CursorAt c s id (some next) ((fromFirstMatch p es).drop n) := by
  obtain ⟨t, ht⟩ : firstRun p es <+: fromFirstMatch p es := takeWhile_prefix _
  obtain ⟨t', ht'⟩ : fromFirstMatch p es <:+ es := dropWhile_suffix _
  have hne : (firstRun p es).take n ≠ [] := by
    rw [ne_eq, take_eq_nil_iff]
    rintro (h | h)
    · omega
    · rw [h] at hn; simp at hn; omega
  obtain ⟨page, e, hpage⟩ := (eq_nil_or_concat' ((firstRun p es).take n)).resolve_left hne
  have hsplit : es = (t' ++ page) ++ e :: (fromFirstMatch p es).drop n := by
    conv_lhs => rw [← ht', ← take_append_drop n (fromFirstMatch p es)]
    rw [show (fromFirstMatch p es).take n = page ++ [e] by
      rw [← hpage, ← ht, take_append_of_le_length hn]]
    simp
  have hcur : cursorAfter id ((firstRun p es).take n) = some (buildEntryKey id e.key) := by
    rw [hpage, cursorAfter]; simp
  refine ⟨_, hcur, ?_⟩
  rcases hc with ⟨_, hes⟩ | ⟨done, e', hes, _⟩
  · exact Or.inr ⟨t' ++ page, e, by rw [← hes]; exact hsplit, rfl⟩
  · refine Or.inr ⟨done ++ e' :: (t' ++ page), e, ?_, rfl⟩
    rw [hes, append_assoc, cons_append]
    conv_lhs => rw [hsplit]

end

end Odgm
