import OaasIot.Odgm.PrefixListing

/-!
# Counting and reconstruction

`count_entries` and `reconstruct_object_from_entries` drive `list_entries` without a prefix. Every
entry then matches, the first run is all that is left, and the `more_available` flag is exact, so the
two loops are inductions over the entries left.
-/

namespace Odgm

open List OrdMap

section
variable {Ev : Type} {c : Codec Ev} {s : Store}

@[simp] theorem fromFirstMatch_none (es : List (StoredEntry c)) : fromFirstMatch none es = es := by
  cases es <;> rfl

@[simp] theorem firstRun_none (es : List (StoredEntry c)) : firstRun none es = es := by
  rw [firstRun, fromFirstMatch_none]
  exact takeWhile_eq_self_iff.2 fun _ _ => rfl

theorem listEntries_all (hs : WellFormed c s) {id : ObjectId} {cursor : Option Bytes}
    {es : List (StoredEntry c)} (hc : CursorAt c s id cursor es) (limit : Nat) (hl : limit ≠ 0) :
    (es.length ≤ pageSize limit →
      listEntries c s id ⟨none, limit, cursor⟩ = .ok ⟨es.map StoredEntry.pair, none⟩) ∧
    (pageSize limit < es.length → ∃ next,
      listEntries c s id ⟨none, limit, cursor⟩ = .ok ⟨(es.take (pageSize limit)).map StoredEntry.pair, some next⟩ ∧
      cursor ≠ some next ∧ CursorAt c s id (some next) (es.drop (pageSize limit))) := by
  obtain ⟨more, hcall, hshort, hlong, hexact⟩ := listEntries_page hs hc none hl
  simp only [firstRun_none, fromFirstMatch_none] at hcall hshort hlong hexact
  constructor
  · intro hle
    have hmore : more = false := by
      rcases hle.lt_or_eq with h | h
      · exact hshort h
      · exact hexact h
    rw [hcall, hmore, take_of_length_le hle]
    rfl
  · intro hlt
    have hpos := pageSize_pos hl
    obtain ⟨next, hcur, hnext⟩ := cursorAt_next (p := none) hc hpos (by rw [firstRun_none]; exact hlt.le)
    simp only [firstRun_none, fromFirstMatch_none] at hcur hnext
    refine ⟨next, by rw [hcall, hlong hlt, if_pos rfl, hcur], ?_, hnext⟩
    -- The cursor is the key of an earlier entry than the one the page ends with.
    rcases hc with ⟨rfl, _⟩ | ⟨done, e, hsplit, rfl⟩
    · simp
    · intro heq
      obtain ⟨last, hlast, hkey⟩ := Option.map_eq_some_iff.1 hcur
      have hmem : last ∈ es := mem_of_mem_take (mem_of_getLast? hlast)
      have hsorted := storedEntries_sorted hs id
      rw [hsplit] at hsorted
      have hlt' := (pairwise_cons.1 (pairwise_append.1 hsorted).2.1).1 last hmem
      rw [hkey, ← Option.some.inj heq] at hlt'
      exact lt_irrefl _ hlt'

/-! ## `count_entries` -/

theorem countLoop_eq (hs : WellFormed c s) (id : ObjectId) :
    ∀ (fuel total : Nat) (cursor : Option Bytes) (es : List (StoredEntry c)), CursorAt c s id cursor es →
      es.length < fuel → countLoop c s id fuel total cursor = .ok (total + es.length)
  | 0, _, _, _, _, hfuel => absurd hfuel (Nat.not_lt_zero _)
  | fuel + 1, total, cursor, es, hc, hfuel => by
    obtain ⟨hlast, hmore⟩ := listEntries_all hs hc maxListLimit (by decide)
    unfold countLoop
    by_cases hle : es.length ≤ pageSize maxListLimit
    · simp [hlast hle, bind, Except.bind, pure, Except.pure]
    · have hgt := not_le.1 hle
      have hpos : 0 < pageSize maxListLimit := by decide
      obtain ⟨next, hcall, _, hnext⟩ := hmore hgt
      have ih := countLoop_eq hs id fuel (total + (es.take (pageSize maxListLimit)).length) (some next) _ hnext
        (by rw [length_drop]; omega)
      simp only [hcall, bind, Except.bind, length_map, ih, Except.ok.injEq]
      rw [length_take, length_drop]
      omega

theorem countEntries_eq (hs : WellFormed c s) (id : ObjectId) :
    countEntries c s id = .ok (storedEntries c s id).length := by
  have := countLoop_eq hs id (s.toList.length + 1) 0 none _ (Or.inl ⟨rfl, rfl⟩)
    (Nat.lt_succ_of_le (storedEntries_length_le _))
  rwa [Nat.zero_add] at this

/-! ## The entries as a map -/

def entryMap (c : Codec Ev) (s : Store) (id : Str) : OrdMap Str ObjectVal :=
  OrdMap.empty.insertMany ((storedEntries c s id).map StoredEntry.pair)

theorem nodup_keys (hs : WellFormed c s) (id : ObjectId) :
    (((storedEntries c s id).map StoredEntry.pair).map Prod.fst).Nodup := by
  rw [map_map]
  refine pairwise_map.2 ((storedEntries_sorted hs id).imp ?_)
  intro a b hlt heq
  simp only [Function.comp, StoredEntry.pair] at heq
  rw [heq] at hlt
  exact lt_irrefl _ hlt

theorem getEntry_eq_entryMap (hs : WellFormed c s) (id : ObjectId) (k : Str) :
    getEntry c s id k = .ok ((entryMap c s id).get k) := by
  by_cases hk : k ∈ ((storedEntries c s id).map StoredEntry.pair).map Prod.fst
  · obtain ⟨⟨_, v⟩, hmem, rfl⟩ := mem_map.1 hk
    rw [entryMap, get_insertMany_of_mem _ (nodup_keys hs id) hmem]
    exact (mem_map_pair hs).1 hmem
  · rw [entryMap, get_insertMany_of_notMem _ hk, get_empty]
    have hnone : s.get (buildEntryKey id k) = none := by
      by_contra hne
      obtain ⟨e, he, rfl⟩ := (get_ne_none_iff hs).1 hne
      exact hk (mem_map.2 ⟨e.pair, mem_map.2 ⟨e, he, rfl⟩, rfl⟩)
    simp [getEntry, hnone]

theorem length_entryMap (hs : WellFormed c s) (id : ObjectId) :
    (entryMap c s id).toList.length = (storedEntries c s id).length := by
  rw [entryMap, length_insertMany _ (nodup_keys hs id) fun k _ => get_empty k, length_map]
  exact Nat.zero_add _

/-! ## `reconstruct_object_from_entries` -/

variable {prefetch : Nat}

theorem reconstructLoop_eq (hs : WellFormed c s) (id : ObjectId) (hp : prefetch ≠ 0) :
    ∀ (pages : Nat) (entries : OrdMap Str ObjectVal) (cursor : Option Bytes) (es : List (StoredEntry c)),
      CursorAt c s id cursor es → 0 < pages → es.length ≤ pages * pageSize prefetch →
      reconstructLoop c s id prefetch pages entries cursor = .ok (entries.insertMany (es.map StoredEntry.pair))
  | 0, _, _, _, _, hpages, _ => absurd hpages (Nat.lt_irrefl 0)
  | pages + 1, entries, cursor, es, hc, _, hle => by
    obtain ⟨hlast, hmore⟩ := listEntries_all hs hc prefetch hp
    unfold reconstructLoop
    by_cases hone : es.length ≤ pageSize prefetch
    · simp [hlast hone, bind, Except.bind, pure, Except.pure]
    · have hgt := not_le.1 hone
      obtain ⟨next, hcall, hne, hnext⟩ := hmore hgt
      have hpages : 0 < pages := by
        rcases Nat.eq_zero_or_pos pages with rfl | h
        · simp at hle; omega
        · exact h
      have hle' : (es.drop (pageSize prefetch)).length ≤ pages * pageSize prefetch := by
        rw [length_drop]
        rw [Nat.succ_mul] at hle
        omega
      have ih := reconstructLoop_eq hs id hp pages
        (entries.insertMany ((es.take (pageSize prefetch)).map StoredEntry.pair)) (some next) _ hnext hpages hle'
      simp only [hcall, bind, Except.bind, if_neg hne, ih]
      rw [← insertMany_append, ← map_append, take_append_drop]

theorem reconstructLoop_exceeded (hs : WellFormed c s) (id : ObjectId) (hp : prefetch ≠ 0) :
    ∀ (pages : Nat) (entries : OrdMap Str ObjectVal) (cursor : Option Bytes) (es : List (StoredEntry c)),
      CursorAt c s id cursor es → pages * pageSize prefetch < es.length →
      reconstructLoop c s id prefetch pages entries cursor =
        .error (.err (.configurationError "granular reconstruction exceeded pagination bounds"))
  | 0, _, _, _, _, _ => rfl
  | pages + 1, entries, cursor, es, hc, hlt => by
    have hgt : pageSize prefetch < es.length := by
      rw [Nat.succ_mul] at hlt
      omega
    obtain ⟨next, hcall, hne, hnext⟩ := (listEntries_all hs hc prefetch hp).2 hgt
    unfold reconstructLoop
    simp only [hcall, bind, Except.bind, if_neg hne]
    exact reconstructLoop_exceeded hs id hp pages _ (some next) _ hnext (by
      rw [length_drop]
      rw [Nat.succ_mul] at hlt
      omega)

def reconstructed (metadata : Option ObjectMetadata) (entries : OrdMap Str ObjectVal) (event : Option Ev) :
    Option (ObjectData Ev) :=
  match metadata with
  | some m => if m.tombstone then none else some ⟨m.objectVersion, entries, event⟩
  | none => if entries.toList = [] then none else some ⟨0, entries, event⟩

variable {metadata : Option ObjectMetadata}

theorem reconstructObject_eq (hs : WellFormed c s) (id : ObjectId) (hp : prefetch ≠ 0)
    (hle : (storedEntries c s id).length ≤ maxPages * pageSize prefetch) (hm : getMetadata s id = .ok metadata) :
    reconstructObjectFromEntries c s id prefetch =
      .ok (reconstructed metadata (entryMap c s id) (getEventConfig c s id)) := by
  have hloop := reconstructLoop_eq hs id hp maxPages empty none _ (Or.inl ⟨rfl, rfl⟩) (by decide) hle
  rw [← entryMap] at hloop
  unfold reconstructObjectFromEntries reconstructed
  simp only [if_neg hp, hloop, hm, bind, Except.bind, pure, Except.pure]
  cases metadata with
  | none => by_cases he : (entryMap c s id).toList = [] <;> simp [he]
  | some m =>
    by_cases he : (entryMap c s id).toList = [] <;> cases ht : m.tombstone <;> simp [he, ht]

theorem reconstructObject_exceeded (hs : WellFormed c s) (id : ObjectId) (hp : prefetch ≠ 0)
    (hlt : maxPages * pageSize prefetch < (storedEntries c s id).length) :
    reconstructObjectFromEntries c s id prefetch =
      .error (.err (.configurationError "granular reconstruction exceeded pagination bounds")) := by
  have hloop := reconstructLoop_exceeded hs id hp maxPages empty none _ (Or.inl ⟨rfl, rfl⟩) hlt
  simp only [reconstructObjectFromEntries, if_neg hp, hloop, bind, Except.bind]

theorem reconstructObject_ok (hs : WellFormed c s) (id : ObjectId) {found : Option (ObjectData Ev)}
    (h : reconstructObjectFromEntries c s id prefetch = .ok found) (hm : getMetadata s id = .ok metadata) :
    prefetch ≠ 0 ∧ (storedEntries c s id).length ≤ maxPages * pageSize prefetch ∧
      found = reconstructed metadata (entryMap c s id) (getEventConfig c s id) := by
  by_cases hp : prefetch = 0
  · rw [reconstructObjectFromEntries, if_pos hp] at h
    cases h
  · by_cases hle : (storedEntries c s id).length ≤ maxPages * pageSize prefetch
    · rw [reconstructObject_eq hs id hp hle hm] at h
      exact ⟨hp, hle, (Except.ok.inj h).symm⟩
    · rw [reconstructObject_exceeded hs id hp (Nat.lt_of_not_le hle)] at h
      cases h

theorem reconstructed_eq_some {entries : OrdMap Str ObjectVal} {event : Option Ev} {obj : ObjectData Ev}
    (h : reconstructed metadata entries event = some obj) : obj.entries = entries ∧ obj.event = event := by
  cases metadata with
  | none | some m =>
    simp only [reconstructed] at h
    split at h <;> cases h
    exact ⟨rfl, rfl⟩

theorem reconstructed_ne_none_iff {entries : OrdMap Str ObjectVal} {event : Option Ev} :
    reconstructed metadata entries event ≠ none ↔
      (metadata.getD .default).tombstone = false ∧ (metadata ≠ none ∨ entries.toList ≠ []) := by
  cases metadata with
  | none => simp [reconstructed, ObjectMetadata.default]
  | some m => simp [reconstructed]

theorem getMetadata_of_wellFormed (hs : WellFormed c s) (id : ObjectId) :
    ∃ metadata, getMetadata s id = .ok metadata := by
  unfold getMetadata
  cases hget : s.get (buildMetadataKey id) with
  | none => exact ⟨none, rfl⟩
  | some value =>
    obtain ⟨m, hm⟩ := Option.isSome_iff_exists.1 (hs.of_recordKey id .metadata hget)
    exact ⟨some m, by simp [hm]⟩

/-- **Object reconstruction is exact** on a live object within the page bound, and `count_entries` is its size. -/
theorem reconstruct_live_exact (st : GranularStore c) (id : ObjectId) (prefetch : Nat) (hp : 1 ≤ prefetch)
    (hpages : (storedEntries c st.raw id).length ≤ maxPages * pageSize prefetch) {m : ObjectMetadata}
    (hm : getMetadata st.raw id = .ok (some m)) (hlive : m.tombstone = false) :
    ∃ obj, reconstructObjectFromEntries c st.raw id prefetch = .ok (some obj) ∧
      (∀ k, getEntry c st.raw id k = .ok (obj.entries.get k)) ∧
      obj.lastUpdated = m.objectVersion ∧ obj.event = getEventConfig c st.raw id ∧
      countEntries c st.raw id = .ok obj.entries.toList.length := by
  refine ⟨⟨m.objectVersion, entryMap c st.raw id, getEventConfig c st.raw id⟩, ?_, ?_, rfl, rfl, ?_⟩
  · rw [reconstructObject_eq st.wf id (by omega) hpages hm, reconstructed, if_neg (by simp [hlive])]
  · exact getEntry_eq_entryMap st.wf id
  · rw [countEntries_eq st.wf id, length_entryMap st.wf id]

end

namespace LiveObject

def id : ObjectId := ⟨⟨[111], Str.valid_o, Str.short_o⟩, ObjectId.nulFree_o⟩
def key : Str := ⟨[107], Str.valid_k, Str.short_k⟩
def value : ObjectVal := ⟨[1, 2], .byte, short_12⟩

def store : GranularStore Postcard.codec :=
  (((GranularStore.empty _).putVersion id 2 false).putEntry id key value).putEntry id Str.empty value

theorem reconstruct_live_exact_store :
    ∃ obj, reconstructObjectFromEntries Postcard.codec store.raw id 1 = .ok (some obj) ∧
      (∀ k, getEntry Postcard.codec store.raw id k = .ok (obj.entries.get k)) ∧ obj.lastUpdated = 2 ∧
      obj.event = getEventConfig Postcard.codec store.raw id ∧
      countEntries Postcard.codec store.raw id = .ok obj.entries.toList.length :=
  reconstruct_live_exact store id 1 (by decide) (by decide) (m := ⟨2, false, []⟩) (by decide) rfl

end LiveObject

end Odgm
