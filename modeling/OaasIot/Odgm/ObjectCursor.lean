import OaasIot.Odgm.ObjectListing
import OaasIot.Storage.Backends

/-!
# Cursors of object listings (`entry_store_impl.rs:792-918`, `memory.rs:729-760`)

`list_objects` takes its cursor as the start of a range that ends at `[FF]`. No record has a key that great, but a
client may send one, and then the `BTreeMap` of the memory backend panics, as soon as it has a root.
-/

namespace Odgm

open List OrdMap

/-! ## The memory backend of a shard -/

structure ShardMemory {Ev : Type} (c : Codec Ev) extends DpStorage.MemoryStorage where
  rooted_of_ne : data ≠ .empty → rooted = true
  wf : WellFormed c data

namespace ShardMemory

variable {Ev : Type} {c : Codec Ev} (mem : ShardMemory c)

def scanRangePaginated (start stop : Bytes) (limit : Nat) : Except Panic (List (Bytes × Bytes) × Option Bytes) :=
  match mem.rangePanic (.included start) (.excluded stop) with
  | some _ => .error .rangeStart
  | none => .ok (mem.data.page start stop limit)

def listObjectsLoop (idPrefix : Option Str) (limit : Nat) : Nat → Bytes → ObjectListState → Result ObjectListState
  | 0, _, _ => .error .diverge
  | fuel + 1, currentStart, st => do
    let (chunk, storageCursor) ← liftPanic (mem.scanRangePaginated currentStart [0xFF]
      (limit - st.objects.length + listScanSlack))
    if chunk = [] then pure st
    else
      let (st, left) ← listObjectsChunk c mem.data idPrefix limit currentStart chunk st
      if left then pure st
      else
        match storageCursor with
        | some next => listObjectsLoop idPrefix limit fuel next st
        | none => pure st

def listObjects (options : ObjectListOptions) : Result ObjectListResult :=
  if options.limit = 0 then pure ⟨[], options.cursor⟩
  else do
    let limit := min options.limit maxListLimit
    let st ← mem.listObjectsLoop options.objectIdPrefix limit (mem.data.toList.length + 1) (options.cursor.getD [0x00])
      { objects := [], lastEmittedKey := none, prefixSeen := false, skipCursorMatch := options.cursor.isSome }
    pure ⟨st.objects, if limit ≤ st.objects.length then st.lastEmittedKey else none⟩

variable {mem}

theorem scanRangePaginated_rooted (h : mem.rooted = true) (start stop : Bytes) (limit : Nat) :
    mem.scanRangePaginated start stop limit = mem.data.scanRangePaginated start stop limit := by
  unfold scanRangePaginated DpStorage.MemoryStorage.rangePanic Store.scanRangePaginated
  by_cases hcrossed : stop < start
  · rw [if_pos ⟨h, hcrossed⟩, if_pos hcrossed]
  · rw [if_neg fun hbad => hcrossed hbad.2, if_neg hcrossed]

theorem listObjectsLoop_rooted (h : mem.rooted = true) (p : Option Str) (limit fuel : Nat) (start : Bytes)
    (st : ObjectListState) :
    mem.listObjectsLoop p limit fuel start st = Odgm.listObjectsLoop c mem.data p limit fuel start st := by
  induction fuel generalizing start st with
  | zero => rfl
  | succ fuel ih =>
    unfold listObjectsLoop Odgm.listObjectsLoop
    rw [scanRangePaginated_rooted h]
    refine bind_congr ?_
    rintro ⟨chunk, cursor⟩
    refine ite_congr rfl (fun _ => rfl) fun _ => bind_congr ?_
    rintro ⟨st, left⟩
    refine ite_congr rfl (fun _ => rfl) fun _ => ?_
    cases cursor with
    | some next => exact ih next st
    | none => rfl

theorem listObjects_rooted (h : mem.rooted = true) (options : ObjectListOptions) :
    mem.listObjects options = Odgm.listObjects c mem.data options := by
  unfold listObjects Odgm.listObjects
  simp only [listObjectsLoop_rooted h]

theorem data_of_unrooted (mem : ShardMemory c) (h : mem.rooted = false) : mem.data = .empty := by
  by_contra hne
  rw [mem.rooted_of_ne hne] at h
  cases h

theorem listObjects_unrooted (h : mem.rooted = false) {options : ObjectListOptions} (hl : options.limit ≠ 0) :
    mem.listObjects options = .ok ⟨[], none⟩ := by
  have hpage : ∀ start n, mem.scanRangePaginated start [0xFF] n = .ok ([], none) := by
    intro start n
    unfold scanRangePaginated DpStorage.MemoryStorage.rangePanic
    rw [if_neg (by simp [h]), mem.data_of_unrooted h]
    simp [OrdMap.page, OrdMap.range, OrdMap.empty]
  have hlimit : ¬ min options.limit maxListLimit ≤ 0 := by
    unfold maxListLimit
    omega
  simp only [listObjects, if_neg hl, listObjectsLoop, hpage, liftPanic_ok, bind, Except.bind, if_true, pure, Except.pure,
    length_nil, if_neg hlimit]

end ShardMemory

/-! ## The page behind a cursor -/

section
variable {Ev : Type} {c : Codec Ev} {s : Store}

def recordsAfter (cursor : Bytes) (all : List (StoredRecord c)) : List (StoredRecord c) :=
  all.filter fun r => cursor < r.rawKey

variable {p : Option Str} {limit : Nat}

theorem listObjectsChunk_noSkip {start : Bytes} {r : Bytes × Bytes} (chunk : List (Bytes × Bytes))
    (st : ObjectListState) (h : r.1 ≠ start) :
    listObjectsChunk c s p limit start (r :: chunk) st =
      listObjectsChunk c s p limit start (r :: chunk) { st with skipCursorMatch := false } := by
  rw [listObjectsChunk.eq_def]
  conv_rhs => rw [listObjectsChunk.eq_def]
  simp [h]

variable {all : List (StoredRecord c)}

theorem range_after (hall : s.toList = all.map StoredRecord.record) (start : Bytes) :
    s.range start [0xFF] = (all.filter fun r => start ≤ r.rawKey).map StoredRecord.record := by
  rw [OrdMap.range, hall, filter_map]
  congr 1
  apply filter_congr
  intro r _
  have hlt : r.rawKey < [0xFF] := (recordKey_scanBounds r.id r.kind).2
  exact decide_eq_decide.2 ⟨fun h => h.1, fun h => ⟨h, hlt⟩⟩

theorem recordsAfter_rawKey {done rs : List (StoredRecord c)} {r : StoredRecord c} (hord : Ordered (done ++ r :: rs)) :
    recordsAfter r.rawKey (done ++ r :: rs) = rs := by
  rw [recordsAfter]
  convert (filter_of_sorted hord).2

theorem listObjects_after (hs : WellFormed c s) (hall : s.toList = all.map StoredRecord.record) {cursor : Bytes}
    (hle : cursor ≤ [0xFF]) (p : Option Str) (hl : limit ≠ 0) :
    ∃ next, listObjects c s ⟨p, limit, some cursor⟩ =
      .ok ⟨((liveRecords p (recordsAfter cursor all)).take (pageSize limit)).map (itemOf c s), next⟩ := by
  have hord := ordered_of_toList hall
  by_cases hstored : ∃ r ∈ all, r.rawKey = cursor
  · obtain ⟨r, hr, rfl⟩ := hstored
    obtain ⟨done, rs, rfl⟩ := append_of_mem hr
    rw [recordsAfter_rawKey hord]
    exact ⟨_, listObjects_page hs hall (.inr ⟨done, r, rfl, rfl⟩) p hl⟩
  · have hge : (all.filter fun r => decide (cursor ≤ r.rawKey)) = recordsAfter cursor all := by
      apply filter_congr
      intro r hr
      simp only [decide_eq_decide]
      exact ⟨fun h => lt_of_le_of_ne h fun heq => hstored ⟨r, hr, heq.symm⟩, le_of_lt⟩
    have hrange := range_after hall cursor
    rw [hge] at hrange
    have hlen : (recordsAfter cursor all).length < s.toList.length + 1 := by
      have hsub := length_filter_le (fun r : StoredRecord c => decide (cursor < r.rawKey)) all
      rw [hall, length_map]
      exact Nat.lt_succ_of_le hsub
    refine ⟨_, listObjects_of_walk hl (hord.filter _) (listObjectsLoop_walk hs p _ _ cursor [] _ _ hrange hle
      (by simp [listScanSlack]) ?_ hlen)⟩
    intro n hne
    cases hrs : recordsAfter cursor all with
    | nil => exact absurd (by simp [hrs]) hne
    | cons r rs =>
      have hmem : r ∈ all := mem_of_mem_filter (hrs ▸ mem_cons_self : r ∈ recordsAfter cursor all)
      rw [nil_append, take_succ_cons, map_cons]
      exact listObjectsChunk_noSkip _ _ fun heq => hstored ⟨r, hmem, heq⟩

/-! ## What a cursor asks for -/

def LiveAfter (c : Codec Ev) (s : Store) (p : Option Str) (cursor : Bytes) (item : ObjectListItem) : Prop :=
  ∃ (id : ObjectId) (m : ObjectMetadata), getMetadata s id = .ok (some m) ∧ m.tombstone = false ∧
    hasKeyPrefix p id = true ∧ cursor < buildMetadataKey id ∧
    item = ⟨id, m.objectVersion, (storedEntries c s id).length⟩

theorem mem_liveAfter_iff (hall : s.toList = all.map StoredRecord.record) (p : Option Str) (cursor : Bytes)
    (item : ObjectListItem) :
    item ∈ (liveRecords p (recordsAfter cursor all)).map (itemOf c s) ↔ LiveAfter c s p cursor item := by
  have hkey : ∀ r : StoredRecord c, r.kind = .metadata → r.rawKey = buildMetadataKey r.id := by
    intro r hr
    rw [StoredRecord.rawKey, hr]
    rfl
  rw [mem_map]
  simp only [liveRecords, recordsAfter, mem_filter, decide_eq_true_eq]
  constructor
  · rintro ⟨r, ⟨⟨hmem, hlt⟩, hkind, hp, ht⟩, rfl⟩
    rw [hkey r hkind] at hlt
    exact ⟨r.id, _, (exists_metadataRecord_iff hall _ _).1 ⟨r, hmem, hkind, rfl, rfl⟩, ht, hp, hlt, rfl⟩
  · rintro ⟨id, m, hm, ht, hp, hlt, rfl⟩
    obtain ⟨r, hmem, hkind, rfl, rfl⟩ := (exists_metadataRecord_iff hall id m).2 hm
    refine ⟨r, ⟨⟨hmem, ?_⟩, hkind, hp, ht⟩, rfl⟩
    rwa [hkey r hkind]

def FitsOnePage (c : Codec Ev) (s : Store) (p : Option Str) (cursor : Bytes) : Prop :=
  ∀ items : List ObjectListItem, items.Nodup → (∀ item ∈ items, LiveAfter c s p cursor item) →
    items.length ≤ maxListLimit

def ListsAfter (mem : ShardMemory c) (p : Option Str) (cursor : Bytes) : Prop :=
  (∀ limit, 1 ≤ limit → ∃ page, mem.listObjects ⟨p, limit, some cursor⟩ = .ok page) ∧
    ∃ enough, ∀ limit, enough ≤ limit → ∃ page, mem.listObjects ⟨p, limit, some cursor⟩ = .ok page ∧
      (page.objects.Pairwise fun a b => a.objectId < b.objectId) ∧
      ∀ item, item ∈ page.objects ↔ LiveAfter c mem.data p cursor item

theorem listsAfter_of_le {mem : ShardMemory c} {cursor : Bytes} (hle : mem.rooted = true → cursor ≤ [0xFF])
    (hfits : FitsOnePage c mem.data p cursor) : ListsAfter mem p cursor := by
  obtain ⟨all, hall⟩ := exists_storedRecords mem.wf
  have hord := ordered_of_toList hall
  cases hroot : mem.rooted with
  | false =>
    refine ⟨fun limit hl => ⟨_, ShardMemory.listObjects_unrooted hroot (by simpa using Nat.ne_of_gt hl)⟩, 1, ?_⟩
    intro limit hl
    refine ⟨_, ShardMemory.listObjects_unrooted hroot (by simpa using Nat.ne_of_gt hl), List.Pairwise.nil, ?_⟩
    rintro item
    refine ⟨fun h => absurd h not_mem_nil, ?_⟩
    rintro ⟨id, m, hm, _⟩
    rw [mem.data_of_unrooted hroot] at hm
    cases hm
  | true =>
    have hpage : ∀ limit, limit ≠ 0 → ∃ next, mem.listObjects ⟨p, limit, some cursor⟩ =
        .ok ⟨((liveRecords p (recordsAfter cursor all)).take (pageSize limit)).map (itemOf c mem.data), next⟩ := by
      intro limit hl
      rw [ShardMemory.listObjects_rooted hroot]
      exact listObjects_after mem.wf hall (hle hroot) p hl
    have hsorted := pairwise_liveItems (s := mem.data) (hord.filter fun r => decide (cursor < r.rawKey)) p
    have hlen : (liveRecords p (recordsAfter cursor all)).length ≤ maxListLimit := by
      have hcount := hfits _ (hsorted.imp fun hlt heq => absurd (heq ▸ hlt) (lt_irrefl _))
        fun item hitem => (mem_liveAfter_iff hall p cursor item).1 hitem
      rwa [length_map] at hcount
    refine ⟨?_, maxListLimit, ?_⟩
    · intro limit hl
      obtain ⟨next, hnext⟩ := hpage limit (by omega)
      exact ⟨_, hnext⟩
    · intro limit hl
      have hsize : pageSize limit = maxListLimit := Nat.min_eq_right hl
      obtain ⟨next, hnext⟩ := hpage limit (by unfold maxListLimit at hl; omega)
      rw [hsize, take_of_length_le hlen] at hnext
      exact ⟨_, hnext, hsorted, mem_liveAfter_iff hall p cursor⟩

/-- **Any bytes as a cursor**: not beyond `[FF]` unless nothing was stored, and no more objects behind it than a page
holds. -/
theorem list_objects_cursor_iff (c : Codec Ev) (mem : ShardMemory c) (p : Option Str) (cursor : Bytes) :
    ListsAfter mem p cursor ↔
      (mem.rooted = true → cursor ≤ [0xFF]) ∧ FitsOnePage c mem.data p cursor := by
  refine ⟨?_, fun h => listsAfter_of_le h.1 h.2⟩
  rintro ⟨hreturns, enough, henough⟩
  have hle : mem.rooted = true → cursor ≤ [0xFF] := by
    intro hroot
    by_contra hgt
    obtain ⟨page, hpage⟩ := hreturns 1 le_rfl
    rw [ShardMemory.listObjects_rooted hroot] at hpage
    simp [listObjects, listObjectsLoop, Store.scanRangePaginated, not_le.1 hgt, liftPanic, bind, Except.bind] at hpage
  refine ⟨hle, ?_⟩
  intro items hnodup hlive
  obtain ⟨page, hpage, _, hmem⟩ := henough (max enough 1) (le_max_left _ _)
  have hsub : items.length ≤ page.objects.length :=
    (hnodup.subperm fun item hitem => (hmem item).2 (hlive item hitem)).length_le
  refine hsub.trans ?_
  cases hroot : mem.rooted with
  | false =>
    rw [ShardMemory.listObjects_unrooted hroot (by simp)] at hpage
    cases hpage
    exact Nat.zero_le _
  | true =>
    obtain ⟨all, hall⟩ := exists_storedRecords mem.wf
    obtain ⟨next, hnext⟩ : ∃ next, listObjects c mem.data ⟨p, max enough 1, some cursor⟩ = .ok ⟨_, next⟩ :=
      listObjects_after mem.wf hall (hle hroot) p (by omega)
    rw [ShardMemory.listObjects_rooted hroot, hnext] at hpage
    cases hpage
    rw [length_map, length_take]
    exact (min_le_left _ _).trans (min_le_right _ _)

end

/-! ## A cursor beyond all keys -/

namespace BeyondKeys

open TwoObjects (store a)

def memory : ShardMemory Postcard.codec := ⟨⟨store.raw, true⟩, fun _ => rfl, store.wf⟩

/-- **A client stops the shard.** The cursor is two bytes, base64 `/wA=`. -/
theorem listObjects_beyond_keys :
    memory.listObjects ⟨none, 1, some [0xFF, 0x00]⟩ = .error (.panic .rangeStart) ∧
      ¬ ListsAfter memory none [0xFF, 0x00] := by
  have hpanic : memory.listObjects ⟨none, 1, some [0xFF, 0x00]⟩ = .error (.panic .rangeStart) := by decide +kernel
  refine ⟨hpanic, ?_⟩
  rintro ⟨hreturns, _⟩
  obtain ⟨page, hpage⟩ := hreturns 1 le_rfl
  rw [hpanic] at hpage
  cases hpage

end BeyondKeys

end Odgm
