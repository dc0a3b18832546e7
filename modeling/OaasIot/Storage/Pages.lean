import OaasIot.Storage.Backends

/-!
# Scanning a range page by page (`scan_range_paginated` of `memory.rs`, `any_storage.rs` and `fjall/backend.rs`)

The memory backend and Fjall stop at the first pair after the page and answer its key; `AnyStorage` collects the range
and cuts it. The pages are the same, but a range that ends before it starts **panics** in a `BTreeMap` with a root.
-/

namespace DpStorage

open Odgm List OrdMap

/-- The pairs of a page, and the key the next one starts from. -/
abbrev Page := List (Bytes × Bytes) × Option Bytes

/-- The loop of the memory backend, with the index it counts (`memory.rs:746-757`). -/
def memoryPage (limit : Option Nat) : Nat → List (Bytes × Bytes) → List (Bytes × Bytes) → Page
  | _, results, [] => (results, none)
  | idx, results, kv :: rest =>
    if limit.any (· ≤ idx) then (results, some kv.1) else memoryPage limit (idx + 1) (results ++ [kv]) rest

/-- The loop of Fjall, which counts its results (`fjall/backend.rs:454-468`). -/
def fjallPage (limit : Option Nat) : List (Bytes × Bytes) → List (Bytes × Bytes) → Page
  | results, [] => (results, none)
  | results, kv :: rest =>
    if limit.any (· ≤ results.length) then (results, some kv.1) else fjallPage limit (results ++ [kv]) rest

def anyPage (limit : Option Nat) (results : List (Bytes × Bytes)) : Page :=
  match limit with
  | some limit => (results.take limit, if limit < results.length then results[limit]?.map Prod.fst else none)
  | none => (results, none)

inductive AnyStorage
  | memory
  | skipList
  | fjall

inductive PagedStorage
  | memory
  | any (inner : AnyStorage)
  | fjall

/-- A panic is its message. -/
def memoryRange (s : MemoryStorage) (lo hi : Bound Bytes) : Except String (List (Bytes × Bytes)) :=
  match s.rangePanic lo hi with
  | some msg => .error msg
  | none => .ok (s.data.between lo hi)

def AnyStorage.scanRange (s : MemoryStorage) (lo hi : Bound Bytes) : AnyStorage → Except String (List (Bytes × Bytes))
  | .memory => memoryRange s lo hi
  | .skipList | .fjall => .ok (s.data.between lo hi)

def PagedStorage.scanRangePaginated (s : MemoryStorage) (start stop : Bytes) (limit : Option Nat) :
    PagedStorage → Except String Page
  | .memory => (memoryRange s (.included start) (.excluded stop)).map (memoryPage limit 0 [])
  | .any inner => (inner.scanRange s (.included start) (.excluded stop)).map (anyPage limit)
  | .fjall => .ok (fjallPage limit [] (s.data.between (.included start) (.excluded stop)))

/-- Calls from the key each page answers, until one answers none. -/
inductive Walks (scan : Bytes → Except String Page) : Bytes → List Page → Prop
  | last {start : Bytes} {pairs : List (Bytes × Bytes)} (h : scan start = .ok (pairs, none)) :
      Walks scan start [(pairs, none)]
  | more {start next : Bytes} {pairs : List (Bytes × Bytes)} {pages : List Page}
      (h : scan start = .ok (pairs, some next)) (rest : Walks scan next pages) :
      Walks scan start ((pairs, some next) :: pages)

/-! ## One page -/

theorem memoryPage_eq (n idx : Nat) (results l : List (Bytes × Bytes)) :
    memoryPage (some n) idx results l = (results ++ l.take (n - idx), (l.drop (n - idx)).head?.map Prod.fst) := by
  induction l generalizing idx results with
  | nil => simp [memoryPage]
  | cons kv l ih =>
    simp only [memoryPage, Option.any_some, decide_eq_true_eq]
    split
    · rename_i hle
      simp [Nat.sub_eq_zero_of_le hle]
    · rename_i hlt
      obtain ⟨k, hk⟩ : ∃ k, n - idx = k + 1 := ⟨n - idx - 1, by omega⟩
      rw [ih, show n - (idx + 1) = k by omega, hk]
      simp

theorem fjallPage_eq (limit : Option Nat) (results l : List (Bytes × Bytes)) :
    fjallPage limit results l = memoryPage limit results.length results l := by
  induction l generalizing results with
  | nil => rfl
  | cons kv l ih =>
    rw [fjallPage, memoryPage, ih]
    simp

theorem anyPage_eq (n : Nat) (l : List (Bytes × Bytes)) :
    anyPage (some n) l = (l.take n, (l.drop n).head?.map Prod.fst) := by
  rw [anyPage, head?_drop]
  split
  · rfl
  · rename_i hle
    rw [getElem?_eq_none (by omega)]
    rfl

theorem PagedStorage.scanRangePaginated_eq {s : MemoryStorage} {start stop : Bytes}
    (h : s.rooted = true → start ≤ stop) (n : Nat) (src : PagedStorage) :
    src.scanRangePaginated s start stop (some n) = .ok (s.data.page start stop n) := by
  have hrange : memoryRange s (.included start) (.excluded stop) = .ok (s.data.range start stop) := by
    have hnone : s.rangePanic (.included start) (.excluded stop) = none :=
      rangePanic_eq_none fun hroot => not_lt.2 (h hroot)
    rw [memoryRange, hnone]
    rfl
  have hpage : s.data.page start stop n = memoryPage (some n) 0 [] (s.data.range start stop) := by
    rw [memoryPage_eq]
    simp [page]
  cases src with
  | memory => rw [scanRangePaginated, hrange, hpage]; rfl
  | fjall => rw [scanRangePaginated, fjallPage_eq, hpage]; rfl
  | any inner =>
    have hinner : inner.scanRange s (.included start) (.excluded stop) = .ok (s.data.range start stop) := by
      cases inner with
      | memory => exact hrange
      | skipList | fjall => rfl
    rw [scanRangePaginated, hinner, Except.map, anyPage_eq]
    simp [page]

/-! ## All pages -/

/-- **Run**: by induction on what is left of the range, every version walks through the same pages of it. -/
theorem exists_pages {s : MemoryStorage} {stop : Bytes} {limit : Nat} (hlimit : 1 ≤ limit) (start : Bytes)
    (h : s.rooted = true → start ≤ stop) :
    ∃ pages, (∀ src : PagedStorage, Walks (src.scanRangePaginated s · stop (some limit)) start pages) ∧
      pages.flatMap Prod.fst = s.data.range start stop := by
  induction hn : (s.data.range start stop).length using Nat.strong_induction_on generalizing start with
  | _ n ih =>
    have hscan := fun src : PagedStorage => src.scanRangePaginated_eq h limit
    cases hrest : (s.data.range start stop).drop limit with
    | nil =>
      have hall : (s.data.range start stop).take limit = s.data.range start stop :=
        take_of_length_le (drop_eq_nil_iff.1 hrest)
      simp only [page, hrest, hall] at hscan
      exact ⟨_, fun src => .last (hscan src), by simp⟩
    | cons kv rest =>
      have hsplit : s.data.range start stop = (s.data.range start stop).take limit ++ kv :: rest := by
        rw [← hrest, take_append_drop]
      have hnext := range_from_key hsplit
      have hmem : (kv.1, kv.2) ∈ s.data.range start stop := by rw [hsplit]; simp
      have hlt := congrArg length hrest
      simp only [length_drop, length_cons] at hlt
      obtain ⟨pages, hwalks, hpairs⟩ := ih _ (by rw [hnext, length_cons]; omega) kv.1
        (fun _ => (mem_range.1 hmem).2.2.le) rfl
      simp only [page, hrest] at hscan
      refine ⟨_, fun src => .more (hscan src) (hwalks src), ?_⟩
      rw [flatMap_cons, hpairs, hnext, ← hsplit]

/-- **Pagination** visits the range, by the same pages in every version, unless the map panics. -/
theorem pagination_iff (s : MemoryStorage) (start stop : Bytes) {limit : Nat} (hlimit : 1 ≤ limit) :
    (∃ pages, (∀ src : PagedStorage, Walks (src.scanRangePaginated s · stop (some limit)) start pages) ∧
        pages.flatMap Prod.fst = s.data.range start stop) ↔
      (s.rooted = true → start ≤ stop) := by
  refine ⟨fun ⟨pages, hwalks, _⟩ hroot => ?_, exists_pages hlimit start⟩
  by_contra hcrossed
  have hpanic : PagedStorage.memory.scanRangePaginated s start stop (some limit) =
      .error (MemoryStorage.crossedMessage (.included start) (.excluded stop)) := by
    have hbad : s.rooted = true ∧ (Bound.included start).Crossed (.excluded stop) := ⟨hroot, not_le.1 hcrossed⟩
    rw [PagedStorage.scanRangePaginated, memoryRange, MemoryStorage.rangePanic, if_pos hbad]
    rfl
  cases hwalks .memory with
  | last hok | more hok _ =>
    rw [hpanic] at hok
    cases hok

theorem pagination_one_key :
    ∃ pages, (∀ src : PagedStorage,
        Walks (src.scanRangePaginated (MemoryStorage.new.insert [1] [7]) · [2] (some 1)) [0] pages) ∧
      pages.flatMap Prod.fst = (MemoryStorage.new.insert [1] [7]).data.range [0] [2] :=
  (pagination_iff (MemoryStorage.new.insert [1] [7]) [0] [2] (by decide)).2 fun _ => by decide

/-- Fjall answers an empty page where the memory backend stops the task. -/
theorem crossed_page_panics :
    PagedStorage.memory.scanRangePaginated (MemoryStorage.new.insert [1] [7]) [2] [1] (some 1) =
        .error "range start is greater than range end in BTreeMap" ∧
      PagedStorage.fjall.scanRangePaginated (MemoryStorage.new.insert [1] [7]) [2] [1] (some 1) = .ok ([], none) := by
  decide

end DpStorage
