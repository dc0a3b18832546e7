import OaasIot.Odgm.ListingPage

/-!
# Prefix listing over all pages

`list_entries` gives up at the first mismatch behind a match, which is sound only if the matches are consecutive in
storage order. But that order puts the length of a key before its text: among `a1`, `b1` and `a11` the listing of `a`
returns `a1` alone.
-/

namespace Odgm

open List

section
variable {Ev : Type} {c : Codec Ev} {s : Store}

variable {p : Option Str} {es : List (StoredEntry c)}

theorem getEntry_eq_ok {id key : Str} {v : ObjectVal} : getEntry c s id key = .ok (some v) ↔
    ∃ raw, s.get (buildEntryKey id key) = some raw ∧ c.decodeVal raw = some v := by
  unfold getEntry
  cases s.get (buildEntryKey id key) with
  | none => simp
  | some raw =>
    cases hd : c.decodeVal raw with
    | none | some w => simp [hd]

theorem mem_map_pair (hs : WellFormed c s) {id : ObjectId} {k : Str} {v : ObjectVal} :
    (k, v) ∈ (storedEntries c s id).map StoredEntry.pair ↔ getEntry c s id k = .ok (some v) := by
  rw [getEntry_eq_ok, mem_map]
  constructor
  · rintro ⟨e, he, hp⟩
    cases hp
    exact ⟨e.raw, (mem_storedEntries hs).1 he, e.decodes⟩
  · rintro ⟨raw, hget, hdec⟩
    exact ⟨⟨k, raw, v, hdec⟩, (mem_storedEntries hs).2 hget, rfl⟩

theorem get_ne_none_iff (hs : WellFormed c s) {id : ObjectId} {k : Str} :
    s.get (buildEntryKey id k) ≠ none ↔ ∃ e ∈ storedEntries c s id, e.key = k := by
  constructor
  · intro h
    obtain ⟨raw, hraw⟩ := Option.ne_none_iff_exists'.1 h
    obtain ⟨v, hv⟩ := Option.isSome_iff_exists.1 (hs.of_recordKey id (.entry k) hraw)
    exact ⟨⟨k, raw, v, hv⟩, (mem_storedEntries hs).2 hraw, rfl⟩
  · rintro ⟨e, he, rfl⟩
    rw [(mem_storedEntries hs).1 he]
    simp

variable {e : StoredEntry c}

end

/-! ## Keys of two lengths -/

namespace MixedLengths

def id : ObjectId := ⟨⟨[111], Str.valid_o, Str.short_o⟩, ObjectId.nulFree_o⟩
def value : ObjectVal := ⟨[1], .byte, short_1⟩

def a : Str := ⟨[97], Str.valid_a, Str.short_a⟩
def a1 : Str := ⟨[97, 49], by decide, by decide⟩
def b1 : Str := ⟨[98, 49], by decide, by decide⟩
def a11 : Str := ⟨[97, 49, 49], by decide, by decide⟩

def store : GranularStore Postcard.codec :=
  (((GranularStore.empty _).putEntry id a1 value).putEntry id b1 value).putEntry id a11 value

end MixedLengths

end Odgm
