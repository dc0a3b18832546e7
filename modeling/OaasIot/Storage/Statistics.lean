import OaasIot.Lib.Program
import OaasIot.Lib.Weight
import OaasIot.Storage.Backends
import OaasIot.Storage.Transactions

/-!
# The statistics of the in-memory backends (`atomic_stats.rs`)

Entries and bytes are counted in two atomic `u64`s, which every mutation adjusts by hand. An overwriting `put` adds the
whole pair and takes nothing off, `close` clears the data only, and a transaction has the data without the counters.
-/

namespace DpStorage

open Odgm List OrdMap

/-! ## The counters -/

structure AtomicStats where
  entriesCount : UInt64
  totalSizeBytes : UInt64
  deriving DecidableEq

inductive Fetch
  | addEntries (n : UInt64)
  | subEntries (n : UInt64)
  | addSize (n : UInt64)
  | subSize (n : UInt64)
  deriving DecidableEq

namespace AtomicStats

def new : AtomicStats := ⟨0, 0⟩

def fetch (s : AtomicStats) : Fetch → AtomicStats
  | .addEntries n => { s with entriesCount := s.entriesCount + n }
  | .subEntries n => { s with entriesCount := s.entriesCount - n }
  | .addSize n => { s with totalSizeBytes := s.totalSizeBytes + n }
  | .subSize n => { s with totalSizeBytes := s.totalSizeBytes - n }

def fetchAll (s : AtomicStats) (fetches : List Fetch) : AtomicStats := fetches.foldl fetch s

def WrapsBelowZero (s : AtomicStats) : Fetch → Prop
  | .subEntries n => s.entriesCount < n
  | .subSize n => s.totalSizeBytes < n
  | _ => False

def NoneWraps : AtomicStats → List Fetch → Prop
  | _, [] => True
  | s, f :: fetches => ¬ s.WrapsBelowZero f ∧ NoneWraps (s.fetch f) fetches

end AtomicStats

def recordPut (keySize valueSize : Nat) (wasUpdate : Bool) : List Fetch :=
  let totalSize : UInt64 := .ofNat (keySize + valueSize)
  (if wasUpdate then [] else [.addEntries 1]) ++ [.addSize totalSize]

def recordPutWithOldSize (keySize newValueSize : Nat) (oldValueSize : Option Nat) : List Fetch :=
  let newTotal : UInt64 := .ofNat (keySize + newValueSize)
  match oldValueSize with
  | some oldSize =>
    let oldTotal : UInt64 := .ofNat (keySize + oldSize)
    if oldTotal ≤ newTotal then [.addSize (newTotal - oldTotal)] else [.subSize (oldTotal - newTotal)]
  | none => [.addEntries 1, .addSize newTotal]

def recordDelete (keySize valueSize : Nat) : List Fetch :=
  [.subEntries 1, .subSize (.ofNat (keySize + valueSize))]

def recordDeleteBatch (totalEntries totalSize : Nat) : List Fetch :=
  [.subEntries (.ofNat totalEntries), .subSize (.ofNat totalSize)]

/-! ## The calls -/

inductive StatsCall
  | put (key value : Bytes)
  | putWithReturn (key value : Bytes)
  | delete (key : Bytes)
  | deleteRange (lo hi : Bound Bytes)
  | close
  | transaction (operations : List TransactionOperation)
  deriving DecidableEq

inductive InMemoryBackend
  | memory
  | skipList
  deriving DecidableEq

structure CountedStorage where
  storage : MemoryStorage
  stats : AtomicStats

namespace CountedStorage

def new : CountedStorage := ⟨.new, .new⟩
abbrev data (s : CountedStorage) : Store := s.storage.data

end CountedStorage

def pairSize (kv : Bytes × Bytes) : Nat := kv.1.length + kv.2.length

variable (backend : InMemoryBackend)

def InMemoryBackend.rangePanics (s : MemoryStorage) (lo hi : Bound Bytes) : Bool :=
  match backend with
  | .memory => (s.rangePanic lo hi).isSome
  | .skipList => false

def TransactionOperation.isPut : TransactionOperation → Bool
  | .put _ _ => true
  | .delete _ => false

def StatsCall.change (s : MemoryStorage) : StatsCall → MemoryStorage × List Fetch
  | .put key value => (s.insert key value, recordPut key.length value.length (s.data.get key).isSome)
  | .putWithReturn key value =>
    (s.insert key value, recordPutWithOldSize key.length value.length ((s.data.get key).map List.length))
  | .delete key =>
    match s.data.get key with
    | some removed => ({ s with data := s.data.erase key }, recordDelete key.length removed.length)
    | none => (s, [])
  | .deleteRange lo hi =>
    if backend.rangePanics s lo hi then (s, [])
    else
      let items := s.data.between lo hi
      ({ s with data := s.data.eraseBetween lo hi },
        if 0 < items.length then recordDeleteBatch items.length (items.map pairSize).sum else [])
  | .close => (.new, [])
  -- `commit` of the memory backend and the writes of the skip list's transaction: the counters are not theirs
  | .transaction operations =>
    (⟨TransactionOperation.applyAll s.data operations, s.rooted || operations.any TransactionOperation.isPut⟩, [])

def CountedStorage.step (s : CountedStorage) (call : StatsCall) : CountedStorage :=
  ⟨(call.change backend s.storage).1, s.stats.fetchAll (call.change backend s.storage).2⟩

structure AtomicStats.Exact (stats : AtomicStats) (m : Store) : Prop where
  entries : stats.entriesCount.toNat = m.toList.length
  size : stats.totalSizeBytes.toNat = m.weight pairSize

def StatsCall.Right (s : CountedStorage) (call : StatsCall) : Prop :=
  (s.step backend call).stats.Exact (s.step backend call).data ∧
    s.stats.NoneWraps (call.change backend s.storage).2

/-! ## When a call is counted -/

def Fits (m : Store) : Prop := m.toList.length < 2 ^ 64 ∧ m.weight pairSize < 2 ^ 64

/-- No overwriting `put`, unless key and old value are empty; no `close` of a store that holds something; no
transaction that changes the number of keys or their total size. -/
def StatsCall.Adjusts (m : Store) : StatsCall → Prop
  | .put key _ => ∀ old, m.get key = some old → key = [] ∧ old = []
  | .close => m = .empty
  | .transaction operations =>
    (TransactionOperation.applyAll m operations).toList.length = m.toList.length ∧
      (TransactionOperation.applyAll m operations).weight pairSize = m.weight pairSize
  | _ => True

def StatsCall.Counted (s : CountedStorage) (call : StatsCall) : Prop :=
  Fits (s.step backend call).data ∧ call.Adjusts s.data

/-! ## What the recordings do -/

variable {key value : Bytes}

namespace AtomicStats

theorem toNat_add_ofNat {c : UInt64} {n d : Nat} (h : c.toNat = n) (hfit : n + d < 2 ^ 64) :
    (c + .ofNat d).toNat = n + d := by
  rw [UInt64.toNat_add, h, UInt64.toNat_ofNat_of_lt' (show d < 2 ^ 64 by omega)]
  exact Nat.mod_eq_of_lt hfit

theorem toNat_sub_ofNat {c : UInt64} {n d : Nat} (h : c.toNat = n) (hd : d ≤ n) :
    (c - .ofNat d).toNat = n - d ∧ ¬ c < .ofNat d := by
  have hlt := c.toNat_lt
  have hofNat : (UInt64.ofNat d).toNat = d := UInt64.toNat_ofNat_of_lt' (show d < 2 ^ 64 by omega)
  have hle : UInt64.ofNat d ≤ c := by
    rw [UInt64.le_iff_toNat_le, hofNat, h]
    exact hd
  exact ⟨by rw [UInt64.toNat_sub_of_le _ _ hle, hofNat, h], UInt64.not_lt.2 hle⟩

theorem toNat_pairSize (key value : Bytes) (h : pairSize (key, value) < 2 ^ 64) :
    (UInt64.ofNat (key.length + value.length)).toNat = pairSize (key, value) := UInt64.toNat_ofNat_of_lt' h

variable {stats : AtomicStats} {m m' : Store}

variable (h : stats.Exact m)
include h

theorem Exact.fits : Fits m :=
  ⟨h.entries ▸ stats.entriesCount.toNat_lt, h.size ▸ stats.totalSizeBytes.toNat_lt⟩

theorem Exact.add (hfits : Fits m') {size : Nat} (hlen : m'.toList.length = m.toList.length + 1)
    (hsize : m'.weight pairSize = m.weight pairSize + size) :
    (stats.fetchAll [.addEntries 1, .addSize (.ofNat size)]).Exact m' := by
  refine ⟨?_, ?_⟩
  · rw [hlen]
    exact toNat_add_ofNat (d := 1) h.entries (hlen ▸ hfits.1)
  · rw [hsize]
    exact toNat_add_ofNat h.size (hsize ▸ hfits.2)

theorem Exact.remove (count : Nat) {size : Nat} (hlen : m'.toList.length + count = m.toList.length)
    (hsize : m'.weight pairSize + size = m.weight pairSize) :
    (stats.fetchAll (recordDeleteBatch count size)).Exact m' ∧ stats.NoneWraps (recordDeleteBatch count size) := by
  obtain ⟨hentries, hentriesOk⟩ := toNat_sub_ofNat (d := count) h.entries (by omega)
  obtain ⟨hbytes, hbytesOk⟩ := toNat_sub_ofNat (d := size) h.size (by omega)
  refine ⟨⟨?_, ?_⟩, hentriesOk, hbytesOk, trivial⟩
  · refine hentries.trans ?_
    omega
  · refine hbytes.trans ?_
    omega

theorem exact_recordPut_update_iff (hfits : Fits m') {old : Bytes} (hlen : m'.toList.length = m.toList.length)
    (hsize : m'.weight pairSize + pairSize (key, old) = m.weight pairSize + pairSize (key, value))
    (hold : pairSize (key, old) ≤ m.weight pairSize) :
    (stats.fetchAll (recordPut key.length value.length true)).Exact m' ↔ key = [] ∧ old = [] := by
  have hfit := h.fits.2
  have hfit' := hfits.2
  have htotal : (stats.totalSizeBytes + .ofNat (key.length + value.length)).toNat =
      (m.weight pairSize + pairSize (key, value)) % 2 ^ 64 := by
    rw [UInt64.toNat_add, h.size, toNat_pairSize key value (by omega)]
  have hempty : key = [] ∧ old = [] ↔ pairSize (key, old) = 0 := by
    rw [pairSize, Nat.add_eq_zero_iff, length_eq_zero_iff, length_eq_zero_iff]
  rw [hempty]
  constructor
  · intro hexact
    have hbytes : (stats.totalSizeBytes + .ofNat (key.length + value.length)).toNat = m'.weight pairSize := hexact.size
    rw [htotal, ← hsize] at hbytes
    omega
  · intro hzero
    refine ⟨h.entries.trans hlen.symm, ?_⟩
    refine htotal.trans ?_
    rw [← hsize, hzero]
    exact Nat.mod_eq_of_lt hfit'

theorem Exact.replace (hfits : Fits m') {old : Bytes} (hlen : m'.toList.length = m.toList.length)
    (hsize : m'.weight pairSize + pairSize (key, old) = m.weight pairSize + pairSize (key, value))
    (hold : pairSize (key, old) ≤ m.weight pairSize) :
    (stats.fetchAll (recordPutWithOldSize key.length value.length (some old.length))).Exact m' ∧
      stats.NoneWraps (recordPutWithOldSize key.length value.length (some old.length)) := by
  have hfit := h.fits.2
  have hfit' := hfits.2
  have hnew := toNat_pairSize key value (by omega)
  have hwas := toNat_pairSize key old (by omega)
  simp only [recordPutWithOldSize]
  by_cases hle : UInt64.ofNat (key.length + old.length) ≤ UInt64.ofNat (key.length + value.length)
  · rw [if_pos hle]
    have hdiff := UInt64.toNat_sub_of_le _ _ hle
    rw [hnew, hwas] at hdiff
    rw [UInt64.le_iff_toNat_le, hnew, hwas] at hle
    refine ⟨⟨h.entries.trans hlen.symm, ?_⟩, id, trivial⟩
    change (stats.totalSizeBytes + _).toNat = _
    rw [UInt64.toNat_add, h.size, hdiff, Nat.mod_eq_of_lt (by omega)]
    omega
  · rw [if_neg hle]
    have hlt := UInt64.not_le.1 hle
    have hdiff := UInt64.toNat_sub_of_le _ _ (UInt64.le_of_lt hlt)
    rw [hnew, hwas] at hdiff
    rw [UInt64.lt_iff_toNat_lt, hnew, hwas] at hlt
    have hsub : UInt64.ofNat (key.length + old.length) - UInt64.ofNat (key.length + value.length) ≤
        stats.totalSizeBytes := by
      rw [UInt64.le_iff_toNat_le, hdiff, h.size]
      omega
    refine ⟨⟨h.entries.trans hlen.symm, ?_⟩, UInt64.not_lt.2 hsub, trivial⟩
    change (stats.totalSizeBytes - _).toNat = _
    rw [UInt64.toNat_sub_of_le _ _ hsub, h.size, hdiff]
    omega

end AtomicStats

/-! ## What the calls do -/

section
variable {m : Store} {key old : Bytes}

theorem insert_new (h : m.get key = none) (value : Bytes) :
    (m.insert key value).toList.length = m.toList.length + 1 ∧
      (m.insert key value).weight pairSize = m.weight pairSize + pairSize (key, value) := by
  have hweight := weight_insert pairSize m key value
  rw [weightAt, h] at hweight
  exact ⟨length_insert h, hweight⟩

theorem insert_old (h : m.get key = some old) (value : Bytes) :
    (m.insert key value).toList.length = m.toList.length ∧
      (m.insert key value).weight pairSize + pairSize (key, old) = m.weight pairSize + pairSize (key, value) := by
  have hweight := weight_insert pairSize m key value
  have hcount := weight_insert (fun _ => 1) m key value
  rw [weightAt, h] at hweight hcount
  rw [weight_one, weight_one] at hcount
  exact ⟨Nat.add_right_cancel hcount, hweight⟩

theorem erase_old (h : m.get key = some old) :
    (m.erase key).toList.length + 1 = m.toList.length ∧
      (m.erase key).weight pairSize + pairSize (key, old) = m.weight pairSize := by
  have hweight := weight_erase pairSize m key
  have hcount := weight_erase (fun _ => 1) m key
  rw [weightAt, h] at hweight hcount
  rw [weight_one, weight_one] at hcount
  exact ⟨hcount, hweight⟩

theorem eraseBetween_weight (f : Bytes × Bytes → Nat) (m : Store) (lo hi : Bound Bytes) :
    (m.eraseBetween lo hi).weight f + ((m.between lo hi).map f).sum = m.weight f := by
  have hdropped : (m.toList.filter fun x => !decide ¬ (lo.startsBy x.1 ∧ hi.endsAfter x.1)) = m.between lo hi :=
    filter_congr fun x _ => by simp
  rw [← hdropped]
  exact weight_filterKeys f m fun k => decide ¬ (lo.startsBy k ∧ hi.endsAfter k)

theorem eraseBetween_length (m : Store) (lo hi : Bound Bytes) :
    (m.eraseBetween lo hi).toList.length + (m.between lo hi).length = m.toList.length := by
  have hcount := eraseBetween_weight (fun _ => 1) m lo hi
  rw [weight_one, weight_one] at hcount
  simpa using hcount

end

variable {backend : InMemoryBackend} {s : CountedStorage}

theorem right_iff_of_change {call : StatsCall} {s' : MemoryStorage} {fetches : List Fetch}
    (hchange : call.change backend s.storage = (s', fetches)) :
    call.Right backend s ↔ (s.stats.fetchAll fetches).Exact s'.data ∧ s.stats.NoneWraps fetches := by
  unfold StatsCall.Right CountedStorage.step CountedStorage.data
  rw [hchange]

section
variable (h : s.stats.Exact s.data)
include h

theorem right_put_iff (hfits : Fits (s.step backend (.put key value)).data) :
    (StatsCall.put key value).Right backend s ↔ ∀ old, s.data.get key = some old → key = [] ∧ old = [] := by
  have hfits : Fits (s.data.insert key value) := hfits
  cases hk : s.data.get key with
  | none =>
    have hchange : (StatsCall.put key value).change backend s.storage =
        (s.storage.insert key value, recordPut key.length value.length false) := by
      simp only [StatsCall.change, hk, Option.isSome_none]
    obtain ⟨hlen, hsize⟩ := insert_new hk value
    exact iff_of_true ((right_iff_of_change hchange).2 ⟨h.add hfits hlen hsize, id, id, trivial⟩) (by simp)
  | some old =>
    have hchange : (StatsCall.put key value).change backend s.storage =
        (s.storage.insert key value, recordPut key.length value.length true) := by
      simp only [StatsCall.change, hk, Option.isSome_some]
    obtain ⟨hlen, hsize⟩ := insert_old hk value
    have hold := (erase_old hk).2
    have hupdate := AtomicStats.exact_recordPut_update_iff h hfits hlen hsize (by omega)
    rw [right_iff_of_change hchange]
    refine (and_iff_left ⟨id, trivial⟩).trans (hupdate.trans ?_)
    simp

theorem right_putWithReturn (hfits : Fits (s.step backend (.putWithReturn key value)).data) :
    (StatsCall.putWithReturn key value).Right backend s := by
  have hfits : Fits (s.data.insert key value) := hfits
  cases hk : s.data.get key with
  | none =>
    have hchange : (StatsCall.putWithReturn key value).change backend s.storage =
        (s.storage.insert key value, recordPutWithOldSize key.length value.length none) := by
      simp only [StatsCall.change, hk, Option.map_none]
    obtain ⟨hlen, hsize⟩ := insert_new hk value
    exact (right_iff_of_change hchange).2 ⟨h.add hfits hlen hsize, id, id, trivial⟩
  | some old =>
    have hchange : (StatsCall.putWithReturn key value).change backend s.storage =
        (s.storage.insert key value, recordPutWithOldSize key.length value.length (some old.length)) := by
      simp only [StatsCall.change, hk, Option.map_some]
    obtain ⟨hlen, hsize⟩ := insert_old hk value
    have hold := (erase_old hk).2
    exact (right_iff_of_change hchange).2 (h.replace hfits hlen hsize (by omega))

theorem right_delete (key : Bytes) : (StatsCall.delete key).Right backend s := by
  cases hk : s.data.get key with
  | none =>
    have hchange : (StatsCall.delete key).change backend s.storage = (s.storage, []) := by
      simp only [StatsCall.change, hk]
    exact (right_iff_of_change hchange).2 ⟨h, trivial⟩
  | some old =>
    have hchange : (StatsCall.delete key).change backend s.storage =
        ({ s.storage with data := s.data.erase key }, recordDelete key.length old.length) := by
      simp only [StatsCall.change, hk]
    obtain ⟨hlen, hsize⟩ := erase_old hk
    exact (right_iff_of_change hchange).2 (h.remove 1 hlen hsize)

theorem right_deleteRange (lo hi : Bound Bytes) : (StatsCall.deleteRange lo hi).Right backend s := by
  by_cases hpanic : backend.rangePanics s.storage lo hi = true
  · have hchange : (StatsCall.deleteRange lo hi).change backend s.storage = (s.storage, []) := if_pos hpanic
    exact (right_iff_of_change hchange).2 ⟨h, trivial⟩
  · have hlen := eraseBetween_length s.data lo hi
    have hsize := eraseBetween_weight pairSize s.data lo hi
    by_cases hsome : 0 < (s.data.between lo hi).length
    · have hchange : (StatsCall.deleteRange lo hi).change backend s.storage =
          ({ s.storage with data := s.data.eraseBetween lo hi },
            recordDeleteBatch (s.data.between lo hi).length ((s.data.between lo hi).map pairSize).sum) := by
        simp only [StatsCall.change, if_neg hpanic, if_pos hsome]
      exact (right_iff_of_change hchange).2 (h.remove _ hlen hsize)
    · have hchange : (StatsCall.deleteRange lo hi).change backend s.storage =
          ({ s.storage with data := s.data.eraseBetween lo hi }, []) := by
        simp only [StatsCall.change, if_neg hpanic, if_neg hsome]
      have hnil : s.data.between lo hi = [] := length_eq_zero_iff.1 (by omega)
      rw [hnil] at hlen hsize
      exact (right_iff_of_change hchange).2 ⟨⟨h.entries.trans hlen.symm, h.size.trans hsize.symm⟩, trivial⟩

theorem right_close_iff : StatsCall.close.Right backend s ↔ s.data = .empty := by
  constructor
  · rintro ⟨hexact, _⟩
    refine ext_toList (length_eq_zero_iff.1 ?_)
    exact h.entries.symm.trans hexact.entries
  · intro hempty
    refine ⟨?_, trivial⟩
    change s.stats.Exact .empty
    rw [← hempty]
    exact h

theorem right_transaction_iff (operations : List TransactionOperation) :
    (StatsCall.transaction operations).Right backend s ↔ (StatsCall.transaction operations).Adjusts s.data := by
  constructor
  · rintro ⟨hexact, _⟩
    exact ⟨hexact.entries.symm.trans h.entries, hexact.size.symm.trans h.size⟩
  · rintro ⟨hlen, hsize⟩
    exact ⟨⟨h.entries.trans hlen.symm, h.size.trans hsize.symm⟩, trivial⟩

theorem StatsCall.right_iff (call : StatsCall) : call.Right backend s ↔ call.Counted backend s := by
  by_cases hfits : Fits (s.step backend call).data
  · refine Iff.trans ?_ (and_iff_right hfits).symm
    cases call with
    | put key value => exact right_put_iff h hfits
    | putWithReturn key value => exact iff_of_true (right_putWithReturn h hfits) trivial
    | delete key => exact iff_of_true (right_delete h key) trivial
    | deleteRange lo hi => exact iff_of_true (right_deleteRange h lo hi) trivial
    | close => exact right_close_iff h
    | transaction operations => exact right_transaction_iff h operations
  · exact iff_of_false (fun hright => hfits hright.1.fits) fun hcounted => hfits hcounted.1

end

/-- **Statistics** are exact along a run from a new store if every call of it is counted. -/
theorem statistics_exact_iff (backend : InMemoryBackend) (calls : List StatsCall) :
    AlongRun (CountedStorage.step backend) (fun s call => call.Right backend s) .new calls ↔
      AlongRun (CountedStorage.step backend) (fun s call => call.Counted backend s) .new calls := by
  have hstep : ∀ (s : CountedStorage) (call : StatsCall), s.stats.Exact s.data →
      ((call.Right backend s ↔ call.Counted backend s) ∧
        (call.Counted backend s → (s.step backend call).stats.Exact (s.step backend call).data)) := by
    intro s call hs
    exact ⟨call.right_iff hs, fun hcounted => ((call.right_iff hs).2 hcounted).1⟩
  exact alongRun_iff_of_step (fun s => s.stats.Exact s.data) hstep ⟨rfl, rfl⟩ calls

/-- Overwriting counts twice, transactions are not counted, and `close` takes nothing off. -/
theorem statistics_drift :
    (([.put [107] [1], .put [107] [2]] : List StatsCall).foldl (CountedStorage.step .memory) .new).stats = ⟨1, 4⟩ ∧
      (([.put [107] [1], .put [107] [2]] : List StatsCall).foldl (CountedStorage.step .skipList) .new).stats = ⟨1, 4⟩ ∧
      (([.transaction [.put [107] [1]], .delete [107]] : List StatsCall).foldl
        (CountedStorage.step .memory) .new).stats = ⟨0xFFFFFFFFFFFFFFFF, 0xFFFFFFFFFFFFFFFE⟩ ∧
      (([.put [107] [1], .close] : List StatsCall).foldl (CountedStorage.step .memory) .new).stats = ⟨1, 2⟩ := by
  decide

end DpStorage
