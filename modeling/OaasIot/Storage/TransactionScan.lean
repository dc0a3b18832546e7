import OaasIot.Storage.Backends
import OaasIot.Storage.Transactions

/-!
# Scans in a transaction (`memory.rs:891`)

`scan_range` looks for each stored key at the pending operations, the last one first, and then adds the pending puts
whose key it does not have yet, from the first on: a key that is not stored is given with the value of its first put,
and one that was put and then deleted comes back.
-/

namespace DpStorage

open Odgm TransactionOperation List

namespace MemoryTransaction

/-! ## The scan -/

def overlaid (operations : List TransactionOperation) (kv : Bytes × Bytes) : Option (Bytes × Bytes) :=
  match pending kv.1 operations.reverse with
  | some (some value) => some (kv.1, value)
  | some none => none
  | none => some kv

def addPut (start stop : Bytes) (results : List (Bytes × Bytes)) : TransactionOperation → List (Bytes × Bytes)
  | .put key value =>
    if start ≤ key ∧ key < stop ∧ key ∉ results.map Prod.fst then results ++ [(key, value)] else results
  | .delete _ => results

def collected (t : MemoryTransaction) (m : Store) (start stop : Bytes) : List (Bytes × Bytes) :=
  t.operations.foldl (addPut start stop) ((m.range start stop).filterMap (overlaid t.operations))

def scanRange (t : MemoryTransaction) (s : MemoryStorage) (start stop : Bytes) : Answer :=
  match s.rangePanic (.included start) (.excluded stop) with
  | some msg => .panicked msg
  | none => .pairs ((t.collected s.data start stop).insertionSort fun a b => a.1 ≤ b.1)

def ScanAgrees (t : MemoryTransaction) (s : MemoryStorage) (start stop : Bytes) : Prop :=
  ∃ pairs, t.scanRange s start stop = .pairs pairs ∧ pairs.Pairwise (fun a b => a.1 < b.1) ∧
    ∀ key value, (key, value) ∈ pairs ↔ (start ≤ key ∧ key < stop) ∧ t.get s.data key = some value

/-! ## What the loops collect -/

def firstPut (key : Bytes) : List TransactionOperation → Option Bytes
  | [] => none
  | .put k value :: operations => if k = key then some value else firstPut key operations
  | .delete _ :: operations => firstPut key operations

theorem pending_append (key : Bytes) (newer older : List TransactionOperation) :
    pending key (newer ++ older) = (pending key newer).or (pending key older) := by
  induction newer with
  | nil => rfl
  | cons op newer ih =>
    cases op with
    | put k value | delete k =>
      rw [cons_append, pending, pending]
      by_cases h : k = key
      · rw [if_pos h, if_pos h, Option.some_or]
      · rw [if_neg h, if_neg h, ih]

theorem firstPut_of_pending (key : Bytes) (operations : List TransactionOperation) :
    (pending key operations.reverse = none → firstPut key operations = none) ∧
      ∀ last, pending key operations.reverse = some (some last) → ∃ first, firstPut key operations = some first := by
  induction operations with
  | nil => exact ⟨fun _ => rfl, by simp [pending]⟩
  | cons op operations ih =>
    rw [reverse_cons, pending_append]
    cases op with
    | put k value =>
      rw [firstPut, pending, pending]
      by_cases h : k = key
      · simp [h]
      · simpa [h] using ih
    | delete k =>
      rw [firstPut, pending, pending]
      by_cases h : k = key
      · rw [if_pos h]
        cases hp : pending key operations.reverse with
        | none => simp
        | some found => simpa [hp] using ih.2
      · simpa [h] using ih

section
variable {start stop : Bytes}

variable (operations : List TransactionOperation)

theorem mem_foldl_addPut {key value : Bytes} (results : List (Bytes × Bytes)) :
    (key, value) ∈ operations.foldl (addPut start stop) results ↔
      (key, value) ∈ results ∨
        (start ≤ key ∧ key < stop) ∧ key ∉ results.map Prod.fst ∧ firstPut key operations = some value := by
  induction operations generalizing results with
  | nil => simp [firstPut]
  | cons op operations ih =>
    rw [foldl_cons, ih]
    cases op with
    | delete k => rfl
    | put k v =>
      rw [addPut, firstPut]
      by_cases hadd : start ≤ k ∧ k < stop ∧ k ∉ results.map Prod.fst
      · rw [if_pos hadd]
        by_cases hk : k = key
        · -- The put adds the key, and later puts of it find it there.
          subst hk
          simp [hadd.1, hadd.2.1, hadd.2.2, eq_comm]
        · have hk' : key ≠ k := Ne.symm hk
          simp [hk, hk']
      · rw [if_neg hadd]
        by_cases hk : k = key
        · subst hk
          have habsurd : ¬ ((start ≤ k ∧ k < stop) ∧ k ∉ results.map Prod.fst) := fun h => hadd ⟨h.1.1, h.1.2, h.2⟩
          rw [← and_assoc, ← and_assoc]
          simp only [habsurd, false_and]
        · rw [if_neg hk]

theorem nodup_foldl_addPut {results : List (Bytes × Bytes)} (h : (results.map Prod.fst).Nodup) :
    ((operations.foldl (addPut start stop) results).map Prod.fst).Nodup := by
  induction operations generalizing results with
  | nil => exact h
  | cons op operations ih =>
    refine ih ?_
    cases op with
    | delete k => exact h
    | put k v =>
      rw [addPut]
      by_cases hadd : start ≤ k ∧ k < stop ∧ k ∉ results.map Prod.fst
      · rw [if_pos hadd, map_append, nodup_append]
        refine ⟨h, nodup_singleton _, ?_⟩
        intro a ha b hb
        obtain rfl : b = k := by simpa using hb
        rintro rfl
        exact hadd.2.2 ha
      · rw [if_neg hadd]
        exact h

theorem overlaid_key {operations : List TransactionOperation} {kv kv' : Bytes × Bytes}
    (h : overlaid operations kv = some kv') : kv'.1 = kv.1 := by
  unfold overlaid at h
  split at h
  · cases h
    rfl
  · cases h
  · cases h
    rfl

theorem mem_overlaid {operations : List TransactionOperation} {m : Store} {key value : Bytes} :
    (key, value) ∈ (m.range start stop).filterMap (overlaid operations) ↔
      (start ≤ key ∧ key < stop) ∧ ∃ stored, m.get key = some stored ∧
        overlaid operations (key, stored) = some (key, value) := by
  rw [mem_filterMap]
  constructor
  · rintro ⟨⟨k, stored⟩, hmem, hov⟩
    obtain rfl : key = k := overlaid_key hov
    obtain ⟨hget, hlo, hhi⟩ := OrdMap.mem_range.1 hmem
    exact ⟨⟨hlo, hhi⟩, stored, hget, hov⟩
  · rintro ⟨⟨hlo, hhi⟩, stored, hget, hov⟩
    exact ⟨(key, stored), OrdMap.mem_range.2 ⟨hget, hlo, hhi⟩, hov⟩

theorem nodup_overlaid (m : Store) : (((m.range start stop).filterMap (overlaid operations)).map Prod.fst).Nodup := by
  have hsorted : ((m.range start stop).filterMap (overlaid operations)).Pairwise fun a b => a.1 < b.1 := by
    refine (m.sorted_range start stop).filterMap _ ?_
    intro a b hab a' ha b' hb
    rw [overlaid_key ha, overlaid_key hb]
    exact hab
  exact pairwise_map.2 (hsorted.imp ne_of_lt)

def scannedValue (operations : List TransactionOperation) (m : Store) (key : Bytes) : Option Bytes :=
  match pending key operations.reverse, m.get key with
  | none, stored => stored
  | some (some last), some _ => some last
  | _, _ => firstPut key operations

theorem mem_collected {t : MemoryTransaction} {m : Store} {key value : Bytes} :
    (key, value) ∈ t.collected m start stop ↔
      (start ≤ key ∧ key < stop) ∧ scannedValue t.operations m key = some value := by
  have hkey : key ∈ ((m.range start stop).filterMap (overlaid t.operations)).map Prod.fst ↔
      (start ≤ key ∧ key < stop) ∧ ∃ v stored, m.get key = some stored ∧
        overlaid t.operations (key, stored) = some (key, v) := by
    rw [mem_map]
    constructor
    · rintro ⟨⟨k, v⟩, hmem, rfl⟩
      obtain ⟨hin, stored, hget, hov⟩ := mem_overlaid.1 hmem
      exact ⟨hin, v, stored, hget, hov⟩
    · rintro ⟨hin, v, stored, hget, hov⟩
      exact ⟨(key, v), mem_overlaid.2 ⟨hin, stored, hget, hov⟩, rfl⟩
  have hfirst := firstPut_of_pending key t.operations
  rw [collected, mem_foldl_addPut, mem_overlaid, hkey]
  by_cases hin : start ≤ key ∧ key < stop
  · simp only [hin, true_and, scannedValue, overlaid]
    rcases hp : pending key t.operations.reverse with _ | (_ | last)
    · -- No operation is about the key: it is given as it is stored.
      cases m.get key <;> simp [hfirst.1 hp]
    · -- The last operation deletes it.
      simp
    · cases m.get key <;> simp
  · simp only [hin, false_and, or_self]

end

/-! ## When a scan is right -/

variable (t : MemoryTransaction)

/-- Every key of the range that is put is put last, and with the value of its first put if it is not stored. -/
def PutsLast (m : Store) (start stop : Bytes) : Prop :=
  ∀ key, start ≤ key → key < stop → ∀ first, firstPut key t.operations = some first →
    ∃ last, pending key t.operations.reverse = some (some last) ∧ (m.get key = none → last = first)

theorem scannedValue_eq_get_iff (m : Store) (key : Bytes) :
    scannedValue t.operations m key = t.get m key ↔ ∀ first, firstPut key t.operations = some first →
      ∃ last, pending key t.operations.reverse = some (some last) ∧ (m.get key = none → last = first) := by
  obtain ⟨hnone, hsome⟩ := firstPut_of_pending key t.operations
  unfold scannedValue get
  rcases hp : pending key t.operations.reverse with _ | (_ | last)
  · simp [hnone hp]
  · cases hf : firstPut key t.operations <;> simp
  · obtain ⟨first, hf⟩ := hsome last hp
    cases m.get key with
    | some stored => simp
    | none => simp [hf, eq_comm]

theorem sorted_collected (m : Store) (start stop : Bytes) :
    ((t.collected m start stop).insertionSort fun a b => a.1 ≤ b.1).Pairwise fun a b => a.1 < b.1 := by
  have hperm := perm_insertionSort (fun a b : Bytes × Bytes => a.1 ≤ b.1) (t.collected m start stop)
  have hnodup : (((t.collected m start stop).insertionSort fun a b => a.1 ≤ b.1).map Prod.fst).Nodup :=
    (hperm.map Prod.fst).nodup_iff.2 (nodup_foldl_addPut t.operations (nodup_overlaid t.operations m))
  have hle : ((t.collected m start stop).insertionSort fun a b => a.1 ≤ b.1).Pairwise fun a b => a.1 ≤ b.1 :=
    pairwise_insertionSort _ _
  exact (hle.and (pairwise_map.1 hnodup)).imp fun h => lt_of_le_of_ne h.1 h.2

/-- **Scans in a transaction**: the range is in order or the tree has no root, and the puts of its keys come last. -/
theorem transaction_scan_iff (s : MemoryStorage) (start stop : Bytes) :
    t.ScanAgrees s start stop ↔ (s.rooted = true → start ≤ stop) ∧ t.PutsLast s.data start stop := by
  have hpointwise : (∀ key value, (key, value) ∈ t.collected s.data start stop ↔
      (start ≤ key ∧ key < stop) ∧ t.get s.data key = some value) ↔ t.PutsLast s.data start stop := by
    constructor
    · intro h key hlo hhi
      refine (scannedValue_eq_get_iff t s.data key).1 (Option.ext fun value => ?_)
      have hkey := h key value
      rw [mem_collected] at hkey
      simpa [hlo, hhi] using hkey
    · intro h key value
      rw [mem_collected]
      refine and_congr_right fun hin => ?_
      rw [(scannedValue_eq_get_iff t s.data key).2 (h key hin.1 hin.2)]
  rw [← hpointwise]
  unfold ScanAgrees scanRange
  by_cases hpanic : s.rooted = true ∧ (Bound.included start).Crossed (.excluded stop)
  · have hmsg : s.rangePanic (.included start) (.excluded stop) = some _ := if_pos hpanic
    rw [hmsg]
    refine iff_of_false ?_ fun h => not_le_of_gt hpanic.2 (h.1 hpanic.1)
    rintro ⟨pairs, heq, _⟩
    cases heq
  · have hnone : s.rangePanic (.included start) (.excluded stop) = none := if_neg hpanic
    have horder : s.rooted = true → start ≤ stop := fun hr => not_lt.1 fun hlt => hpanic ⟨hr, hlt⟩
    rw [hnone]
    have hmem : ∀ kv, kv ∈ (t.collected s.data start stop).insertionSort (fun a b => a.1 ≤ b.1) ↔
        kv ∈ t.collected s.data start stop := fun kv => mem_insertionSort _
    constructor
    · rintro ⟨pairs, heq, _, hpairs⟩
      refine ⟨horder, fun key value => ?_⟩
      rw [← hmem, Answer.pairs.inj heq]
      exact hpairs key value
    · rintro ⟨_, hpairs⟩
      refine ⟨_, rfl, sorted_collected t s.data start stop, fun key value => ?_⟩
      rw [hmem]
      exact hpairs key value

/-- `get` sees the last operation on a key, the scan the first put. -/
theorem scan_differs_from_get :
    let deleted : MemoryTransaction := ⟨[.put [107] [1], .delete [107]], false⟩
    let twice : MemoryTransaction := ⟨[.put [107] [1], .put [107] [2]], false⟩
    deleted.get .empty [107] = none ∧ deleted.scanRange .new [97] [122] = .pairs [([107], [1])] ∧
      twice.get .empty [107] = some [2] ∧ twice.scanRange .new [97] [122] = .pairs [([107], [1])] := by
  decide

end MemoryTransaction

end DpStorage
