import OaasIot.Odgm.RaftStateMachine
import OaasIot.Odgm.SnapshotInstall

/-!
# A snapshot whose stream fails

`install_snapshot` (`state_machine.rs:286-309`) hands the incoming stream to the storage and updates what it tracks once
that has succeeded. The storage clears itself first and then inserts pair after pair; an item that is an error ends it.
-/

namespace Odgm

abbrev KvItems := List (Except StorageError (Bytes × Bytes))

def insertStream : KvItems → Store → Except StorageError Unit × Store
  | [], s => (.ok (), s)
  | .error e :: _, s => (.error e, s)
  | .ok kv :: items, s => insertStream items (s.insert kv.1 kv.2)

def installItems (storage : SnapshotStorage) (items : KvItems) (s : Store) : Except StorageError Unit × Store :=
  insertStream items (storage.clear s)

def installSnapshot {M : Type} (storage : SnapshotStorage) (snapshotMeta : SnapshotMeta M) (items : KvItems)
    (s : Store × Applied M) : Except String Unit × Store × Applied M :=
  match installItems storage items s.1 with
  | (.error e, app) => (.error e.message, app, s.2)
  | (.ok (), app) =>
    (.ok (), app,
      { s.2 with
        lastAppliedLogId := snapshotMeta.lastLogId
        lastMembership := snapshotMeta.lastMembership
        currentSnapshot := some app })

theorem insertStream_append (pairs : List (Bytes × Bytes)) (items : KvItems) (s : Store) :
    insertStream (pairs.map .ok ++ items) s = insertStream items (s.insertMany pairs) := by
  induction pairs generalizing s with
  | nil => rfl
  | cons kv pairs ih => exact ih (s.insert kv.1 kv.2)

variable (storage : SnapshotStorage)

theorem installItems_spec (pairs : List (Bytes × Bytes)) (e : StorageError) (later : KvItems) (s : Store) :
    installItems storage (pairs.map .ok ++ .error e :: later) s = (.error e, OrdMap.insertMany .empty pairs) := by
  rw [installItems, insertStream_append, storage.clear_eq]
  rfl

theorem installItems_of_pairs (pairs : List (Bytes × Bytes)) (s : Store) :
    installItems storage (pairs.map .ok) s = (.ok (), OrdMap.insertMany .empty pairs) := by
  have happend := insertStream_append pairs [] (storage.clear s)
  rw [List.append_nil, storage.clear_eq] at happend
  rw [installItems, storage.clear_eq, happend]
  rfl

theorem installRaftSnapshot_items {pairs : List (Bytes × Bytes)} (hpairs : ∀ kv ∈ pairs, Transferable kv) {fuel : Nat}
    (hfuel : pairs.length < fuel) {snapshot : StreamingSnapshotBuffer} (h : snapshot.Left (serializeKvPairs pairs))
    (s : Store) : installRaftSnapshot storage fuel snapshot s = some (installItems storage (pairs.map .ok) s).2 := by
  have hinsert := insertItems_of_left (p := .new snapshot) hpairs hfuel rfl h (storage.clear s)
  rw [installRaftSnapshot, installKvSnapshotFromStream, hinsert, storage.clear_eq, installItems_of_pairs]

def LeavesOldState {M : Type} (storage : SnapshotStorage) (snapshotMeta : SnapshotMeta M) (items : KvItems)
    (s : Store × Applied M) : Prop :=
  let r := installSnapshot storage snapshotMeta items s
  (∃ msg, r.1 = .error msg) ∧ r.2.1 = s.1 ∧ r.2.2.lastAppliedLogId = s.2.lastAppliedLogId ∧
    r.2.2.lastMembership = s.2.lastMembership

/-- **A failed install** leaves the old state if the pairs before the error are the old contents. -/
theorem failed_install_iff {M : Type} (storage : SnapshotStorage) (snapshotMeta : SnapshotMeta M)
    (pairs : List (Bytes × Bytes)) (e : StorageError) (later : KvItems) (s : Store × Applied M) :
    LeavesOldState storage snapshotMeta (pairs.map .ok ++ .error e :: later) s ↔ OrdMap.insertMany .empty pairs = s.1 := by
  unfold LeavesOldState installSnapshot
  rw [installItems_spec]
  exact ⟨fun h => h.2.1, fun h => ⟨⟨_, rfl⟩, h, rfl, rfl⟩⟩

/-- The first item is an error: the install fails, and the one pair that was there is gone. -/
theorem failed_install_empties_store :
    let s : Store × Applied Unit := (OrdMap.empty.insert [107] [118], ⟨some ⟨⟨1, 1⟩, 1⟩, ⟨none, ()⟩, 0, none⟩)
    let r := installSnapshot .memory ⟨some ⟨⟨1, 1⟩, 2⟩, ⟨none, ()⟩, "snapshot"⟩ [.error (.backend "connection reset")] s
    r.1 = .error "Backend error: connection reset" ∧ r.2.1 = .empty ∧
      r.2.2.lastAppliedLogId = some ⟨⟨1, 1⟩, 1⟩ ∧ s.1 ≠ .empty := by
  refine ⟨by decide, rfl, rfl, by decide⟩

end Odgm
