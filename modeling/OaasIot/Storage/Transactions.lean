import OaasIot.Odgm.Types

/-!
# Transactions of the storage backends (`memory.rs`, `skiplist.rs`, `fjall/transaction.rs`, `any_storage.rs`)

A transaction shares the store with everyone else, so the store is passed through its calls. The
keyspace does not fail.
-/

namespace DpStorage

open Odgm List OrdMap

inductive TransactionOperation
  | put (key value : Bytes)
  | delete (key : Bytes)
  deriving DecidableEq

namespace TransactionOperation

variable (m : Store) (operations : List TransactionOperation)

def apply : TransactionOperation → Store
  | put key value => m.insert key value
  | delete key => m.erase key

def applyAll : Store := operations.foldl apply m

def Redundant : TransactionOperation → Prop
  | put key value => m.get key = some value
  | delete key => m.get key = none

theorem applyAll_concat (op : TransactionOperation) :
    applyAll m (operations ++ [op]) = apply (applyAll m operations) op := by
  simp [applyAll]

theorem apply_eq_self_iff (op : TransactionOperation) : apply m op = m ↔ op.Redundant m := by
  cases op with
  | put key value =>
    refine ⟨fun h => ?_, insert_eq_self⟩
    rw [Redundant, ← h]
    exact get_insert_self m key value
  | delete key =>
    constructor
    · intro h
      rw [Redundant, ← h]
      exact (get_erase m key key).trans (if_pos rfl)
    · intro h
      refine ext_get fun k => ?_
      rw [apply, get_erase]
      by_cases hk : k = key
      · rw [if_pos hk, hk]
        exact h.symm
      · rw [if_neg hk]

theorem forall_applyAll_eq_iff :
    (∀ done rest, operations = done ++ rest → applyAll m done = m) ↔ ∀ op ∈ operations, op.Redundant m := by
  induction operations with
  | nil =>
    refine ⟨by simp, fun _ done rest h => ?_⟩
    rw [(append_eq_nil_iff.1 h.symm).1]
    rfl
  | cons op operations ih =>
    rw [forall_mem_cons, ← ih, ← apply_eq_self_iff]
    constructor
    · intro h
      have hop : apply m op = m := h [op] operations rfl
      refine ⟨hop, fun done rest heq => ?_⟩
      have := h (op :: done) rest (by rw [heq, cons_append])
      rwa [applyAll, foldl_cons, hop] at this
    · rintro ⟨hop, h⟩ done rest heq
      cases done with
      | nil => rfl
      | cons op' done =>
        rw [cons_append, cons.injEq] at heq
        rw [applyAll, foldl_cons, ← heq.1, hop]
        exact h done rest heq.2

end TransactionOperation

open TransactionOperation

/-! ## Memory -/

structure MemoryTransaction where
  operations : List TransactionOperation
  committed : Bool

namespace MemoryTransaction

def new : MemoryTransaction := ⟨[], false⟩

def pending (key : Bytes) : List TransactionOperation → Option (Option Bytes)
  | [] => none
  | .put k value :: older => if k = key then some (some value) else pending key older
  | .delete k :: older => if k = key then some none else pending key older

variable (t : MemoryTransaction)

def get (m : Store) (key : Bytes) : Option Bytes :=
  match pending key t.operations.reverse with
  | some found => found
  | none => m.get key

def write (op : TransactionOperation) : Except StorageError Unit × MemoryTransaction :=
  if t.committed then (.error (.transaction "Transaction already committed"), t)
  else (.ok (), { t with operations := t.operations ++ [op] })

def commit (m : Store) : Except StorageError Unit × Store :=
  if t.committed then (.error (.transaction "Transaction already committed"), m)
  else (.ok (), applyAll m t.operations)

theorem get_eq (m : Store) (key : Bytes) : t.get m key = (applyAll m t.operations).get key := by
  obtain ⟨operations, committed⟩ := t
  induction operations using reverseRecOn with
  | nil => rfl
  | append_singleton operations op ih =>
    simp only [get, reverse_append, reverse_singleton, singleton_append] at ih ⊢
    rw [applyAll_concat]
    cases op with
    | put k value =>
      rw [pending, apply, get_insert]
      by_cases h : k = key
      · simp [h]
      · rw [if_neg h, ih, if_neg h]
    | delete k =>
      rw [pending, apply, get_erase]
      by_cases h : k = key
      · simp [h]
      · rw [if_neg h, ih, if_neg (fun h' => h h'.symm)]

end MemoryTransaction

/-! ## Fjall -/

structure FjallTransaction where
  operations : List TransactionOperation
  committed : Bool
  rolledBack : Bool

namespace FjallTransaction

def new : FjallTransaction := ⟨[], false, false⟩

variable (t : FjallTransaction)

def checkState : Except StorageError Unit :=
  if t.committed then .error (.transaction "Transaction already committed")
  else if t.rolledBack then .error (.transaction "Transaction already rolled back")
  else .ok ()

def get (m : Store) (key : Bytes) : Except StorageError (Option Bytes) :=
  t.checkState.map fun _ => m.get key

def existsKey (m : Store) (key : Bytes) : Except StorageError Bool :=
  t.checkState.map fun _ => (m.get key).isSome

def write (op : TransactionOperation) : Except StorageError Unit × FjallTransaction :=
  match t.checkState with
  | .error e => (.error e, t)
  | .ok () => (.ok (), { t with operations := t.operations ++ [op] })

def commit (m : Store) : Except StorageError Unit × Store :=
  match t.checkState with
  | .error e => (.error e, m)
  | .ok () => (.ok (), applyAll m t.operations)

def rollback : Except StorageError Unit :=
  if t.committed then .error (.transaction "Transaction already committed") else .ok ()

end FjallTransaction

/-! ## The three together -/

inductive Transaction
  | memory (t : MemoryTransaction)
  | skipList
  | fjall (t : FjallTransaction)

inductive Backend
  | memory
  | skipList
  | fjall
  deriving DecidableEq, Repr

def Backend.beginTransaction : Backend → Transaction
  | .memory => .memory .new
  | .skipList => .skipList
  | .fjall => .fjall .new

namespace Transaction

variable (t : Transaction) (m : Store)

def get (key : Bytes) : Except StorageError (Option Bytes) :=
  match t with
  | memory t => .ok (t.get m key)
  | skipList => .ok (m.get key)
  | fjall t => t.get m key

def existsKey (key : Bytes) : Except StorageError Bool :=
  match t with
  | memory t => .ok (t.get m key).isSome
  | skipList => .ok (m.get key).isSome
  | fjall t => t.existsKey m key

def write (op : TransactionOperation) : Except StorageError Unit × Transaction × Store :=
  match t with
  | memory t => ((t.write op).1, memory (t.write op).2, m)
  | skipList => (.ok (), skipList, apply m op)
  | fjall t => ((t.write op).1, fjall (t.write op).2, m)

def commit : Except StorageError Unit × Store :=
  match t with
  | memory t => t.commit m
  | skipList => (.ok (), m)
  | fjall t => t.commit m

def rollback : Except StorageError Unit × Store :=
  match t with
  | memory _ => (.ok (), m)
  | skipList => (.error (.backend "Rollback not supported in SkipList backend"), m)
  | fjall t => (t.rollback, m)

def writeAll (operations : List TransactionOperation) : Transaction × Store :=
  operations.foldl (fun s op => (s.1.write s.2 op).2) (t, m)

end Transaction

theorem Transaction.after_writes (backend : Backend) (m : Store) (operations : List TransactionOperation) :
    backend.beginTransaction.writeAll m operations =
      match backend with
      | .memory => (.memory ⟨operations, false⟩, m)
      | .skipList => (.skipList, applyAll m operations)
      | .fjall => (.fjall ⟨operations, false, false⟩, m) := by
  induction operations using reverseRecOn with
  | nil => cases backend <;> rfl
  | append_singleton operations op ih =>
    rw [writeAll, foldl_append, foldl_cons, foldl_nil]
    rw [writeAll] at ih
    rw [ih]
    cases backend with
    | memory => rfl
    | skipList => rw [applyAll_concat]; rfl
    | fjall => rfl

/-- Transaction semantics for the operations `operations`, at each of their beginnings `done`: reads see the
writes made so far, the store does not, rollback leaves it alone, commit applies the writes in order. -/
def Transactional (backend : Backend) (m : Store) (operations : List TransactionOperation) : Prop :=
  ∀ done rest, operations = done ++ rest →
    let s := backend.beginTransaction.writeAll m done
    (∀ key, s.1.get s.2 key = .ok ((applyAll m done).get key) ∧
      s.1.existsKey s.2 key = .ok ((applyAll m done).get key).isSome) ∧
    s.2 = m ∧ (s.1.rollback s.2).2 = m ∧ s.1.commit s.2 = (.ok (), applyAll m done)

/-- **Transaction semantics**: all sequences on the memory backend; elsewhere only writes of what is stored already.
-/
theorem transaction_semantics_iff (backend : Backend) (m : Store) (operations : List TransactionOperation) :
    Transactional backend m operations ↔ backend = .memory ∨ ∀ op ∈ operations, op.Redundant m := by
  rw [← forall_applyAll_eq_iff]
  unfold Transactional
  simp only [Transaction.after_writes]
  cases backend with
  | memory =>
    refine ⟨fun _ => .inl rfl, fun _ done rest _ => ⟨fun key => ?_, rfl, rfl, rfl⟩⟩
    simp only [Transaction.get, Transaction.existsKey, MemoryTransaction.get_eq, and_self]
  | skipList =>
    constructor
    · intro h
      exact .inr fun done rest heq => (h done rest heq).2.1
    · rintro (h | h)
      · cases h
      · intro done rest heq
        exact ⟨fun key => ⟨rfl, rfl⟩, h done rest heq, h done rest heq, rfl⟩
  | fjall =>
    constructor
    · intro h
      refine .inr fun done rest heq => ext_get fun key => ?_
      exact (Except.ok.inj ((h done rest heq).1 key).1).symm
    · rintro (h | h)
      · cases h
      · intro done rest heq
        refine ⟨fun key => ?_, rfl, rfl, rfl⟩
        rw [h done rest heq]
        exact ⟨rfl, rfl⟩

/-- The skip list keeps a put over a rollback, and Fjall does not read it. -/
theorem put_breaks_transactions :
    let sl := Backend.skipList.beginTransaction.writeAll .empty [.put [107] [118]]
    let fj := Backend.fjall.beginTransaction.writeAll .empty [.put [107] [118]]
    sl.2 = insert .empty [107] [118] ∧
      sl.1.rollback sl.2 =
        (.error (.backend "Rollback not supported in SkipList backend"), insert .empty [107] [118]) ∧
      fj.1.get fj.2 [107] = .ok none := by
  decide

end DpStorage
