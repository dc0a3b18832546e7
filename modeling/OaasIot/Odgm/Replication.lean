import OaasIot.Odgm.Types

/-!
# Replication layers (`replication/`)

A node keeps its application store, the contents of its Merkle search tree and the entries it applied from the Raft log.
`faults` says which `put`s fail, in the order they are made; a failed one changes nothing. The tree is a third-party
crate, modelled by the last value upserted under each key.
-/

namespace Odgm

open List

/-! ## Requests and responses -/

inductive Operation
  | write (key value : Bytes) (returnOld : Bool)
  | read (key : Bytes)
  | delete (key : Bytes)
  | batch (operations : List Operation)

inductive OperationExtra
  | none
  | write (overwrote : Bool)
  deriving DecidableEq

inductive ResponseStatus
  | applied
  | notLeader (leaderHint : Option UInt64)
  | failed (reason : String)
  | conflict (reason : String)
  | retry
  deriving DecidableEq

structure ReplicationResponse where
  status : ResponseStatus
  data : Option Bytes
  extra : OperationExtra
  deriving DecidableEq

def ReplicationResponse.applied : ReplicationResponse := ⟨.applied, none, .none⟩

/-! ## Nodes -/

structure Node where
  app : Store
  tree : OrdMap Bytes Bytes
  log : List Operation
  faults : List (Option StorageError)

def StorageError.message : StorageError → String
  | .serialization msg => "Serialization error: " ++ msg
  | .transaction msg => "Transaction error: " ++ msg
  | .backend msg => "Backend error: " ++ msg
  | .invalidOperation msg => "Invalid operation: " ++ msg

def ReplicationError.message : ReplicationError → String
  | .storageError e => "Storage error: " ++ e.message
  | .networkError msg => "Network error: " ++ msg
  | .consensusError msg => "Consensus error: " ++ msg
  | .unsupportedOperation msg => "Unsupported operation: " ++ msg

namespace Node

def put (n : Node) (key value : Bytes) : Except StorageError Bool × Node :=
  match n.faults with
  | some e :: faults => (.error e, { n with faults })
  | none :: faults => (.ok (n.app.get key).isSome, { n with app := n.app.insert key value, faults })
  | [] => (.ok (n.app.get key).isSome, { n with app := n.app.insert key value })

def putWithReturn (n : Node) (key value : Bytes) : Except StorageError (Option Bytes) × Node :=
  match n.put key value with
  | (.ok _, n') => (.ok (n.app.get key), n')
  | (.error e, n') => (.error e, n')

def delete (n : Node) (key : Bytes) : Node := { n with app := n.app.erase key }
def deleteRange (n : Node) (start stop : Bytes) : Node := { n with app := n.app.eraseRange start stop }

end Node

/-! ## No replication -/

mutual

def noReplication : Operation → Node → Except ReplicationError ReplicationResponse × Node
  | .write key value true, n =>
    match n.putWithReturn key value with
    | (.ok old, n') => (.ok ⟨.applied, old, .write old.isSome⟩, n')
    | (.error e, n') => (.error (.storageError e), n')
  | .write key value false, n =>
    match n.put key value with
    | (.ok overwrote, n') => (.ok ⟨.applied, none, .write overwrote⟩, n')
    | (.error e, n') => (.error (.storageError e), n')
  | .delete key, n => (.ok .applied, n.delete key)
  | .read key, n => (.ok ⟨.applied, n.app.get key, .none⟩, n)
  | .batch operations, n => noReplicationBatch operations n

def noReplicationBatch : List Operation → Node → Except ReplicationError ReplicationResponse × Node
  | [], n => (.ok .applied, n)
  | operation :: operations, n =>
    match noReplication operation n with
    | (.ok _, n') => noReplicationBatch operations n'
    | (.error e, n') => (.error e, n')

end

/-! ## Raft -/

def applyBatch : List Operation → Node → Option String × Node
  | [], n => (none, n)
  | .write key value _ :: operations, n =>
    match n.put key value with
    | (.ok _, n') => applyBatch operations n'
    | (.error e, n') => (some e.message, n')
  | .read _ :: operations, n => applyBatch operations n
  | .delete key :: operations, n => applyBatch operations (n.delete key)
  | .batch _ :: _, n => (some "nested batch unsupported", n)

def applyShardRequest : Operation → Node → Except StorageError ReplicationResponse × Node
  | .write key value _, n =>
    match n.put key value with
    | (.ok overwrote, n') => (.ok ⟨.applied, none, .write overwrote⟩, n')
    | (.error e, n') => (.error e, n')
  | .read key, n => (.ok ⟨.applied, n.app.get key, .none⟩, n)
  | .delete key, n => (.ok .applied, n.delete key)
  | .batch operations, n =>
    match applyBatch operations n with
    | (none, n') => (.ok .applied, n')
    | (some reason, n') => (.ok ⟨.failed reason, none, .none⟩, n')

/-- `client_write` on the leader: the request is committed to the log and applied. An error of the
state machine is fatal to the Raft core and comes back as a consensus error, whose text goes on with
what `openraft` prints for it: here the storage error. -/
def raftExec (operation : Operation) (n : Node) : Except ReplicationError ReplicationResponse × Node :=
  match applyShardRequest operation { n with log := n.log ++ [operation] } with
  | (.ok response, n') => (.ok response, n')
  | (.error e, n') => (.error (.consensusError ("Raft error: " ++ e.message)), n')

/-! ## Merkle search tree -/

structure MstConfig (T : Type) where
  extractTimestamp : T → UInt64
  mergeFunction : T → T → UInt64 → T
  serialize : T → Except StorageError Bytes
  deserialize : Bytes → Except StorageError T

def defaultMstConfig : MstConfig Bytes where
  extractTimestamp _ := 0
  mergeFunction _ remote _ := remote
  serialize v := .ok v
  deserialize bytes := .ok bytes

def finalEntry (config : MstConfig Bytes) (nodeId : UInt64) (existing : Option Bytes) (entry : Bytes) :
    Except StorageError Bytes :=
  match existing with
  | none => .ok entry
  | some bytes => (config.deserialize bytes).map fun old => config.mergeFunction old entry nodeId

def setRaw (config : MstConfig Bytes) (nodeId : UInt64) (n : Node) (key entry : Bytes) :
    Except StorageError (Option Bytes) × Node :=
  match finalEntry config nodeId (n.app.get key) entry with
  | .error e => (.error e, n)
  | .ok final =>
    match config.serialize final with
    | .error e => (.error e, n)
    | .ok value =>
      match n.put key value with
      | (.error e, n') => (.error e, n')
      | (.ok _, n') => (.ok (n.app.get key), { n' with tree := n'.tree.insert key final })

def deleteRaw (n : Node) (key : Bytes) : Node := n.delete key

mutual

def mstReplicate (config : MstConfig Bytes) (shardId : UInt64) :
    Operation → Node → Except ReplicationError ReplicationResponse × Node
  | .write key value returnOld, n =>
    match config.deserialize value with
    | .error e => (.error (.storageError e), n)
    | .ok entry =>
      match setRaw config shardId n key entry with
      | (.error e, n') => (.error (.storageError e), n')
      | (.ok old, n') => (.ok ⟨.applied, if returnOld then old else none, .none⟩, n')
  | .delete key, n => (.ok .applied, deleteRaw n key)
  | .batch operations, n => mstReplicateBatch config shardId operations n
  | .read _, n => (.error (.storageError (.invalidOperation "Expected write or delete operation")), n)

def mstReplicateBatch (config : MstConfig Bytes) (shardId : UInt64) :
    List Operation → Node → Except ReplicationError ReplicationResponse × Node
  | [], n => (.ok .applied, n)
  | operation :: operations, n =>
    match mstReplicate config shardId operation n with
    | (.ok _, n') => mstReplicateBatch config shardId operations n'
    | (.error e, n') => (.error e, n')

end

/-! ## Reads -/

def raftRead : Operation → Node → Except ReplicationError ReplicationResponse × Node
  | .read key, n => (.ok ⟨.applied, n.app.get key, .none⟩, n)
  | operation, n => raftExec operation n

def mstGetRaw (config : MstConfig Bytes) (n : Node) (key : Bytes) : Except StorageError (Option Bytes) :=
  match n.app.get key with
  | none => .ok none
  | some bytes => (config.deserialize bytes).map some

def mstRead (config : MstConfig Bytes) : Operation → Node → Except ReplicationError ReplicationResponse × Node
  | .read key, n =>
    match mstGetRaw config n key with
    | .error e => (.error (.storageError e), n)
    | .ok none => (.ok .applied, n)
    | .ok (some value) =>
      match config.serialize value with
      | .error e => (.error (.storageError e), n)
      | .ok bytes => (.ok ⟨.applied, some bytes, .none⟩, n)
  | _, n => (.error (.storageError (.invalidOperation "Expected read operation")), n)

/-! ## The layer of a shard -/

inductive ReplicationKind
  | none
  | raft
  | mst (shardId : UInt64)
  deriving DecidableEq

def replicateWrite : ReplicationKind → Operation → Node → Except ReplicationError ReplicationResponse × Node
  | .none => noReplication
  | .raft => raftExec
  | .mst shardId => mstReplicate defaultMstConfig shardId

def replicateRead : ReplicationKind → Operation → Node → Except ReplicationError ReplicationResponse × Node
  | .none => noReplication
  | .raft => raftRead
  | .mst _ => mstRead defaultMstConfig

theorem replicateRead_read (kind : ReplicationKind) (key : Bytes) (n : Node) :
    replicateRead kind (.read key) n = (.ok ⟨.applied, n.app.get key, .none⟩, n) := by
  cases kind with
  | none => rw [replicateRead, noReplication]
  | raft => rfl
  | mst shardId =>
    rw [replicateRead, mstRead, mstGetRaw]
    cases n.app.get key <;> rfl

/-! ## What a layer does to the store when no put fails -/

section
variable {n : Node}

theorem put_ok (h : n.faults = []) (key value : Bytes) :
    n.put key value = (.ok (n.app.get key).isSome, { n with app := n.app.insert key value }) := by
  simp [Node.put, h]

theorem setRaw_default (shardId : UInt64) (n : Node) (key value : Bytes) :
    setRaw defaultMstConfig shardId n key value =
      match n.put key value with
      | (.error e, n') => (.error e, n')
      | (.ok _, n') => (.ok (n.app.get key), { n' with tree := n'.tree.insert key value }) := by
  have hfinal : finalEntry defaultMstConfig shardId (n.app.get key) value = .ok value := by
    cases n.app.get key <;> rfl
  have hs : defaultMstConfig.serialize value = .ok value := rfl
  simp only [setRaw, hfinal, hs]

theorem replicateWrite_write (h : n.faults = []) (kind : ReplicationKind) (key value : Bytes) (returnOld : Bool) :
    ∃ response n', replicateWrite kind (.write key value returnOld) n = (.ok response, n') ∧
      n'.app = n.app.insert key value ∧ n'.faults = [] := by
  cases kind with
  | none =>
    cases returnOld with
    | true =>
      refine ⟨⟨.applied, n.app.get key, .write (n.app.get key).isSome⟩,
        { n with app := n.app.insert key value }, ?_, rfl, h⟩
      simp only [replicateWrite, noReplication, Node.putWithReturn, put_ok h]
    | false =>
      refine ⟨⟨.applied, none, .write (n.app.get key).isSome⟩,
        { n with app := n.app.insert key value }, ?_, rfl, h⟩
      simp only [replicateWrite, noReplication, put_ok h]
  | raft =>
    refine ⟨⟨.applied, none, .write (n.app.get key).isSome⟩,
      { n with app := n.app.insert key value, log := n.log ++ [.write key value returnOld] }, ?_, rfl, h⟩
    simp only [replicateWrite, raftExec, applyShardRequest, Node.put, h]
  | mst shardId =>
    refine ⟨⟨.applied, if returnOld then n.app.get key else none, .none⟩,
      { n with app := n.app.insert key value, tree := n.tree.insert key value }, ?_, rfl, h⟩
    have hd : defaultMstConfig.deserialize value = .ok value := rfl
    simp only [replicateWrite, mstReplicate, hd, setRaw_default, put_ok h]

variable (kind : ReplicationKind)

theorem replicateWrite_delete (key : Bytes) :
    ∃ response n', replicateWrite kind (.delete key) n = (.ok response, n') ∧
      n'.app = n.app.erase key ∧ n'.faults = n.faults := by
  cases kind with
  | none =>
    refine ⟨.applied, n.delete key, ?_, rfl, rfl⟩
    rw [replicateWrite, noReplication]
  | raft => exact ⟨_, _, rfl, rfl, rfl⟩
  | mst shardId =>
    refine ⟨.applied, n.delete key, ?_, rfl, rfl⟩
    rw [replicateWrite, mstReplicate, deleteRaw]

def writesOf (records : List (Bytes × Bytes)) : List Operation := records.map fun r => .write r.1 r.2 false

/-! ### Batches of writes -/

def putAll : List (Bytes × Bytes) → Node → Option StorageError × Node
  | [], n => (none, n)
  | r :: records, n =>
    match n.put r.1 r.2 with
    | (.ok _, n') => putAll records n'
    | (.error e, n') => (some e, n')

def firstFault (faults : List (Option StorageError)) (count : Nat) : Option Nat :=
  (faults.take count).findIdx? Option.isSome

def batchReport : ReplicationKind → Option StorageError → Except ReplicationError ReplicationResponse
  | _, none => .ok .applied
  | .raft, some e => .ok ⟨.failed e.message, none, .none⟩
  | .none, some e => .error (.storageError e)
  | .mst _, some e => .error (.storageError e)

theorem put_cases (n : Node) (key value : Bytes) :
    (∃ e faults, n.faults = some e :: faults ∧ n.put key value = (.error e, { n with faults })) ∨
    (∃ faults, (n.faults = none :: faults ∨ n.faults = [] ∧ faults = []) ∧
      n.put key value = (.ok (n.app.get key).isSome, { n with app := n.app.insert key value, faults })) := by
  unfold Node.put
  match h : n.faults with
  | some e :: faults => exact Or.inl ⟨e, faults, rfl, rfl⟩
  | none :: faults => exact Or.inr ⟨faults, Or.inl rfl, rfl⟩
  | [] => exact Or.inr ⟨[], Or.inr ⟨rfl, rfl⟩, by simp only⟩

variable (records : List (Bytes × Bytes))

theorem putAll_eq (n : Node) :
    (firstFault n.faults records.length = none →
      (putAll records n).1 = none ∧ (putAll records n).2.app = n.app.insertMany records) ∧
    (∀ j, firstFault n.faults records.length = some j →
      ∃ e, (putAll records n).1 = some e ∧ (putAll records n).2.app = n.app.insertMany (records.take j)) := by
  induction records generalizing n with
  | nil => simp [firstFault, putAll]
  | cons r records ih =>
    rcases put_cases n r.1 r.2 with ⟨e, faults, hf, hput⟩ | ⟨faults, hf, hput⟩
    · constructor
      · intro h
        simp [firstFault, hf, findIdx?_cons] at h
      · intro j h
        have hj : j = 0 := by simpa [firstFault, hf, findIdx?_cons, eq_comm] using h
        subst hj
        exact ⟨e, by simp only [putAll, hput], by simp only [putAll, hput, take_zero, OrdMap.insertMany_nil]⟩
    · have hrun : putAll (r :: records) n = putAll records { n with app := n.app.insert r.1 r.2, faults } := by
        simp only [putAll, hput]
      have hfirst : firstFault n.faults (r :: records).length =
          (firstFault faults records.length).map (· + 1) := by
        rcases hf with hf | ⟨hf, rfl⟩
        · simp [firstFault, hf, findIdx?_cons]
        · simp [firstFault, hf]
      obtain ⟨hnone, hsome⟩ := ih { n with app := n.app.insert r.1 r.2, faults }
      rw [hrun, hfirst]
      constructor
      · intro h
        exact hnone (Option.map_eq_none_iff.1 h)
      · intro j h
        obtain ⟨i, hi, rfl⟩ := Option.map_eq_some_iff.1 h
        exact hsome i hi

/-- The same store, and the same puts fail. -/
def Same (n n₀ : Node) : Prop := n.app = n₀.app ∧ n.faults = n₀.faults

theorem put_same {n n₀ : Node} (h : Same n n₀) (key value : Bytes) :
    (n.put key value).1 = (n₀.put key value).1 ∧ Same (n.put key value).2 (n₀.put key value).2 := by
  unfold Node.put
  rw [h.1, h.2]
  match n₀.faults with
  | some e :: faults | none :: faults | [] => exact ⟨rfl, rfl, rfl⟩

theorem applyBatch_writesOf {n n₀ : Node} (h : Same n n₀) :
    ∃ n', applyBatch (writesOf records) n = ((putAll records n₀).1.map StorageError.message, n') ∧
      Same n' (putAll records n₀).2 := by
  induction records generalizing n n₀ with
  | nil => exact ⟨n, rfl, h⟩
  | cons r records ih =>
    rw [writesOf, map_cons, applyBatch, putAll]
    obtain ⟨hout, hsame⟩ := put_same h r.1 r.2
    generalize n.put r.1 r.2 = w at *
    generalize n₀.put r.1 r.2 = w₀ at *
    obtain ⟨out, m⟩ := w
    obtain ⟨out₀, m₀⟩ := w₀
    cases hout
    cases out with
    | ok _ => exact ih hsame
    | error e => exact ⟨m, rfl, hsame⟩

theorem replicateWrite_put {n n₀ : Node} (hkind : kind ≠ .raft) (h : Same n n₀) (key value : Bytes) :
    ∃ (response : Bool → ReplicationResponse) (n' : Node), replicateWrite kind (.write key value false) n =
        (((n₀.put key value).1.map response).mapError .storageError, n') ∧ Same n' (n₀.put key value).2 := by
  obtain ⟨hout, hsame⟩ := put_same h key value
  cases kind with
  | raft => exact absurd rfl hkind
  | none =>
    refine ⟨fun overwrote => ⟨.applied, none, .write overwrote⟩, (n.put key value).2, ?_, hsame⟩
    rw [replicateWrite, noReplication, ← hout]
    generalize n.put key value = w
    obtain ⟨_ | _, m⟩ := w <;> rfl
  | mst shardId =>
    have hd : defaultMstConfig.deserialize value = .ok value := rfl
    simp only [replicateWrite, mstReplicate, hd, setRaw_default, ← hout]
    generalize n.put key value = w at *
    obtain ⟨_ | _, m⟩ := w
    · exact ⟨fun _ => .applied, m, rfl, hsame⟩
    · exact ⟨fun _ => .applied, { m with tree := m.tree.insert key value }, rfl, hsame⟩

theorem replicateWrite_nil (kind : ReplicationKind) (hkind : kind ≠ .raft) (n : Node) :
    replicateWrite kind (.batch []) n = (.ok .applied, n) := by
  cases kind with
  | raft => exact absurd rfl hkind
  | none => rw [replicateWrite, noReplication, noReplicationBatch]
  | mst shardId => rw [replicateWrite, mstReplicate, mstReplicateBatch]

theorem replicateWrite_cons (hkind : kind ≠ .raft) (op : Operation) (ops : List Operation) (n : Node) :
    replicateWrite kind (.batch (op :: ops)) n =
      match replicateWrite kind op n with
      | (.ok _, n') => replicateWrite kind (.batch ops) n'
      | (.error e, n') => (.error e, n') := by
  cases kind with
  | raft => exact absurd rfl hkind
  | none => simp only [replicateWrite, noReplication, noReplicationBatch]
  | mst shardId => simp only [replicateWrite, mstReplicate, mstReplicateBatch]

theorem replicateWrite_writes (hkind : kind ≠ .raft) {n n₀ : Node} (h : Same n n₀) :
    ∃ n', replicateWrite kind (.batch (writesOf records)) n = (batchReport kind (putAll records n₀).1, n') ∧
      Same n' (putAll records n₀).2 := by
  induction records generalizing n n₀ with
  | nil =>
    refine ⟨n, ?_, h⟩
    rw [writesOf, map_nil, replicateWrite_nil kind hkind]
    rfl
  | cons r records ih =>
    obtain ⟨response, m, hrun, hsame⟩ := replicateWrite_put kind hkind h r.1 r.2
    rw [writesOf, map_cons, replicateWrite_cons kind hkind, hrun, putAll]
    generalize n₀.put r.1 r.2 = w₀ at *
    obtain ⟨out, m₀⟩ := w₀
    cases out with
    | ok _ => exact ih hsame
    | error e =>
      refine ⟨m, ?_, hsame⟩
      cases kind with
      | raft => exact absurd rfl hkind
      | none | mst shardId => rfl

theorem replicateWrite_writesOf (records : List (Bytes × Bytes)) (n : Node) :
    ∃ n', replicateWrite kind (.batch (writesOf records)) n = (batchReport kind (putAll records n).1, n') ∧
      n'.app = (putAll records n).2.app ∧ n'.faults = (putAll records n).2.faults := by
  by_cases hkind : kind = .raft
  · subst hkind
    have hlogged : Same { n with log := n.log ++ [.batch (writesOf records)] } n := ⟨rfl, rfl⟩
    obtain ⟨n', hrun, hsame⟩ := applyBatch_writesOf records hlogged
    refine ⟨n', ?_, hsame⟩
    rw [replicateWrite, raftExec, applyShardRequest, hrun]
    cases (putAll records n).1 <;> rfl
  · exact replicateWrite_writes kind records hkind ⟨rfl, rfl⟩

theorem putAll_of_healthy {n : Node} (h : n.faults = []) :
    (putAll records n).1 = none ∧ (putAll records n).2.app = n.app.insertMany records ∧
      (putAll records n).2.faults = [] := by
  induction records generalizing n with
  | nil => exact ⟨rfl, rfl, h⟩
  | cons r records ih =>
    simp only [putAll, put_ok h]
    exact ih h

theorem replicateWrite_batch (records : List (Bytes × Bytes)) (h : n.faults = []) :
    ∃ response n', replicateWrite kind (.batch (writesOf records)) n = (.ok response, n') ∧
      n'.app = n.app.insertMany records ∧ n'.faults = [] := by
  obtain ⟨n', hrun, happ, hfaults⟩ := replicateWrite_writesOf kind records n
  obtain ⟨hnone, happ', hfaults'⟩ := putAll_of_healthy records h
  refine ⟨.applied, n', ?_, happ.trans happ', hfaults.trans hfaults'⟩
  rw [hrun, hnone]
  cases kind <;> rfl

/-! ### Batches of writes and deletes -/

def Operation.Plain : Operation → Prop
  | .write _ _ _ => True
  | .delete _ => True
  | .read _ => False
  | .batch _ => False

def Operation.onStore : Operation → Store → Store
  | .write key value _, s => s.insert key value
  | .delete key, s => s.erase key
  | .read _, s => s
  | .batch _, s => s

def Operation.onStoreAll (operations : List Operation) (s : Store) : Store :=
  operations.foldl (fun s operation => operation.onStore s) s

theorem replicateWrite_plain {operation : Operation} (hop : operation.Plain) (hf : n.faults = [])
    (kind : ReplicationKind) :
    ∃ response n', replicateWrite kind operation n = (.ok response, n') ∧
      n'.app = operation.onStore n.app ∧ n'.faults = [] := by
  cases operation with
  | write key value returnOld => exact replicateWrite_write hf kind key value returnOld
  | delete key =>
    obtain ⟨response, n', hrun, happ, hfaults⟩ := replicateWrite_delete (n := n) kind key
    exact ⟨response, n', hrun, happ, hfaults.trans hf⟩
  | read key | batch operations => exact hop.elim

variable {operations : List Operation}

variable (hops : ∀ op ∈ operations, op.Plain)
include hops

variable (hf : n.faults = [])
include hf

theorem replicateWrite_batch_steps (hkind : kind ≠ .raft) :
    ∃ n', replicateWrite kind (.batch operations) n = (.ok .applied, n') ∧
      n'.app = Operation.onStoreAll operations n.app ∧ n'.faults = [] := by
  induction operations generalizing n with
  | nil => exact ⟨n, replicateWrite_nil kind hkind n, rfl, hf⟩
  | cons op operations ih =>
    obtain ⟨response, n₁, hrun, happ, hf₁⟩ := replicateWrite_plain (hops op mem_cons_self) hf kind
    obtain ⟨n', hrest, happ', hf'⟩ := ih (fun op' h => hops op' (mem_cons_of_mem _ h)) hf₁
    refine ⟨n', ?_, ?_, hf'⟩
    · rw [replicateWrite_cons kind hkind, hrun]
      exact hrest
    · rw [happ', happ]
      rfl

theorem applyBatch_plain : ∃ n', applyBatch operations n = (none, n') ∧
      n'.app = Operation.onStoreAll operations n.app ∧ n'.faults = [] := by
  induction operations generalizing n with
  | nil => exact ⟨n, rfl, rfl, hf⟩
  | cons op operations ih =>
    have hrest := fun op' h => hops op' (mem_cons_of_mem op h)
    cases op with
    | write key value returnOld =>
      obtain ⟨n', hrun, happ, hf'⟩ := ih (n := { n with app := n.app.insert key value }) hrest hf
      refine ⟨n', ?_, happ, hf'⟩
      simp only [applyBatch, put_ok hf]
      exact hrun
    | delete key => exact ih (n := n.delete key) hrest hf
    | read key | batch operations' => exact (hops _ mem_cons_self).elim

theorem replicateWrite_batch_plain : ∃ n', replicateWrite kind (.batch operations) n = (.ok .applied, n') ∧
      n'.app = Operation.onStoreAll operations n.app ∧ n'.faults = [] := by
  by_cases hkind : kind = .raft
  · subst hkind
    obtain ⟨n', hrun, happ, hf'⟩ := applyBatch_plain (n := { n with log := n.log ++ [.batch operations] }) hops hf
    refine ⟨n', ?_, happ, hf'⟩
    simp only [replicateWrite, raftExec, applyShardRequest, hrun]
  · exact replicateWrite_batch_steps kind hops hf hkind

end

end Odgm
