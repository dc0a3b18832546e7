import OaasIot.Odgm.ShardSpec
import OaasIot.Storage.Backends

/-!
# Who created the metadata?

`ensure_metadata_exists` takes it from the replication layer whether it created the object. Without replication that is
whether there was a value, under Raft the flag of the backend's `put`, under MST nothing. The flag means "overwritten"
for the memory backend and the skip list, and "new" for Fjall.
-/

namespace Odgm

/-! ## Layers over a backend -/

inductive Backend
  | memory
  | skipList
  | fjall
  deriving DecidableEq

def Backend.putFlag : Backend → Bool → Bool
  | .memory, existed => existed
  | .skipList, existed => existed
  | .fjall, existed => !existed

theorem putFlag_memory (overflowChecks : Bool) (s : DpStorage.MemoryStorage) (key value : Bytes) :
    (s.step overflowChecks (.put key value)).1 = .flag (Backend.memory.putFlag (s.data.get key).isSome) := rfl

theorem putFlag_skipList (overflowChecks : Bool) (s : Store) (key value : Bytes) :
    (DpStorage.skipListStep overflowChecks s (.put key value)).1 =
      .flag (Backend.skipList.putFlag (s.get key).isSome) := rfl

theorem putFlag_fjall (s : Store) (key value : Bytes) :
    (DpStorage.fjallStep s (.put key value)).1 = .flag (Backend.fjall.putFlag (s.get key).isSome) := rfl

def Node.putOn (backend : Backend) (n : Node) (key value : Bytes) : Except StorageError Bool × Node :=
  match n.put key value with
  | (.ok existed, n') => (.ok (backend.putFlag existed), n')
  | (.error e, n') => (.error e, n')

def replicateWriteOn (backend : Backend) : ReplicationKind → Operation → Node →
    Except ReplicationError ReplicationResponse × Node
  | .none, .write key value false, n =>
    match n.putOn backend key value with
    | (.ok flag, n') => (.ok ⟨.applied, none, .write flag⟩, n')
    | (.error e, n') => (.error (.storageError e), n')
  | .raft, .write key value returnOld, n =>
    match ({ n with log := n.log ++ [.write key value returnOld] } : Node).putOn backend key value with
    | (.ok flag, n') => (.ok ⟨.applied, none, .write flag⟩, n')
    | (.error e, n') => (.error (.consensusError ("Raft error: " ++ e.message)), n')
  | kind, operation, n => replicateWrite kind operation n

def Shard.handleOn {Ev : Type} (c : Codec Ev) (backend : Backend) (kind : ReplicationKind) :
    Handler (shardInterface Ev) (Shard Ev)
  | .replicate operation, sh =>
    ((replicateWriteOn backend kind operation sh.node).1,
      { sh with node := (replicateWriteOn backend kind operation sh.node).2 })
  | .get key, sh => Shard.handle c kind (.get key) sh
  | .existsKey key, sh => Shard.handle c kind (.existsKey key) sh
  | .reconstruct id limit, sh => Shard.handle c kind (.reconstruct id limit) sh
  | .deleteRange start stop, sh => Shard.handle c kind (.deleteRange start stop) sh
  | .trySend context, sh => Shard.handle c kind (.trySend context) sh

def Shard.runOn {Ev α : Type} (c : Codec Ev) (backend : Backend) (kind : ReplicationKind) (p : ShardM Ev α)
    (sh : Shard Ev) : Result α × Shard Ev :=
  Prog.exec (Shard.handleOn c backend kind) p sh

theorem putOn_of_ne {backend : Backend} (h : backend ≠ .fjall) (n : Node) (key value : Bytes) :
    n.putOn backend key value = n.put key value := by
  unfold Node.putOn
  rcases n.put key value with ⟨e | existed, n'⟩
  · rfl
  · cases backend with
    | memory | skipList => rfl
    | fjall => exact absurd rfl h

theorem replicateWriteOn_of_ne {backend : Backend} (h : backend ≠ .fjall) (kind : ReplicationKind)
    (operation : Operation) (n : Node) : replicateWriteOn backend kind operation n = replicateWrite kind operation n := by
  cases operation with
  | write key value returnOld =>
    cases kind with
    | none =>
      cases returnOld with
      | true => rfl
      | false =>
        rcases hput : n.put key value with ⟨e | existed, n'⟩
        · simp only [replicateWriteOn, putOn_of_ne h, replicateWrite, noReplication, hput]
        · simp only [replicateWriteOn, putOn_of_ne h, replicateWrite, noReplication, hput]
    | raft =>
      simp only [replicateWriteOn, putOn_of_ne h, replicateWrite, raftExec, applyShardRequest]
      generalize ({ n with log := n.log ++ [.write key value returnOld] } : Node).put key value = w
      rcases w with ⟨e | existed, n'⟩ <;> rfl
    | mst shardId => rfl
  | read key | delete key | batch operations => cases kind <;> rfl

/-! ## The write of new metadata -/

def Node.PutFails (n : Node) : Prop := ∃ e, n.faults.head? = some (some e)

def createExtra (backend : Backend) : ReplicationKind → OperationExtra
  | .none => .write false
  | .raft => .write (backend.putFlag false)
  | .mst _ => .none

theorem put_new {n : Node} {key : Bytes} (habsent : n.app.get key = none) (value : Bytes) :
    (n.PutFails ∧ ∃ e faults, n.put key value = (.error e, { n with faults })) ∨
      (¬ n.PutFails ∧ ∃ faults, n.put key value = (.ok false, { n with app := n.app.insert key value, faults })) := by
  unfold Node.PutFails
  rcases put_cases n key value with ⟨e, faults, hf, hput⟩ | ⟨faults, hf, hput⟩
  · exact .inl ⟨⟨e, by rw [hf]; rfl⟩, e, faults, hput⟩
  · rw [habsent] at hput
    refine .inr ⟨?_, faults, hput⟩
    rintro ⟨e, he⟩
    rcases hf with hf | ⟨hf, _⟩ <;> rw [hf] at he <;> cases he

theorem replicateWriteOn_new (backend : Backend) (kind : ReplicationKind) {n : Node} {key : Bytes}
    (habsent : n.app.get key = none) (value : Bytes) :
    (n.PutFails ∧ ∃ e n', replicateWriteOn backend kind (.write key value true) n = (.error e, n') ∧ n'.app = n.app) ∨
      (¬ n.PutFails ∧ ∃ response n', replicateWriteOn backend kind (.write key value true) n = (.ok response, n') ∧
        response.extra = createExtra backend kind ∧ n'.app = n.app.insert key value) := by
  cases kind with
  | none =>
    simp only [replicateWriteOn, replicateWrite, noReplication, Node.putWithReturn, habsent]
    rcases put_new habsent value with ⟨hfails, e, faults, hput⟩ | ⟨hok, faults, hput⟩
    · exact .inl ⟨hfails, .storageError e, { n with faults }, by rw [hput], rfl⟩
    · exact .inr ⟨hok, _, { n with app := n.app.insert key value, faults }, by rw [hput], rfl, rfl⟩
  | raft =>
    let logged : Node := { n with log := n.log ++ [.write key value true] }
    have hlogged : logged.app.get key = none := habsent
    simp only [replicateWriteOn, Node.putOn]
    rcases put_new hlogged value with ⟨hfails, e, faults, hput⟩ | ⟨hok, faults, hput⟩
    · exact .inl ⟨hfails, _, { logged with faults }, by rw [hput], rfl⟩
    · exact .inr ⟨hok, _, { logged with app := n.app.insert key value, faults }, by rw [hput], rfl, rfl⟩
  | mst shardId =>
    have hd : defaultMstConfig.deserialize value = .ok value := rfl
    simp only [replicateWriteOn, replicateWrite, mstReplicate, hd, setRaw_default, habsent]
    rcases put_new habsent value with ⟨hfails, e, faults, hput⟩ | ⟨hok, faults, hput⟩
    · exact .inl ⟨hfails, .storageError e, { n with faults }, by rw [hput], rfl⟩
    · exact .inr ⟨hok, _, { n with app := n.app.insert key value, faults, tree := n.tree.insert key value },
        by rw [hput], rfl, rfl⟩

/-! ## The answer -/

section
variable {Ev : Type}

def HasMetadata (s : Store) (id : Str) : Prop := s.get (buildMetadataKey id) ≠ none
instance (s : Store) (id : Str) : Decidable (HasMetadata s id) := inferInstanceAs (Decidable (_ ≠ _))

def CreationFlagRight (c : Codec Ev) (backend : Backend) (kind : ReplicationKind) (id : Str) (sh : Shard Ev) : Prop :=
  (Shard.runOn c backend kind (Shard.ensureMetadataExists id) sh).1 = .ok true ↔
    ¬ HasMetadata sh.node.app id ∧
      HasMetadata (Shard.runOn c backend kind (Shard.ensureMetadataExists id) sh).2.node.app id

theorem runOn_ensure_present (c : Codec Ev) (backend : Backend) (kind : ReplicationKind) {id : Str} {sh : Shard Ev}
    (h : HasMetadata sh.node.app id) :
    (Shard.runOn c backend kind (Shard.ensureMetadataExists id) sh).1 ≠ .ok true := by
  obtain ⟨value, hvalue⟩ := Option.ne_none_iff_exists'.1 h
  have hget : Prog.exec (Shard.handleOn c backend kind) (Shard.getRaw (buildMetadataKey id)) sh =
      (.ok (some value), sh) := by
    rw [← hvalue]
    rfl
  cases hm : ObjectMetadata.fromBytes value with
  | none | some m => simp [Shard.runOn, Shard.ensureMetadataExists, Shard.getMetadata, hget, hm]

def createdAccordingTo : OperationExtra → Bool
  | .write overrode => !overrode
  | .none => false

theorem runOn_ensure_absent (c : Codec Ev) (backend : Backend) (kind : ReplicationKind) {id : Str} {sh : Shard Ev}
    (h : sh.node.app.get (buildMetadataKey id) = none) :
    (sh.node.PutFails ∧ ∃ e sh', Shard.runOn c backend kind (Shard.ensureMetadataExists id) sh = (.error e, sh') ∧
        sh'.node.app = sh.node.app) ∨
      (¬ sh.node.PutFails ∧ ∃ sh', Shard.runOn c backend kind (Shard.ensureMetadataExists id) sh =
          (.ok (createdAccordingTo (createExtra backend kind)), sh') ∧
        sh'.node.app = sh.node.app.insert (buildMetadataKey id) ObjectMetadata.default.toBytes) := by
  have hget : Prog.exec (Shard.handleOn c backend kind) (Shard.getRaw (buildMetadataKey id)) sh = (.ok none, sh) := by
    rw [← h]
    rfl
  have hcall : ∀ operation, Prog.exec (Shard.handleOn c backend kind) (Shard.replicateWriteCall operation) sh =
      (.ok (replicateWriteOn backend kind operation sh.node).1,
        { sh with node := (replicateWriteOn backend kind operation sh.node).2 }) := fun _ => rfl
  rcases replicateWriteOn_new backend kind h ObjectMetadata.default.toBytes with
    ⟨hfails, e, n', hrun, happ⟩ | ⟨hok, response, n', hrun, hextra, happ⟩
  · refine .inl ⟨hfails, .err (.replicationError e), { sh with node := n' }, ?_, happ⟩
    simp [Shard.runOn, Shard.ensureMetadataExists, Shard.getMetadata, Shard.replicate, hget, hcall, hrun]
  · refine .inr ⟨hok, { sh with node := n' }, ?_, happ⟩
    simp only [Shard.runOn, Shard.ensureMetadataExists, Shard.getMetadata, Shard.replicate, Prog.exec_bind,
      Prog.afterwards_ok, hget, hcall, hrun, Prog.exec_pure, hextra]
    cases createExtra backend kind <;> rfl

theorem created_iff (backend : Backend) (kind : ReplicationKind) :
    createdAccordingTo (createExtra backend kind) = true ↔ kind = .none ∨ (kind = .raft ∧ backend ≠ .fjall) := by
  cases kind <;> cases backend <;> simp [createdAccordingTo, createExtra, Backend.putFlag]

/-- **Creation flag**: right where nothing is created, without replication, and under Raft on a backend other than
Fjall. -/
theorem creation_flag_iff (c : Codec Ev) (backend : Backend) (kind : ReplicationKind) (id : Str) (sh : Shard Ev) :
    CreationFlagRight c backend kind id sh ↔
      HasMetadata sh.node.app id ∨ sh.node.PutFails ∨ kind = .none ∨ (kind = .raft ∧ backend ≠ .fjall) := by
  unfold CreationFlagRight
  by_cases hhas : HasMetadata sh.node.app id
  · have hnot := runOn_ensure_present c backend kind hhas
    exact iff_of_true ⟨fun h => absurd h hnot, fun h => absurd hhas h.1⟩ (.inl hhas)
  have habsent : sh.node.app.get (buildMetadataKey id) = none := not_not.1 hhas
  rcases runOn_ensure_absent c backend kind habsent with ⟨hfails, e, sh', hrun, happ⟩ | ⟨hok, sh', hrun, happ⟩
  · rw [hrun]
    have hstill : ¬ HasMetadata sh'.node.app id := by
      unfold HasMetadata
      rwa [happ]
    refine iff_of_true ⟨fun h => ?_, fun h => absurd h.2 hstill⟩ (.inr (.inl hfails))
    cases h
  · rw [hrun]
    have hcreated : HasMetadata sh'.node.app id := by
      rw [HasMetadata, happ, OrdMap.get_insert_self]
      exact Option.some_ne_none _
    rw [← created_iff]
    simp [hhas, hok, hcreated]

end

namespace NewObject

def id : Str := ⟨[111], Str.valid_o, Str.short_o⟩
def emptyShard : Shard Unit := ⟨⟨OrdMap.empty, OrdMap.empty, [], []⟩, []⟩

def ensured (backend : Backend) (kind : ReplicationKind) : Result Bool × Shard Unit :=
  Shard.runOn Postcard.codec backend kind (Shard.ensureMetadataExists id) emptyShard

theorem not_right {backend : Backend} {kind : ReplicationKind} (hfalse : (ensured backend kind).1 = .ok false)
    (hcreated : HasMetadata (ensured backend kind).2.node.app id) :
    ¬ CreationFlagRight Postcard.codec backend kind id emptyShard := by
  intro hright
  have htrue : (ensured backend kind).1 = .ok true := hright.2 ⟨by decide, hcreated⟩
  rw [hfalse] at htrue
  cases htrue

/-- The first call creates the metadata and answers `false`. -/
theorem created_unreported :
    (∀ backend, ¬ CreationFlagRight Postcard.codec backend (.mst 1) id emptyShard) ∧
      ¬ CreationFlagRight Postcard.codec .fjall .raft id emptyShard := by
  constructor
  · intro backend
    cases backend <;> exact not_right rfl (by decide)
  · exact not_right rfl (by decide)

end NewObject

end Odgm
