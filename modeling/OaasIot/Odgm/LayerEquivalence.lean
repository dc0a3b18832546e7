import OaasIot.Odgm.CreationFlag

/-!
# Two interpreters of one request language

`NoReplication::replicate_write` (`replicateWriteOn` with `ReplicationKind.none`) and `apply_shard_request` of the Raft
state machine both carry out `Operation`s on a storage backend. They differ in the answer to a write with
`return_old`.
-/

namespace Odgm

open List

def applyShardRequestOn (backend : Backend) : Operation → Node → Except StorageError ReplicationResponse × Node
  | .write key value _, n =>
    match n.putOn backend key value with
    | (.ok flag, n') => (.ok ⟨.applied, none, .write flag⟩, n')
    | (.error e, n') => (.error e, n')
  | operation, n => applyShardRequest operation n

namespace Operation

def Single : Operation → Prop
  | .batch _ => False
  | _ => True

def Flat : Operation → Prop
  | .batch operations => ∀ operation ∈ operations, operation.Single
  | _ => True

mutual

def effect : Operation → Store → Store
  | .write key value _, s => s.insert key value
  | .read _, s => s
  | .delete key, s => s.erase key
  | .batch operations, s => effectAll operations s

def effectAll : List Operation → Store → Store
  | [], s => s
  | operation :: operations, s => effectAll operations (operation.effect s)

end

def localResponse (backend : Backend) (s : Store) : Operation → ReplicationResponse
  | .write key _ true => ⟨.applied, s.get key, .write (s.get key).isSome⟩
  | .write key _ false => ⟨.applied, none, .write (backend.putFlag (s.get key).isSome)⟩
  | .read key => ⟨.applied, s.get key, .none⟩
  | .delete _ => .applied
  | .batch _ => .applied

def raftResponse (backend : Backend) (s : Store) : Operation → ReplicationResponse
  | .write key _ _ => ⟨.applied, none, .write (backend.putFlag (s.get key).isSome)⟩
  | .read key => ⟨.applied, s.get key, .none⟩
  | .delete _ => .applied
  | .batch _ => .applied

def AnsweredAlike (backend : Backend) (s : Store) : Operation → Prop
  | .write key _ true => s.get key = none ∧ backend ≠ .fjall
  | _ => True

end Operation

section
variable {n : Node} {operation : Operation} {operations : List Operation}

/-! ## What each of them does -/

variable (backend : Backend)

theorem putOn_ok (hf : n.faults = []) (key value : Bytes) :
    n.putOn backend key value =
      (.ok (backend.putFlag (n.app.get key).isSome), { n with app := n.app.insert key value }) := by
  rw [Node.putOn, put_ok hf]

theorem noReplication_single (hf : n.faults = []) (hop : operation.Single) :
    ∃ response, noReplication operation n = (.ok response, { n with app := operation.effect n.app }) := by
  cases operation with
  | write key value returnOld =>
    cases returnOld with
    | true => exact ⟨_, by simp only [noReplication, Node.putWithReturn, put_ok hf]; rfl⟩
    | false => exact ⟨_, by simp only [noReplication, put_ok hf]; rfl⟩
  | read key | delete key => exact ⟨_, by rw [noReplication]; rfl⟩
  | batch operations => exact hop.elim

theorem noReplicationBatch_flat (hops : ∀ operation ∈ operations, operation.Single) (hf : n.faults = []) :
    noReplicationBatch operations n =
      (.ok .applied, { n with app := Operation.effectAll operations n.app }) := by
  induction operations generalizing n with
  | nil => rw [noReplicationBatch]; rfl
  | cons operation operations ih =>
    obtain ⟨response, hrun⟩ := noReplication_single hf (hops operation mem_cons_self)
    rw [noReplicationBatch, hrun]
    dsimp only
    exact ih (n := { n with app := operation.effect n.app }) (fun op hop => hops op (mem_cons_of_mem _ hop)) hf

theorem applyBatch_flat (hops : ∀ operation ∈ operations, operation.Single) (hf : n.faults = []) :
    applyBatch operations n = (none, { n with app := Operation.effectAll operations n.app }) := by
  induction operations generalizing n with
  | nil => rfl
  | cons operation operations ih =>
    have hrest := fun op hop => hops op (mem_cons_of_mem operation hop)
    cases operation with
    | write key value returnOld =>
      rw [applyBatch, put_ok hf]
      exact ih (n := { n with app := n.app.insert key value }) hrest hf
    | read key => exact ih hrest hf
    | delete key => exact ih (n := n.delete key) hrest hf
    | batch inner => exact (hops _ mem_cons_self).elim

theorem replicateWriteOn_none_eq (hf : n.faults = []) (hflat : operation.Flat) :
    replicateWriteOn backend .none operation n =
      (.ok (operation.localResponse backend n.app), { n with app := operation.effect n.app }) := by
  cases operation with
  | write key value returnOld =>
    cases returnOld with
    | true =>
      simp only [replicateWriteOn, replicateWrite, noReplication, Node.putWithReturn, put_ok hf]
      rfl
    | false =>
      simp only [replicateWriteOn, putOn_ok backend hf]
      rfl
  | read key | delete key => simp only [replicateWriteOn, replicateWrite, noReplication]; rfl
  | batch operations =>
    simp only [replicateWriteOn, replicateWrite, noReplication]
    rw [noReplicationBatch_flat hflat hf]
    rfl

theorem applyShardRequestOn_eq (hf : n.faults = []) (hflat : operation.Flat) :
    applyShardRequestOn backend operation n =
      (.ok (operation.raftResponse backend n.app), { n with app := operation.effect n.app }) := by
  cases operation with
  | write key value returnOld =>
    simp only [applyShardRequestOn, putOn_ok backend hf]
    rfl
  | read key | delete key => rfl
  | batch operations =>
    simp only [applyShardRequestOn, applyShardRequest]
    rw [applyBatch_flat hflat hf]
    rfl

theorem responses_eq_iff (s : Store) (operation : Operation) :
    operation.localResponse backend s = operation.raftResponse backend s ↔ operation.AnsweredAlike backend s := by
  cases operation with
  | read key | delete key | batch operations => exact iff_of_true rfl trivial
  | write key value returnOld =>
    cases returnOld with
    | false => exact iff_of_true rfl trivial
    | true =>
      cases hold : s.get key with
      | some old => simp [Operation.localResponse, Operation.raftResponse, Operation.AnsweredAlike, hold]
      | none =>
        cases backend <;>
          simp [Operation.localResponse, Operation.raftResponse, Operation.AnsweredAlike, hold, Backend.putFlag]

end

/-! ## Both machines over one sequence -/

structure BothLayers where
  single : Node
  replica : Node

namespace BothLayers

def new (s : Store) : BothLayers := ⟨⟨s, .empty, [], []⟩, ⟨s, .empty, [], []⟩⟩

def step (backend : Backend) (b : BothLayers) (operation : Operation) : BothLayers :=
  ⟨(replicateWriteOn backend .none operation b.single).2, (applyShardRequestOn backend operation b.replica).2⟩

def Alike (backend : Backend) (b : BothLayers) (operation : Operation) : Prop :=
  (∃ response, (replicateWriteOn backend .none operation b.single).1 = .ok response ∧
      (applyShardRequestOn backend operation b.replica).1 = .ok response) ∧
    (b.step backend operation).single.app = (b.step backend operation).replica.app

structure Matched (b : BothLayers) : Prop where
  app : b.replica.app = b.single.app
  single : b.single.faults = []
  replica : b.replica.faults = []

variable {backend : Backend} {b : BothLayers} {operation : Operation}

theorem Matched.step (h : b.Matched) (backend : Backend) (hflat : operation.Flat) : (b.step backend operation).Matched := by
  unfold BothLayers.step
  rw [replicateWriteOn_none_eq backend h.single hflat, applyShardRequestOn_eq backend h.replica hflat]
  exact ⟨congrArg operation.effect h.app, h.single, h.replica⟩

theorem alike_iff (h : b.Matched) (hflat : operation.Flat) :
    b.Alike backend operation ↔ operation.AnsweredAlike backend b.single.app := by
  rw [Alike, and_iff_left (h.step backend hflat).app.symm, replicateWriteOn_none_eq backend h.single hflat,
    applyShardRequestOn_eq backend h.replica hflat, h.app, ← responses_eq_iff]
  simp only [Except.ok.injEq]
  exact ⟨fun ⟨_, hlocal, hraft⟩ => hlocal.trans hraft.symm, fun heq => ⟨_, rfl, heq.symm⟩⟩

/-- **No-replication against Raft**: the stores agree, and the answers if no write that asks for the old value finds
one and the backend is not Fjall. -/
theorem layers_agree_iff (backend : Backend) (s : Store) (requests : List Operation)
    (hflat : ∀ request ∈ requests, request.Flat) :
    (AlongRun (BothLayers.step backend) (Alike backend) (.new s) requests ↔
      AlongRun (BothLayers.step backend) (fun b request => request.AnsweredAlike backend b.single.app) (.new s)
        requests) ∧
    (requests.foldl (BothLayers.step backend) (.new s)).single.app =
      (requests.foldl (BothLayers.step backend) (.new s)).replica.app := by
  have hnew : (BothLayers.new s).Matched := ⟨rfl, rfl, rfl⟩
  have hrequests : AlongRun (BothLayers.step backend) (fun _ request => request.Flat) (.new s) requests :=
    alongRun_const.2 hflat
  refine ⟨alongRun_iff Matched (fun b request hb hrequest => ?_) hnew hrequests, ?_⟩
  · exact ⟨alike_iff hb hrequest, fun _ => hb.step backend hrequest⟩
  · have hend := hrequests.invariant Matched (fun b request hb hrequest => hb.step backend hrequest) hnew
    exact hend.app.symm

theorem layers_agree_three_requests :
    AlongRun (BothLayers.step .memory) (Alike .memory) (.new .empty)
      [.write [107] [118] true, .read [107], .batch [.delete [107]]] := by
  refine (layers_agree_iff .memory .empty _ ?_).1.2 ⟨⟨rfl, by decide⟩, trivial, trivial, trivial⟩
  intro request hmem
  simp only [mem_cons, not_mem_nil, or_false] at hmem
  rcases hmem with rfl | rfl | rfl
  · trivial
  · trivial
  · intro operation hop
    rw [mem_singleton.1 hop]
    trivial

/-- Raft does not return the old value; on Fjall the first write is flagged differently. -/
theorem layers_differ_on_return_old :
    ((replicateWriteOn .memory .none (.write [107] [2] true) ⟨OrdMap.empty.insert [107] [1], .empty, [], []⟩).1 =
        .ok ⟨.applied, some [1], .write true⟩ ∧
      (applyShardRequestOn .memory (.write [107] [2] true) ⟨OrdMap.empty.insert [107] [1], .empty, [], []⟩).1 =
        .ok ⟨.applied, none, .write true⟩) ∧
    ((replicateWriteOn .fjall .none (.write [107] [2] true) ⟨.empty, .empty, [], []⟩).1 =
        .ok ⟨.applied, none, .write false⟩ ∧
      (applyShardRequestOn .fjall (.write [107] [2] true) ⟨.empty, .empty, [], []⟩).1 =
        .ok ⟨.applied, none, .write true⟩) :=
  ⟨⟨rfl, rfl⟩, rfl, rfl⟩

end BothLayers

end Odgm
