import OaasIot.Odgm.Collections

/-!
# Who executes an invocation (`shard/invocation/exec.rs`, `shard/object_shard/trait_impl.rs`, `wasm_bridge.rs`)

The gRPC service calls the shard; the Zenoh handlers hold its `InvocationOffloader`. Both can hand a request to a WASM
executor or to a connection to the URL of its route; the offloader **looks at the route**, the shard does not. `X` are
the executors, `C` the connections.
-/

open Grpc

namespace Odgm

inductive OffloadError
  | noFunc (cls fn : String)
  | configurationError (msg : String)
  | invalidUrl (msg : String)
  deriving DecidableEq

inductive InvokeRequest
  | invokeFn (partitionId : UInt32) (clsId fnId : String) (payload : List UInt8)
  | invokeObj (partitionId : UInt32) (clsId fnId : String) (objectId : Option String) (payload : List UInt8)
  deriving DecidableEq

def InvokeRequest.fnId : InvokeRequest → String
  | .invokeFn _ _ fnId _ => fnId
  | .invokeObj _ _ fnId _ _ => fnId

inductive Executor (X C : Type)
  | inProcess (executor : X)
  | remote (connection : C)
  deriving DecidableEq

variable {X C : Type}

def wasmScheme (url : String) : Bool := "wasm://".toList.isPrefixOf url.toList

def isWasmFn (metadata : ShardMetadata) (fnId : String) : Bool :=
  match metadata.invocations.fnRoutes.get fnId with
  | some route => wasmScheme route.url
  | none => false

section Dispatch

variable (rpcManager : String → Except OffloadError C)

def connectionOf (metadata : ShardMetadata) (fnId : String) : Except OffloadError C :=
  match metadata.invocations.fnRoutes.get fnId with
  | some route => rpcManager route.url
  | none => .error (.noFunc metadata.collection fnId)

structure InvocationOffloader (X : Type) where
  metadata : ShardMetadata
  localOffloader : Option X

structure ObjectUnifiedShard (X : Type) where
  metadata : ShardMetadata
  invOffloader : Option (InvocationOffloader X)
  localOffloader : Option X

def InvocationOffloader.dispatch (o : InvocationOffloader X) (req : InvokeRequest) : Except OffloadError (Executor X C) :=
  match (if isWasmFn o.metadata req.fnId then o.localOffloader else none) with
  | some executor => .ok (.inProcess executor)
  | none => (connectionOf rpcManager o.metadata req.fnId).map .remote

/-- `invoke_fn` and `invoke_obj` of the shard: whatever the route, a local executor takes the request. -/
def ObjectUnifiedShard.dispatch (s : ObjectUnifiedShard X) (req : InvokeRequest) : Except OffloadError (Executor X C) :=
  match s.localOffloader with
  | some executor => .ok (.inProcess executor)
  | none =>
    match s.invOffloader with
    | some o => o.dispatch rpcManager req
    | none => .error (.configurationError "Invocation offloader not available")

def ObjectUnifiedShard.zenohDispatch (s : ObjectUnifiedShard X) (req : InvokeRequest) :
    Option (Except OffloadError (Executor X C)) :=
  s.invOffloader.map fun o => o.dispatch rpcManager req

/-- **The executor a request should get**: the WASM executor if the route is a `wasm://` route and the executor is
set, the connection of the route otherwise. -/
def specifiedExecutor (metadata : ShardMetadata) (executor : Option X) (req : InvokeRequest) :
    Except OffloadError (Executor X C) :=
  match isWasmFn metadata req.fnId, executor with
  | true, some x => .ok (.inProcess x)
  | _, _ => (connectionOf rpcManager metadata req.fnId).map .remote

def SameExecutor (s : ObjectUnifiedShard X) (req : InvokeRequest) : Prop :=
  s.dispatch rpcManager req = specifiedExecutor rpcManager s.metadata s.localOffloader req ∧
    s.zenohDispatch rpcManager req = some (s.dispatch rpcManager req)

end Dispatch

/-! ## Creating a shard -/

def newFull (metadata : ShardMetadata) : ObjectUnifiedShard X := ⟨metadata, some ⟨metadata, none⟩, none⟩

/-- The executor is registered in both places; a cell that is set already keeps its value, and the shard reports it. -/
def ObjectUnifiedShard.setLocalOffloader (s : ObjectUnifiedShard X) (executor : X) :
    Except String Unit × ObjectUnifiedShard X :=
  let registered := s.invOffloader.map fun o => { o with localOffloader := o.localOffloader.or (some executor) }
  match s.localOffloader with
  | none => (.ok (), { s with invOffloader := registered, localOffloader := some executor })
  | some _ => (.error "local_offloader already set", { s with invOffloader := registered })

def setupWasmOffloader (metadata : ShardMetadata) (built : Option X) : Option X :=
  if metadata.invocations.fnRoutes.toList.any fun x => wasmScheme x.2.url then built else none

/-- `create_shard`; an executor that could not be set is only logged. -/
def createShard (metadata : ShardMetadata) (built : Option X) : ObjectUnifiedShard X :=
  match setupWasmOffloader metadata built with
  | none => newFull metadata
  | some executor => ((newFull metadata).setLocalOffloader executor).2

/-! ## Dispatch -/

variable {rpcManager : String → Except OffloadError C} {metadata : ShardMetadata} {built : Option X}

theorem createShard_eq : createShard metadata built =
    ⟨metadata, some ⟨metadata, setupWasmOffloader metadata built⟩, setupWasmOffloader metadata built⟩ := by
  unfold createShard
  cases setupWasmOffloader metadata built <;> rfl

theorem offloader_dispatch (o : InvocationOffloader X) (req : InvokeRequest) :
    o.dispatch rpcManager req = specifiedExecutor rpcManager o.metadata o.localOffloader req := by
  unfold InvocationOffloader.dispatch specifiedExecutor
  cases isWasmFn o.metadata req.fnId <;> cases o.localOffloader <;> rfl

theorem map_remote_ne (conn : Except OffloadError C) (x : X) :
    conn.map Executor.remote ≠ .ok (.inProcess x) := by
  cases conn <;> simp [Except.map]

/-- **One executor for both ways** if no WASM executor was set up, or the route of the function is a `wasm://` route.
-/
theorem same_executor_iff (rpcManager : String → Except OffloadError C) (metadata : ShardMetadata) (built : Option X)
    (req : InvokeRequest) : SameExecutor rpcManager (createShard metadata built) req ↔
      setupWasmOffloader metadata built = none ∨ isWasmFn metadata req.fnId = true := by
  rw [createShard_eq]
  unfold SameExecutor ObjectUnifiedShard.dispatch ObjectUnifiedShard.zenohDispatch
  cases hsetup : setupWasmOffloader metadata built with
  | none =>
    refine iff_of_true ⟨?_, rfl⟩ (.inl rfl)
    exact offloader_dispatch _ _
  | some x =>
    cases hwasm : isWasmFn metadata req.fnId with
    | true =>
      refine iff_of_true ⟨?_, ?_⟩ (.inr rfl)
      · simp [specifiedExecutor, hwasm]
      · simp [InvocationOffloader.dispatch, hwasm]
    | false =>
      refine iff_of_false (fun h => map_remote_ne (connectionOf rpcManager metadata req.fnId) x ?_) (by simp)
      simpa [specifiedExecutor, hwasm] using h.1.symm

def mixedShard : ShardMetadata :=
  { id := 1, collection := "cls", partitionId := 0, owner := none, primary := none, replica := [], replicaOwner := []
    shardType := "mst", options := .empty
    invocations := ⟨(OrdMap.empty.insert "count" ⟨"wasm://count", false, false, [], some "https://modules/c.wasm", none⟩).insert
      "echo" ⟨"http://cls-fn-0:80/", true, false, [], none, none⟩, []⟩ }

/-- Over gRPC the request for `echo` goes to the WASM executor, over Zenoh to its URL. -/
theorem grpc_request_to_wrong_executor :
    ¬ SameExecutor (fun url => .ok url) (createShard mixedShard (some ())) (.invokeFn 0 "cls" "echo" []) ∧
      (createShard mixedShard (some ())).dispatch (fun url => Except.ok url) (.invokeFn 0 "cls" "echo" []) =
        .ok (.inProcess ()) ∧
      (createShard mixedShard (some ())).zenohDispatch (fun url => Except.ok url) (.invokeFn 0 "cls" "echo" []) =
        some (.ok (.remote "http://cls-fn-0:80/")) := by
  refine ⟨fun h => ?_, by decide +kernel, by decide +kernel⟩
  have hspecified := h.1
  revert hspecified
  decide +kernel

end Odgm
