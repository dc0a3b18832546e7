import OaasIot.Lib.Program
import OaasIot.Odgm.Listing
import OaasIot.Odgm.Replication

/-!
# The mutations of a shard (`entry_store_impl.rs`, `object_shard/core.rs`)

Each function is a program over the local storage, the replication layer and the event dispatcher. It runs to its end
against `Shard.handle`, or interleaves with others call by call, as the source's functions do at their `await`s. Reads
do not fail here, and the loop of `reconstruct_object_from_entries` is one call.
-/

namespace Odgm

/-! ## Events -/

inductive MutAction
  | create
  | update
  | delete
  deriving DecidableEq

inductive MutationSource
  | localWrite
  | sync
  deriving DecidableEq

structure ChangedKey where
  keyCanonical : Str
  action : MutAction
  value : Option Bytes

structure MutationContext (Ev : Type) where
  objectId : Str
  clsId : Str
  partitionId : UInt16
  versionBefore : UInt64
  versionAfter : UInt64
  changed : List ChangedKey
  source : MutationSource
  eventConfig : Option Ev

/-! ## Calls -/

inductive ShardCall (Ev : Type)
  | get (key : Bytes)
  | existsKey (key : Bytes)
  | reconstruct (id : Str) (prefetchLimit : Nat)
  | deleteRange (start stop : Bytes)
  | replicate (operation : Operation)
  | trySend (context : MutationContext Ev)

def ShardCall.Reply {Ev : Type} : ShardCall Ev → Type
  | .get _ => Option Bytes
  | .existsKey _ => Bool
  | .reconstruct _ _ => Result (Option (ObjectData Ev))
  | .deleteRange _ _ => Unit
  | .replicate _ => Except ReplicationError ReplicationResponse
  | .trySend _ => Unit

def shardInterface (Ev : Type) : Interface := ⟨ShardCall Ev, ShardCall.Reply⟩
abbrev ShardM (Ev : Type) := ExceptT Fault (Prog (shardInterface Ev))

structure ShardConfig where
  v2Dispatcher : Bool
  eventManager : Bool
  includeValues : Bool
  granularPrefetchLimit : Nat
  collection : Str
  partitionId : UInt16
  prefetch_pos : 0 < granularPrefetchLimit

structure ValueMap where
  toList : List (Str × ObjectVal)
  nodupKeys : (toList.map Prod.fst).Nodup

structure ObjectInput (Ev : Type) where
  entry : ObjectData Ev
  kv : ValueMap
  collected : kv.toList.Perm entry.entries.toList

namespace Shard

section
variable {Ev : Type} (c : Codec Ev) (cfg : ShardConfig)

def call (q : ShardCall Ev) : ShardM Ev q.Reply := Prog.ask (I := shardInterface Ev) q
def getRaw (key : Bytes) : ShardM Ev (Option Bytes) := call (.get key)
def existsKey (key : Bytes) : ShardM Ev Bool := call (.existsKey key)
def trySend (context : MutationContext Ev) : ShardM Ev Unit := call (.trySend context)

def replicateWriteCall (operation : Operation) : ShardM Ev (Except ReplicationError ReplicationResponse) :=
  call (.replicate operation)

variable (id : Str)

def reconstructCall (prefetchLimit : Nat) : ShardM Ev (Result (Option (ObjectData Ev))) :=
  call (.reconstruct id prefetchLimit)

def replicate (operation : Operation) : ShardM Ev ReplicationResponse := do
  match ← replicateWriteCall operation with
  | .ok response => pure response
  | .error e => throw (.err (.replicationError e))

def reconstruct : ShardM Ev (Option (ObjectData Ev)) := do
  match ← reconstructCall id cfg.granularPrefetchLimit with
  | .ok object => pure object
  | .error e => throw e

def getMetadata : ShardM Ev (Option ObjectMetadata) := do
  match ← getRaw (buildMetadataKey id) with
  | none => pure none
  | some value =>
    match ObjectMetadata.fromBytes value with
    | some m => pure (some m)
    | none => throw (.err .invalidMetadata)

def metadataOrDefault : ShardM Ev ObjectMetadata := do
  let m ← getMetadata id
  pure (m.getD .default)

def setMetadata (m : ObjectMetadata) : ShardM Ev Unit := do
  let _ ← replicate (.write (buildMetadataKey id) m.toBytes false)
  pure ()

def readEventConfig : ShardM Ev (Option Ev) := do
  let value ← getRaw (eventConfigKey id)
  pure (value.bind c.decodeEvent)

def mutation (before after : UInt64) (changed : List ChangedKey) (event : Option Ev) : MutationContext Ev :=
  ⟨id, cfg.collection, cfg.partitionId, before, after, changed, .localWrite, event⟩

def writeAction (existed : Bool) : MutAction := if existed then .update else .create
def rawData (v : ObjectVal) : Option Bytes := if cfg.includeValues then some v.data else none

def bumpVersion : ShardM Ev ObjectMetadata := do
  let m ← metadataOrDefault id
  setMetadata id m.incrementVersion
  pure m

def announce (m : ObjectMetadata) (changed : List ChangedKey) : ShardM Ev Unit := do
  if cfg.v2Dispatcher then
    let event ← readEventConfig c id
    trySend (mutation cfg id m.objectVersion m.incrementVersion.objectVersion changed event)

def existedBefore (id key : Str) : ShardM Ev Bool :=
  if cfg.v2Dispatcher then existsKey (buildEntryKey id key) else pure false

def setEntry (id key : Str) (value : ObjectVal) : ShardM Ev Unit := do
  let existed ← existedBefore cfg id key
  let _ ← replicate (.write (buildEntryKey id key) (c.encodeVal value) false)
  let m ← bumpVersion id
  announce c cfg id m [⟨key, writeAction existed, rawData cfg value⟩]

/-- No event configuration is attached to the context of a single delete. -/
def deleteEntry (id key : Str) : ShardM Ev Unit := do
  if ← existsKey (buildEntryKey id key) then
    let _ ← replicate (.delete (buildEntryKey id key))
    let m ← bumpVersion id
    if cfg.v2Dispatcher then
      trySend (mutation cfg id m.objectVersion m.incrementVersion.objectVersion [⟨key, .delete, none⟩] none)

def probeAll (id : Str) : List Str → ShardM Ev (List Bool)
  | [] => pure []
  | key :: keys => do
    let existed ← existsKey (buildEntryKey id key)
    let rest ← probeAll id keys
    pure (existed :: rest)

def preExist (keys : List Str) : ShardM Ev (List Bool) :=
  if cfg.v2Dispatcher then probeAll id keys else pure []

def batchRecords (values : List (Str × ObjectVal)) (m : ObjectMetadata) : List (Bytes × Bytes) :=
  values.map (fun e => (buildEntryKey id e.1, c.encodeVal e.2)) ++ [(buildMetadataKey id, m.toBytes)]

/-- The part of `batch_set_entries` behind the version check; `m` is the metadata it read. The response
of the layer is not looked at: a batch Raft reports as `Failed` counts as written. -/
def writeBatch (values : List (Str × ObjectVal)) (m : ObjectMetadata) : ShardM Ev UInt64 := do
  let existed ← preExist cfg id (values.map Prod.fst)
  let _ ← replicate (.batch (writesOf (batchRecords c id values m.incrementVersion)))
  announce c cfg id m ((values.zip existed).map fun e => ⟨e.1.1, writeAction e.2, rawData cfg e.1.2⟩)
  pure m.incrementVersion.objectVersion

def versionMatches (expectedVersion : Option UInt64) (m : ObjectMetadata) : Result Unit :=
  match expectedVersion with
  | none => .ok ()
  | some expected =>
    if m.objectVersion = expected then .ok () else .error (.err (.versionMismatch expected m.objectVersion))

def batchSetEntries (values : ValueMap) (expectedVersion : Option UInt64) : ShardM Ev UInt64 := do
  let m ← metadataOrDefault id
  if values.toList = [] then pure m.objectVersion
  else
    match versionMatches expectedVersion m with
    | .error e => throw e
    | .ok () => writeBatch c cfg id values.toList m

def deleteAll (id : Str) : List Str → ShardM Ev (List Str)
  | [] => pure []
  | key :: keys => do
    if ← existsKey (buildEntryKey id key) then
      let _ ← replicate (.delete (buildEntryKey id key))
      let rest ← deleteAll id keys
      pure (key :: rest)
    else deleteAll id keys

def batchDeleteEntries (keys : List Str) : ShardM Ev Unit := do
  let deleted ← deleteAll id keys
  if deleted ≠ [] then
    let m ← bumpVersion id
    announce c cfg id m (deleted.map fun key => ⟨key, .delete, none⟩)

/-- `delete_range` on the local storage: the replication layer does not see it. -/
def deleteObjectGranular : ShardM Ev Unit :=
  call (.deleteRange (buildObjectPrefix id) (computeObjectRangeEnd (buildObjectPrefix id)))

def writeEventConfig (event : Option Ev) : ShardM Ev Unit :=
  match event with
  | none => pure ()
  | some ev => do
    let _ ← replicate (.write (eventConfigKey id) (c.encodeEvent ev) false)
    pure ()

def internalSetObject (input : ObjectInput Ev) : ShardM Ev Unit := do
  writeEventConfig c id input.entry.event
  let _ ← batchSetEntries c cfg id input.kv none
  pure ()

def oldEntry (event : Option Ev) : ShardM Ev (Option (ObjectData Ev)) :=
  if cfg.eventManager && event.isSome then reconstruct cfg id else pure none

def setObject (input : ObjectInput Ev) : ShardM Ev Unit := do
  let _ ← getMetadata id
  let _ ← oldEntry cfg id input.entry.event
  internalSetObject c cfg id input

def deletions (object : Option (ObjectData Ev)) : List ChangedKey :=
  match object with
  | none => []
  | some o => o.entries.toList.map fun e => ⟨e.1, .delete, none⟩

def existingEntry : ShardM Ev (Option (ObjectData Ev)) :=
  if cfg.v2Dispatcher then reconstruct cfg id else pure none

/-- The deletion itself, of an object with metadata `m` that held `existing`. Its event configuration is
read before the range deletion removes it. -/
def bury (m : ObjectMetadata) (existing : Option (ObjectData Ev)) : ShardM Ev Unit := do
  let event ← readEventConfig c id
  deleteObjectGranular id
  setMetadata id m.incrementVersion.markTombstone
  if cfg.v2Dispatcher ∧ deletions existing ≠ [] then
    trySend (mutation cfg id m.objectVersion m.incrementVersion.markTombstone.objectVersion
      (deletions existing) event)

def deleteObject : ShardM Ev Unit := do
  match ← getMetadata id with
  | none => pure ()
  | some m =>
    if m.tombstone then pure ()
    else
      let existing ← existingEntry cfg id
      bury c cfg id m existing

/-- The body of `internal_delete_object` is that of `delete_object`. -/
def internalDeleteObject : ShardM Ev Unit := deleteObject c cfg id

def ensureMetadataExists : ShardM Ev Bool := do
  match ← getMetadata id with
  | some _ => pure false
  | none =>
    let response ← replicate (.write (buildMetadataKey id) ObjectMetadata.default.toBytes true)
    match response.extra with
    | .write overrode => pure !overrode
    | .none => pure false

def getObject : ShardM Ev (Option (ObjectData Ev)) := reconstruct cfg id

end

end Shard

/-! ## Running a shard -/

structure Shard (Ev : Type) where
  node : Node
  sent : List (MutationContext Ev)

namespace Shard

def handle {Ev : Type} (c : Codec Ev) (kind : ReplicationKind) : Handler (shardInterface Ev) (Shard Ev)
  | .get key, sh => (sh.node.app.get key, sh)
  | .existsKey key, sh => ((sh.node.app.get key).isSome, sh)
  | .reconstruct id limit, sh => (reconstructObjectFromEntries c sh.node.app id limit, sh)
  | .deleteRange start stop, sh => ((), { sh with node := sh.node.deleteRange start stop })
  | .replicate operation, sh =>
    ((replicateWrite kind operation sh.node).1, { sh with node := (replicateWrite kind operation sh.node).2 })
  | .trySend context, sh => ((), { sh with sent := sh.sent ++ [context] })

def run {Ev α : Type} (c : Codec Ev) (kind : ReplicationKind) (p : ShardM Ev α) (sh : Shard Ev) :
    Result α × Shard Ev :=
  Prog.exec (handle c kind) p sh

end Shard

end Odgm
