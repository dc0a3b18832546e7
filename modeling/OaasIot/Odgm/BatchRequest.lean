import OaasIot.Odgm.Runs

/-!
# Batch requests over gRPC and Zenoh (`grpc_service/data.rs:459`, `network/batch_setter.rs:134`)

The gRPC service hands a `BatchSetValuesRequest` to `object_api::batch_mutate_entries`, the Zenoh handler replicates a
batch of its own. Both sides have normalized the object id, with the same limit (`lib.rs:153`, `:200`).
-/

namespace Odgm

/-! ## Normalized keys -/

inductive NormalizationError
  | empty
  | length (len max : Nat)
  | invalidChars
  deriving DecidableEq, Repr

def NormalizationError.message : NormalizationError → String
  | .empty => "empty id"
  | .length len max => "exceeds maximum length " ++ toString max ++ " (got " ++ toString len ++ ")"
  | .invalidChars => "invalid characters present"

def asciiLower (b : UInt8) : UInt8 := if 0x41 ≤ b ∧ b ≤ 0x5A then b + 0x20 else b

def validChar (b : UInt8) : Bool :=
  (0x61 ≤ b && b ≤ 0x7A) || (0x30 ≤ b && b ≤ 0x39) || b == 0x2E || b == 0x5F || b == 0x3A || b == 0x2D

theorem validChar_ascii {b : UInt8} (h : validChar b = true) : b ≤ 0x7F := by
  simp only [validChar, Bool.or_eq_true, Bool.and_eq_true, decide_eq_true_eq, beq_iff_eq] at h
  rcases h with ((((⟨_, h⟩ | ⟨_, h⟩) | rfl) | rfl) | rfl) | rfl
  · exact h.trans (by decide)
  · exact h.trans (by decide)
  all_goals decide

instance decidableAllValid (l : Bytes) : Decidable (∀ b ∈ l, validChar b = true) := List.decidableBAll _ l

def normalizeObjectId (raw : Str) (maxLen : Nat) : Except NormalizationError Str :=
  if raw.bytes = [] then .error .empty
  else if maxLen < (raw.bytes.map asciiLower).length then
    .error (.length (raw.bytes.map asciiLower).length maxLen)
  else if h : ∀ b ∈ raw.bytes.map asciiLower, validChar b = true then
    .ok ⟨raw.bytes.map asciiLower, utf8Valid_ascii fun b hb => validChar_ascii (h b hb), by
      rw [List.length_map]
      exact raw.len_lt⟩
  else .error .invalidChars

def normalizeEntryKey (raw : Str) (maxLen : Nat) : Except NormalizationError Str := normalizeObjectId raw maxLen

/-! ## Requests -/

structure ValData where
  data : Bytes
  type : Int32
  len_lt : data.length < 2 ^ 62

/-- `ValType::try_from(..).unwrap_or(ValType::Byte)`. -/
def ValType.ofInt (type : Int32) : ValType := if type = 1 then .crdtMap else .byte

def ObjectVal.ofValData (value : ValData) : ObjectVal := ⟨value.data, .ofInt value.type, value.len_lt⟩

structure BatchSetValuesRequest where
  values : List (Str × ValData)
  deleteKeys : List Str
  expectedObjectVersion : Option UInt64
  nodupKeys : (values.map Prod.fst).Nodup

/-- One request as the two transports decode it: they iterate its map in orders of their own. -/
structure SentTwice where
  grpc : BatchSetValuesRequest
  zenoh : BatchSetValuesRequest
  values_perm : zenoh.values.Perm grpc.values
  deleteKeys_eq : zenoh.deleteKeys = grpc.deleteKeys
  expected_eq : zenoh.expectedObjectVersion = grpc.expectedObjectVersion

/-- Pairs collected into a new `HashMap`, which has an order of its own. -/
structure HashMaps where
  collect : List (Str × ObjectVal) → ValueMap
  collect_perm : ∀ pairs, (collect pairs).toList.Perm (OrdMap.empty.insertMany pairs).toList

def HashMaps.sorted : HashMaps where
  collect pairs := ⟨(OrdMap.empty.insertMany pairs).toList, OrdMap.nodup_keys _⟩
  collect_perm _ := .refl _

def normalizeAll {α β ε : Type} (maxLen : Nat) (key : α → Str) (make : Str → α → β)
    (reject : Str → NormalizationError → ε) : List α → Except ε (List β)
  | [] => .ok []
  | x :: xs =>
    match normalizeEntryKey (key x) maxLen with
    | .error e => .error (reject (key x) e)
    | .ok norm => (normalizeAll maxLen key make reject xs).map fun ys => make norm x :: ys

def normalizeSets {ε : Type} (maxLen : Nat) (reject : Str → NormalizationError → ε) (values : List (Str × ValData)) :
    Except ε (List (Str × ObjectVal)) :=
  normalizeAll maxLen Prod.fst (fun norm e => (norm, .ofValData e.2)) reject values

def normalizeDeletes {ε : Type} (maxLen : Nat) (reject : Str → NormalizationError → ε) (keys : List Str) :
    Except ε (List Str) :=
  normalizeAll maxLen (fun key => key) (fun norm _ => norm) reject keys

/-! ## gRPC -/

section
variable {Ev : Type} (c : Codec Ev) (kind : ReplicationKind) (cfg : ShardConfig)

namespace Shard

def getEntry (id key : Str) : ShardM Ev (Option ObjectVal) := do
  match ← getRaw (buildEntryKey id key) with
  | none => pure none
  | some value =>
    match c.decodeVal value with
    | some v => pure (some v)
    | none => throw (.err .deserializationError)

def currentVersion (id : Str) : ShardM Ev UInt64 := do
  let m ← metadataOrDefault id
  pure m.objectVersion

def deleteExisting (id : Str) : List Str → ShardM Ev Bool
  | [] => pure false
  | key :: keys => do
    match ← getEntry c id key with
    | none => deleteExisting id keys
    | some _ =>
      deleteEntry cfg id key
      let _ ← deleteExisting id keys
      pure true

def checkVersion (id : Str) (expectedVersion : Option UInt64) : ShardM Ev Unit :=
  match expectedVersion with
  | none => pure ()
  | some expected => do
    let current ← currentVersion id
    if current = expected then pure () else throw (.err (.versionMismatch expected current))

/-- A request that only deletes. Each entry deleted has put the version up by one already when it is put up
once more for all of them. -/
def deleteOnly (id : Str) (deleteKeys : List Str) (expectedVersion : Option UInt64) : ShardM Ev UInt64 := do
  checkVersion id expectedVersion
  if ← deleteExisting c cfg id deleteKeys then
    let m ← bumpVersion id
    pure m.incrementVersion.objectVersion
  else currentVersion id

def mutateFirst (id : Str) (setMap : ValueMap) (deleteKeys : List Str) (expectedVersion : Option UInt64) :
    ShardM Ev UInt64 :=
  if setMap.toList ≠ [] then batchSetEntries c cfg id setMap expectedVersion
  else deleteOnly c cfg id deleteKeys expectedVersion

/-- "Apply deletes after sets if both present". -/
def deletesAfter (id : Str) (deleteKeys : List Str) (newVersion : UInt64) : ShardM Ev Unit := do
  if deleteKeys ≠ [] ∧ 0 < newVersion then
    let _ ← deleteExisting c cfg id deleteKeys

def batchMutateEntries (id : Str) (setMap : ValueMap) (deleteKeys : List Str) (expectedVersion : Option UInt64) :
    ShardM Ev UInt64 := do
  if setMap.toList = [] ∧ deleteKeys = [] then currentVersion id
  else
    let newVersion ← mutateFirst c cfg id setMap deleteKeys expectedVersion
    deletesAfter c cfg id deleteKeys newVersion
    pure newVersion

end Shard

def text (s : String) : Bytes := s.toUTF8.data.toList

/-- How a gRPC call fails: with a status of its own, or with `Status::from` a shard error. -/
inductive GrpcError
  | invalidArgument (message : String)
  | shard (fault : Fault)

def mapNormalizationError : NormalizationError → GrpcError
  | .empty => .invalidArgument "entry key cannot be empty"
  | .length len max =>
    .invalidArgument ("entry key length " ++ toString len ++ " exceeds maximum " ++ toString max)
  | .invalidChars => .invalidArgument "entry key contains invalid characters"

def grpcBatchSetValues (hash : HashMaps) (maxLen : Nat) (id : Str) (req : BatchSetValuesRequest) (sh : Shard Ev) :
    Except GrpcError Unit × Shard Ev :=
  match normalizeSets maxLen (fun _ e => mapNormalizationError e) req.values with
  | .error e => (.error e, sh)
  | .ok sets =>
    match normalizeDeletes maxLen (fun _ e => mapNormalizationError e) req.deleteKeys with
    | .error e => (.error e, sh)
    | .ok deleteKeys =>
      match Shard.run c kind
        (Shard.batchMutateEntries c cfg id (hash.collect sets) deleteKeys req.expectedObjectVersion) sh with
      | (.ok _, sh') => (.ok (), sh')
      | (.error f, sh') => (.error (.shard f), sh')

/-! ## Zenoh -/

namespace BatchSetHandler

def debugHint : Option UInt64 → String
  | none => "None"
  | some leader => "Some(" ++ toString leader ++ ")"

def statusError (failed : String) : ResponseStatus → Option String
  | .applied => none
  | .notLeader hint => some ("Not leader, hint: " ++ debugHint hint)
  | .failed reason => some (failed ++ reason)
  | .conflict reason => some ("Unexpected response status: Conflict(" ++ reason.quote ++ ")")
  | .retry => some "Unexpected response status: Retry"

def replicateWriteOperation (operation : Operation) (n : Node) : Except Bytes Unit × Node :=
  match replicateWrite kind operation n with
  | (.ok response, n') =>
    match statusError "Write failed: " response.status with
    | none => (.ok (), n')
    | some msg => (.error (text msg), n')
  | (.error e, n') => (.error (text ("replication error: " ++ e.message)), n')

def replicateReadValue (key : Bytes) (n : Node) : Except Bytes (Option Bytes) × Node :=
  match replicateRead kind (.read key) n with
  | (.ok response, n') =>
    match statusError "Read failed: " response.status with
    | none => (.ok response.data, n')
    | some msg => (.error (text msg), n')
  | (.error e, n') => (.error (text ("replication error: " ++ e.message)), n')

def decodeMetadata : Option Bytes → Except Bytes ObjectMetadata
  | none => .ok .default
  | some bytes =>
    match ObjectMetadata.fromBytes bytes with
    | some m => .ok m
    | none => .error (text "failed to deserialize metadata")

def checkVersion (mutated : Bool) (expectedVersion : Option UInt64) (m : ObjectMetadata) : Except Bytes Unit :=
  match mutated, expectedVersion with
  | true, some expected =>
    if m.objectVersion = expected then .ok ()
    else .error (text ("version mismatch: expected " ++ toString expected ++ ", got " ++ toString m.objectVersion))
  | _, _ => .ok ()

def bumped (setEntries : List (Str × ObjectVal)) (deleteKeys : List Str) (m : ObjectMetadata) : ObjectMetadata :=
  let m := if setEntries ≠ [] then m.incrementVersion else m
  if deleteKeys ≠ [] then m.incrementVersion else m

def operations (id : Str) (setEntries : List (Str × ObjectVal)) (deleteKeys : List Str) (m : ObjectMetadata) :
    List Operation :=
  setEntries.map (fun e => .write (buildEntryKey id e.1) (c.encodeVal e.2) false) ++
    deleteKeys.map (fun key => .delete (buildEntryKey id key)) ++
    if setEntries ≠ [] ∨ deleteKeys ≠ [] then
      [.write (buildMetadataKey id) (bumped setEntries deleteKeys m).toBytes false]
    else []

def mutate (id : Str) (setEntries : List (Str × ObjectVal)) (deleteKeys : List Str) (expectedVersion : Option UInt64)
    (n : Node) : Except Bytes Unit × Node :=
  match replicateReadValue kind (buildMetadataKey id) n with
  | (.error e, n') => (.error e, n')
  | (.ok raw, n') =>
    match decodeMetadata raw with
    | .error e => (.error e, n')
    | .ok m =>
      match checkVersion (decide (setEntries ≠ [] ∨ deleteKeys ≠ [])) expectedVersion m with
      | .error e => (.error e, n')
      | .ok () =>
        if operations c id setEntries deleteKeys m = [] then (.ok (), n')
        else replicateWriteOperation kind (.batch (operations c id setEntries deleteKeys m)) n'

def rejectEntryKey (key : Str) (e : NormalizationError) : Bytes :=
  text "invalid entry key '" ++ key.bytes ++ text ("': " ++ e.message)

def rejectDeleteKey (key : Str) (e : NormalizationError) : Bytes :=
  text "invalid delete key '" ++ key.bytes ++ text ("': " ++ e.message)

def handle (maxLen : Nat) (id : Str) (req : BatchSetValuesRequest) (n : Node) : Except Bytes Unit × Node :=
  match normalizeSets maxLen rejectEntryKey req.values with
  | .error e => (.error e, n)
  | .ok setEntries =>
    match normalizeDeletes maxLen rejectDeleteKey req.deleteKeys with
    | .error e => (.error e, n)
    | .ok deleteKeys => mutate c kind id setEntries deleteKeys req.expectedObjectVersion n

end BatchSetHandler

end

end Odgm
