import OaasIot.Odgm.Types

/-!
# Listing, counting and reconstruction (`entry_store_impl.rs`, `object_shard/core.rs`)

The source's loops are bounded by the store, not by a counter (the pages of `reconstruct_object_from_entries` apart);
here they take the number of stored records, plus one, as fuel and end in `Fault.diverge` where that runs out.
-/

namespace Odgm

def maxListLimit : Nat := 1024
def listScanSlack : Nat := 16
def maxPages : Nat := 4096

section
variable {Ev : Type} (c : Codec Ev) (s : Store)

/-! ## Single records -/

variable (id : Str) (keyPrefix : Option Str)

def getMetadata : Result (Option ObjectMetadata) :=
  match s.get (buildMetadataKey id) with
  | none => .ok none
  | some value =>
    match ObjectMetadata.fromBytes value with
    | some m => .ok (some m)
    | none => .error (.err .invalidMetadata)

def getEntry (id key : Str) : Result (Option ObjectVal) :=
  match s.get (buildEntryKey id key) with
  | none => .ok none
  | some value =>
    match c.decodeVal value with
    | some v => .ok (some v)
    | none => .error (.err .deserializationError)

/-- The event configuration of an object; one that does not decode counts as absent. -/
def getEventConfig : Option Ev := (s.get (eventConfigKey id)).bind c.decodeEvent

/-! ## `list_entries` -/

structure EntryListOptions where
  keyPrefix : Option Str
  limit : Nat
  cursor : Option Bytes

structure EntryListResult where
  entries : List (Str × ObjectVal)
  nextCursor : Option Bytes
  deriving DecidableEq

structure ListState where
  entries : List (Str × ObjectVal)
  lastEmittedKey : Option Bytes
  moreAvailable : Bool
  prefixSeen : Bool
  prefixExhausted : Bool
  skipCursorMatch : Bool

def entryOf (raw : Bytes) : Except Panic (Option Str) := do
  match ← parseGranularKey raw with
  | some (objId, .entry key) => if objId = id then pure (some key) else pure none
  | _ => pure none

def hasKeyPrefix : Option Str → Str → Bool
  | none, _ => true
  | some p, key => key.startsWith p

def additionalMatches (next : Option (Bytes × Bytes)) (storageCursor : Option Bytes) : Except Panic Bool :=
  match keyPrefix with
  | none => pure (next.isSome || storageCursor.isSome)
  | some p =>
    match next with
    | some (nextKey, _) => do
      match ← entryOf id nextKey with
      | some nextEntry =>
        if nextEntry.startsWith p then pure true
        else cursorIsEntry (fun _ => true)
      | none => cursorIsEntry (fun _ => true)
    | none => cursorIsEntry (fun key => key.startsWith p)
where
  cursorIsEntry (ok : Str → Bool) : Except Panic Bool :=
    match storageCursor with
    | none => pure false
    | some cursorKey => do
      match ← entryOf id cursorKey with
      | some key => pure (ok key)
      | none => pure false

def listChunk (id : Str) (keyPrefix : Option Str) (limit : Nat) (scanStart : Bytes)
    (storageCursor : Option Bytes) : List (Bytes × Bytes) → ListState → Except Panic (ListState × Bool)
  | [], st => pure (st, false)
  | (rawKey, rawValue) :: chunk, st =>
    if st.skipCursorMatch = true ∧ rawKey = scanStart then
      listChunk id keyPrefix limit scanStart storageCursor chunk { st with skipCursorMatch := false }
    else do
      let st := { st with skipCursorMatch := false }
      match ← entryOf id rawKey with
      | none => listChunk id keyPrefix limit scanStart storageCursor chunk st
      | some key =>
        if hasKeyPrefix keyPrefix key = false then
          if st.prefixSeen then pure ({ st with prefixExhausted := true }, true)
          else listChunk id keyPrefix limit scanStart storageCursor chunk st
        else
          let st := { st with prefixSeen := st.prefixSeen || keyPrefix.isSome }
          match c.decodeVal rawValue with
          | none => listChunk id keyPrefix limit scanStart storageCursor chunk st
          | some val =>
            let st := { st with entries := st.entries ++ [(key, val)], lastEmittedKey := some rawKey }
            if st.entries.length = limit then do
              let more ← additionalMatches id keyPrefix chunk.head? storageCursor
              pure ({ st with moreAvailable := more }, true)
            else listChunk id keyPrefix limit scanStart storageCursor chunk st

def listLoop (id : Str) (keyPrefix : Option Str) (limit : Nat) : Nat → Bytes → ListState → Result ListState
  | 0, _, _ => .error .diverge
  | fuel + 1, scanStart, st =>
    if st.entries.length < limit then do
      let (chunk, storageCursor) ← liftPanic (s.scanRangePaginated scanStart
        (computeObjectRangeEnd (buildObjectPrefix id)) (limit - st.entries.length + listScanSlack))
      if chunk = [] then pure st
      else
        let (st, left) ← liftPanic (listChunk c id keyPrefix limit scanStart storageCursor chunk st)
        if left then pure st
        else
          match storageCursor with
          | some next => listLoop id keyPrefix limit fuel next { st with skipCursorMatch := false }
          | none => pure st
    else pure st

def scanStartOf : Option Bytes → Except Panic Bytes
  | none => pure (buildEntryKey id Str.empty)
  | some cursor => do
    match ← parseGranularKey cursor with
    | some (objId, _) => if objId = id then pure cursor else pure (buildEntryKey id Str.empty)
    | none => pure (buildEntryKey id Str.empty)

def ListState.init (cursor : Option Bytes) : ListState :=
  { entries := [], lastEmittedKey := none, moreAvailable := false, prefixSeen := false,
    prefixExhausted := false, skipCursorMatch := cursor.isSome }

def listEntries (options : EntryListOptions) : Result EntryListResult :=
  if options.limit = 0 then pure ⟨[], options.cursor⟩
  else do
    let limit := min options.limit maxListLimit
    let scanStart ← liftPanic (scanStartOf id options.cursor)
    let st ← listLoop c s id options.keyPrefix limit (s.toList.length + 1) scanStart
      (ListState.init options.cursor)
    let moreAvailable := if st.prefixExhausted then false else st.moreAvailable
    pure ⟨st.entries, if moreAvailable then st.lastEmittedKey else none⟩

/-! ## Loops over the pages -/

def countLoop (id : Str) : Nat → Nat → Option Bytes → Result Nat
  | 0, _, _ => .error .diverge
  | fuel + 1, total, cursor => do
    let page ← listEntries c s id ⟨none, maxListLimit, cursor⟩
    let total := total + page.entries.length
    match page.nextCursor with
    | some next => countLoop id fuel total (some next)
    | none => pure total

def countEntries : Result Nat := countLoop c s id (s.toList.length + 1) 0 none

structure ObjectData (Ev : Type) where
  lastUpdated : UInt64
  entries : OrdMap Str ObjectVal
  event : Option Ev

def reconstructLoop (id : Str) (prefetchLimit : Nat) :
    Nat → OrdMap Str ObjectVal → Option Bytes → Result (OrdMap Str ObjectVal)
  | 0, _, _ => .error (.err (.configurationError "granular reconstruction exceeded pagination bounds"))
  | pages + 1, entries, cursor => do
    let page ← listEntries c s id ⟨none, prefetchLimit, cursor⟩
    let entries := entries.insertMany page.entries
    match page.nextCursor with
    | some next =>
      if cursor = some next then
        .error (.err (.configurationError "granular reconstruction encountered a stalled cursor"))
      else reconstructLoop id prefetchLimit pages entries (some next)
    | none => pure entries

def reconstructObjectFromEntries (prefetchLimit : Nat) : Result (Option (ObjectData Ev)) :=
  if prefetchLimit = 0 then
    .error (.err (.configurationError "granular prefetch limit must be greater than zero"))
  else do
    let entries ← reconstructLoop c s id prefetchLimit maxPages OrdMap.empty none
    let metadata ← getMetadata s id
    let version? := if entries.toList = [] then
        match metadata with
        | some m => if m.tombstone then none else some m.objectVersion
        | none => none
      else
        match metadata with
        | some m => if m.tombstone then none else some m.objectVersion
        -- Entries may replicate before the metadata: the version is then 0.
        | none => some 0
    match version? with
    | none => pure none
    | some version => pure (some ⟨version, entries, getEventConfig c s id⟩)

/-! ## `list_objects` -/

structure ObjectListOptions where
  objectIdPrefix : Option Str
  limit : Nat
  cursor : Option Bytes

structure ObjectListItem where
  objectId : Str
  version : UInt64
  entryCount : Nat
  deriving DecidableEq

structure ObjectListResult where
  objects : List ObjectListItem
  nextCursor : Option Bytes
  deriving DecidableEq

structure ObjectListState where
  objects : List ObjectListItem
  lastEmittedKey : Option Bytes
  prefixSeen : Bool
  skipCursorMatch : Bool

def countEntriesOrZero : Result Nat :=
  match countEntries c s id with
  | .ok n => .ok n
  | .error (.err _) => .ok 0
  | .error f => .error f

def metadataOrDefault (raw : Bytes) : ObjectMetadata :=
  (ObjectMetadata.fromBytes raw).getD ObjectMetadata.default

def listObjectsChunk (idPrefix : Option Str) (limit : Nat) (currentStart : Bytes) :
    List (Bytes × Bytes) → ObjectListState → Result (ObjectListState × Bool)
  | [], st => pure (st, false)
  | (rawKey, rawValue) :: chunk, st =>
    if st.skipCursorMatch = true ∧ rawKey = currentStart then
      listObjectsChunk idPrefix limit currentStart chunk { st with skipCursorMatch := false }
    else do
      let st := { st with skipCursorMatch := false }
      match ← liftPanic (parseGranularKey rawKey) with
      | some (objectId, .metadata) =>
        if hasKeyPrefix idPrefix objectId = false then
          if st.prefixSeen then pure (st, true)
          else listObjectsChunk idPrefix limit currentStart chunk st
        else
          let st := { st with prefixSeen := st.prefixSeen || idPrefix.isSome }
          let metadata := metadataOrDefault rawValue
          if metadata.tombstone then listObjectsChunk idPrefix limit currentStart chunk st
          else do
            let entryCount ← countEntriesOrZero c s objectId
            let st := { st with
              objects := st.objects ++ [⟨objectId, metadata.objectVersion, entryCount⟩]
              lastEmittedKey := some rawKey }
            if limit ≤ st.objects.length then pure (st, true)
            else listObjectsChunk idPrefix limit currentStart chunk st
      | _ => listObjectsChunk idPrefix limit currentStart chunk st

def listObjectsLoop (idPrefix : Option Str) (limit : Nat) :
    Nat → Bytes → ObjectListState → Result ObjectListState
  | 0, _, _ => .error .diverge
  | fuel + 1, currentStart, st => do
    let (chunk, storageCursor) ← liftPanic (s.scanRangePaginated currentStart [0xFF]
      (limit - st.objects.length + listScanSlack))
    if chunk = [] then pure st
    else
      let (st, left) ← listObjectsChunk c s idPrefix limit currentStart chunk st
      if left then pure st
      else
        match storageCursor with
        | some next => listObjectsLoop idPrefix limit fuel next st
        | none => pure st

def listObjects (options : ObjectListOptions) : Result ObjectListResult :=
  if options.limit = 0 then pure ⟨[], options.cursor⟩
  else do
    let limit := min options.limit maxListLimit
    let st ← listObjectsLoop c s options.objectIdPrefix limit (s.toList.length + 1)
      (options.cursor.getD [0x00])
      { objects := [], lastEmittedKey := none, prefixSeen := false, skipCursorMatch := options.cursor.isSome }
    pure ⟨st.objects, if limit ≤ st.objects.length then st.lastEmittedKey else none⟩

end

end Odgm
