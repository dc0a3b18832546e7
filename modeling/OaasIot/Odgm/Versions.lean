import OaasIot.Lib.Protocol
import OaasIot.Lib.SharedCounter
import OaasIot.Odgm.Cas

/-!
# Object versions under concurrent calls

Every mutation reads the metadata, adds one to the version and writes it back, with an `await` between;
`ensure_metadata_exists` writes version 0 where it has read none, and `delete_object` removes the record before it
writes it again. The version of one object is a counter that the calls share (`SharedCounter`).
-/

namespace Odgm

open SharedCounter Protocol OrdMap

/-! ## The calls -/

inductive VersionCall
  | setEntry (id : ObjectId) (key : Str) (value : ObjectVal)
  | deleteEntry (id : ObjectId) (key : Str)
  | batchSetEntries (id : ObjectId) (values : ValueMap) (expectedVersion : Option UInt64)
  | batchDeleteEntries (id : ObjectId) (keys : List Str)
  | ensureMetadataExists (id : ObjectId)
  | deleteObject (id : ObjectId)

def VersionCall.program {Ev : Type} (c : Codec Ev) (cfg : ShardConfig) : VersionCall → ShardM Ev Unit
  | .setEntry id key value => Shard.setEntry c cfg id key value
  | .deleteEntry id key => Shard.deleteEntry cfg id key
  | .batchSetEntries id values expected => do
    let _ ← Shard.batchSetEntries c cfg id values expected
    pure ()
  | .batchDeleteEntries id keys => Shard.batchDeleteEntries c cfg id keys
  | .ensureMetadataExists id => do
    let _ ← Shard.ensureMetadataExists id
    pure ()
  | .deleteObject id => Shard.deleteObject c cfg id

/-! ## What a call does to the version of an object -/

def versionOf (raw : Option Bytes) : Nat := ((raw.bind ObjectMetadata.fromBytes).getD .default).objectVersion.toNat

def singleWrite (id : Str) : Operation → Option Bytes
  | .write key value _ => if key = buildMetadataKey id then some value else none
  | _ => none

def lastWrite (id : Str) : List Operation → Option Bytes
  | [] => none
  | operation :: operations => (lastWrite id operations).or (singleWrite id operation)

def writtenMetadata (id : Str) : Operation → Option Bytes
  | .batch operations => lastWrite id operations
  | operation => singleWrite id operation

def KeepsMetadata (id : Str) : Operation → Prop
  | .write _ _ _ => True
  | .delete key => key ≠ buildMetadataKey id
  | .batch operations => ∃ records, operations = writesOf records
  | .read _ => False

def actOf {Ev : Type} (id : Str) : ShardCall Ev → Act
  | .get key => if key = buildMetadataKey id then .read else .quiet
  | .replicate operation =>
    match writtenMetadata id operation with
    | none => .quiet
    | some bytes => if versionOf (some bytes) = 0 then .reset else .bump
  | .deleteRange start stop => if start ≤ buildMetadataKey id ∧ buildMetadataKey id < stop then .reset else .quiet
  | _ => .quiet

def versionProtocol (Ev : Type) (id : ObjectId) : Protocol (shardInterface Ev) Client where
  allowed g
    | .replicate operation => KeepsMetadata id operation ∧
        ∀ bytes, writtenMetadata id operation = some bytes → versionOf (some bytes) = 0 ∨
          (g.bumped = false ∧ ∃ v, g.read = some v ∧ versionOf (some bytes) = min (v + 1) maxVersion)
    | .deleteRange start stop => ∃ id' : ObjectId,
        start = buildObjectPrefix id' ∧ stop = computeObjectRangeEnd (buildObjectPrefix id')
    | _ => True
  after g
    | .get key, raw => if key = buildMetadataKey id then { g with read := some (versionOf raw) } else g
    | .replicate operation, _ =>
      if actOf id (.replicate operation : ShardCall Ev) = .bump then { g with bumped := true } else g
    | _, _ => g

/-! ## Concurrent calls -/

abbrev Interleaving (Ev : Type) := Monitored (shardInterface Ev) (Shard Ev) (Result Unit) Client

namespace Interleaving

section
variable {Ev : Type} (c : Codec Ev) (kind : ReplicationKind) (id : ObjectId)

def start (cfg : ShardConfig) (calls : List VersionCall) (sh : Shard Ev) : Interleaving Ev :=
  ⟨⟨calls.map fun call => ExceptT.run (call.program c cfg), sh⟩, fun _ => ⟨none, false⟩⟩

def step (st : Interleaving Ev) (i : Nat) : Interleaving Ev :=
  st.advance (versionProtocol Ev id) (Shard.handle c kind) i

def version (st : Interleaving Ev) : Nat := (storedVersion st.pool.state.node.app id).toNat
def counter (st : Interleaving Ev) : SharedCounter := ⟨version id st, st.notes⟩

def act (st : Interleaving Ev) (i : Nat) : Act :=
  match st.next i with
  | some q => actOf id q
  | none => .quiet

def completed (st : Interleaving Ev) : Nat :=
  ((Finset.range st.pool.progs.length).filter fun i => st.finished i = true ∧ (st.notes i).bumped = true).card

def Done (st : Interleaving Ev) : Prop := ∀ i < st.pool.progs.length, st.finished i = true

def VersionLaw (first : Nat) (st : Interleaving Ev) (i : Nat) : Prop :=
  version id st ≤ version id (step c kind id st i) ∧
    first + completed (step c kind id st i) ≤ version id (step c kind id st i)

def SafeCall (st : Interleaving Ev) (i : Nat) : Prop := (counter id st).Safe maxVersion i (act id st i)

end

end Interleaving

/-! ## Effects -/

variable {operation : Operation}

section
variable {id : ObjectId}

theorem toNat_storedVersion (s : Store) (id : ObjectId) :
    (storedVersion s id).toNat = versionOf (s.get (buildMetadataKey id)) := by
  unfold storedVersion getMetadata versionOf
  cases s.get (buildMetadataKey id) with
  | none => rfl
  | some value =>
    dsimp only [Option.bind_some]
    cases ObjectMetadata.fromBytes value <;> rfl

theorem get_metadata_insert (s : Store) (id : Str) (key value : Bytes) (returnOld : Bool) :
    (s.insert key value).get (buildMetadataKey id) =
      (singleWrite id (.write key value returnOld)).or (s.get (buildMetadataKey id)) := by
  rw [get_insert, singleWrite]
  by_cases h : key = buildMetadataKey id <;> simp [h]

theorem get_metadata_insertMany (records : List (Bytes × Bytes)) (s : Store) (id : Str) :
    (s.insertMany records).get (buildMetadataKey id) =
      (lastWrite id (writesOf records)).or (s.get (buildMetadataKey id)) := by
  induction records generalizing s with
  | nil => rfl
  | cons r records ih =>
    rw [insertMany_cons, ih, get_metadata_insert s id r.1 r.2 false, ← Option.or_assoc]
    rfl

theorem replicate_metadata (kind : ReplicationKind) {n : Node} (hf : n.faults = []) (hop : KeepsMetadata id operation) :
    (replicateWrite kind operation n).2.app.get (buildMetadataKey id) =
        (writtenMetadata id operation).or (n.app.get (buildMetadataKey id)) ∧
      (replicateWrite kind operation n).2.faults = [] := by
  cases operation with
  | write key value returnOld =>
    obtain ⟨response, n', hrun, happ, hfaults⟩ := replicateWrite_write hf kind key value returnOld
    rw [hrun]
    rw [happ]
    exact ⟨get_metadata_insert n.app id key value returnOld, hfaults⟩
  | delete key =>
    obtain ⟨response, n', hrun, happ, hfaults⟩ := replicateWrite_delete (n := n) kind key
    rw [hrun]
    refine ⟨?_, hfaults.trans hf⟩
    rw [happ, get_erase, if_neg (Ne.symm hop)]
    rfl
  | batch operations =>
    obtain ⟨records, rfl⟩ := hop
    obtain ⟨response, n', hrun, happ, hfaults⟩ := replicateWrite_batch kind records hf
    rw [hrun]
    rw [happ]
    exact ⟨get_metadata_insertMany records n.app id, hfaults⟩
  | read key => exact hop.elim

end

/-! ## The calls follow the protocol -/

section
variable {Ev α β : Type} {c : Codec Ev} {cfg : ShardConfig} {id : ObjectId} {g : Client}

def Unnoted (id : ObjectId) (p : ShardM Ev α) : Prop :=
  ∀ g, (versionProtocol Ev id).FollowsE g p fun g' _ => g' = g

variable {p : ShardM Ev α}

namespace Unnoted

theorem pure (a : α) : Unnoted id (pure a : ShardM Ev α) := fun _ => .pure rfl

theorem throw (e : Fault) : Unnoted id (throw e : ShardM Ev α) := fun _ => .throw

theorem bind {f : α → ShardM Ev β} (hp : Unnoted id p) (hf : ∀ a, Unnoted id (f a)) : Unnoted id (p >>= f) := by
  refine fun g => .bind ((hp g).mono ?_)
  rintro _ a rfl
  exact hf a _

theorem andThen {f : α → ShardM Ev β} {Q : Client → β → Prop} (hp : Unnoted id p)
    (hf : ∀ a, (versionProtocol Ev id).FollowsE g (f a) Q) : (versionProtocol Ev id).FollowsE g (p >>= f) Q := by
  refine .bind ((hp g).mono ?_)
  rintro _ a rfl
  exact hf a

theorem ite {q : ShardM Ev α} {b : Prop} [Decidable b] (hp : Unnoted id p) (hq : Unnoted id q) :
    Unnoted id (if b then p else q) := by
  by_cases hb : b
  · rw [if_pos hb]
    exact hp
  · rw [if_neg hb]
    exact hq

theorem getRaw {key : Bytes} (h : key ≠ buildMetadataKey id) : Unnoted id (Shard.getRaw key : ShardM Ev _) :=
  fun _ => .ask trivial fun _ => if_neg h

theorem existsKey (key : Bytes) : Unnoted id (Shard.existsKey key : ShardM Ev _) :=
  fun _ => .ask trivial fun _ => rfl

theorem trySend (context : MutationContext Ev) : Unnoted id (Shard.trySend context) :=
  fun _ => .ask trivial fun _ => rfl

theorem reconstruct (id' : Str) : Unnoted id (Shard.reconstruct cfg id' : ShardM Ev _) := by
  have hcall : Unnoted id (Shard.reconstructCall id' cfg.granularPrefetchLimit : ShardM Ev _) :=
    fun _ => .ask trivial fun _ => rfl
  refine bind hcall fun answer => ?_
  cases answer with
  | ok object => exact pure object
  | error e => exact throw e

theorem deleteObjectGranular (id' : ObjectId) : Unnoted id (Shard.deleteObjectGranular id' : ShardM Ev _) :=
  fun _ => .ask ⟨id', rfl, rfl⟩ fun _ => rfl

end Unnoted

theorem followsE_replicate (hallowed : (versionProtocol Ev id).allowed g (.replicate operation)) :
    (versionProtocol Ev id).FollowsE g (Shard.replicate operation : ShardM Ev _) fun g' _ =>
      g' = if actOf id (.replicate operation : ShardCall Ev) = .bump then { g with bumped := true } else g := by
  have hcall : (versionProtocol Ev id).FollowsE g (Shard.replicateWriteCall operation : ShardM Ev _) fun g' _ =>
      g' = if actOf id (.replicate operation : ShardCall Ev) = .bump then { g with bumped := true } else g :=
    .ask hallowed fun _ => rfl
  refine .bind (hcall.mono ?_)
  rintro g' answer hg'
  cases answer with
  | ok response => exact .pure hg'
  | error e => exact .throw

theorem Unnoted.replicate (hkeeps : KeepsMetadata id operation) (hnone : writtenMetadata id operation = none) :
    Unnoted id (Shard.replicate operation : ShardM Ev _) := by
  intro g
  have hact : actOf id (.replicate operation : ShardCall Ev) = .quiet := by simp only [actOf, hnone]
  refine (followsE_replicate ⟨hkeeps, ?_⟩).mono ?_
  · intro bytes hbytes
    rw [hnone] at hbytes
    cases hbytes
  · rintro _ _ rfl
    rw [hact]
    rfl

variable {m : ObjectMetadata}

theorem versionOf_toBytes (hm : m.Encodable) : versionOf (some m.toBytes) = m.objectVersion.toNat := by
  rw [versionOf, Option.bind_some, ObjectMetadata.fromBytes_toBytes hm]
  rfl

structure HasRead (id id' : ObjectId) (m : ObjectMetadata) (g : Client) : Prop where
  encodable : m.Encodable
  fresh : id' = id → g.bumped = false
  version : id' = id → g.read = some m.objectVersion.toNat

theorem followsE_getMetadata (id' : ObjectId) (hfresh : id' = id → g.bumped = false) :
    (versionProtocol Ev id).FollowsE g (Shard.getMetadata id') fun g' m => HasRead id id' (m.getD .default) g' := by
  have hraw : (versionProtocol Ev id).FollowsE g (Shard.getRaw (buildMetadataKey id')) fun g' raw =>
      g' = if buildMetadataKey id' = buildMetadataKey id then { g with read := some (versionOf raw) } else g :=
    .ask trivial fun _ => rfl
  refine .bind (hraw.mono ?_)
  rintro _ raw rfl
  -- The note tells the version of what the answer decodes to.
  have hread : ∀ m : ObjectMetadata, m.Encodable → versionOf raw = m.objectVersion.toNat → HasRead id id' m
      (if buildMetadataKey id' = buildMetadataKey id then { g with read := some (versionOf raw) } else g) := by
    intro m hm hversion
    by_cases hid : id' = id
    · rw [if_pos (metaKey_inj.2 hid), hversion]
      exact ⟨hm, hfresh, fun _ => rfl⟩
    · exact ⟨hm, fun h => absurd h hid, fun h => absurd h hid⟩
  cases raw with
  | none => exact .pure (hread _ ObjectMetadata.encodable_default rfl)
  | some bytes =>
    dsimp only
    cases hm : ObjectMetadata.fromBytes bytes with
    | none => exact .throw
    | some m =>
      refine .pure (hread m (ObjectMetadata.encodable_of_fromBytes hm) ?_)
      rw [versionOf, Option.bind_some, hm]
      rfl

theorem followsE_metadataOrDefault (id' : ObjectId) (hfresh : id' = id → g.bumped = false) :
    (versionProtocol Ev id).FollowsE g (Shard.metadataOrDefault id') fun g' m => HasRead id id' m g' :=
  .bind ((followsE_getMetadata id' hfresh).mono fun _ _ hread => .pure hread)

variable {id' : ObjectId}

theorem singleWrite_metadata {value bytes : Bytes} (returnOld : Bool)
    (h : singleWrite id (.write (buildMetadataKey id') value returnOld) = some bytes) : id' = id ∧ bytes = value := by
  obtain ⟨hkey, hvalue⟩ := Option.ite_none_right_eq_some.1 h
  exact ⟨metaKey_inj.1 hkey, (Option.some.inj hvalue).symm⟩

theorem HasRead.allows {m' : ObjectMetadata} (h : HasRead id id' m g) (hm' : m'.Encodable)
    (hversion : m'.objectVersion = m.incrementVersion.objectVersion) (hkeeps : KeepsMetadata id operation)
    (hwritten : ∀ bytes, writtenMetadata id operation = some bytes → id' = id ∧ bytes = m'.toBytes) :
    (versionProtocol Ev id).allowed g (.replicate operation) := by
  refine ⟨hkeeps, fun bytes hbytes => Or.inr ?_⟩
  obtain ⟨hid, rfl⟩ := hwritten bytes hbytes
  refine ⟨h.fresh hid, m.objectVersion.toNat, h.version hid, ?_⟩
  rw [versionOf_toBytes hm', hversion, toNat_incrementVersion]

theorem followsE_setMetadata {m' : ObjectMetadata} (h : HasRead id id' m g) (hm' : m'.Encodable)
    (hversion : m'.objectVersion = m.incrementVersion.objectVersion) :
    (versionProtocol Ev id).FollowsE g (Shard.setMetadata id' m') fun _ _ => True := by
  have hallowed : (versionProtocol Ev id).allowed g (.replicate (.write (buildMetadataKey id') m'.toBytes false)) :=
    h.allows hm' hversion trivial fun _ hbytes => singleWrite_metadata false hbytes
  exact .bind ((followsE_replicate hallowed).mono fun _ _ _ => .pure trivial)

/-- A call on `id'` bumps the version of `id` at most once. -/
def BumpsOnce (id id' : ObjectId) (p : ShardM Ev α) : Prop :=
  ∀ g, (id' = id → g.bumped = false) → (versionProtocol Ev id).FollowsE g p fun _ _ => True

theorem BumpsOnce.bumpVersion (id' : ObjectId) : BumpsOnce id id' (Shard.bumpVersion id' : ShardM Ev _) := by
  refine fun g hfresh => .bind ((followsE_metadataOrDefault id' hfresh).mono fun g' m hread => ?_)
  exact .bind ((followsE_setMetadata hread hread.encodable.incrementVersion rfl).mono fun _ _ _ => .pure trivial)

theorem lastWrite_append (id : Str) (operations : List Operation) (operation : Operation) :
    lastWrite id (operations ++ [operation]) = (singleWrite id operation).or (lastWrite id operations) := by
  induction operations with
  | nil => simp [lastWrite]
  | cons first operations ih => rw [List.cons_append, lastWrite, ih, lastWrite, Option.or_assoc]

theorem lastWrite_entries (id id' : ObjectId) (values : List (Str × ObjectVal)) :
    lastWrite id (writesOf (values.map fun e => (buildEntryKey id' e.1, c.encodeVal e.2))) = none := by
  induction values with
  | nil => rfl
  | cons e values ih =>
    have hone : singleWrite id (.write (buildEntryKey id' e.1) (c.encodeVal e.2) false) = none :=
      if_neg (entryKey_ne_metaKey id id' e.1)
    exact (congrArg₂ Option.or ih hone).trans rfl

theorem lastWrite_batchRecords (id id' : ObjectId) (values : List (Str × ObjectVal)) (m : ObjectMetadata) :
    lastWrite id (writesOf (Shard.batchRecords c id' values m)) =
      singleWrite id (.write (buildMetadataKey id') m.toBytes false) := by
  rw [Shard.batchRecords, writesOf, List.map_append, List.map_singleton, lastWrite_append, ← writesOf,
    lastWrite_entries, Option.or_none]

namespace Unnoted

theorem readEventConfig (id' : ObjectId) : Unnoted id (Shard.readEventConfig c id') :=
  bind (getRaw (eventConfigKey_ne_metaKey id id')) fun _ => pure _

theorem announce (id' : ObjectId) (m : ObjectMetadata) (changed : List ChangedKey) :
    Unnoted id (Shard.announce c cfg id' m changed) :=
  ite (bind (readEventConfig id') fun _ => trySend _) (pure _)

theorem existedBefore (id' : ObjectId) (key : Str) : Unnoted id (Shard.existedBefore cfg id' key : ShardM Ev _) :=
  ite (existsKey _) (pure _)

theorem probeAll (id' : ObjectId) : ∀ keys : List Str, Unnoted id (Shard.probeAll id' keys : ShardM Ev _)
  | [] => pure _
  | _ :: keys => bind (existsKey _) fun _ => bind (probeAll id' keys) fun _ => pure _

theorem preExist (id' : ObjectId) (keys : List Str) : Unnoted id (Shard.preExist cfg id' keys : ShardM Ev _) :=
  ite (probeAll id' keys) (pure _)

theorem writeEntry (id' : ObjectId) (key : Str) (bytes : Bytes) :
    Unnoted id (Shard.replicate (.write (buildEntryKey id' key) bytes false) : ShardM Ev _) :=
  replicate trivial (if_neg (entryKey_ne_metaKey id id' key))

theorem deleteRecord (id' : ObjectId) (key : Str) :
    Unnoted id (Shard.replicate (.delete (buildEntryKey id' key)) : ShardM Ev _) :=
  replicate (entryKey_ne_metaKey id id' key) rfl

theorem deleteAll (id' : ObjectId) : ∀ keys : List Str, Unnoted id (Shard.deleteAll id' keys : ShardM Ev _)
  | [] => pure _
  | key :: keys => bind (existsKey _) fun _ =>
      ite (bind (deleteRecord id' key) fun _ => bind (deleteAll id' keys) fun _ => pure _) (deleteAll id' keys)

theorem existingEntry (id' : ObjectId) : Unnoted id (Shard.existingEntry cfg id' : ShardM Ev _) :=
  ite (reconstruct _) (pure _)

end Unnoted

/-! ### Each call -/

theorem Unnoted.last (hp : Unnoted id p) : (versionProtocol Ev id).FollowsE g p fun _ _ => True :=
  (hp g).mono fun _ _ _ => trivial

namespace BumpsOnce

theorem pure (a : α) : BumpsOnce id id' (pure a : ShardM Ev α) := fun _ _ => .pure trivial

theorem after {f : α → ShardM Ev β} (hp : Unnoted id p) (hf : ∀ a, BumpsOnce id id' (f a)) :
    BumpsOnce id id' (p >>= f) := fun g hfresh => hp.andThen fun a => hf a g hfresh

theorem andThen {f : α → ShardM Ev β} (hp : BumpsOnce id id' p) (hf : ∀ a, Unnoted id (f a)) :
    BumpsOnce id id' (p >>= f) := fun g hfresh => .bind ((hp g hfresh).mono fun _ a _ => (hf a).last)

theorem setEntry (id' : ObjectId) (key : Str) (value : ObjectVal) :
    BumpsOnce id id' (Shard.setEntry c cfg id' key value) := by
  refine after (Unnoted.existedBefore id' key) fun existed => ?_
  refine after (Unnoted.writeEntry id' key _) fun _ => ?_
  exact (bumpVersion id').andThen fun m => Unnoted.announce id' m _

theorem deleteEntry (id' : ObjectId) (key : Str) : BumpsOnce id id' (Shard.deleteEntry cfg id' key : ShardM Ev _) := by
  refine after (Unnoted.existsKey _) fun existed => ?_
  cases existed with
  | false => exact pure ()
  | true =>
    refine after (Unnoted.deleteRecord id' key) fun _ => ?_
    exact (bumpVersion id').andThen fun m => Unnoted.ite (Unnoted.trySend _) (Unnoted.pure _)

theorem batchDeleteEntries (id' : ObjectId) (keys : List Str) :
    BumpsOnce id id' (Shard.batchDeleteEntries c cfg id' keys) := by
  refine after (Unnoted.deleteAll id' keys) fun deleted => ?_
  by_cases hdeleted : deleted ≠ []
  · rw [if_pos hdeleted]
    exact (bumpVersion id').andThen fun m => Unnoted.announce id' m _
  · rw [if_neg hdeleted]
    exact pure ()

end BumpsOnce

theorem followsE_writeBatch (values : List (Str × ObjectVal)) (hread : HasRead id id' m g) :
    (versionProtocol Ev id).FollowsE g (Shard.writeBatch c cfg id' values m) fun _ _ => True := by
  refine (Unnoted.preExist id' _).andThen fun existed => ?_
  have hallowed : (versionProtocol Ev id).allowed g
      (.replicate (.batch (writesOf (Shard.batchRecords c id' values m.incrementVersion)))) := by
    refine hread.allows hread.encodable.incrementVersion rfl ⟨_, rfl⟩ fun bytes hbytes => ?_
    rw [writtenMetadata, lastWrite_batchRecords] at hbytes
    exact singleWrite_metadata false hbytes
  refine .bind ((followsE_replicate hallowed).mono fun _ _ _ => ?_)
  exact (Unnoted.bind (Unnoted.announce id' m _) fun _ => Unnoted.pure _).last

theorem BumpsOnce.batchSetEntries (id' : ObjectId) (values : ValueMap) (expected : Option UInt64) :
    BumpsOnce id id' (Shard.batchSetEntries c cfg id' values expected) := by
  refine fun g hfresh => .bind ((followsE_metadataOrDefault id' hfresh).mono fun g' m hread => ?_)
  by_cases hvalues : values.toList = []
  · rw [if_pos hvalues]
    exact .pure trivial
  · rw [if_neg hvalues]
    cases Shard.versionMatches expected m with
    | error e => exact .throw
    | ok _ => exact followsE_writeBatch values.toList hread

theorem followsE_bury (existing : Option (ObjectData Ev)) (hread : HasRead id id' m g) :
    (versionProtocol Ev id).FollowsE g (Shard.bury c cfg id' m existing) fun _ _ => True := by
  refine (Unnoted.readEventConfig id').andThen fun event => ?_
  refine (Unnoted.deleteObjectGranular id').andThen fun _ => ?_
  refine .bind ((followsE_setMetadata hread hread.encodable.incrementVersion.markTombstone rfl).mono fun _ _ _ => ?_)
  exact (Unnoted.ite (Unnoted.trySend _) (Unnoted.pure _)).last

theorem BumpsOnce.deleteObject (id' : ObjectId) : BumpsOnce id id' (Shard.deleteObject c cfg id') := by
  refine fun g hfresh => .bind ((followsE_getMetadata id' hfresh).mono fun g' metadata hread => ?_)
  cases metadata with
  | none => exact .pure trivial
  | some m =>
    dsimp only
    by_cases htombstone : m.tombstone = true
    · rw [if_pos htombstone]
      exact .pure trivial
    · rw [if_neg htombstone]
      exact (Unnoted.existingEntry id').andThen fun existing => followsE_bury existing hread

theorem BumpsOnce.ensureMetadataExists (id' : ObjectId) :
    BumpsOnce id id' (Shard.ensureMetadataExists id' : ShardM Ev _) := by
  refine fun g hfresh => .bind ((followsE_getMetadata id' hfresh).mono fun g' metadata _ => ?_)
  cases metadata with
  | some m => exact .pure trivial
  | none =>
    have hallowed : (versionProtocol Ev id).allowed g'
        (.replicate (.write (buildMetadataKey id') ObjectMetadata.default.toBytes true)) := by
      refine ⟨trivial, fun bytes hbytes => Or.inl ?_⟩
      obtain ⟨_, rfl⟩ := singleWrite_metadata true hbytes
      exact versionOf_toBytes ObjectMetadata.encodable_default
    refine .bind ((followsE_replicate hallowed).mono fun _ response _ => ?_)
    cases response.extra with
    | write overrode | none => exact .pure trivial

theorem VersionCall.followsE (call : VersionCall) (hfresh : g.bumped = false) :
    (versionProtocol Ev id).FollowsE g (call.program c cfg) fun _ _ => True := by
  cases call with
  | setEntry id' key value => exact BumpsOnce.setEntry id' key value g fun _ => hfresh
  | deleteEntry id' key => exact BumpsOnce.deleteEntry id' key g fun _ => hfresh
  | batchSetEntries id' values expected =>
    exact (BumpsOnce.batchSetEntries id' values expected).andThen (fun _ => Unnoted.pure _) g fun _ => hfresh
  | batchDeleteEntries id' keys => exact BumpsOnce.batchDeleteEntries id' keys g fun _ => hfresh
  | ensureMetadataExists id' =>
    exact (BumpsOnce.ensureMetadataExists id').andThen (fun _ => Unnoted.pure _) g fun _ => hfresh
  | deleteObject id' => exact BumpsOnce.deleteObject id' g fun _ => hfresh

end

/-! ## The interleaving is a shared counter -/

section
variable {Ev : Type} {c : Codec Ev} {kind : ReplicationKind} {id : ObjectId}

theorem replicate_cases {g : Client} (hq : (versionProtocol Ev id).allowed g (.replicate operation)) :
    (writtenMetadata id operation = none ∧ actOf id (.replicate operation : ShardCall Ev) = .quiet) ∨
    (∃ bytes, writtenMetadata id operation = some bytes ∧ versionOf (some bytes) = 0 ∧
      actOf id (.replicate operation : ShardCall Ev) = .reset) ∨
    (∃ bytes v, writtenMetadata id operation = some bytes ∧ versionOf (some bytes) = min (v + 1) maxVersion ∧
      g.bumped = false ∧ g.read = some v ∧ actOf id (.replicate operation : ShardCall Ev) = .bump) := by
  rcases Option.eq_none_or_eq_some (writtenMetadata id operation) with hnone | ⟨bytes, hbytes⟩
  · exact Or.inl ⟨hnone, by simp only [actOf, hnone]⟩
  · refine Or.inr ?_
    by_cases hzero : versionOf (some bytes) = 0
    · exact Or.inl ⟨bytes, hbytes, hzero, by simp only [actOf, hbytes, if_pos hzero]⟩
    · obtain ⟨hfresh, v, hread, hversion⟩ := (hq.2 bytes hbytes).resolve_left hzero
      exact Or.inr ⟨bytes, v, hbytes, hversion, hfresh, hread, by simp only [actOf, hbytes, if_neg hzero]⟩

theorem handle_perform {sh : Shard Ev} (hf : sh.node.faults = []) (notes : Nat → Client) (i : Nat) {q : ShardCall Ev}
    (hq : (versionProtocol Ev id).allowed (notes i) q) :
    (Shard.handle c kind q sh).2.node.faults = [] ∧
      (⟨(storedVersion (Shard.handle c kind q sh).2.node.app id).toNat,
        Function.update notes i ((versionProtocol Ev id).after (notes i) q (Shard.handle c kind q sh).1)⟩ :
          SharedCounter) =
        perform maxVersion ⟨(storedVersion sh.node.app id).toNat, notes⟩ i (actOf id q) := by
  cases q with
  | get key =>
    refine ⟨hf, ?_⟩
    by_cases hkey : key = buildMetadataKey id
    · simp only [Shard.handle, versionProtocol, actOf, hkey, if_true, perform, toNat_storedVersion]
    · simp only [Shard.handle, versionProtocol, actOf, if_neg hkey, perform, Function.update_eq_self]
  | existsKey key | reconstruct id' limit | trySend context =>
    exact ⟨hf, by simp only [Shard.handle, versionProtocol, actOf, perform, Function.update_eq_self]⟩
  | deleteRange start stop =>
    refine ⟨hf, ?_⟩
    simp only [Shard.handle, versionProtocol, actOf, Function.update_eq_self, toNat_storedVersion, Node.deleteRange,
      get_eraseRange]
    by_cases hrange : start ≤ buildMetadataKey id ∧ buildMetadataKey id < stop
    · rw [if_pos hrange, if_pos hrange]
      rfl
    · rw [if_neg hrange, if_neg hrange]
      rfl
  | replicate operation =>
    obtain ⟨happ, hfaults⟩ := replicate_metadata kind hf hq.1
    refine ⟨hfaults, ?_⟩
    simp only [Shard.handle, versionProtocol, toNat_storedVersion, happ]
    rcases replicate_cases hq with
      ⟨hnone, hact⟩ | ⟨bytes, hbytes, hzero, hact⟩ | ⟨bytes, v, hbytes, hversion, _, hread, hact⟩
    · simp [hact, hnone, perform]
    · simp [hact, hbytes, hzero, perform]
    · simp [hact, hbytes, hread, hversion, perform]

variable {n : Nat}

theorem legal_of_allowed {notes : Nat → Client} {value i : Nat} (hi : i < n) {q : ShardCall Ev}
    (hq : (versionProtocol Ev id).allowed (notes i) q) : Legal n ⟨value, notes⟩ i (actOf id q) := by
  cases hact : actOf id q with
  | quiet | read | reset => trivial
  | bump =>
    cases q with
    | replicate operation =>
      rcases replicate_cases hq with ⟨_, hquiet⟩ | ⟨_, _, _, hreset⟩ | ⟨_, v, _, _, hfresh, hread, _⟩
      · exact absurd (hquiet.symm.trans hact) (by decide)
      · exact absurd (hreset.symm.trans hact) (by decide)
      · exact ⟨hi, hfresh, fun hnone => Option.some_ne_none v (hread.symm.trans hnone)⟩
    | get key | deleteRange start stop => simp only [actOf] at hact; split at hact <;> cases hact
    | existsKey key | reconstruct id' limit | trySend context => cases hact

namespace Interleaving

structure Inv (id : ObjectId) (n : Nat) (st : Interleaving Ev) : Prop where
  follow : st.AllFollow (versionProtocol Ev id)
  healthy : st.pool.state.node.faults = []
  size : st.pool.progs.length = n

theorem Inv.start (c : Codec Ev) (cfg : ShardConfig) (calls : List VersionCall) {sh : Shard Ev}
    (hf : sh.node.faults = []) (id : ObjectId) : Inv id calls.length (start c cfg calls sh) := by
  refine ⟨?_, hf, List.length_map _⟩
  intro i p hp
  simp only [Interleaving.start, List.getElem?_map, Option.map_eq_some_iff] at hp
  obtain ⟨call, _, rfl⟩ := hp
  have hfollow : (versionProtocol Ev id).FollowsE ⟨none, false⟩ (call.program c cfg) fun _ _ => True :=
    call.followsE rfl
  exact Follows.mono hfollow fun _ _ _ => trivial

variable {st : Interleaving Ev}

theorem Inv.step (h : Inv id n st) (i : Nat) : Inv id n (step c kind id st i) := by
  have hfollow := h.follow.advance (Shard.handle c kind) i
  rcases st.advance_cases (versionProtocol Ev id) (Shard.handle c kind) i with ⟨_, hsame⟩ | ⟨q, k, hnext, _, hstep⟩
  · rw [Interleaving.step, hsame]
    exact h
  · rw [hstep] at hfollow
    rw [Interleaving.step, hstep]
    refine ⟨hfollow, ?_, List.length_set.trans h.size⟩
    exact (handle_perform h.healthy st.notes i (h.follow.allowed hnext)).1

theorem simulates (c : Codec Ev) (kind : ReplicationKind) (id : ObjectId) (n : Nat) :
    Simulates maxVersion n (step c kind id) (counter id) (fun st i => (i, act id st i)) (Inv id n) where
  inv _ i h := h.step i
  bounded st _ := toNat_le_maxVersion _
  legal st i h := by
    rcases st.advance_cases (versionProtocol Ev id) (Shard.handle c kind) i with ⟨hnext, _⟩ | ⟨q, k, hnext, hget, _⟩
    · simp only [act, hnext]
      trivial
    · obtain ⟨hlt, _⟩ := List.getElem?_eq_some_iff.1 hget
      simp only [act, hnext]
      exact legal_of_allowed (h.size ▸ hlt) (h.follow.allowed hnext)
  step st i h := by
    rcases st.advance_cases (versionProtocol Ev id) (Shard.handle c kind) i with
      ⟨hnext, hsame⟩ | ⟨q, k, hnext, _, hstep⟩
    · simp only [act, hnext, step, hsame, perform]
    · simp only [act, hnext, step, hstep, counter, version]
      exact (handle_perform h.healthy st.notes i (h.follow.allowed hnext)).2

theorem completed_le (h : Inv id n st) : completed st ≤ (counter id st).count n := by
  rw [completed, h.size]
  refine Finset.card_le_card fun i hi => ?_
  rw [Finset.mem_filter] at hi ⊢
  exact ⟨hi.1, hi.2.2⟩

theorem count_le_completed (h : Inv id n st) (hdone : Done st) : (counter id st).count n ≤ completed st := by
  rw [completed, h.size]
  refine Finset.card_le_card fun i hi => ?_
  rw [Finset.mem_filter] at hi ⊢
  exact ⟨hi.1, hdone i (h.size ▸ Finset.mem_range.1 hi.1), hi.2⟩

theorem tight_start (c : Codec Ev) (cfg : ShardConfig) (calls : List VersionCall) (sh : Shard Ev) (id : ObjectId) :
    (counter id (start c cfg calls sh)).Tight calls.length (version id (start c cfg calls sh)) := by
  refine ⟨fun i r hr => ?_, ?_⟩
  · cases hr
  · simp [counter, start, count]

end Interleaving

open Interleaving

/-- **Version monotonicity** over every interleaving whose steps are safe; where all calls return, over no other. -/
theorem version_law_iff (c : Codec Ev) (kind : ReplicationKind) (cfg : ShardConfig) (calls : List VersionCall)
    (sh : Shard Ev) (hf : sh.node.faults = []) (id : ObjectId) (schedule : List Nat) :
    (AlongRun (step c kind id) (SafeCall id) (start c cfg calls sh) schedule →
      AlongRun (step c kind id) (VersionLaw c kind id (storedVersion sh.node.app id).toNat) (start c cfg calls sh)
        schedule) ∧
    (Done (schedule.foldl (step c kind id) (start c cfg calls sh)) →
      (AlongRun (step c kind id) (VersionLaw c kind id (storedVersion sh.node.app id).toNat) (start c cfg calls sh)
          schedule ↔
        AlongRun (step c kind id) (SafeCall id) (start c cfg calls sh) schedule)) := by
  have hsim := simulates c kind id calls.length
  have hinv := Inv.start c cfg calls hf id
  have htight := tight_start c cfg calls sh id
  refine ⟨hsim.law_of_safe (fun st h => completed_le h) hinv htight, fun hdone => ?_⟩
  have hend : Inv id calls.length (schedule.foldl (step c kind id) (start c cfg calls sh)) :=
    List.foldlRecOn schedule _ hinv fun st h i _ => hsim.inv st i h
  exact hsim.law_iff (fun st h => completed_le h) hinv htight (count_le_completed hend hdone)

end

/-! ### Two writers -/

namespace TwoWriters

open Recreated Interleaving

def set : VersionCall := .setEntry id key value
def begun (calls : List VersionCall) : Interleaving Unit := start Postcard.codec config calls Shard.new

def after (calls : List VersionCall) (schedule : List Nat) : Interleaving Unit :=
  schedule.foldl (step Postcard.codec .none id) (begun calls)

def Lawful (calls : List VersionCall) (schedule : List Nat) : Prop :=
  AlongRun (step Postcard.codec .none id) (VersionLaw Postcard.codec .none id (version id (begun calls))) (begun calls)
    schedule

def together : List Nat := [0, 1, 0, 1, 0, 1]

def createdLate : List Nat := [0, 1, 1, 1, 0]

/-- Two `set_entry` calls leave version 1; a late `ensure_metadata_exists` takes it back to 0. -/
theorem setEntry_loses_version :
    (Done (after [set, set] together) ∧ completed (after [set, set] together) = 2 ∧
      version id (begun [set, set]) = 0 ∧ version id (after [set, set] together) = 1 ∧
      ¬ Lawful [set, set] together) ∧
    (version id (after [.ensureMetadataExists id, set] [0, 1, 1, 1]) = 1 ∧
      version id (after [.ensureMetadataExists id, set] createdLate) = 0 ∧
      ¬ Lawful [.ensureMetadataExists id, set] createdLate) := by
  refine ⟨⟨?_, by decide, by decide, by decide, fun h => ?_⟩, by decide, by decide, fun h => ?_⟩
  · unfold Done
    decide
  · exact absurd h.2.2.2.2.2.1.2 (by decide)
  · exact absurd h.2.2.2.2.1.1 (by decide)

def inTurn : List Nat := [0, 0, 0, 1, 1, 1]

theorem version_law_inTurn : Done (after [set, set] inTurn) ∧ Lawful [set, set] inTurn := by
  have hdone : Done (after [set, set] inTurn) := by
    unfold Done
    decide
  refine ⟨hdone, ((version_law_iff Postcard.codec .none config [set, set] Shard.new rfl id inTurn).2 hdone).2 ?_⟩
  exact ⟨trivial, trivial, ⟨rfl, by decide⟩, trivial, trivial, ⟨rfl, by decide⟩, trivial⟩

end TwoWriters

end Odgm
