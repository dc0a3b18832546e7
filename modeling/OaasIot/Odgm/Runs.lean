import OaasIot.Odgm.ShardSpec

/-!
# Sequential runs of a shard

A run is a list of mutations, each of them run to its end on the shard the ones before it left, from
a new shard on; storage and replication do not fail.
-/

namespace Odgm

inductive Mutation (Ev : Type)
  | setObject (id : ObjectId) (input : ObjectInput Ev)
  | internalSetObject (id : ObjectId) (input : ObjectInput Ev)
  | setEntry (id : ObjectId) (key : Str) (value : ObjectVal)
  | batchSetEntries (id : ObjectId) (values : ValueMap) (expectedVersion : Option UInt64)
  | deleteEntry (id : ObjectId) (key : Str)
  | batchDeleteEntries (id : ObjectId) (keys : List Str)
  | deleteObject (id : ObjectId)
  | internalDeleteObject (id : ObjectId)

section
variable {Ev : Type} (c : Codec Ev) (kind : ReplicationKind) (cfg : ShardConfig)

def Mutation.program : Mutation Ev → ShardM Ev Unit
  | .setObject id input => Shard.setObject c cfg id input
  | .internalSetObject id input => Shard.internalSetObject c cfg id input
  | .setEntry id key value => Shard.setEntry c cfg id key value
  | .batchSetEntries id values expected => do
    let _ ← Shard.batchSetEntries c cfg id values expected
    pure ()
  | .deleteEntry id key => Shard.deleteEntry cfg id key
  | .batchDeleteEntries id keys => Shard.batchDeleteEntries c cfg id keys
  | .deleteObject id => Shard.deleteObject c cfg id
  | .internalDeleteObject id => Shard.internalDeleteObject c cfg id

namespace Shard

def new : Shard Ev := ⟨⟨OrdMap.empty, OrdMap.empty, [], []⟩, []⟩
def mutate (sh : Shard Ev) (m : Mutation Ev) : Shard Ev := (run c kind (m.program c cfg) sh).2
def afterAll (ms : List (Mutation Ev)) : Shard Ev := ms.foldl (mutate c kind cfg) new

end Shard

end

section
variable {Ev : Type} {c : Codec Ev} {kind : ReplicationKind} {cfg : ShardConfig} {s : Store} {id : ObjectId}

/-! ## Stores stay well formed -/

variable {metadata : Option ObjectMetadata}

theorem encodable_getMetadata (hm : getMetadata s id = .ok metadata) : (metadata.getD .default).Encodable := by
  unfold getMetadata at hm
  split at hm
  · cases hm
    exact ObjectMetadata.encodable_default
  · split at hm
    · rename_i m hdec
      cases hm
      exact ObjectMetadata.encodable_of_fromBytes hdec
    · cases hm

inductive Effect (c : Codec Ev) (s : Store) : Store → Prop
  | refl : Effect c s s
  | event {t : Store} (h : Effect c s t) (id : ObjectId) (ev : Ev) :
    Effect c s (t.insert (eventConfigKey id) (c.encodeEvent ev))
  | erase {t : Store} (h : Effect c s t) (id : ObjectId) (key : Str) : Effect c s (t.erase (buildEntryKey id key))
  | clear {t : Store} (h : Effect c s t) (id : ObjectId) :
    Effect c s (t.eraseRange (buildObjectPrefix id) (computeObjectRangeEnd (buildObjectPrefix id)))
  | write {t : Store} (h : Effect c s t) (id : ObjectId) (values : List (Str × ObjectVal)) {m : ObjectMetadata}
    (hm : m.Encodable) :
    Effect c s ((t.insertMany (values.map fun e => (buildEntryKey id e.1, c.encodeVal e.2))).insert
      (buildMetadataKey id) m.toBytes)

theorem WellFormed.putEntries (hs : WellFormed c s) (values : List (Str × ObjectVal)) :
    WellFormed c (s.insertMany (values.map fun e => (buildEntryKey id e.1, c.encodeVal e.2))) := by
  induction values generalizing s with
  | nil => exact hs
  | cons e values ih => exact ih (hs.insert (r := .entry e.1) (RecordOk.encodeVal e.2 e.1))

namespace Effect

variable {t u : Store}

theorem wellFormed (h : Effect c s t) (hs : WellFormed c s) : WellFormed c t := by
  induction h with
  | refl => exact hs
  | event _ id ev ih => exact ih.insert (r := .eventConfig) (RecordOk.encodeEvent ev)
  | erase _ id key ih => exact ih.erase _
  | clear _ id ih => exact ih.eraseRange _ _
  | write _ id values hm ih => exact (ih.putEntries values).insert (r := .metadata) (RecordOk.toBytes hm)

theorem trans (h : Effect c s t) (h' : Effect c t u) : Effect c s u := by
  induction h' with
  | refl => exact h
  | event _ id ev ih => exact ih.event id ev
  | erase _ id key ih => exact ih.erase id key
  | clear _ id ih => exact ih.clear id
  | write _ id values hm ih => exact ih.write id values hm

theorem bump (h : Effect c s t) (hm : (metadata.getD .default).Encodable) : Effect c s (bump id metadata t) :=
  h.write id [] hm.incrementVersion

theorem setEntry (h : Effect c s t) (hm : (metadata.getD .default).Encodable) (key : Str) (value : ObjectVal) :
    Effect c s (Odgm.bump id metadata (t.insert (buildEntryKey id key) (c.encodeVal value))) :=
  h.write id [(key, value)] hm.incrementVersion

theorem batchWritten (h : Effect c s t) (hm : (metadata.getD .default).Encodable) (values : List (Str × ObjectVal)) :
    Effect c s (batchWritten c id metadata values t) := by
  rw [Odgm.batchWritten, Shard.batchRecords, OrdMap.insertMany_append]
  exact h.write id values hm.incrementVersion

theorem batchStore (h : Effect c s t) (hm : (metadata.getD .default).Encodable) (values : List (Str × ObjectVal))
    (expected : Option UInt64) : Effect c s (batchStore c id metadata values expected t) := by
  unfold Odgm.batchStore
  split
  · exact h
  · split
    · exact h.batchWritten hm values
    · exact h

theorem deletedFrom (h : Effect c s t) (keys : List Str) : Effect c s (deletedFrom id keys t).2 := by
  induction keys generalizing t with
  | nil => exact h
  | cons key keys ih =>
    unfold Odgm.deletedFrom
    split
    · exact ih (h.erase id key)
    · exact ih h

theorem batchDeleteStore (h : Effect c s t) (hm : (metadata.getD .default).Encodable) (keys : List Str) :
    Effect c s (batchDeleteStore id metadata keys t) := by
  unfold Odgm.batchDeleteStore
  split
  · exact (h.deletedFrom keys).bump hm
  · exact h.deletedFrom keys

theorem eventWritten (h : Effect c s t) (event : Option Ev) : Effect c s (eventWritten c id event t) := by
  cases event with
  | none => exact h
  | some ev => exact h.event id ev

theorem objectWritten (h : Effect c s t) (hm : (metadata.getD .default).Encodable) (input : ObjectInput Ev) :
    Effect c s (objectWritten c id metadata input t) :=
  (h.eventWritten input.entry.event).batchStore hm input.kv.toList none

theorem buried (h : Effect c s t) {m : ObjectMetadata} (hm : m.Encodable) : Effect c s (buried id m t) :=
  (h.clear id).write id [] hm.incrementVersion.markTombstone

end Effect

theorem WellFormed.bump (hs : WellFormed c s) (hm : (metadata.getD .default).Encodable) :
    WellFormed c (bump id metadata s) :=
  (Effect.refl.bump hm).wellFormed hs

theorem WellFormed.batchWritten (hs : WellFormed c s) (hm : (metadata.getD .default).Encodable)
    (values : List (Str × ObjectVal)) : WellFormed c (batchWritten c id metadata values s) :=
  (Effect.refl.batchWritten hm values).wellFormed hs

theorem WellFormed.deletedFrom (hs : WellFormed c s) (keys : List Str) :
    WellFormed c (deletedFrom id keys s).2 :=
  (Effect.refl.deletedFrom keys).wellFormed hs

theorem WellFormed.eventWritten (hs : WellFormed c s) (event : Option Ev) :
    WellFormed c (eventWritten c id event s) :=
  (Effect.refl.eventWritten event).wellFormed hs

theorem WellFormed.objectWritten (hs : WellFormed c s) (hm : (metadata.getD .default).Encodable)
    (input : ObjectInput Ev) : WellFormed c (objectWritten c id metadata input s) :=
  (Effect.refl.objectWritten hm input).wellFormed hs

theorem WellFormed.buried (hs : WellFormed c s) {m : ObjectMetadata} (hm : m.Encodable) :
    WellFormed c (buried id m s) :=
  (Effect.refl.buried hm).wellFormed hs

/-! ## Steps and runs -/

theorem runs_deleteObject (hs : WellFormed c s) (id : ObjectId) :
    ∃ out s', Runs c kind (Shard.deleteObject c cfg id) s out s' ∧ Effect c s s' := by
  obtain ⟨metadata, hm⟩ := getMetadata_of_wellFormed hs id
  by_cases hearly : ∀ m ∈ metadata, m.tombstone = true
  · exact ⟨_, s, runs_deleteObject_early hm hearly, .refl⟩
  · push Not at hearly
    obtain ⟨m, rfl, hlive⟩ := hearly
    refine ⟨_, _, runs_deleteObject_live hm (Bool.eq_false_iff.2 hlive), ?_⟩
    split
    · exact Effect.refl.buried (encodable_getMetadata hm)
    · exact .refl

theorem Mutation.runs_effect (m : Mutation Ev) (hs : WellFormed c s) :
    ∃ out s', Runs c kind (m.program c cfg) s out s' ∧ Effect c s s' := by
  cases m with
  | setObject id input =>
    obtain ⟨metadata, hm⟩ := getMetadata_of_wellFormed hs id
    refine ⟨_, _, runs_setObject hm input, ?_⟩
    split
    · exact Effect.refl.objectWritten (encodable_getMetadata hm) input
    · exact .refl
  | internalSetObject id input =>
    obtain ⟨metadata, hm⟩ := getMetadata_of_wellFormed hs id
    exact ⟨_, _, runs_internalSetObject hm input, Effect.refl.objectWritten (encodable_getMetadata hm) input⟩
  | setEntry id key value =>
    obtain ⟨metadata, hm⟩ := getMetadata_of_wellFormed hs id
    exact ⟨_, _, runs_setEntry hm key value, Effect.refl.setEntry (encodable_getMetadata hm) key value⟩
  | batchSetEntries id values expected =>
    obtain ⟨metadata, hm⟩ := getMetadata_of_wellFormed hs id
    have hrun : Runs c kind (Shard.batchSetEntries c cfg id values expected) s _ _ :=
      runs_batchSetEntries hm values expected
    have heffect : Effect c s (batchStore c id metadata values.toList expected s) :=
      Effect.refl.batchStore (encodable_getMetadata hm) values.toList expected
    cases hout : batchOutcome (metadata.getD .default) values.toList expected with
    | ok version =>
      rw [hout] at hrun
      exact ⟨_, _, Runs.bind hrun (Runs.pure _ _), heffect⟩
    | error e =>
      rw [hout] at hrun
      exact ⟨_, _, Runs.bind_error hrun, heffect⟩
  | deleteEntry id key =>
    by_cases h : s.get (buildEntryKey id key) = none
    · exact ⟨_, s, runs_deleteEntry_absent h, .refl⟩
    · obtain ⟨metadata, hm⟩ := getMetadata_of_wellFormed hs id
      exact ⟨_, _, runs_deleteEntry hm h, (Effect.refl.erase id key).bump (encodable_getMetadata hm)⟩
  | batchDeleteEntries id keys =>
    obtain ⟨metadata, hm⟩ := getMetadata_of_wellFormed hs id
    exact ⟨_, _, runs_batchDeleteEntries hm keys, Effect.refl.batchDeleteStore (encodable_getMetadata hm) keys⟩
  | deleteObject id | internalDeleteObject id => exact runs_deleteObject hs id

theorem Mutation.runs (m : Mutation Ev) (hs : WellFormed c s) :
    ∃ out s', Runs c kind (m.program c cfg) s out s' ∧ WellFormed c s' := by
  obtain ⟨out, s', hrun, heffect⟩ : ∃ out s', Runs c kind (m.program c cfg) s out s' ∧ Effect c s s' := m.runs_effect hs
  exact ⟨out, s', hrun, heffect.wellFormed hs⟩

structure Shard.Sound (c : Codec Ev) (sh : Shard Ev) : Prop where
  wf : WellFormed c sh.node.app
  healthy : sh.node.faults = []

theorem Shard.Sound.mutate {sh : Shard Ev} (h : sh.Sound c) (m : Mutation Ev) :
    (Shard.mutate c kind cfg sh m).Sound c := by
  obtain ⟨out, s', hrun, hwf⟩ : ∃ out s', Runs c kind (m.program c cfg) sh.node.app out s' ∧ WellFormed c s' :=
    m.runs h.wf
  obtain ⟨sh', hsh, happ, hf⟩ := hrun sh rfl h.healthy
  rw [Shard.mutate, hsh]
  exact ⟨happ ▸ hwf, hf⟩

theorem afterAll_sound (c : Codec Ev) (kind : ReplicationKind) (cfg : ShardConfig) (ms : List (Mutation Ev)) :
    (Shard.afterAll c kind cfg ms).Sound c := by
  exact List.foldlRecOn ms _ ⟨wellFormed_empty, rfl⟩ fun _ h m _ => h.mutate m

end

end Odgm
