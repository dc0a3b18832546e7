import OaasIot.Odgm.DeleteObject
import OaasIot.Odgm.Returned

/-!
# The event stream of a shard

Every mutation hands the dispatcher the keys it changed. Replayed in order, the contexts should name the
entries there are in storage.
-/

namespace Odgm

open List OrdMap

/-! ## Calls and their events -/

inductive EntryCall
  | setEntry (id : ObjectId) (key : Str) (value : ObjectVal)
  | deleteEntry (id : ObjectId) (key : Str)
  | batchSetEntries (id : ObjectId) (values : ValueMap) (expectedVersion : Option UInt64)
  | batchDeleteEntries (id : ObjectId) (keys : List Str)
  | deleteObject (id : ObjectId)
  | internalDeleteObject (id : ObjectId)

def EntryCall.toMutation {Ev : Type} : EntryCall → Mutation Ev
  | .setEntry id key value => .setEntry id key value
  | .deleteEntry id key => .deleteEntry id key
  | .batchSetEntries id values expected => .batchSetEntries id values expected
  | .batchDeleteEntries id keys => .batchDeleteEntries id keys
  | .deleteObject id => .deleteObject id
  | .internalDeleteObject id => .internalDeleteObject id

def applyChange (id : Str) (keys : Finset (Str × Str)) (change : ChangedKey) : Finset (Str × Str) :=
  match change.action with
  | .create => insert (id, change.keyCanonical) keys
  | .update => insert (id, change.keyCanonical) keys
  | .delete => keys.erase (id, change.keyCanonical)

def applyChanges (id : Str) (keys : Finset (Str × Str)) (changed : List ChangedKey) : Finset (Str × Str) :=
  changed.foldl (applyChange id) keys

def replayEvents {Ev : Type} (contexts : List (MutationContext Ev)) : Finset (Str × Str) :=
  contexts.foldl (fun keys context => applyChanges context.objectId keys context.changed) ∅

def Stored (s : Store) (id : ObjectId) (key : Str) : Prop := s.get (buildEntryKey id key) ≠ none

def Marked (s : Store) (id : Str) (change : ChangedKey) : Prop :=
  match change.action with
  | .create => s.get (buildEntryKey id change.keyCanonical) = none
  | .update => s.get (buildEntryKey id change.keyCanonical) ≠ none
  | .delete => s.get (buildEntryKey id change.keyCanonical) ≠ none

section
variable {Ev : Type}

def Mirrors (sh : Shard Ev) : Prop :=
  ∀ (id : ObjectId) (key : Str), (id.str, key) ∈ replayEvents sh.sent ↔ Stored sh.node.app id key

structure Announced (s : Store) (emitted : List (MutationContext Ev)) : Prop where
  one : emitted.length ≤ 1
  nodup : ∀ context ∈ emitted, (context.changed.map ChangedKey.keyCanonical).Nodup
  marked : ∀ context ∈ emitted, ∀ change ∈ context.changed, Marked s context.objectId change

def EntryCall.DeletesAbsent (s : Store) : EntryCall → Prop
  | .deleteEntry id key => s.get (buildEntryKey id key) = none
  | .batchDeleteEntries id keys => ∀ key ∈ keys, s.get (buildEntryKey id key) = none
  | _ => False

structure Faithful (c : Codec Ev) (kind : ReplicationKind) (cfg : ShardConfig) (sh : Shard Ev) (call : EntryCall) :
    Prop where
  announced : ∃ emitted, (Shard.mutate c kind cfg sh call.toMutation).sent = sh.sent ++ emitted ∧
    Announced sh.node.app emitted
  mirrors : Mirrors (Shard.mutate c kind cfg sh call.toMutation)
  silent : call.DeletesAbsent sh.node.app → (Shard.mutate c kind cfg sh call.toMutation).sent = sh.sent

/-- No put of a Raft batch fails that would have created an entry. -/
def Lands (kind : ReplicationKind) (sh : Shard Ev) : EntryCall → Prop
  | .batchSetEntries id values _ =>
    kind = .raft → ∀ j, firstFault sh.node.faults (values.toList.length + 1) = some j →
      ∀ e ∈ values.toList.drop j, Stored sh.node.app id e.1
  | _ => True

def EachCall (c : Codec Ev) (kind : ReplicationKind) (cfg : ShardConfig) (P : Shard Ev → EntryCall → Prop)
    (sh : Shard Ev) (calls : List EntryCall) : Prop :=
  AlongRun (fun sh call => Shard.mutate c kind cfg sh call.toMutation) P sh calls

def Succeeds (c : Codec Ev) (kind : ReplicationKind) (cfg : ShardConfig) (sh : Shard Ev) (call : EntryCall) : Prop :=
  (Shard.run c kind (call.toMutation.program c cfg) sh).1 = .ok ()

def Shard.newFailing (faults : List (Option StorageError)) : Shard Ev := ⟨⟨OrdMap.empty, OrdMap.empty, [], faults⟩, []⟩

/-! ## Replayed keys -/

variable {id : Str} {changed : List ChangedKey}

theorem mem_applyChanges_set (h : ∀ change ∈ changed, change.action ≠ .delete) (keys : Finset (Str × Str))
    (p : Str × Str) :
    p ∈ applyChanges id keys changed ↔ p ∈ keys ∨ (p.1 = id ∧ p.2 ∈ changed.map ChangedKey.keyCanonical) := by
  induction changed generalizing keys with
  | nil => simp [applyChanges]
  | cons change changed ih =>
    have hstep : applyChange id keys change = insert (id, change.keyCanonical) keys := by
      have hne := h change mem_cons_self
      unfold applyChange
      cases haction : change.action with
      | create | update => rfl
      | delete => exact absurd haction hne
    rw [applyChanges, foldl_cons, hstep, ← applyChanges, ih fun ch hch => h ch (mem_cons_of_mem _ hch)]
    simp only [Finset.mem_insert, Prod.ext_iff, map_cons, mem_cons]
    tauto

theorem mem_applyChanges_delete (h : ∀ change ∈ changed, change.action = .delete) (keys : Finset (Str × Str))
    (p : Str × Str) :
    p ∈ applyChanges id keys changed ↔ p ∈ keys ∧ ¬ (p.1 = id ∧ p.2 ∈ changed.map ChangedKey.keyCanonical) := by
  induction changed generalizing keys with
  | nil => simp [applyChanges]
  | cons change changed ih =>
    have hstep : applyChange id keys change = keys.erase (id, change.keyCanonical) := by
      rw [applyChange, h change mem_cons_self]
    rw [applyChanges, foldl_cons, hstep, ← applyChanges, ih fun ch hch => h ch (mem_cons_of_mem _ hch)]
    simp only [Finset.mem_erase, Prod.ext_iff, ne_eq, map_cons, mem_cons]
    tauto

theorem replayEvents_sends {sh sh' : Shard Ev} (h : Sends id changed sh sh') :
    replayEvents sh'.sent = applyChanges id (replayEvents sh.sent) changed := by
  obtain ⟨context, rfl, rfl, hsent⟩ := h
  rw [hsent, replayEvents, foldl_append]
  rfl

end

/-! ## Stored keys -/

section
variable {Ev : Type} {c : Codec Ev} {s : Store} {id id' : ObjectId} {key key' : Str}

theorem entryKey_eq_iff : buildEntryKey id key = buildEntryKey id' key' ↔ id'.str = id.str ∧ key' = key := by
  constructor
  · intro h
    obtain ⟨hid, hr⟩ := recordKey_inj (show recordKey id (.entry key) = recordKey id' (.entry key') from h)
    cases hr
    exact ⟨congrArg ObjectId.str hid.symm, rfl⟩
  · rintro ⟨hid, rfl⟩
    rw [hid]

theorem stored_putMetadata (v : Bytes) : Stored (s.insert (buildMetadataKey id) v) id' key' ↔ Stored s id' key' := by
  rw [Stored, get_insert_of_ne _ _ (entryKey_ne_metaKey id id' key').symm, Stored]

theorem stored_insert (v : Bytes) :
    Stored (s.insert (buildEntryKey id key) v) id' key' ↔ Stored s id' key' ∨ (id'.str = id.str ∧ key' = key) := by
  unfold Stored
  rw [get_insert]
  by_cases h : buildEntryKey id key = buildEntryKey id' key'
  · simp [h, entryKey_eq_iff.1 h]
  · rw [if_neg h]
    exact (or_iff_left (mt entryKey_eq_iff.2 h)).symm

theorem stored_insertMany (values : List (Str × ObjectVal)) :
    Stored (s.insertMany (entryRecords c id values)) id' key' ↔
      Stored s id' key' ∨ (id'.str = id.str ∧ key' ∈ values.map Prod.fst) := by
  induction values generalizing s with
  | nil => simp [entryRecords]
  | cons e values ih =>
    have hcons : s.insertMany (entryRecords c id (e :: values)) =
        (s.insert (buildEntryKey id e.1) (c.encodeVal e.2)).insertMany (entryRecords c id values) := rfl
    rw [hcons, ih, stored_insert, map_cons, mem_cons]
    tauto

theorem stored_batchWritten (metadata : Option ObjectMetadata) (values : List (Str × ObjectVal)) :
    Stored (batchWritten c id metadata values s) id' key' ↔
      Stored s id' key' ∨ (id'.str = id.str ∧ key' ∈ values.map Prod.fst) := by
  rw [batchWritten, Shard.batchRecords, insertMany_append]
  exact (stored_putMetadata _).trans (stored_insertMany values)

theorem stored_erase :
    Stored (s.erase (buildEntryKey id key)) id' key' ↔ Stored s id' key' ∧ ¬ (id'.str = id.str ∧ key' = key) := by
  unfold Stored
  rw [get_erase]
  by_cases h : buildEntryKey id key = buildEntryKey id' key'
  · simp [h, entryKey_eq_iff.1 h]
  · rw [if_neg (Ne.symm h)]
    exact (and_iff_left (mt entryKey_eq_iff.2 h)).symm

theorem stored_deletedFrom (keys : List Str) :
    Stored (deletedFrom id keys s).2 id' key' ↔
      Stored s id' key' ∧ ¬ (id'.str = id.str ∧ key' ∈ (deletedFrom id keys s).1) := by
  induction keys generalizing s with
  | nil => simp [deletedFrom]
  | cons key keys ih =>
    unfold deletedFrom
    by_cases hfound : (s.get (buildEntryKey id key)).isSome = true
    · rw [if_pos hfound, ih, stored_erase, mem_cons]
      tauto
    · rw [if_neg hfound, ih]

theorem deletedFrom_keys (keys : List Str) :
    (deletedFrom id keys s).1.Nodup ∧ ∀ key ∈ (deletedFrom id keys s).1, Stored s id key := by
  induction keys generalizing s with
  | nil => simp [deletedFrom]
  | cons key keys ih =>
    unfold deletedFrom
    by_cases hfound : (s.get (buildEntryKey id key)).isSome = true
    · rw [if_pos hfound]
      obtain ⟨hnodup, hstored⟩ := ih (s := s.erase (buildEntryKey id key))
      refine ⟨nodup_cons.2 ⟨fun hmem => (stored_erase.1 (hstored key hmem)).2 ⟨rfl, rfl⟩, hnodup⟩, ?_⟩
      intro key' hmem
      rcases mem_cons.1 hmem with rfl | hmem
      · exact Option.isSome_iff_ne_none.1 hfound
      · exact (stored_erase.1 (hstored key' hmem)).1
    · rw [if_neg hfound]
      exact ih

theorem stored_buried (m : ObjectMetadata) : Stored (buried id m s) id' key' ↔ Stored s id' key' ∧ id'.str ≠ id.str := by
  have hrange : (buildObjectPrefix id ≤ buildEntryKey id' key' ∧
      buildEntryKey id' key' < computeObjectRangeEnd (buildObjectPrefix id)) ↔ id' = id :=
    mem_objectRange_iff (r := .entry key')
  rw [buried, stored_putMetadata, Stored, get_eraseRange, Stored]
  simp only [hrange, ne_eq, ObjectId.str_inj]
  by_cases h : id' = id <;> simp [h]

theorem mem_keys_iff {m : OrdMap Str ObjectVal} : key ∈ m.toList.map Prod.fst ↔ m.get key ≠ none := by
  rw [mem_map, Option.ne_none_iff_exists']
  constructor
  · rintro ⟨⟨_, v⟩, hmem, rfl⟩
    exact ⟨v, get_eq_some.2 hmem⟩
  · rintro ⟨v, hv⟩
    exact ⟨(key, v), get_eq_some.1 hv, rfl⟩

theorem stored_iff_entryMap (hs : WellFormed c s) : Stored s id key ↔ (entryMap c s id).get key ≠ none := by
  have hget := getEntry_eq_entryMap hs id key
  unfold Stored
  constructor
  · intro hstored hnone
    rw [hnone] at hget
    exact hstored (get_entry_eq_none_of_getEntry hget)
  · intro hsome hnone
    rw [getEntry, hnone] at hget
    exact hsome (Except.ok.inj hget).symm

theorem existing_of_live (hs : WellFormed c s) {limit : Nat} {m : ObjectMetadata}
    (hm : getMetadata s id = .ok (some m)) (hlive : m.tombstone = false) {existing : Option (ObjectData Ev)}
    (hr : reconstructObjectFromEntries c s id limit = .ok existing) :
    (storedEntries c s id).length ≤ maxPages * pageSize limit ∧
      existing = some ⟨m.objectVersion, entryMap c s id, getEventConfig c s id⟩ := by
  obtain ⟨_, hle, hfound⟩ := reconstructObject_ok hs id hr hm
  refine ⟨hle, ?_⟩
  rw [hfound, reconstructed, hlive]
  rfl

end

/-! ## Steps -/

section
variable {Ev : Type} {c : Codec Ev} {kind : ReplicationKind} {cfg : ShardConfig} {sh sh' : Shard Ev} {id : ObjectId}
  {changed : List ChangedKey}

theorem announced_of_same (h : sh'.sent = sh.sent) :
    ∃ emitted, sh'.sent = sh.sent ++ emitted ∧ Announced sh.node.app emitted :=
  ⟨[], by rw [h, append_nil], by simp, by simp, by simp⟩

theorem announced_of_sends (h : Sends id changed sh sh') (hnodup : (changed.map ChangedKey.keyCanonical).Nodup)
    (hmarked : ∀ change ∈ changed, Marked sh.node.app id change) :
    ∃ emitted, sh'.sent = sh.sent ++ emitted ∧ Announced sh.node.app emitted := by
  obtain ⟨context, hid, rfl, hsent⟩ := h
  refine ⟨[context], hsent, le_refl 1, ?_, ?_⟩
  · intro context' hmem
    rw [mem_singleton.1 hmem]
    exact hnodup
  · intro context' hmem change hchange
    rw [mem_singleton.1 hmem] at hchange ⊢
    exact hid ▸ hmarked change hchange

theorem marked_write (s : Store) (id key : Str) (value : Option Bytes) :
    Marked s id ⟨key, Shard.writeAction (s.get (buildEntryKey id key)).isSome, value⟩ := by
  unfold Marked Shard.writeAction
  by_cases h : s.get (buildEntryKey id key) = none
  · simp [h]
  · simp [Option.isSome_iff_ne_none.2 h, h]

theorem mirrors_of_same (hm : Mirrors sh) (hsent : sh'.sent = sh.sent)
    (hstored : ∀ id' key, Stored sh'.node.app id' key ↔ Stored sh.node.app id' key) : Mirrors sh' := by
  intro id' key
  rw [hsent, hm, hstored]

theorem mem_replay_writes (hm : Mirrors sh) (hsend : Sends id changed sh sh')
    (hset : ∀ change ∈ changed, change.action ≠ .delete) (id' : ObjectId) (key : Str) :
    (id'.str, key) ∈ replayEvents sh'.sent ↔
      Stored sh.node.app id' key ∨ (id'.str = id.str ∧ key ∈ changed.map ChangedKey.keyCanonical) := by
  rw [replayEvents_sends hsend, mem_applyChanges_set hset, hm]

theorem mirrors_of_deletes (hm : Mirrors sh) (hsend : Sends id changed sh sh')
    (hdelete : ∀ change ∈ changed, change.action = .delete)
    (hstored : ∀ (id' : ObjectId) key, Stored sh'.node.app id' key ↔
      Stored sh.node.app id' key ∧ ¬ (id'.str = id.str ∧ key ∈ changed.map ChangedKey.keyCanonical)) :
    Mirrors sh' := by
  intro id' key
  rw [replayEvents_sends hsend, mem_applyChanges_delete hdelete, hm, hstored]

theorem writeAction_ne_delete (existed : Bool) : Shard.writeAction existed ≠ .delete := by
  cases existed <;> decide

structure StepOf (c : Codec Ev) (sh sh' : Shard Ev) (lands : Prop) : Prop where
  wf : WellFormed c sh'.node.app
  announced : ∃ emitted, sh'.sent = sh.sent ++ emitted ∧ Announced sh.node.app emitted
  mirrors_iff : Mirrors sh' ↔ lands

theorem StepOf.refl (hwf : WellFormed c sh.node.app) (hm : Mirrors sh) : StepOf c sh sh True :=
  ⟨hwf, announced_of_same rfl, iff_true_intro hm⟩

variable {a : Unit}

theorem step_setEntry (hv2 : cfg.v2Dispatcher = true) (hwf : WellFormed c sh.node.app) (hm : Mirrors sh) {key : Str}
    {value : ObjectVal} (h : Returned c kind (Shard.setEntry c cfg id key value) sh a sh') : StepOf c sh sh' True := by
  obtain ⟨metadata, hmeta, happ, hsend⟩ := returned_setEntry hv2 h
  refine ⟨?_, announced_of_sends hsend (nodup_singleton _) ?_, iff_true_intro fun id' key' => ?_⟩
  · rw [happ]
    exact (hwf.insert (r := .entry key) (RecordOk.encodeVal value key)).bump (encodable_getMetadata hmeta)
  · intro change hchange
    rw [mem_singleton.1 hchange]
    exact marked_write _ _ _ _
  · have hset : ∀ change ∈ [(⟨key, Shard.writeAction (sh.node.app.get (buildEntryKey id key)).isSome,
        Shard.rawData cfg value⟩ : ChangedKey)], change.action ≠ .delete := by
      intro change hchange
      rw [mem_singleton.1 hchange]
      exact writeAction_ne_delete _
    rw [mem_replay_writes hm hsend hset, happ, bump, stored_putMetadata, stored_insert]
    simp only [map_cons, map_nil, mem_singleton]

theorem keys_batchChanges (id : Str) (values : List (Str × ObjectVal)) (s : Store) :
    (batchChanges cfg id values s).map ChangedKey.keyCanonical = values.map Prod.fst := by
  rw [batchChanges, map_map]
  rfl

theorem step_batchSetEntries (hv2 : cfg.v2Dispatcher = true) (hwf : WellFormed c sh.node.app) (hm : Mirrors sh)
    {values : ValueMap} {expected : Option UInt64} {version : UInt64}
    (h : Returned c kind (Shard.batchSetEntries c cfg id values expected) sh version sh') :
    StepOf c sh sh' (Lands kind sh (.batchSetEntries id values expected)) := by
  rcases returned_batchSetEntries hv2 h with ⟨hnil, rfl⟩ | ⟨_, metadata, hmeta, hsend, hstored⟩
  · refine ⟨hwf, announced_of_same rfl, iff_of_true hm ?_⟩
    intro _ j _ e he
    rw [hnil, drop_nil] at he
    exact (not_mem_nil he).elim
  have hset : ∀ change ∈ batchChanges cfg id values.toList sh.node.app, change.action ≠ .delete := by
    intro change hchange
    obtain ⟨e, _, rfl⟩ := mem_map.1 hchange
    exact writeAction_ne_delete _
  have hreplay := mem_replay_writes hm hsend hset
  rw [keys_batchChanges] at hreplay
  have hannounced := announced_of_sends hsend (by rw [keys_batchChanges]; exact values.nodupKeys) fun change hchange => by
    obtain ⟨e, _, rfl⟩ := mem_map.1 hchange
    exact marked_write _ _ _ _
  rcases hstored with ⟨hnone, happ⟩ | ⟨j, hj, hkind, happ⟩
  · refine ⟨?_, hannounced, iff_of_true (fun id' key => ?_) ?_⟩
    · rw [happ]
      exact hwf.batchWritten (encodable_getMetadata hmeta) _
    · rw [hreplay, happ, stored_batchWritten]
    · intro _ j hj
      rw [hnone] at hj
      cases hj
  · refine ⟨?_, hannounced, ?_⟩
    · rw [happ]
      exact hwf.putEntries _
    have hmirrors : Mirrors sh' ↔ ∀ e ∈ values.toList.drop j, Stored sh.node.app id e.1 := by
      constructor
      · intro hm' e he
        have hmem : e.1 ∈ values.toList.map Prod.fst := mem_map_of_mem (mem_of_mem_drop he)
        have hstored := (hm' id e.1).1 ((hreplay id e.1).2 (Or.inr ⟨rfl, hmem⟩))
        rw [happ, stored_insertMany] at hstored
        refine hstored.resolve_right fun hand => ?_
        exact notMem_take_of_mem_drop values.nodupKeys he hand.2
      · intro hdrop id' key
        rw [hreplay, happ, stored_insertMany]
        refine or_congr_right' fun hnot => and_congr_right fun hid => ?_
        refine ⟨fun hkey => ?_, fun hkey => map_subset _ (take_subset _ _) hkey⟩
        rw [← take_append_drop j values.toList, map_append, mem_append] at hkey
        refine hkey.resolve_right fun hin => hnot ?_
        obtain ⟨e, he, rfl⟩ := mem_map.1 hin
        rw [ObjectId.ext_str hid]
        exact hdrop e he
    rw [hmirrors]
    exact ⟨fun hall _ j' hj' => by rw [hj] at hj'; cases hj'; exact hall, fun hlands => hlands hkind j hj⟩

/-- The entries `keys` of one object are removed, and announced with `event` if there are any. -/
structure Removed (c : Codec Ev) (sh sh' : Shard Ev) (id : ObjectId) (keys : List Str) (event : Option Ev) : Prop where
  wf : WellFormed c sh'.node.app
  nodup : keys.Nodup
  found : ∀ key ∈ keys, Stored sh.node.app id key
  after : ∀ (id' : ObjectId) key, Stored sh'.node.app id' key ↔
    Stored sh.node.app id' key ∧ ¬ (id'.str = id.str ∧ key ∈ keys)
  sent : (keys = [] ∧ sh'.sent = sh.sent) ∨ SendsWith event id (keys.map fun key => ⟨key, .delete, none⟩) sh sh'

theorem Removed.step {keys : List Str} {event : Option Ev} (h : Removed c sh sh' id keys event) (hm : Mirrors sh) :
    StepOf c sh sh' True := by
  have hkeys : (keys.map fun key => (⟨key, .delete, none⟩ : ChangedKey)).map ChangedKey.keyCanonical = keys := by
    simp [Function.comp_def]
  rcases h.sent with ⟨hnil, hsent⟩ | hsend
  · refine ⟨h.wf, announced_of_same hsent, iff_true_intro (mirrors_of_same hm hsent fun id' key => ?_)⟩
    rw [h.after, hnil]
    simp
  · refine ⟨h.wf, announced_of_sends hsend.sends (by rw [hkeys]; exact h.nodup) ?_,
      iff_true_intro (mirrors_of_deletes hm hsend.sends ?_ ?_)⟩
    · intro change hchange
      obtain ⟨key, hkey, rfl⟩ := mem_map.1 hchange
      exact h.found key hkey
    · intro change hchange
      obtain ⟨key, _, rfl⟩ := mem_map.1 hchange
      rfl
    · intro id' key
      rw [h.after, hkeys]

theorem removed_of_deletesFrom (hwf : WellFormed c sh.node.app) {keys : List Str} {event : Option Ev}
    (h : DeletesFrom id keys event sh sh') : Removed c sh sh' id (deletedFrom id keys sh.node.app).1 event := by
  obtain ⟨hnodup, hfound⟩ : (deletedFrom id keys sh.node.app).1.Nodup ∧ _ := deletedFrom_keys keys
  rcases h with ⟨hnil, happ, hsent⟩ | ⟨_, metadata, hmeta, happ, hsend⟩
  · refine ⟨happ ▸ hwf.deletedFrom keys, hnodup, hfound, fun id' key => ?_, .inl ⟨hnil, hsent⟩⟩
    rw [happ, stored_deletedFrom]
  · refine ⟨?_, hnodup, hfound, fun id' key => ?_, .inr hsend⟩
    · rw [happ]
      exact (hwf.deletedFrom keys).bump (encodable_getMetadata hmeta)
    · rw [happ, bump, stored_putMetadata, stored_deletedFrom]

theorem removed_deleteObject (hv2 : cfg.v2Dispatcher = true) (hwf : WellFormed c sh.node.app)
    (h : Returned c kind (Shard.deleteObject c cfg id) sh a sh') :
    ((∀ m, getMetadata sh.node.app id = .ok (some m) → m.tombstone = true) ∧ sh' = sh) ∨
      Removed c sh sh' id ((entryMap c sh.node.app id).toList.map Prod.fst) (getEventConfig c sh.node.app id) := by
  rcases returned_deleteObject hv2 h with hdead | ⟨m, existing, hmeta, hlive, hr, happ, hsent⟩
  · exact .inl hdead
  have hdeletions : Shard.deletions existing =
      ((entryMap c sh.node.app id).toList.map Prod.fst).map fun key => ⟨key, .delete, none⟩ := by
    rw [(existing_of_live hwf hmeta hlive hr).2, Shard.deletions, map_map]
    rfl
  have hstored : ∀ key, key ∈ (entryMap c sh.node.app id).toList.map Prod.fst ↔ Stored sh.node.app id key :=
    fun key => mem_keys_iff.trans (stored_iff_entryMap hwf).symm
  rw [hdeletions, map_eq_nil_iff] at hsent
  refine .inr ⟨happ ▸ hwf.buried (encodable_getMetadata hmeta), OrdMap.nodup_keys _, fun key => (hstored key).1,
    fun id' key => ?_, hsent⟩
  rw [happ, stored_buried, hstored]
  refine and_congr_right fun hbefore => not_congr ⟨fun hid => ⟨hid, ?_⟩, And.left⟩
  exact ObjectId.ext_str hid ▸ hbefore

theorem step_call (hv2 : cfg.v2Dispatcher = true) (hwf : WellFormed c sh.node.app) (hm : Mirrors sh) (call : EntryCall)
    (h : Succeeds c kind cfg sh call) :
    StepOf c sh (Shard.mutate c kind cfg sh call.toMutation) (Lands kind sh call) := by
  have hret : Returned c kind (call.toMutation.program c cfg) sh () (Shard.mutate c kind cfg sh call.toMutation) :=
    Prod.ext h rfl
  cases call with
  | setEntry id key value => exact step_setEntry hv2 hwf hm hret
  | deleteEntry id key => exact (removed_of_deletesFrom hwf (returned_deleteEntry hv2 hret)).step hm
  | batchSetEntries id values expected =>
    obtain ⟨version, sh₁, hbatch, hrest⟩ := hret.of_bind
    obtain ⟨_, hsame⟩ := returned_pure hrest
    rw [hsame]
    exact step_batchSetEntries hv2 hwf hm hbatch
  | batchDeleteEntries id keys => exact (removed_of_deletesFrom hwf (returned_batchDeleteEntries hv2 hret)).step hm
  | deleteObject id | internalDeleteObject id =>
    rcases removed_deleteObject hv2 hwf hret with ⟨_, hsame⟩ | hremoved
    · rw [hsame]
      exact StepOf.refl hwf hm
    · exact hremoved.step hm

theorem deletedFrom_absent {keys : List Str} {s : Store} (h : ∀ key ∈ keys, s.get (buildEntryKey id key) = none) :
    (deletedFrom id keys s).1 = [] := by
  induction keys with
  | nil => rfl
  | cons key keys ih =>
    have habsent : ¬ (s.get (buildEntryKey id key)).isSome = true := by simp [h key mem_cons_self]
    rw [deletedFrom, if_neg habsent]
    exact ih fun key' hkey' => h key' (mem_cons_of_mem _ hkey')

theorem silent_of_deletesAbsent (hv2 : cfg.v2Dispatcher = true) {call : EntryCall} (h : Succeeds c kind cfg sh call)
    (habsent : call.DeletesAbsent sh.node.app) : (Shard.mutate c kind cfg sh call.toMutation).sent = sh.sent := by
  have hret : Returned c kind (call.toMutation.program c cfg) sh () (Shard.mutate c kind cfg sh call.toMutation) :=
    Prod.ext h rfl
  cases call with
  | deleteEntry id key =>
    rcases returned_deleteEntry hv2 hret with ⟨_, _, hsent⟩ | ⟨hne, _⟩
    · exact hsent
    · exact absurd (deletedFrom_absent (forall_mem_singleton.2 habsent)) hne
  | batchDeleteEntries id keys =>
    rcases returned_batchDeleteEntries hv2 hret with ⟨_, _, hsent⟩ | ⟨hne, _⟩
    · exact hsent
    · exact absurd (deletedFrom_absent habsent) hne
  | setEntry id key value | batchSetEntries id values expected | deleteObject id => exact habsent.elim
  | internalDeleteObject id => exact habsent.elim

/-- **Step**: the events of a call that returned are faithful exactly when its puts landed. -/
theorem step_faithful_iff (hv2 : cfg.v2Dispatcher = true) (hwf : WellFormed c sh.node.app) (hm : Mirrors sh)
    {call : EntryCall} (h : Succeeds c kind cfg sh call) : Faithful c kind cfg sh call ↔ Lands kind sh call := by
  have hstep := step_call hv2 hwf hm call h
  refine ⟨fun hf => hstep.mirrors_iff.1 hf.mirrors, fun hl => ⟨hstep.announced, hstep.mirrors_iff.2 hl, ?_⟩⟩
  exact silent_of_deletesAbsent hv2 h

structure EventSound (c : Codec Ev) (sh : Shard Ev) : Prop where
  wf : WellFormed c sh.node.app
  mirrors : Mirrors sh

theorem eventSound_new (c : Codec Ev) (faults : List (Option StorageError)) :
    EventSound c (Shard.newFailing faults) :=
  ⟨wellFormed_empty, fun id key => by simp [replayEvents, Shard.newFailing, Stored]⟩

end

/-- **Event stream**: faithful unless a Raft batch loses a put that would have created an entry. -/
theorem events_replay_iff {Ev : Type} (c : Codec Ev) (kind : ReplicationKind) (cfg : ShardConfig)
    (hv2 : cfg.v2Dispatcher = true) (faults : List (Option StorageError)) (calls : List EntryCall)
    (hok : EachCall c kind cfg (Succeeds c kind cfg) (Shard.newFailing faults) calls) :
    EachCall c kind cfg (Faithful c kind cfg) (Shard.newFailing faults) calls ↔
      EachCall c kind cfg (Lands kind) (Shard.newFailing faults) calls := by
  refine alongRun_iff (EventSound c) (fun sh call hsh hcall => ?_) (eventSound_new c faults) hok
  have hstep := step_call hv2 hsh.wf hsh.mirrors call hcall
  exact ⟨step_faithful_iff hv2 hsh.wf hsh.mirrors hcall, fun hl => ⟨hstep.wf, hstep.mirrors_iff.2 hl⟩⟩

/-! ## A batch whose put fails -/

namespace LostCreate

open Recreated

def config : ShardConfig := ⟨true, false, false, 8, Str.empty, 0, Recreated.config.prefetch_pos⟩
def values : ValueMap := ⟨[(key, value)], nodup_key⟩
def shard : Shard Unit := Shard.newFailing [some (.backend "disk full")]

/-- Under Raft the batch returns version 1 and announces the entry as created; there is none. -/
theorem batchSetEntries_announces_lost :
    Succeeds Postcard.codec .raft config shard (.batchSetEntries id values none) ∧
    (id.str, key) ∈ replayEvents (Shard.mutate Postcard.codec .raft config shard (.batchSetEntries id values none)).sent ∧
    ¬ Stored (Shard.mutate Postcard.codec .raft config shard (.batchSetEntries id values none)).node.app id key ∧
    ¬ Faithful Postcard.codec .raft config shard (.batchSetEntries id values none) := by
  have hmem : (id.str, key) ∈
      replayEvents (Shard.mutate Postcard.codec .raft config shard (.batchSetEntries id values none)).sent := by decide
  have hlost : ¬ Stored (Shard.mutate Postcard.codec .raft config shard (.batchSetEntries id values none)).node.app
      id key := fun h => h rfl
  exact ⟨rfl, hmem, hlost, fun h => hlost ((h.mirrors id key).1 hmem)⟩

def calls : List EntryCall := [.setEntry id key value, .batchSetEntries id values none, .deleteObject id]

theorem events_replay_iff_calls :
    EachCall Postcard.codec .raft config (Faithful Postcard.codec .raft config) (Shard.newFailing []) calls ↔
      EachCall Postcard.codec .raft config (Lands .raft) (Shard.newFailing []) calls :=
  events_replay_iff Postcard.codec .raft config rfl [] calls ⟨rfl, rfl, rfl, trivial⟩

end LostCreate

end Odgm
