import OaasIot.Odgm.Events

/-!
# Delete triggers (`events/dispatcher.rs`)

The consumer of the event queue looks up the triggers of a changed key in the event configuration of the context, which
`batch_delete_entries` and `delete_object` attach and `delete_entry` does not; past the fan-out cap it stops. A
configuration is read through `view`. Contexts that a full queue drops are not looked at.
-/

namespace Odgm

open List

/-! ## Triggers -/

structure TriggerTarget where
  clsId : Str
  partitionId : UInt32
  objectId : Option Str
  fnId : Str
  reqOptions : OrdMap Str Str

structure DataTrigger where
  onCreate : List TriggerTarget
  onUpdate : List TriggerTarget
  onDelete : List TriggerTarget

structure ObjectEvent where
  dataTrigger : OrdMap Str DataTrigger

inductive EventType
  | functionComplete (fnId : Str)
  | functionError (fnId : Str)
  | dataCreate (key : Str)
  | dataUpdate (key : Str)
  | dataDelete (key : Str)

structure EventContext where
  objectId : Str
  classId : Str
  partitionId : UInt16
  eventType : EventType
  payload : Option Bytes
  errorMessage : Option Str

structure TriggerExecutionContext where
  sourceEvent : EventContext
  target : TriggerTarget

def mapChangedKeyToEventType (change : ChangedKey) : EventType :=
  match change.action with
  | .create => .dataCreate change.keyCanonical
  | .update => .dataUpdate change.keyCanonical
  | .delete => .dataDelete change.keyCanonical

def collectMatchingTriggersInline (objectEvent : ObjectEvent) : EventType → List TriggerTarget
  | .dataCreate key => ((objectEvent.dataTrigger.get key).map DataTrigger.onCreate).getD []
  | .dataUpdate key => ((objectEvent.dataTrigger.get key).map DataTrigger.onUpdate).getD []
  | .dataDelete key => ((objectEvent.dataTrigger.get key).map DataTrigger.onDelete).getD []
  | .functionComplete _ => []
  | .functionError _ => []

/-- `ODGM_MAX_BATCH_TRIGGER_FANOUT`, and whether there is a trigger processor. -/
structure EventConsumer where
  fanoutCap : Nat
  triggerProcessor : Bool

namespace EventConsumer

section
variable {Ev : Type} (consumer : EventConsumer) (view : Ev → ObjectEvent) (context : MutationContext Ev)

def keyTriggers (change : ChangedKey) : List TriggerExecutionContext :=
  if consumer.triggerProcessor then
    match context.eventConfig with
    | none => []
    | some event =>
      (collectMatchingTriggersInline (view event) (mapChangedKeyToEventType change)).map fun target =>
        ⟨⟨context.objectId, context.clsId, context.partitionId, mapChangedKeyToEventType change, none, none⟩, target⟩
  else []

def fire : Nat → List ChangedKey → List TriggerExecutionContext
  | _, [] => []
  | emitted, change :: rest =>
    if consumer.fanoutCap ≤ emitted then []
    else keyTriggers consumer view context change ++ fire (emitted + 1) rest

def consume : List TriggerExecutionContext := fire consumer view context 0 context.changed
def reach : Nat := if consumer.triggerProcessor then consumer.fanoutCap else 0

end

end EventConsumer

/-! ## Removals -/

inductive Removal
  | deleteEntry (id : ObjectId) (key : Str)
  | batchDeleteEntries (id : ObjectId) (keys : List Str)
  | deleteObject (id : ObjectId)
  | internalDeleteObject (id : ObjectId)

namespace Removal

def toMutation {Ev : Type} : Removal → Mutation Ev
  | .deleteEntry id key => .deleteEntry id key
  | .batchDeleteEntries id keys => .batchDeleteEntries id keys
  | .deleteObject id => .deleteObject id
  | .internalDeleteObject id => .internalDeleteObject id

def id : Removal → ObjectId
  | .deleteEntry id _ => id
  | .batchDeleteEntries id _ => id
  | .deleteObject id => id
  | .internalDeleteObject id => id

end Removal

def storedKeys (s : Store) (id : Str) (keys : List Str) : List Str :=
  (keys.filter fun key => (s.get (buildEntryKey id key)).isSome).eraseDups

section
variable {Ev : Type} (c : Codec Ev) (cfg : ShardConfig) (s : Store)

def objectKeys (id : Str) : List Str :=
  match getMetadata s id with
  | .ok (some m) =>
    if m.tombstone = false ∧ (entryMap c s id).toList.length ≤ maxPages * pageSize cfg.granularPrefetchLimit then
      (entryMap c s id).toList.map Prod.fst
    else []
  | _ => []

def Removal.removes : Removal → List Str
  | .deleteEntry id key => storedKeys s id [key]
  | .batchDeleteEntries id keys => storedKeys s id keys
  | .deleteObject id => objectKeys c cfg s id
  | .internalDeleteObject id => objectKeys c cfg s id

def Removal.attached : Removal → Option Ev
  | .deleteEntry _ _ => none
  | .batchDeleteEntries id _ => getEventConfig c s id
  | .deleteObject id => getEventConfig c s id
  | .internalDeleteObject id => getEventConfig c s id

variable (consumer : EventConsumer) (view : Ev → ObjectEvent)

def onDeleteTargets (event : Option Ev) (key : Str) : List TriggerTarget :=
  match event with
  | none => []
  | some event => collectMatchingTriggersInline (view event) (.dataDelete key)

/-- The removed entry `key` is named in a context with the configuration of its object in `s`, and the consumer of the
context executes its `on_delete` triggers. -/
def ReportedIn (id key : Str) (context : MutationContext Ev) : Prop :=
  context.objectId = id ∧ ⟨key, .delete, none⟩ ∈ context.changed ∧ context.eventConfig = getEventConfig c s id ∧
    ∀ target ∈ onDeleteTargets view (getEventConfig c s id) key,
      ∃ executed ∈ consumer.consume view context, executed.target = target ∧
        executed.sourceEvent.objectId = id ∧ executed.sourceEvent.eventType = .dataDelete key

def RemovalsReported (before after : Shard Ev) : Prop :=
  ∀ (id : ObjectId) (key : Str), Stored before.node.app id key → ¬ Stored after.node.app id key →
    ∃ context ∈ after.sent.drop before.sent.length, ReportedIn c before.node.app consumer view id key context

/-- A single delete finds no entry or an object without configuration; the other paths remove no entry with
`on_delete` triggers behind those the consumer looks at. -/
def Removal.Covered : Removal → Prop
  | .deleteEntry id key => Stored s id key → getEventConfig c s id = none
  | r => ∀ key ∈ (r.removes c cfg s).drop consumer.reach, onDeleteTargets view (getEventConfig c s r.id) key = []

end

/-! ## The consumer -/

section
variable {Ev : Type} {c : Codec Ev} {kind : ReplicationKind} {cfg : ShardConfig} {consumer : EventConsumer}
  {view : Ev → ObjectEvent} {context : MutationContext Ev}

theorem fire_eq (emitted : Nat) (changed : List ChangedKey) :
    consumer.fire view context emitted changed =
      (changed.take (consumer.fanoutCap - emitted)).flatMap (consumer.keyTriggers view context) := by
  induction changed generalizing emitted with
  | nil => simp [EventConsumer.fire]
  | cons change rest ih =>
    unfold EventConsumer.fire
    by_cases hcap : consumer.fanoutCap ≤ emitted
    · rw [if_pos hcap, Nat.sub_eq_zero_of_le hcap, take_zero, flatMap_nil]
    · have hsub : consumer.fanoutCap - emitted = (consumer.fanoutCap - (emitted + 1)) + 1 := by omega
      rw [if_neg hcap, ih, hsub, take_succ_cons, flatMap_cons]

theorem mem_consume {executed : TriggerExecutionContext} :
    executed ∈ consumer.consume view context ↔
      ∃ change ∈ context.changed.take consumer.reach, ∃ event, context.eventConfig = some event ∧
        executed.target ∈ collectMatchingTriggersInline (view event) (mapChangedKeyToEventType change) ∧
        executed.sourceEvent =
          ⟨context.objectId, context.clsId, context.partitionId, mapChangedKeyToEventType change, none, none⟩ := by
  rw [EventConsumer.consume, fire_eq, Nat.sub_zero, mem_flatMap]
  unfold EventConsumer.reach EventConsumer.keyTriggers
  cases consumer.triggerProcessor with
  | false => simp
  | true =>
    simp only [if_true]
    refine exists_congr fun change => and_congr_right fun _ => ?_
    cases context.eventConfig with
    | none => simp
    | some event =>
      simp only [mem_map, Option.some.injEq, exists_eq_left']
      constructor
      · rintro ⟨target, htarget, rfl⟩
        exact ⟨htarget, rfl⟩
      · rintro ⟨htarget, hsource⟩
        refine ⟨executed.target, htarget, ?_⟩
        rw [← hsource]

theorem executes_onDelete_iff {keys : List Str} (hchanged : context.changed = keys.map fun key => ⟨key, .delete, none⟩)
    (key : Str) (target : TriggerTarget) :
    (∃ executed ∈ consumer.consume view context, executed.target = target ∧
        executed.sourceEvent.objectId = context.objectId ∧ executed.sourceEvent.eventType = .dataDelete key) ↔
      key ∈ keys.take consumer.reach ∧ target ∈ onDeleteTargets view context.eventConfig key := by
  constructor
  · rintro ⟨executed, hmem, rfl, _, htype⟩
    obtain ⟨change, hchange, event, hevent, htarget, hsource⟩ := mem_consume.1 hmem
    rw [hchanged, ← map_take] at hchange
    obtain ⟨key', hkey', rfl⟩ := mem_map.1 hchange
    rw [hsource] at htype
    cases htype
    rw [hevent]
    exact ⟨hkey', htarget⟩
  · rintro ⟨hkey, htarget⟩
    cases hevent : context.eventConfig with
    | none =>
      rw [hevent] at htarget
      exact (not_mem_nil htarget).elim
    | some event =>
      rw [hevent] at htarget
      refine ⟨⟨⟨context.objectId, context.clsId, context.partitionId, .dataDelete key, none, none⟩, target⟩, ?_,
        rfl, rfl, rfl⟩
      refine mem_consume.2 ⟨⟨key, .delete, none⟩, ?_, event, hevent, htarget, rfl⟩
      rw [hchanged, ← map_take]
      exact mem_map_of_mem hkey

variable {key : Str} {s : Store}

theorem reportedIn_iff {id : Str} {keys : List Str} (hid : context.objectId = id)
    (hchanged : context.changed = keys.map fun key => ⟨key, .delete, none⟩) (hkey : key ∈ keys) :
    ReportedIn c s consumer view id key context ↔
      context.eventConfig = getEventConfig c s id ∧
        ∀ target ∈ onDeleteTargets view (getEventConfig c s id) key, key ∈ keys.take consumer.reach := by
  have hnamed : (⟨key, .delete, none⟩ : ChangedKey) ∈ context.changed := by
    rw [hchanged]
    exact mem_map_of_mem hkey
  subst hid
  simp only [ReportedIn, true_and, hnamed, executes_onDelete_iff hchanged]
  refine and_congr_right fun hevent => forall₂_congr fun target htarget => ?_
  rw [hevent]
  exact and_iff_left htarget

/-! ## The step of a removal -/

structure RemovalStep (before after : Shard Ev) (id : ObjectId) (removed : List Str) (attached : Option Ev) : Prop where
  removed_iff : ∀ (id' : ObjectId) key, Stored before.node.app id' key ∧ ¬ Stored after.node.app id' key ↔
    id' = id ∧ key ∈ removed
  nodup : removed.Nodup
  sends : removed ≠ [] → SendsWith attached id (removed.map fun key => ⟨key, .delete, none⟩) before after

variable {attached : Option Ev} {id : ObjectId}

theorem RemovalStep.reported_iff {before after : Shard Ev} {removed : List Str}
    (h : RemovalStep before after id removed attached) :
    RemovalsReported c consumer view before after ↔
      (removed ≠ [] → attached = getEventConfig c before.node.app id) ∧
        ∀ key ∈ removed.drop consumer.reach, onDeleteTargets view (getEventConfig c before.node.app id) key = [] := by
  by_cases hnil : removed = []
  · have hreported : RemovalsReported c consumer view before after := by
      intro id' key hbefore hafter
      have hmem := ((h.removed_iff id' key).1 ⟨hbefore, hafter⟩).2
      rw [hnil] at hmem
      exact (not_mem_nil hmem).elim
    simp [hnil, hreported]
  obtain ⟨context, hid, hchanged, rfl, hsent⟩ := h.sends hnil
  have hnew : after.sent.drop before.sent.length = [context] := by rw [hsent, drop_left]
  -- The step hands over one context, so an entry is reported in it or not at all.
  have hone : RemovalsReported c consumer view before after ↔
      ∀ key ∈ removed, ReportedIn c before.node.app consumer view id key context := by
    unfold RemovalsReported
    simp only [hnew, mem_singleton, exists_eq_left]
    constructor
    · intro hall key hkey
      obtain ⟨hbefore, hafter⟩ := (h.removed_iff id key).2 ⟨rfl, hkey⟩
      exact hall id key hbefore hafter
    · intro hall id' key hbefore hafter
      obtain ⟨rfl, hkey⟩ := (h.removed_iff id' key).1 ⟨hbefore, hafter⟩
      exact hall key hkey
  rw [hone]
  constructor
  · intro hall
    refine ⟨fun _ => ?_, fun key hkey => ?_⟩
    · obtain ⟨key, hkey⟩ := exists_mem_of_ne_nil _ hnil
      exact ((reportedIn_iff hid hchanged hkey).1 (hall key hkey)).1
    · rw [eq_nil_iff_forall_not_mem]
      intro target htarget
      have hmem := mem_of_mem_drop hkey
      have htake := ((reportedIn_iff hid hchanged hmem).1 (hall key hmem)).2 target htarget
      exact disjoint_take_drop h.nodup (le_refl consumer.reach) htake hkey
  · rintro ⟨hattached, hreach⟩ key hkey
    refine (reportedIn_iff hid hchanged hkey).2 ⟨hattached hnil, fun target htarget => ?_⟩
    rw [← take_append_drop consumer.reach removed, mem_append] at hkey
    refine hkey.resolve_right fun hdrop => ?_
    rw [hreach key hdrop] at htarget
    exact not_mem_nil htarget

theorem storedKeys_cons_found (h : (s.get (buildEntryKey id key)).isSome = true) (keys : List Str) :
    storedKeys s id (key :: keys) = key :: storedKeys (s.erase (buildEntryKey id key)) id keys := by
  have herase : ∀ k, ((s.erase (buildEntryKey id key)).get (buildEntryKey id k)).isSome =
      (!(k == key) && (s.get (buildEntryKey id k)).isSome) := by
    intro k
    rw [OrdMap.get_erase]
    by_cases hk : k = key
    · simp [hk]
    · have hne : buildEntryKey id k ≠ buildEntryKey id key := fun heq => hk (entryKey_eq_iff.1 heq).2.symm
      simp [hk, hne]
  unfold storedKeys
  simp only [filter_cons, h, if_true, eraseDups_cons, filter_filter, herase]

theorem storedKeys_cons_absent {id : Str} (h : ¬ (s.get (buildEntryKey id key)).isSome = true) (keys : List Str) :
    storedKeys s id (key :: keys) = storedKeys s id keys := by
  unfold storedKeys
  rw [filter_cons, if_neg h]

theorem deletedFrom_eq_storedKeys (id : ObjectId) (keys : List Str) (s : Store) :
    (deletedFrom id keys s).1 = storedKeys s id keys := by
  induction keys generalizing s with
  | nil => rfl
  | cons key keys ih =>
    unfold deletedFrom
    by_cases hfound : (s.get (buildEntryKey id key)).isSome = true
    · rw [if_pos hfound, storedKeys_cons_found hfound, ih]
    · rw [if_neg hfound, storedKeys_cons_absent hfound, ih]

variable {sh : Shard Ev}

theorem returned_of_runs {p : ShardM Ev Unit} {s' : Store} (hsh : sh.Sound c)
    (h : Runs c kind p sh.node.app (.ok ()) s') : Returned c kind p sh () (Shard.run c kind p sh).2 := by
  obtain ⟨sh', hrun, _, _⟩ := h sh rfl hsh.healthy
  rw [Returned, hrun]

theorem removalStep_of_runs {p : ShardM Ev Unit} {out : Result Unit} (hsh : sh.Sound c)
    (h : Runs c kind p sh.node.app out sh.node.app) : RemovalStep sh (Shard.run c kind p sh).2 id [] attached := by
  obtain ⟨sh', hrun, happ, _⟩ := h sh rfl hsh.healthy
  refine ⟨fun id' key => ?_, nodup_nil, fun hne => absurd rfl hne⟩
  rw [hrun, happ]
  simp

theorem Removed.removalStep {before after : Shard Ev} {removed : List Str}
    (h : Removed c before after id removed attached) : RemovalStep before after id removed attached := by
  refine ⟨fun id' key => ?_, h.nodup, fun hne => h.sent.resolve_left fun hnil => hne hnil.1⟩
  rw [h.after, ObjectId.str_inj]
  constructor
  · rintro ⟨hstored, hgone⟩
    by_contra hne
    exact hgone ⟨hstored, hne⟩
  · rintro ⟨rfl, hkey⟩
    exact ⟨h.found key hkey, fun hand => hand.2 ⟨rfl, hkey⟩⟩

theorem step_removal_deleteEntry (hv2 : cfg.v2Dispatcher = true) (hsh : sh.Sound c) (id : ObjectId) (key : Str) :
    RemovalStep sh (Shard.mutate c kind cfg sh (.deleteEntry id key)) id (storedKeys sh.node.app id [key]) none := by
  obtain ⟨metadata, hm⟩ := getMetadata_of_wellFormed hsh.wf id
  obtain ⟨s', hruns⟩ : ∃ s', Runs c kind (Shard.deleteEntry cfg id key) sh.node.app (.ok ()) s' := by
    by_cases hget : sh.node.app.get (buildEntryKey id key) = none
    · exact ⟨_, runs_deleteEntry_absent hget⟩
    · exact ⟨_, runs_deleteEntry hm hget⟩
  rw [← deletedFrom_eq_storedKeys]
  exact (removed_of_deletesFrom hsh.wf (returned_deleteEntry hv2 (returned_of_runs hsh hruns))).removalStep

theorem step_removal_batchDeleteEntries (hv2 : cfg.v2Dispatcher = true) (hsh : sh.Sound c) (id : ObjectId)
    (keys : List Str) :
    RemovalStep sh (Shard.mutate c kind cfg sh (.batchDeleteEntries id keys)) id (storedKeys sh.node.app id keys)
      (getEventConfig c sh.node.app id) := by
  obtain ⟨metadata, hm⟩ := getMetadata_of_wellFormed hsh.wf id
  have hruns : Runs c kind (Shard.batchDeleteEntries c cfg id keys) sh.node.app (.ok ()) _ :=
    runs_batchDeleteEntries hm keys
  rw [← deletedFrom_eq_storedKeys]
  exact (removed_of_deletesFrom hsh.wf (returned_batchDeleteEntries hv2 (returned_of_runs hsh hruns))).removalStep

theorem step_removal_live (hv2 : cfg.v2Dispatcher = true) (hsh : sh.Sound c) {m : ObjectMetadata}
    (hm : getMetadata sh.node.app id = .ok (some m)) (hlive : m.tombstone = false)
    (hle : (entryMap c sh.node.app id).toList.length ≤ maxPages * pageSize cfg.granularPrefetchLimit) :
    RemovalStep sh (Shard.mutate c kind cfg sh (.deleteObject id)) id
      ((entryMap c sh.node.app id).toList.map Prod.fst) (getEventConfig c sh.node.app id) := by
  have hruns : Runs c kind (Shard.deleteObject c cfg id) sh.node.app _ _ := runs_deleteObject_live hm hlive
  have hout : deleteOutcome c cfg id sh.node.app = .ok () := (deleteOutcome_iff hsh.wf).2 fun _ => hle
  rw [hout] at hruns
  rcases removed_deleteObject hv2 hsh.wf (returned_of_runs hsh hruns) with ⟨hdead, _⟩ | hremoved
  · rw [hdead m hm] at hlive
    cases hlive
  · exact hremoved.removalStep

theorem step_removal_deleteObject (hv2 : cfg.v2Dispatcher = true) (hsh : sh.Sound c) (id : ObjectId) :
    RemovalStep sh (Shard.mutate c kind cfg sh (.deleteObject id)) id (objectKeys c cfg sh.node.app id)
      (getEventConfig c sh.node.app id) := by
  obtain ⟨metadata, hm⟩ := getMetadata_of_wellFormed hsh.wf id
  by_cases hlive : Live sh.node.app id
  · obtain ⟨m, hm, hlive⟩ := hlive
    by_cases hle : (entryMap c sh.node.app id).toList.length ≤ maxPages * pageSize cfg.granularPrefetchLimit
    · have hkeys : objectKeys c cfg sh.node.app id = (entryMap c sh.node.app id).toList.map Prod.fst := by
        simp [objectKeys, hm, hlive, hle]
      rw [hkeys]
      exact step_removal_live hv2 hsh hm hlive hle
    · have hkeys : objectKeys c cfg sh.node.app id = [] := by simp [objectKeys, hm, hlive, hle]
      have hruns : Runs c kind (Shard.deleteObject c cfg id) sh.node.app _ _ := runs_deleteObject_live hm hlive
      rw [hkeys]
      cases hout : deleteOutcome c cfg id sh.node.app with
      | ok _ => exact absurd ((deleteOutcome_iff hsh.wf).1 hout hv2) hle
      | error e =>
        rw [hout] at hruns
        exact removalStep_of_runs hsh hruns
  · have hdead := tombstone_of_not_live hm hlive
    have hkeys : objectKeys c cfg sh.node.app id = [] := by
      unfold objectKeys
      rw [hm]
      cases metadata with
      | none => rfl
      | some m => simp [hdead m rfl]
    have hruns : Runs c kind (Shard.deleteObject c cfg id) sh.node.app (.ok ()) _ := runs_deleteObject_early hm hdead
    rw [hkeys]
    exact removalStep_of_runs hsh hruns

theorem removal_step (hv2 : cfg.v2Dispatcher = true) (hsh : sh.Sound c) (r : Removal) :
    RemovalStep sh (Shard.mutate c kind cfg sh r.toMutation) r.id (r.removes c cfg sh.node.app)
      (r.attached c sh.node.app) := by
  cases r with
  | deleteEntry id key => exact step_removal_deleteEntry hv2 hsh id key
  | batchDeleteEntries id keys => exact step_removal_batchDeleteEntries hv2 hsh id keys
  | deleteObject id | internalDeleteObject id => exact step_removal_deleteObject hv2 hsh id

theorem covered_iff (r : Removal) (s : Store) :
    r.Covered c cfg s consumer view ↔
      (r.removes c cfg s ≠ [] → r.attached c s = getEventConfig c s r.id) ∧
        ∀ key ∈ (r.removes c cfg s).drop consumer.reach, onDeleteTargets view (getEventConfig c s r.id) key = [] := by
  cases r with
  | deleteEntry id key =>
    have hstored : storedKeys s id [key] ≠ [] ↔ Stored s id key := by
      by_cases hget : (s.get (buildEntryKey id key)).isSome = true
      · rw [storedKeys_cons_found hget]
        simpa [Stored] using Option.isSome_iff_ne_none.1 hget
      · rw [storedKeys_cons_absent hget]
        simpa [Stored, storedKeys] using hget
    simp only [Removal.Covered, Removal.removes, Removal.attached, Removal.id]
    rw [hstored]
    constructor
    · intro h
      refine ⟨fun hs => (h hs).symm, fun key' hkey' => ?_⟩
      rw [h (hstored.1 (ne_nil_of_mem (mem_of_mem_drop hkey')))]
      rfl
    · intro h hs
      exact (h.1 hs).symm
  | batchDeleteEntries id keys | deleteObject id | internalDeleteObject id => exact (and_iff_right fun _ => rfl).symm

end

/-- **Delete triggers** are executed for what a removal takes out if the removal is covered. -/
theorem delete_triggers_iff {Ev : Type} (c : Codec Ev) (kind : ReplicationKind) (cfg : ShardConfig)
    (hv2 : cfg.v2Dispatcher = true) (consumer : EventConsumer) (view : Ev → ObjectEvent) (ms : List (Mutation Ev))
    (r : Removal) :
    RemovalsReported c consumer view (Shard.afterAll c kind cfg ms)
        (Shard.mutate c kind cfg (Shard.afterAll c kind cfg ms) r.toMutation) ↔
      r.Covered c cfg (Shard.afterAll c kind cfg ms).node.app consumer view := by
  have hstep : RemovalStep (Shard.afterAll c kind cfg ms)
      (Shard.mutate c kind cfg (Shard.afterAll c kind cfg ms) r.toMutation) r.id _ _ :=
    removal_step hv2 (afterAll_sound c kind cfg ms) r
  rw [hstep.reported_iff, covered_iff]

/-! ## A single delete -/

namespace SingleDelete

open Recreated

def config : ShardConfig := ⟨true, false, false, 8, Str.empty, 0, Recreated.config.prefetch_pos⟩
def target : TriggerTarget := ⟨Str.empty, 0, none, Str.empty, OrdMap.empty⟩
def triggers : ObjectEvent := ⟨OrdMap.empty.insert key ⟨[], [], [target]⟩⟩
def consumer : EventConsumer := ⟨256, true⟩
def input : ObjectInput Unit := ⟨⟨0, OrdMap.empty.insert key value, some ()⟩, ⟨[(key, value)], nodup_key⟩, .refl _⟩
def shard : Shard Unit := Shard.afterAll Postcard.codec .none config [.setObject id input]
def deleted : Shard Unit := Shard.mutate Postcard.codec .none config shard (.deleteEntry id key)

/-- The entry is removed, and the trigger of its deletion is not executed. -/
theorem deleteEntry_fires_nothing :
    Stored shard.node.app id key ∧ ¬ Stored deleted.node.app id key ∧
    onDeleteTargets (fun _ => triggers) (getEventConfig Postcard.codec shard.node.app id) key = [target] ∧
    (deleted.sent.drop shard.sent.length).map MutationContext.eventConfig = [none] ∧
    (deleted.sent.drop shard.sent.length).flatMap (consumer.consume fun _ => triggers) = [] ∧
    ¬ RemovalsReported Postcard.codec consumer (fun _ => triggers) shard deleted := by
  have hbefore : Stored shard.node.app id key := by
    rw [Stored]
    decide
  have hafter : ¬ Stored deleted.node.app id key := fun h => h rfl
  have hnone : (deleted.sent.drop shard.sent.length).map MutationContext.eventConfig = [none] := rfl
  refine ⟨hbefore, hafter, rfl, hnone, rfl, fun h => ?_⟩
  obtain ⟨context, hmem, _, _, hevent, _⟩ := h id key hbefore hafter
  have hin : context.eventConfig ∈ [(none : Option Unit)] := hnone ▸ mem_map_of_mem hmem
  rw [mem_singleton.1 hin] at hevent
  cases hevent

theorem delete_triggers_batch :
    onDeleteTargets (fun _ => triggers) (getEventConfig Postcard.codec shard.node.app id) key = [target] ∧
      RemovalsReported Postcard.codec consumer (fun _ => triggers) shard
        (Shard.mutate Postcard.codec .none config shard (.batchDeleteEntries id [key])) :=
  ⟨rfl, (delete_triggers_iff Postcard.codec .none config rfl consumer (fun _ => triggers) [.setObject id input]
    (.batchDeleteEntries id [key])).2 fun _ hmem => (not_mem_nil hmem).elim⟩

end SingleDelete

end Odgm
