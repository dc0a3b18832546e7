import OaasIot.Odgm.BatchAtomicity

/-!
# What a call that returned `Ok` has done

Here puts may fail. A call that returned a value went through all its parts, so its run is taken apart from the end.
-/

namespace Odgm

section
variable {Ev α β : Type} {c : Codec Ev} {kind : ReplicationKind} {cfg : ShardConfig} {sh sh' : Shard Ev}

def Returned (c : Codec Ev) (kind : ReplicationKind) (p : ShardM Ev α) (sh : Shard Ev) (a : α) (sh' : Shard Ev) : Prop :=
  Shard.run c kind p sh = (.ok a, sh')

theorem Returned.of_bind {p : ShardM Ev α} {f : α → ShardM Ev β} {b : β} (h : Returned c kind (p >>= f) sh b sh') :
    ∃ a sh₁, Returned c kind p sh a sh₁ ∧ Returned c kind (f a) sh₁ b sh' :=
  Prog.exec_bind_eq_ok.1 h

theorem returned_pure {a b : α} (h : Returned c kind (pure a : ShardM Ev α) sh b sh') : b = a ∧ sh' = sh := by
  cases h
  exact ⟨rfl, rfl⟩

theorem not_returned_throw {e : Fault} {b : α} (h : Returned c kind (throw e : ShardM Ev α) sh b sh') : False := by
  cases h

/-! ## Calls -/

theorem Returned.of_reads {p : ShardM Ev α} {a : α} (h : Returned c kind p sh a sh') {r : Store → Result α}
    (hp : Reads c kind p r) : r sh.node.app = .ok a ∧ sh' = sh := by
  obtain ⟨hout, hsh⟩ := Prod.mk.inj ((hp sh).symm.trans h)
  exact ⟨hout, hsh.symm⟩

theorem returned_trySend {context : MutationContext Ev} {a : Unit}
    (h : Returned c kind (Shard.trySend context) sh a sh') : sh' = { sh with sent := sh.sent ++ [context] } := by
  cases h
  rfl

theorem returned_replicateWriteCall {operation : Operation} {a : Except ReplicationError ReplicationResponse}
    (h : Returned c kind (Shard.replicateWriteCall operation) sh a sh') :
    replicateWrite kind operation sh.node = (a, sh'.node) ∧ sh'.sent = sh.sent := by
  rw [Returned, Shard.run, exec_replicateWriteCall] at h
  cases h
  exact ⟨rfl, rfl⟩

variable {m : ObjectMetadata} {a : ReplicationResponse} {id : Str} {key value : Bytes}

theorem returned_replicate {operation : Operation} (h : Returned c kind (Shard.replicate operation) sh a sh') :
    replicateWrite kind operation sh.node = (.ok a, sh'.node) ∧ sh'.sent = sh.sent := by
  obtain ⟨out, sh₁, hcall, hrest⟩ := h.of_bind
  obtain ⟨hout, hsent⟩ := returned_replicateWriteCall hcall
  cases out with
  | ok response =>
    obtain ⟨rfl, rfl⟩ := returned_pure hrest
    exact ⟨hout, hsent⟩
  | error e => exact (not_returned_throw hrest).elim

theorem of_put_ok {n n' : Node} {overwrote : Bool} (h : n.put key value = (.ok overwrote, n')) :
    n'.app = n.app.insert key value ∧ n'.faults = n.faults.tail := by
  rcases put_cases n key value with ⟨e, faults, _, hput⟩ | ⟨faults, hf, hput⟩
  · rw [hput] at h
    cases h
  · rw [hput] at h
    cases h
    refine ⟨rfl, ?_⟩
    rcases hf with hf | ⟨hf, rfl⟩ <;> rw [hf] <;> rfl

theorem replicateWrite_write_ok {n n' : Node} {returnOld : Bool} {response : ReplicationResponse}
    (h : replicateWrite kind (.write key value returnOld) n = (.ok response, n')) :
    n'.app = n.app.insert key value ∧ n'.faults = n.faults.tail := by
  -- In each layer the answer is an error if the put is one, and otherwise the node is the put's, up to log and tree.
  cases kind with
  | none =>
    rcases hput : n.put key value with ⟨e | overwrote, n₁⟩
    · cases returnOld <;> simp [replicateWrite, noReplication, Node.putWithReturn, hput] at h
    · have hn : n' = n₁ := by
        cases returnOld <;> simp [replicateWrite, noReplication, Node.putWithReturn, hput] at h <;> exact h.2.symm
      rw [hn]
      exact of_put_ok hput
  | raft =>
    rcases hput : ({ n with log := n.log ++ [.write key value returnOld] } : Node).put key value with
      ⟨e | overwrote, n₁⟩
    · simp [replicateWrite, raftExec, applyShardRequest, hput] at h
    · have hn := of_put_ok hput
      simp only [replicateWrite, raftExec, applyShardRequest, hput] at h
      cases h
      exact hn
  | mst shardId =>
    have hd : defaultMstConfig.deserialize value = .ok value := rfl
    rcases hput : n.put key value with ⟨e | overwrote, n₁⟩
    · simp [replicateWrite, mstReplicate, hd, setRaw_default, hput] at h
    · have hn := of_put_ok hput
      simp only [replicateWrite, mstReplicate, hd, setRaw_default, hput] at h
      cases h
      exact hn

theorem returned_replicate_write {returnOld : Bool}
    (h : Returned c kind (Shard.replicate (.write key value returnOld)) sh a sh') :
    sh'.node.app = sh.node.app.insert key value ∧ sh'.sent = sh.sent :=
  ⟨(replicateWrite_write_ok (returned_replicate h).1).1, (returned_replicate h).2⟩

theorem returned_replicate_delete {key : Bytes} (h : Returned c kind (Shard.replicate (.delete key)) sh a sh') :
    sh'.node.app = sh.node.app.erase key ∧ sh'.sent = sh.sent := by
  obtain ⟨hrun, hsent⟩ := returned_replicate h
  obtain ⟨response, n', hrun', happ, _⟩ := replicateWrite_delete (n := sh.node) kind key
  rw [hrun] at hrun'
  cases hrun'
  exact ⟨happ, hsent⟩

/-! ## Metadata and events -/

theorem returned_metadataOrDefault (h : Returned c kind (Shard.metadataOrDefault id) sh m sh') :
    ∃ metadata, getMetadata sh.node.app id = .ok metadata ∧ m = metadata.getD .default ∧ sh' = sh := by
  obtain ⟨metadata, sh₁, hget, hrest⟩ := h.of_bind
  obtain ⟨hm, rfl⟩ := hget.of_reads (reads_getMetadata id)
  obtain ⟨rfl, rfl⟩ := returned_pure hrest
  exact ⟨metadata, hm, rfl, rfl⟩

theorem returned_setMetadata {a : Unit} (h : Returned c kind (Shard.setMetadata id m) sh a sh') :
    sh'.node.app = sh.node.app.insert (buildMetadataKey id) m.toBytes ∧ sh'.sent = sh.sent := by
  obtain ⟨response, sh₁, hwrite, hrest⟩ := h.of_bind
  obtain ⟨_, rfl⟩ := returned_pure hrest
  exact returned_replicate_write hwrite

theorem returned_bumpVersion (h : Returned c kind (Shard.bumpVersion id) sh m sh') :
    ∃ metadata, getMetadata sh.node.app id = .ok metadata ∧ sh'.node.app = bump id metadata sh.node.app ∧
      sh'.sent = sh.sent := by
  obtain ⟨m', sh₁, hget, hrest⟩ := h.of_bind
  obtain ⟨metadata, hm, rfl, rfl⟩ := returned_metadataOrDefault hget
  obtain ⟨_, sh₂, hset, hrest⟩ := hrest.of_bind
  obtain ⟨_, rfl⟩ := returned_pure hrest
  exact ⟨metadata, hm, returned_setMetadata hset⟩

def Sends (id : Str) (changed : List ChangedKey) (sh sh' : Shard Ev) : Prop :=
  ∃ context : MutationContext Ev, context.objectId = id ∧ context.changed = changed ∧ sh'.sent = sh.sent ++ [context]

def SendsWith (event : Option Ev) (id : Str) (changed : List ChangedKey) (sh sh' : Shard Ev) : Prop :=
  ∃ context : MutationContext Ev, context.objectId = id ∧ context.changed = changed ∧ context.eventConfig = event ∧
    sh'.sent = sh.sent ++ [context]

theorem SendsWith.sends {event : Option Ev} {changed : List ChangedKey}
    (h : SendsWith event id changed sh sh') : Sends id changed sh sh' := by
  obtain ⟨context, hid, hchanged, _, hsent⟩ := h
  exact ⟨context, hid, hchanged, hsent⟩

theorem returned_announce (hv2 : cfg.v2Dispatcher = true) {changed : List ChangedKey}
    {a : Unit} (h : Returned c kind (Shard.announce c cfg id m changed) sh a sh') :
    sh'.node = sh.node ∧ SendsWith (getEventConfig c sh.node.app id) id changed sh sh' := by
  unfold Shard.announce at h
  rw [if_pos hv2] at h
  obtain ⟨event, sh₁, hevent, hsend⟩ := h.of_bind
  obtain ⟨⟨⟩, rfl⟩ := hevent.of_reads (reads_readEventConfig id)
  rw [returned_trySend hsend]
  exact ⟨rfl, _, rfl, rfl, rfl, rfl⟩

/-! ## Entries -/

variable {id : ObjectId}

theorem returned_setEntry (hv2 : cfg.v2Dispatcher = true) {key : Str} {value : ObjectVal} {a : Unit}
    (h : Returned c kind (Shard.setEntry c cfg id key value) sh a sh') :
    ∃ metadata, getMetadata sh.node.app id = .ok metadata ∧
      sh'.node.app = bump id metadata (sh.node.app.insert (buildEntryKey id key) (c.encodeVal value)) ∧
      Sends id [⟨key, Shard.writeAction (sh.node.app.get (buildEntryKey id key)).isSome, Shard.rawData cfg value⟩]
        sh sh' := by
  obtain ⟨existed, sh₁, hexisted, h⟩ := h.of_bind
  rw [Shard.existedBefore, if_pos hv2] at hexisted
  obtain ⟨⟨⟩, rfl⟩ := hexisted.of_reads (reads_existsKey _)
  obtain ⟨response, sh₂, hwrite, h⟩ := h.of_bind
  obtain ⟨happ, hsent⟩ := returned_replicate_write hwrite
  obtain ⟨m, sh₃, hbump, h⟩ := h.of_bind
  obtain ⟨metadata, hm, happ', hsent'⟩ := returned_bumpVersion hbump
  obtain ⟨hnode, context, hid, hchanged, _, hsent''⟩ := returned_announce hv2 h
  rw [happ] at hm happ'
  refine ⟨metadata, (getMetadata_insert_entry _ id key _).symm.trans hm, ?_, context, hid, hchanged, ?_⟩
  · rw [hnode, happ']
  · rw [hsent'', hsent', hsent]

/-- The stored ones of the keys are deleted, and announced with `event` if there are any. -/
def DeletesFrom (id : ObjectId) (keys : List Str) (event : Option Ev) (sh sh' : Shard Ev) : Prop :=
  ((deletedFrom id keys sh.node.app).1 = [] ∧ sh'.node.app = (deletedFrom id keys sh.node.app).2 ∧ sh'.sent = sh.sent) ∨
    (deletedFrom id keys sh.node.app).1 ≠ [] ∧ ∃ metadata, getMetadata sh.node.app id = .ok metadata ∧
      sh'.node.app = bump id metadata (deletedFrom id keys sh.node.app).2 ∧
      SendsWith event id ((deletedFrom id keys sh.node.app).1.map fun key => ⟨key, .delete, none⟩) sh sh'

theorem returned_deleteEntry (hv2 : cfg.v2Dispatcher = true) {key : Str} {a : Unit}
    (h : Returned c kind (Shard.deleteEntry cfg id key) sh a sh') : DeletesFrom id [key] none sh sh' := by
  obtain ⟨found, sh₁, hexists, h⟩ := h.of_bind
  obtain ⟨⟨⟩, rfl⟩ := hexists.of_reads (reads_existsKey _)
  unfold DeletesFrom deletedFrom
  by_cases hfound : (sh₁.node.app.get (buildEntryKey id key)).isSome = true
  · rw [if_pos hfound] at h ⊢
    obtain ⟨response, sh₂, hdelete, h⟩ := h.of_bind
    obtain ⟨happ, hsent⟩ := returned_replicate_delete hdelete
    obtain ⟨m, sh₃, hbump, h⟩ := h.of_bind
    obtain ⟨metadata, hm, happ', hsent'⟩ := returned_bumpVersion hbump
    rw [if_pos hv2] at h
    rw [happ] at hm happ'
    refine Or.inr ⟨List.cons_ne_nil _ _, metadata, (getMetadata_erase_entry _ id key).symm.trans hm, ?_, ?_⟩
    · rw [returned_trySend h, happ']
      rfl
    · refine ⟨Shard.mutation cfg id m.objectVersion m.incrementVersion.objectVersion [⟨key, .delete, none⟩] none,
        rfl, rfl, rfl, ?_⟩
      rw [returned_trySend h, hsent', hsent]
  · rw [if_neg hfound] at h ⊢
    obtain ⟨_, rfl⟩ := returned_pure h
    exact Or.inl ⟨rfl, rfl, rfl⟩

/-! ## Batches -/

variable (keys : List Str)

def batchChanges (cfg : ShardConfig) (id : Str) (values : List (Str × ObjectVal)) (s : Store) : List ChangedKey :=
  values.map fun e => ⟨e.1, Shard.writeAction (s.get (buildEntryKey id e.1)).isSome, Shard.rawData cfg e.2⟩

theorem zip_map_eq_batchChanges (id : Str) (values : List (Str × ObjectVal)) (s : Store) :
    ((values.zip ((values.map Prod.fst).map fun key => (s.get (buildEntryKey id key)).isSome)).map
        fun e => (⟨e.1.1, Shard.writeAction e.2, Shard.rawData cfg e.1.2⟩ : ChangedKey)) =
      batchChanges cfg id values s := by
  induction values with
  | nil => rfl
  | cons e values ih => simpa [batchChanges] using ih

theorem returned_batchSetEntries_store {metadata : Option ObjectMetadata} (hm : getMetadata sh.node.app id = .ok metadata)
    {values : ValueMap} (hne : values.toList ≠ []) {expected : Option UInt64} {version : UInt64}
    (h : Returned c kind (Shard.batchSetEntries c cfg id values expected) sh version sh') :
    (firstFault sh.node.faults (values.toList.length + 1) = none ∧
        sh'.node.app = batchWritten c id metadata values.toList sh.node.app) ∨
      ∃ j, firstFault sh.node.faults (values.toList.length + 1) = some j ∧ kind = .raft ∧
        sh'.node.app = sh.node.app.insertMany (entryRecords c id (values.toList.take j)) := by
  cases hv : Shard.versionMatches expected (metadata.getD .default) with
  | error e =>
    have hruns : RunsOn c kind (Shard.batchSetEntries c cfg id values expected) sh.node _ _ :=
      runsOn_batchSetEntries_mismatch hm hne hv
    obtain ⟨sh₁, hrun, _⟩ := hruns sh rfl
    rw [Returned, hrun] at h
    cases h
  | ok _ =>
    obtain ⟨n', hruns, happ⟩ := runsOn_batchSetEntries c kind cfg hm hne hv
    obtain ⟨sh₁, hrun, hnode⟩ := hruns sh rfl
    rw [Returned, hrun] at h
    obtain ⟨hanswer, rfl⟩ := Prod.mk.inj h
    rw [hnode, happ]
    obtain ⟨hall, hcut⟩ :=
      putAll_eq (Shard.batchRecords c id values.toList (metadata.getD .default).incrementVersion) sh.node
    rw [length_batchRecords] at hall hcut
    cases hfault : firstFault sh.node.faults (values.toList.length + 1) with
    | none => exact Or.inl ⟨rfl, (hall hfault).2⟩
    | some j =>
      obtain ⟨e, hout, hstored⟩ := hcut j hfault
      rw [take_batchRecords (Nat.lt_succ_iff.1 (firstFault_lt hfault))] at hstored
      refine Or.inr ⟨j, rfl, ?_, hstored⟩
      rw [hout] at hanswer
      cases kind with
      | raft => rfl
      | none | mst shardId => cases hanswer

theorem returned_batchSetEntries (hv2 : cfg.v2Dispatcher = true) {values : ValueMap} {expected : Option UInt64}
    {version : UInt64} (h : Returned c kind (Shard.batchSetEntries c cfg id values expected) sh version sh') :
    (values.toList = [] ∧ sh' = sh) ∨
      (values.toList ≠ [] ∧ ∃ metadata, getMetadata sh.node.app id = .ok metadata ∧
        Sends id (batchChanges cfg id values.toList sh.node.app) sh sh' ∧
        ((firstFault sh.node.faults (values.toList.length + 1) = none ∧
            sh'.node.app = batchWritten c id metadata values.toList sh.node.app) ∨
          ∃ j, firstFault sh.node.faults (values.toList.length + 1) = some j ∧ kind = .raft ∧
            sh'.node.app = sh.node.app.insertMany (entryRecords c id (values.toList.take j)))) := by
  obtain ⟨m, sh₁, hget, hrest⟩ := h.of_bind
  obtain ⟨metadata, hm, rfl, rfl⟩ := returned_metadataOrDefault hget
  by_cases hnil : values.toList = []
  · rw [if_pos hnil] at hrest
    exact Or.inl ⟨hnil, (returned_pure hrest).2⟩
  · rw [if_neg hnil] at hrest
    refine Or.inr ⟨hnil, metadata, hm, ?_, returned_batchSetEntries_store hm hnil h⟩
    cases hv : Shard.versionMatches expected (metadata.getD .default) with
    | error e =>
      rw [hv] at hrest
      exact (not_returned_throw hrest).elim
    | ok _ =>
      rw [hv] at hrest
      obtain ⟨existed, sh₂, hprobe, hwrite⟩ := hrest.of_bind
      clear hrest
      rw [Shard.preExist, if_pos hv2] at hprobe
      obtain ⟨⟨⟩, rfl⟩ := hprobe.of_reads (reads_probeAll id _)
      obtain ⟨response, sh₃, hbatch, h⟩ := hwrite.of_bind
      obtain ⟨_, sh₄, hannounce, h⟩ := h.of_bind
      obtain ⟨_, rfl⟩ := returned_pure h
      obtain ⟨_, context, hid, hchanged, _, hsent⟩ := returned_announce hv2 hannounce
      refine ⟨context, hid, hchanged.trans (zip_map_eq_batchChanges id _ _), ?_⟩
      rw [hsent, (returned_replicate hbatch).2]

theorem returned_deleteAll {id : Str} {a : List Str} (h : Returned c kind (Shard.deleteAll id keys) sh a sh') :
    a = (deletedFrom id keys sh.node.app).1 ∧ sh'.node.app = (deletedFrom id keys sh.node.app).2 ∧
      sh'.sent = sh.sent := by
  induction keys generalizing sh a with
  | nil =>
    obtain ⟨rfl, rfl⟩ := returned_pure h
    exact ⟨rfl, rfl, rfl⟩
  | cons key keys ih =>
    obtain ⟨found, sh₁, hexists, h⟩ := h.of_bind
    obtain ⟨⟨⟩, rfl⟩ := hexists.of_reads (reads_existsKey _)
    unfold deletedFrom
    by_cases hfound : (sh₁.node.app.get (buildEntryKey id key)).isSome = true
    · rw [if_pos hfound] at h ⊢
      obtain ⟨response, sh₂, hdelete, h⟩ := h.of_bind
      obtain ⟨happ, hsent⟩ := returned_replicate_delete hdelete
      obtain ⟨rest, sh₃, hrest, h⟩ := h.of_bind
      obtain ⟨rfl, rfl⟩ := returned_pure h
      obtain ⟨rfl, happ', hsent'⟩ := ih hrest
      rw [happ] at happ' ⊢
      exact ⟨rfl, happ', hsent'.trans hsent⟩
    · rw [if_neg hfound] at h ⊢
      exact ih h

theorem getEventConfig_deletedFrom (s : Store) :
    getEventConfig c (deletedFrom id keys s).2 id = getEventConfig c s id := by
  induction keys generalizing s with
  | nil => rfl
  | cons key keys ih =>
    unfold deletedFrom
    split
    · rw [ih, getEventConfig, OrdMap.get_erase, if_neg (eventConfigKey_ne_entryKey id key), getEventConfig]
    · exact ih s

theorem getEventConfig_bump (metadata : Option ObjectMetadata) (s : Store) :
    getEventConfig c (bump id metadata s) id = getEventConfig c s id := by
  rw [getEventConfig, bump, OrdMap.get_insert_of_ne _ _ (eventConfigKey_ne_metaKey id id).symm, getEventConfig]

theorem returned_batchDeleteEntries (hv2 : cfg.v2Dispatcher = true) {keys : List Str} {a : Unit}
    (h : Returned c kind (Shard.batchDeleteEntries c cfg id keys) sh a sh') :
    DeletesFrom id keys (getEventConfig c sh.node.app id) sh sh' := by
  obtain ⟨deleted, sh₁, hdelete, h⟩ := h.of_bind
  obtain ⟨rfl, happ, hsent⟩ := returned_deleteAll keys hdelete
  by_cases hnil : (deletedFrom id keys sh.node.app).1 = []
  · rw [if_neg (not_not.2 hnil)] at h
    obtain ⟨_, rfl⟩ := returned_pure h
    exact Or.inl ⟨hnil, happ, hsent⟩
  · rw [if_pos hnil] at h
    obtain ⟨m, sh₂, hbump, h⟩ := h.of_bind
    obtain ⟨metadata, hm, happ', hsent'⟩ := returned_bumpVersion hbump
    obtain ⟨hnode, context, hid, hchanged, hevent, hsent''⟩ := returned_announce hv2 h
    rw [happ, getMetadata_deletedFrom] at hm
    rw [happ', happ, getEventConfig_bump, getEventConfig_deletedFrom] at hevent
    refine Or.inr ⟨hnil, metadata, hm, ?_, context, hid, hchanged, hevent, ?_⟩
    · rw [hnode, happ', happ]
    · rw [hsent'', hsent', hsent]

/-! ## Objects -/

theorem returned_deleteObjectGranular {id : Str} {a : Unit}
    (h : Returned c kind (Shard.deleteObjectGranular id) sh a sh') :
    sh' = { sh with
      node := sh.node.deleteRange (buildObjectPrefix id) (computeObjectRangeEnd (buildObjectPrefix id)) } := by
  cases h
  rfl

theorem returned_bury (hv2 : cfg.v2Dispatcher = true) {id : Str} {m : ObjectMetadata}
    {existing : Option (ObjectData Ev)} {a : Unit} (h : Returned c kind (Shard.bury c cfg id m existing) sh a sh') :
    sh'.node.app = buried id m sh.node.app ∧
      ((Shard.deletions existing = [] ∧ sh'.sent = sh.sent) ∨
        SendsWith (getEventConfig c sh.node.app id) id (Shard.deletions existing) sh sh') := by
  obtain ⟨event, sh₁, hevent, h₁⟩ := h.of_bind
  clear h
  obtain ⟨⟨⟩, rfl⟩ := hevent.of_reads (reads_readEventConfig id)
  obtain ⟨_, sh₃, hrange, h₂⟩ := h₁.of_bind
  clear h₁
  rw [returned_deleteObjectGranular hrange] at h₂
  obtain ⟨_, sh₄, hset, h⟩ := h₂.of_bind
  obtain ⟨happ, hsent⟩ := returned_setMetadata hset
  by_cases hnil : Shard.deletions existing = []
  · rw [if_neg fun hand => hand.2 hnil] at h
    obtain ⟨_, rfl⟩ := returned_pure h
    exact ⟨happ, Or.inl ⟨hnil, hsent⟩⟩
  · rw [if_pos ⟨hv2, hnil⟩] at h
    rw [returned_trySend h]
    exact ⟨happ, Or.inr ⟨_, rfl, rfl, rfl, by rw [hsent]⟩⟩

theorem returned_deleteObject (hv2 : cfg.v2Dispatcher = true) {a : Unit}
    (h : Returned c kind (Shard.deleteObject c cfg id) sh a sh') :
    ((∀ m, getMetadata sh.node.app id = .ok (some m) → m.tombstone = true) ∧ sh' = sh) ∨
      ∃ m existing, getMetadata sh.node.app id = .ok (some m) ∧ m.tombstone = false ∧
        reconstructObjectFromEntries c sh.node.app id cfg.granularPrefetchLimit = .ok existing ∧
        sh'.node.app = buried id m sh.node.app ∧
        ((Shard.deletions existing = [] ∧ sh'.sent = sh.sent) ∨
          SendsWith (getEventConfig c sh.node.app id) id (Shard.deletions existing) sh sh') := by
  obtain ⟨metadata, sh₁, hget, hrest⟩ := h.of_bind
  clear h
  obtain ⟨hm, rfl⟩ := hget.of_reads (reads_getMetadata id)
  cases metadata with
  | none =>
    refine Or.inl ⟨fun m hm' => ?_, (returned_pure hrest).2⟩
    rw [hm] at hm'
    cases hm'
  | some m =>
    cases hdead : m.tombstone with
    | true =>
      simp only [hdead, if_true] at hrest
      refine Or.inl ⟨fun m' hm' => ?_, (returned_pure hrest).2⟩
      rw [hm] at hm'
      cases hm'
      exact hdead
    | false =>
      simp only [hdead, Bool.false_eq_true, if_false] at hrest
      obtain ⟨existing, sh₂, hexisting, hbury⟩ := hrest.of_bind
      clear hrest
      rw [Shard.existingEntry, if_pos hv2] at hexisting
      obtain ⟨hr, rfl⟩ := hexisting.of_reads (reads_reconstruct id)
      exact Or.inr ⟨m, existing, hm, hdead, hr, returned_bury hv2 hbury⟩

end

end Odgm
