import OaasIot.Odgm.Reconstruct
import OaasIot.Odgm.Shard

/-!
# What the mutations do to the store

While no `put` fails, the three replication layers do the same to the local store. `Runs p s out s'` says that `p` on
any shard with store `s` ends with `out` and leaves `s'`; each mutation has one `runs_…` lemma and is not unfolded after
it.
-/

namespace Odgm

section
variable {Ev α β : Type} {c : Codec Ev} {kind : ReplicationKind} {cfg : ShardConfig}

def RunsOn (c : Codec Ev) (kind : ReplicationKind) (p : ShardM Ev α) (n : Node) (out : Result α) (n' : Node) : Prop :=
  ∀ sh : Shard Ev, sh.node = n → ∃ sh', Shard.run c kind p sh = (out, sh') ∧ sh'.node = n'

def Runs (c : Codec Ev) (kind : ReplicationKind) (p : ShardM Ev α) (s : Store) (out : Result α) (s' : Store) :
    Prop :=
  ∀ sh : Shard Ev, sh.node.app = s → sh.node.faults = [] →
    ∃ sh', Shard.run c kind p sh = (out, sh') ∧ sh'.node.app = s' ∧ sh'.node.faults = []

variable {s : Store} {p : ShardM Ev α} {f : α → ShardM Ev β} {a : α}

theorem run_bind_ok {sh sh₁ : Shard Ev} (h : Shard.run c kind p sh = (.ok a, sh₁)) :
    Shard.run c kind (p >>= f) sh = Shard.run c kind (f a) sh₁ := by
  rw [Shard.run] at h ⊢
  rw [Prog.exec_bind, h]
  rfl

theorem run_bind_error {sh sh₁ : Shard Ev} {e : Fault} (h : Shard.run c kind p sh = (.error e, sh₁)) :
    Shard.run c kind (p >>= f) sh = (.error e, sh₁) := by
  rw [Shard.run] at h ⊢
  rw [Prog.exec_bind, h]
  rfl

namespace RunsOn

variable {n n₁ n' : Node} {out : Result β}

theorem pure (a : α) (n : Node) : RunsOn c kind (Pure.pure a : ShardM Ev α) n (.ok a) n :=
  fun sh hn => ⟨sh, rfl, hn⟩

theorem throw (e : Fault) (n : Node) : RunsOn c kind (MonadExcept.throw e : ShardM Ev α) n (.error e) n :=
  fun sh hn => ⟨sh, rfl, hn⟩

theorem bind (hp : RunsOn c kind p n (.ok a) n₁) (hf : RunsOn c kind (f a) n₁ out n') :
    RunsOn c kind (p >>= f) n out n' := by
  intro sh hn
  obtain ⟨sh₁, hrun, hn₁⟩ := hp sh hn
  obtain ⟨sh', hrun', hn'⟩ := hf sh₁ hn₁
  exact ⟨sh', (run_bind_ok hrun).trans hrun', hn'⟩

theorem bind_error {e : Fault} (hp : RunsOn c kind p n (.error e) n₁) :
    RunsOn c kind (p >>= f) n (.error e) n₁ := by
  intro sh hn
  obtain ⟨sh₁, hrun, hn₁⟩ := hp sh hn
  exact ⟨sh₁, run_bind_error hrun, hn₁⟩

theorem toRuns {out : Result α} (h : ∀ n : Node, n.app = s → RunsOn c kind p n out n) : Runs c kind p s out s := by
  intro sh hs hf
  obtain ⟨sh', hrun, hn⟩ := h sh.node hs sh rfl
  exact ⟨sh', hrun, hn ▸ hs, hn ▸ hf⟩

end RunsOn

namespace Runs

variable {s₁ s' : Store} {out : Result β}

theorem pure (a : α) (s : Store) : Runs c kind (Pure.pure a : ShardM Ev α) s (.ok a) s :=
  RunsOn.toRuns fun n _ => RunsOn.pure a n

theorem throw (e : Fault) (s : Store) : Runs c kind (MonadExcept.throw e : ShardM Ev α) s (.error e) s :=
  RunsOn.toRuns fun n _ => RunsOn.throw e n

theorem bind (hp : Runs c kind p s (.ok a) s₁) (hf : Runs c kind (f a) s₁ out s') :
    Runs c kind (p >>= f) s out s' := by
  intro sh hs hfaults
  obtain ⟨sh₁, hrun, hs₁, hf₁⟩ := hp sh hs hfaults
  obtain ⟨sh', hrun', hs', hf'⟩ := hf sh₁ hs₁ hf₁
  exact ⟨sh', (run_bind_ok hrun).trans hrun', hs', hf'⟩

theorem bind_error {e : Fault} (hp : Runs c kind p s (.error e) s₁) :
    Runs c kind (p >>= f) s (.error e) s₁ := by
  intro sh hs hfaults
  obtain ⟨sh₁, hrun, hs₁, hf₁⟩ := hp sh hs hfaults
  exact ⟨sh₁, run_bind_error hrun, hs₁, hf₁⟩

end Runs

/-! ## Programs that only read -/

/-- `p` leaves the shard alone and answers what `r` says of the store. -/
def Reads (c : Codec Ev) (kind : ReplicationKind) (p : ShardM Ev α) (r : Store → Result α) : Prop :=
  ∀ sh : Shard Ev, Shard.run c kind p sh = (r sh.node.app, sh)

theorem Reads.runsOn {r : Store → Result α} (h : Reads c kind p r) (n : Node) : RunsOn c kind p n (r n.app) n := by
  rintro sh rfl
  exact ⟨sh, h sh, rfl⟩

theorem Reads.runs {r : Store → Result α} (h : Reads c kind p r) (s : Store) : Runs c kind p s (r s) s :=
  RunsOn.toRuns fun n hn => hn ▸ h.runsOn n

variable (key : Bytes) (id : Str)

theorem reads_getRaw : Reads c kind (Shard.getRaw key) fun s => .ok (s.get key) := fun _ => rfl

theorem reads_existsKey : Reads c kind (Shard.existsKey key) fun s => .ok (s.get key).isSome := fun _ => rfl

theorem reads_readEventConfig : Reads c kind (Shard.readEventConfig c id) fun s => .ok (getEventConfig c s id) :=
  fun _ => rfl

theorem run_reconstruct (limit : Nat) (id : Str) (sh : Shard Ev) :
    Shard.run c kind (do
        match ← Shard.reconstructCall id limit with
        | .ok object => pure object
        | .error e => throw e) sh =
      (reconstructObjectFromEntries c sh.node.app id limit, sh) := by
  have hcall : Shard.run c kind (Shard.reconstructCall id limit) sh =
      (.ok (reconstructObjectFromEntries c sh.node.app id limit), sh) := rfl
  refine (run_bind_ok hcall).trans ?_
  cases reconstructObjectFromEntries c sh.node.app id limit <;> rfl

theorem reads_reconstruct : Reads c kind (Shard.reconstruct cfg id) fun s =>
    reconstructObjectFromEntries c s id cfg.granularPrefetchLimit := run_reconstruct _ _

theorem reads_getMetadata : Reads c kind (Shard.getMetadata id) (getMetadata · id) := by
  intro sh
  refine (run_bind_ok (reads_getRaw _ sh)).trans ?_
  dsimp only [getMetadata]
  cases sh.node.app.get (buildMetadataKey id) with
  | none => rfl
  | some value =>
    dsimp only
    cases ObjectMetadata.fromBytes value <;> rfl

theorem reads_existedBefore (key : Str) : Reads c kind (Shard.existedBefore cfg id key) fun s =>
    .ok (cfg.v2Dispatcher && (s.get (buildEntryKey id key)).isSome) := by
  unfold Shard.existedBefore
  cases cfg.v2Dispatcher <;> exact fun _ => rfl

theorem reads_probeAll : ∀ keys : List Str, Reads c kind (Shard.probeAll id keys) fun s =>
    .ok (keys.map fun key => (s.get (buildEntryKey id key)).isSome)
  | [], _ => rfl
  | _ :: keys, sh => (run_bind_ok (reads_existsKey _ sh)).trans (run_bind_ok (reads_probeAll keys sh))

theorem reads_preExist (keys : List Str) : Reads c kind (Shard.preExist cfg id keys) fun s =>
    .ok (if cfg.v2Dispatcher then keys.map fun key => (s.get (buildEntryKey id key)).isSome else []) := by
  unfold Shard.preExist
  cases cfg.v2Dispatcher with
  | false => exact fun _ => rfl
  | true => exact reads_probeAll id keys

theorem runsOn_trySend (context : MutationContext Ev) (n : Node) :
    RunsOn c kind (Shard.trySend context) n (.ok ()) n := by
  rintro sh rfl
  exact ⟨_, rfl, rfl⟩

variable {metadata : Option ObjectMetadata} {n : Node} {id : Str}

theorem runsOn_metadataOrDefault (hm : getMetadata n.app id = .ok metadata) :
    RunsOn c kind (Shard.metadataOrDefault id) n (.ok (metadata.getD .default)) n := by
  exact RunsOn.bind (hm ▸ (reads_getMetadata id).runsOn n) (RunsOn.pure _ n)

theorem runsOn_announce (id : Str) (m : ObjectMetadata) (changed : List ChangedKey) (n : Node) :
    RunsOn c kind (Shard.announce c cfg id m changed) n (.ok ()) n := by
  unfold Shard.announce
  cases cfg.v2Dispatcher with
  | false => exact RunsOn.pure _ n
  | true => exact RunsOn.bind ((reads_readEventConfig id).runsOn n) (runsOn_trySend _ n)

/-! ## Replicated operations -/

theorem exec_replicateWriteCall (operation : Operation) (sh : Shard Ev) :
    Prog.exec (Shard.handle c kind) (Shard.replicateWriteCall operation) sh =
      (.ok (replicateWrite kind operation sh.node).1,
        { sh with node := (replicateWrite kind operation sh.node).2 }) := rfl

variable {operation : Operation}

theorem runsOn_replicate {n' : Node} {response : ReplicationResponse}
    (hop : replicateWrite kind operation n = (.ok response, n')) :
    RunsOn c kind (Shard.replicate operation) n (.ok response) n' := by
  rintro sh rfl
  refine ⟨{ sh with node := n' }, ?_, rfl⟩
  rw [Shard.run, Shard.replicate, Prog.exec_bind, exec_replicateWriteCall, hop]
  rfl

theorem runsOn_replicate_error {n' : Node} {e : ReplicationError}
    (hop : replicateWrite kind operation n = (.error e, n')) :
    RunsOn c kind (Shard.replicate operation) n (.error (.err (.replicationError e))) n' := by
  rintro sh rfl
  refine ⟨{ sh with node := n' }, ?_, rfl⟩
  rw [Shard.run, Shard.replicate, Prog.exec_bind, exec_replicateWriteCall, hop]
  rfl

variable {out : Result β} {f : ReplicationResponse → ShardM Ev β} {s' : Store}

theorem runs_replicate {s₁ : Store}
    (hop : ∀ n : Node, n.app = s → n.faults = [] → ∃ response n', replicateWrite kind operation n = (.ok response, n') ∧ n'.app = s₁ ∧ n'.faults = [])
    (hf : ∀ response, Runs c kind (f response) s₁ out s') : Runs c kind (Shard.replicate operation >>= f) s out s' := by
  intro sh hs hfaults
  obtain ⟨response, n', hrep, happ, hfaults'⟩ := hop sh.node hs hfaults
  have hreplicate : RunsOn c kind (Shard.replicate operation) sh.node (.ok response) n' := runsOn_replicate hrep
  obtain ⟨sh₁, hrun₁, hn₁⟩ := hreplicate sh rfl
  obtain ⟨sh', hrun, hs', hf'⟩ := hf response sh₁ (hn₁ ▸ happ) (hn₁ ▸ hfaults')
  exact ⟨sh', (run_bind_ok hrun₁).trans hrun, hs', hf'⟩

theorem runs_replicate_write (value : Bytes) (returnOld : Bool)
    (hf : ∀ response, Runs c kind (f response) (s.insert key value) out s') :
    Runs c kind (Shard.replicate (.write key value returnOld) >>= f) s out s' := by
  refine runs_replicate ?_ hf
  rintro n rfl hn
  exact replicateWrite_write hn kind key value returnOld

theorem runs_replicate_delete (hf : ∀ response, Runs c kind (f response) (s.erase key) out s') :
    Runs c kind (Shard.replicate (.delete key) >>= f) s out s' := by
  refine runs_replicate ?_ hf
  rintro n rfl hn
  obtain ⟨response, n', hrun, happ, hfaults⟩ := replicateWrite_delete (n := n) kind key
  exact ⟨response, n', hrun, happ, hfaults.trans hn⟩

theorem runs_replicate_batch (records : List (Bytes × Bytes))
    (hf : ∀ response, Runs c kind (f response) (s.insertMany records) out s') :
    Runs c kind (Shard.replicate (.batch (writesOf records)) >>= f) s out s' := by
  refine runs_replicate ?_ hf
  rintro n rfl hn
  exact replicateWrite_batch kind records hn

/-! ## Metadata -/

theorem runs_trySend (context : MutationContext Ev) (s : Store) :
    Runs c kind (Shard.trySend context) s (.ok ()) s :=
  RunsOn.toRuns fun n _ => runsOn_trySend context n

theorem runs_metadataOrDefault (hm : getMetadata s id = .ok metadata) :
    Runs c kind (Shard.metadataOrDefault id) s (.ok (metadata.getD .default)) s :=
  RunsOn.toRuns fun _ hn => runsOn_metadataOrDefault (hn ▸ hm)

theorem runs_deleteObjectGranular (id : Str) (s : Store) :
    Runs c kind (Shard.deleteObjectGranular id) s (.ok ())
      (s.eraseRange (buildObjectPrefix id) (computeObjectRangeEnd (buildObjectPrefix id))) := by
  rintro sh rfl hf
  exact ⟨_, rfl, rfl, hf⟩

theorem runs_setMetadata (id : Str) (m : ObjectMetadata) (s : Store) :
    Runs c kind (Shard.setMetadata id m) s (.ok ()) (s.insert (buildMetadataKey id) m.toBytes) :=
  runs_replicate_write _ _ _ fun _ => Runs.pure _ _

/-! ## Entry mutations -/

theorem getMetadata_congr (h : s'.get (buildMetadataKey id) = s.get (buildMetadataKey id)) :
    getMetadata s' id = getMetadata s id := by
  unfold getMetadata
  rw [h]

theorem getMetadata_insert_entry (s : Store) (id : ObjectId) (key : Str) (v : Bytes) :
    getMetadata (s.insert (buildEntryKey id key) v) id = getMetadata s id :=
  getMetadata_congr (OrdMap.get_insert_of_ne _ _ (metaKey_ne_entryKey id key).symm)

theorem getMetadata_erase_entry (s : Store) (id : ObjectId) (key : Str) :
    getMetadata (s.erase (buildEntryKey id key)) id = getMetadata s id := by
  refine getMetadata_congr ?_
  rw [OrdMap.get_erase, if_neg (metaKey_ne_entryKey id key)]

def bump (id : Str) (metadata : Option ObjectMetadata) (s : Store) : Store :=
  s.insert (buildMetadataKey id) (metadata.getD .default).incrementVersion.toBytes

theorem runs_bumpVersion (hm : getMetadata s id = .ok metadata) :
    Runs c kind (Shard.bumpVersion id) s (.ok (metadata.getD .default)) (bump id metadata s) :=
  Runs.bind (runs_metadataOrDefault hm) (Runs.bind (runs_setMetadata _ _ _) (Runs.pure _ _))

theorem runs_announce (id : Str) (m : ObjectMetadata) (changed : List ChangedKey) (s : Store) :
    Runs c kind (Shard.announce c cfg id m changed) s (.ok ()) s :=
  RunsOn.toRuns fun n _ => runsOn_announce id m changed n

theorem runs_setEntry {id : ObjectId} (hm : getMetadata s id = .ok metadata) (key : Str) (v : ObjectVal) :
    Runs c kind (Shard.setEntry c cfg id key v) s (.ok ())
      (bump id metadata (s.insert (buildEntryKey id key) (c.encodeVal v))) := by
  refine Runs.bind ((reads_existedBefore id key).runs s) ?_
  refine runs_replicate_write _ _ _ fun _ => ?_
  have hm' := (getMetadata_insert_entry s id key (c.encodeVal v)).trans hm
  exact Runs.bind (runs_bumpVersion hm') (runs_announce _ _ _ _)

theorem runs_deleteEntry_absent {id : ObjectId} {key : Str} (h : s.get (buildEntryKey id key) = none) :
    Runs c kind (Shard.deleteEntry cfg id key) s (.ok ()) s := by
  refine Runs.bind ((reads_existsKey _).runs s) ?_
  rw [h]
  exact Runs.pure _ s

theorem runs_deleteEntry {id : ObjectId} (hm : getMetadata s id = .ok metadata) {key : Str}
    (h : s.get (buildEntryKey id key) ≠ none) :
    Runs c kind (Shard.deleteEntry cfg id key) s (.ok ()) (bump id metadata (s.erase (buildEntryKey id key))) := by
  have hm' := (getMetadata_erase_entry s id key).trans hm
  refine Runs.bind ((reads_existsKey _).runs s) ?_
  rw [if_pos (Option.isSome_iff_ne_none.2 h)]
  refine runs_replicate_delete _ fun _ => Runs.bind (runs_bumpVersion hm') ?_
  cases cfg.v2Dispatcher with
  | false => exact Runs.pure _ _
  | true => exact runs_trySend _ _

/-! ## Batches -/

def batchWritten (c : Codec Ev) (id : Str) (metadata : Option ObjectMetadata) (values : List (Str × ObjectVal))
    (s : Store) : Store :=
  s.insertMany (Shard.batchRecords c id values (metadata.getD .default).incrementVersion)

theorem runs_writeBatch (id : Str) (metadata : Option ObjectMetadata) (values : List (Str × ObjectVal))
    (s : Store) :
    Runs c kind (Shard.writeBatch c cfg id values (metadata.getD .default)) s
      (.ok (metadata.getD .default).incrementVersion.objectVersion) (batchWritten c id metadata values s) := by
  refine Runs.bind ((reads_preExist id (values.map Prod.fst)).runs s) ?_
  refine runs_replicate_batch _ fun _ => ?_
  exact Runs.bind (runs_announce _ _ _ _) (Runs.pure _ _)

def batchOutcome (metadata : ObjectMetadata) (values : List (Str × ObjectVal)) (expected : Option UInt64) :
    Result UInt64 :=
  if values = [] then .ok metadata.objectVersion
  else (Shard.versionMatches expected metadata).map fun _ => metadata.incrementVersion.objectVersion

def batchStore (c : Codec Ev) (id : Str) (metadata : Option ObjectMetadata) (values : List (Str × ObjectVal))
    (expected : Option UInt64) (s : Store) : Store :=
  if values = [] then s
  else
    match Shard.versionMatches expected (metadata.getD .default) with
    | .ok () => batchWritten c id metadata values s
    | .error _ => s

theorem runs_batchSetEntries (hm : getMetadata s id = .ok metadata) (values : ValueMap) (expected : Option UInt64) :
    Runs c kind (Shard.batchSetEntries c cfg id values expected) s
      (batchOutcome (metadata.getD .default) values.toList expected)
      (batchStore c id metadata values.toList expected s) := by
  refine Runs.bind (runs_metadataOrDefault hm) ?_
  unfold batchOutcome batchStore
  by_cases hv : values.toList = []
  · simp only [if_pos hv]
    exact Runs.pure _ s
  · simp only [if_neg hv]
    cases Shard.versionMatches expected (metadata.getD .default) with
    | error e => exact Runs.throw e s
    | ok _ => exact runs_writeBatch id metadata values.toList s

def deletedFrom (id : Str) : List Str → Store → List Str × Store
  | [], s => ([], s)
  | key :: keys, s =>
    if (s.get (buildEntryKey id key)).isSome then
      (key :: (deletedFrom id keys (s.erase (buildEntryKey id key))).1,
        (deletedFrom id keys (s.erase (buildEntryKey id key))).2)
    else deletedFrom id keys s

theorem runs_deleteAll (id : Str) : ∀ (keys : List Str) (s : Store),
    Runs c kind (Shard.deleteAll id keys) s (.ok (deletedFrom id keys s).1) (deletedFrom id keys s).2
  | [], s => Runs.pure _ s
  | key :: keys, s => by
    refine Runs.bind ((reads_existsKey _).runs s) ?_
    unfold deletedFrom
    by_cases h : (s.get (buildEntryKey id key)).isSome = true
    · simp only [if_pos h]
      refine runs_replicate_delete _ fun _ => ?_
      exact Runs.bind (runs_deleteAll id keys _) (Runs.pure _ _)
    · simp only [if_neg h]
      exact runs_deleteAll id keys s

theorem getMetadata_deletedFrom (id : ObjectId) : ∀ (keys : List Str) (s : Store),
    getMetadata (deletedFrom id keys s).2 id = getMetadata s id
  | [], _ => rfl
  | key :: keys, s => by
    unfold deletedFrom
    split
    · exact (getMetadata_deletedFrom id keys _).trans (getMetadata_erase_entry s id key)
    · exact getMetadata_deletedFrom id keys s

def batchDeleteStore (id : Str) (metadata : Option ObjectMetadata) (keys : List Str) (s : Store) : Store :=
  if (deletedFrom id keys s).1 ≠ [] then bump id metadata (deletedFrom id keys s).2 else (deletedFrom id keys s).2

theorem runs_batchDeleteEntries {id : ObjectId} (hm : getMetadata s id = .ok metadata) (keys : List Str) :
    Runs c kind (Shard.batchDeleteEntries c cfg id keys) s (.ok ()) (batchDeleteStore id metadata keys s) := by
  refine Runs.bind (runs_deleteAll _ keys s) ?_
  unfold batchDeleteStore
  by_cases h : (deletedFrom id keys s).1 ≠ []
  · simp only [if_pos h]
    exact Runs.bind (runs_bumpVersion ((getMetadata_deletedFrom id keys s).trans hm)) (runs_announce _ _ _ _)
  · simp only [if_neg h]
    exact Runs.pure _ _

/-! ## Objects -/

def eventWritten (c : Codec Ev) (id : Str) (event : Option Ev) (s : Store) : Store :=
  match event with
  | none => s
  | some ev => s.insert (eventConfigKey id) (c.encodeEvent ev)

theorem runs_writeEventConfig (id : Str) (event : Option Ev) (s : Store) :
    Runs c kind (Shard.writeEventConfig c id event) s (.ok ()) (eventWritten c id event s) := by
  cases event with
  | none => exact Runs.pure _ s
  | some ev => exact runs_replicate_write _ _ _ fun _ => Runs.pure _ _

theorem getMetadata_eventWritten (id : ObjectId) (event : Option Ev) (s : Store) :
    getMetadata (eventWritten c id event s) id = getMetadata s id := by
  cases event with
  | none => rfl
  | some ev => exact getMetadata_congr (OrdMap.get_insert_of_ne _ _ (eventConfigKey_ne_metaKey id id))

def objectWritten (c : Codec Ev) (id : Str) (metadata : Option ObjectMetadata) (input : ObjectInput Ev) (s : Store) :
    Store :=
  batchStore c id metadata input.kv.toList none (eventWritten c id input.entry.event s)

theorem runs_internalSetObject {id : ObjectId} (hm : getMetadata s id = .ok metadata) (input : ObjectInput Ev) :
    Runs c kind (Shard.internalSetObject c cfg id input) s (.ok ()) (objectWritten c id metadata input s) := by
  refine Runs.bind (runs_writeEventConfig _ _ s) ?_
  have hbatch : Runs c kind (Shard.batchSetEntries c cfg id input.kv none) (eventWritten c id input.entry.event s)
      (batchOutcome (metadata.getD .default) input.kv.toList none) (objectWritten c id metadata input s) :=
    runs_batchSetEntries ((getMetadata_eventWritten id input.entry.event s).trans hm) input.kv none
  -- Without an expected version the batch has no way to fail.
  obtain ⟨version, hout⟩ : ∃ version, batchOutcome (metadata.getD .default) input.kv.toList none = .ok version := by
    unfold batchOutcome
    split
    · exact ⟨_, rfl⟩
    · exact ⟨_, rfl⟩
  rw [hout] at hbatch
  exact Runs.bind hbatch (Runs.pure _ _)

def setOutcome (c : Codec Ev) (cfg : ShardConfig) (id : Str) (event : Option Ev) (s : Store) : Result Unit :=
  if cfg.eventManager && event.isSome then
    (reconstructObjectFromEntries c s id cfg.granularPrefetchLimit).map fun _ => ()
  else .ok ()

/-- An entry that is reconstructed first, where `guard` asks for it: only that can fail. -/
theorem runs_guarded {guard : Bool} {id : Str} {g : Option (ObjectData Ev) → ShardM Ev Unit} {t : Store}
    (hg : ∀ old, Runs c kind (g old) s (.ok ()) t) {out : Result Unit} :
    (out = if guard then (reconstructObjectFromEntries c s id cfg.granularPrefetchLimit).map fun _ => ()
      else .ok ()) →
    Runs c kind ((if guard then Shard.reconstruct cfg id else pure none) >>= g) s out
      (match out with
        | .ok () => t
        | .error _ => s) := by
  rintro rfl
  cases guard with
  | false => exact Runs.bind (Runs.pure _ s) (hg none)
  | true =>
    have hold : Runs c kind (Shard.reconstruct cfg id) s
        (reconstructObjectFromEntries c s id cfg.granularPrefetchLimit) s := (reads_reconstruct id).runs s
    cases hr : reconstructObjectFromEntries c s id cfg.granularPrefetchLimit with
    | ok object =>
      rw [hr] at hold
      exact Runs.bind hold (hg object)
    | error e =>
      rw [hr] at hold
      exact Runs.bind_error hold

theorem runs_setObject {id : ObjectId} (hm : getMetadata s id = .ok metadata) (input : ObjectInput Ev) :
    Runs c kind (Shard.setObject c cfg id input) s (setOutcome c cfg id input.entry.event s)
      (match setOutcome c cfg id input.entry.event s with
        | .ok () => objectWritten c id metadata input s
        | .error _ => s) :=
  Runs.bind (hm ▸ (reads_getMetadata _).runs s) (runs_guarded (fun _ => runs_internalSetObject hm input) rfl)

def buried (id : Str) (m : ObjectMetadata) (s : Store) : Store :=
  (s.eraseRange (buildObjectPrefix id) (computeObjectRangeEnd (buildObjectPrefix id))).insert
    (buildMetadataKey id) m.incrementVersion.markTombstone.toBytes

theorem runsOn_deleteObject_early (hm : getMetadata n.app id = .ok metadata) (h : ∀ m ∈ metadata, m.tombstone = true) :
    RunsOn c kind (Shard.deleteObject c cfg id) n (.ok ()) n := by
  refine RunsOn.bind (hm ▸ (reads_getMetadata _).runsOn n) ?_
  cases metadata with
  | none => exact RunsOn.pure _ n
  | some m =>
    simp only [h m rfl, if_true]
    exact RunsOn.pure _ n

theorem runs_deleteObject_early (hm : getMetadata s id = .ok metadata) (h : ∀ m ∈ metadata, m.tombstone = true) :
    Runs c kind (Shard.deleteObject c cfg id) s (.ok ()) s :=
  RunsOn.toRuns fun _ hn => runsOn_deleteObject_early (hn ▸ hm) h

def deleteOutcome (c : Codec Ev) (cfg : ShardConfig) (id : Str) (s : Store) : Result Unit :=
  if cfg.v2Dispatcher then (reconstructObjectFromEntries c s id cfg.granularPrefetchLimit).map fun _ => ()
  else .ok ()

theorem runs_bury (id : Str) (m : ObjectMetadata) (existing : Option (ObjectData Ev)) (s : Store) :
    Runs c kind (Shard.bury c cfg id m existing) s (.ok ()) (buried id m s) := by
  refine Runs.bind ((reads_readEventConfig _).runs s) (Runs.bind (runs_deleteObjectGranular _ s) ?_)
  refine Runs.bind (runs_setMetadata _ _ _) ?_
  split
  · exact runs_trySend _ _
  · exact Runs.pure _ _

theorem runs_deleteObject_live {id : ObjectId} {m : ObjectMetadata} (hm : getMetadata s id = .ok (some m))
    (hlive : m.tombstone = false) :
    Runs c kind (Shard.deleteObject c cfg id) s (deleteOutcome c cfg id s)
      (match deleteOutcome c cfg id s with
        | .ok () => buried id m s
        | .error _ => s) := by
  refine Runs.bind (hm ▸ (reads_getMetadata _).runs s) ?_
  simp only [hlive, Bool.false_eq_true, if_false]
  exact runs_guarded (fun _ => runs_bury _ _ _ s) rfl

end

end Odgm
