import OaasIot.Odgm.DeleteObject

/-!
# Replicas under Raft

Clients' mutations run on a leader, and followers apply its log entry by entry (`apply`, `state_machine.rs:210`), in any
interleaving. `openraft` delivers one log to all, and no storage fails. Every change of the leader's store is a log
entry, except the range deletion of `delete_object_granular`, which goes to the local storage only.
-/

namespace Odgm

open List OrdMap Prog.AvoidsE

/-! ## Replaying a log -/

def applyEntry (s : Store) (operation : Operation) : Store :=
  (applyShardRequest operation ⟨s, OrdMap.empty, [], []⟩).2.app

def replay (log : List Operation) : Store := log.foldl applyEntry OrdMap.empty

theorem replay_append (log : List Operation) (operation : Operation) :
    replay (log ++ [operation]) = applyEntry (replay log) operation := by
  simp [replay]

theorem applyBatch_congr (operations : List Operation) (n n₀ : Node) (happ : n.app = n₀.app)
    (hfaults : n.faults = []) (hfaults₀ : n₀.faults = []) :
    (applyBatch operations n).1 = (applyBatch operations n₀).1 ∧
    (applyBatch operations n).2.app = (applyBatch operations n₀).2.app ∧ (applyBatch operations n).2.faults = [] ∧
      (applyBatch operations n).2.log = n.log := by
  induction operations generalizing n n₀ with
  | nil => exact ⟨rfl, happ, hfaults, rfl⟩
  | cons operation operations ih =>
    cases operation with
    | write key value returnOld =>
      simp only [applyBatch, put_ok hfaults, put_ok hfaults₀]
      exact ih { n with app := n.app.insert key value } { n₀ with app := n₀.app.insert key value }
        (by simp only [happ]) hfaults hfaults₀
    | read key => exact ih n n₀ happ hfaults hfaults₀
    | delete key => exact ih (n.delete key) (n₀.delete key) (by simp only [Node.delete, happ]) hfaults hfaults₀
    | batch inner => exact ⟨rfl, happ, hfaults, rfl⟩

theorem raftExec_logged (operation : Operation) {n : Node} (hf : n.faults = []) :
    (raftExec operation n).2.app = applyEntry n.app operation ∧
      (raftExec operation n).2.log = n.log ++ [operation] ∧ (raftExec operation n).2.faults = [] := by
  have hf' : ({ n with log := n.log ++ [operation] } : Node).faults = [] := hf
  cases operation with
  | write key value returnOld =>
    simp only [raftExec, applyEntry, applyShardRequest, put_ok hf']
    exact ⟨rfl, trivial, hf⟩
  | read key | delete key => exact ⟨rfl, rfl, hf⟩
  | batch operations =>
    obtain ⟨hout, happ, hfaults, hlog⟩ := applyBatch_congr operations
      { n with log := n.log ++ [.batch operations] } ⟨n.app, empty, [], []⟩ rfl hf rfl
    simp only [raftExec, applyEntry, applyShardRequest]
    generalize applyBatch operations { n with log := n.log ++ [.batch operations] } = w at *
    generalize applyBatch operations ⟨n.app, empty, [], []⟩ = w₀ at *
    obtain ⟨out, m⟩ := w
    obtain ⟨out₀, m₀⟩ := w₀
    cases hout
    cases out <;> exact ⟨happ, hlog, hfaults⟩

section
variable {Ev : Type} {c : Codec Ev} {cfg : ShardConfig}

structure Logged (sh : Shard Ev) : Prop where
  app : sh.node.app = replay sh.node.log
  healthy : sh.node.faults = []

/-! ## Mutations without a range deletion -/

def IsDeleteRange : (shardInterface Ev).Call → Prop
  | ShardCall.deleteRange _ _ => True
  | _ => False

variable {sh : Shard Ev}

theorem Logged.call {q : (shardInterface Ev).Call} (hq : ¬ IsDeleteRange q) (h : Logged sh) :
    Logged (Shard.handle c .raft q sh).2 := by
  cases q with
  | get key | existsKey key | reconstruct id limit => exact h
  | deleteRange start stop => exact absurd trivial hq
  | trySend context => exact ⟨h.app, h.healthy⟩
  | replicate operation =>
    obtain ⟨happ, hlog, hf⟩ := raftExec_logged operation h.healthy
    refine ⟨?_, hf⟩
    change (raftExec operation sh.node).2.app = replay (raftExec operation sh.node).2.log
    rw [happ, hlog, replay_append, h.app]

abbrev Unranged {α : Type} (p : ShardM Ev α) : Prop := Prog.AvoidsE IsDeleteRange p

namespace Unranged

theorem getRaw (key : Bytes) : Unranged (Shard.getRaw key : ShardM Ev _) := ask fun h => h

theorem existsKey (key : Bytes) : Unranged (Shard.existsKey key : ShardM Ev _) := ask fun h => h

theorem trySend (context : MutationContext Ev) : Unranged (Shard.trySend context) := ask fun h => h

theorem replicate (operation : Operation) : Unranged (Shard.replicate operation : ShardM Ev _) := by
  refine bind (ask fun h => h) ?_
  intro r
  cases r with
  | ok response => exact pure _
  | error e => exact throw _

theorem reconstruct (id : Str) : Unranged (Shard.reconstruct cfg id : ShardM Ev _) := by
  refine bind (ask fun h => h) ?_
  intro r
  cases r with
  | ok object => exact pure _
  | error e => exact throw _

theorem getMetadata (id : Str) : Unranged (Shard.getMetadata id : ShardM Ev _) := by
  refine bind (getRaw _) ?_
  intro raw
  cases raw with
  | none => exact pure _
  | some value =>
    dsimp only
    cases ObjectMetadata.fromBytes value with
    | none => exact throw _
    | some m => exact pure _

theorem metadataOrDefault (id : Str) : Unranged (Shard.metadataOrDefault id : ShardM Ev _) :=
  bind (getMetadata id) fun _ => pure _

theorem setMetadata (id : Str) (m : ObjectMetadata) : Unranged (Shard.setMetadata id m : ShardM Ev _) :=
  bind (replicate _) fun _ => pure _

theorem bumpVersion (id : Str) : Unranged (Shard.bumpVersion id : ShardM Ev _) :=
  bind (metadataOrDefault id) fun _ => bind (setMetadata _ _) fun _ => pure _

theorem announce (id : Str) (m : ObjectMetadata) (changed : List ChangedKey) :
    Unranged (Shard.announce c cfg id m changed) := by
  refine ite (bind ?_ fun _ => trySend _) (pure _)
  exact bind (getRaw _) fun _ => pure _

theorem setEntry (id key : Str) (value : ObjectVal) : Unranged (Shard.setEntry c cfg id key value) := by
  have hprobe : Unranged (Shard.existedBefore cfg id key : ShardM Ev _) :=
    ite (existsKey _) (pure _)
  refine bind hprobe fun _ => bind (replicate _) fun _ => ?_
  exact bind (bumpVersion id) fun _ => announce _ _ _

theorem deleteEntry (id key : Str) : Unranged (Shard.deleteEntry cfg id key : ShardM Ev _) := by
  refine bind (existsKey _) fun _ => ite ?_ (pure _)
  refine bind (replicate _) fun _ => bind (bumpVersion id) fun _ => ?_
  exact ite (trySend _) (pure _)

theorem probeAll (id : Str) : ∀ keys : List Str, Unranged (Shard.probeAll id keys : ShardM Ev _)
  | [] => pure _
  | _ :: keys =>
    bind (existsKey _) fun _ => bind (probeAll id keys) fun _ => pure _

theorem batchSetEntries (id : Str) (values : ValueMap) (expected : Option UInt64) :
    Unranged (Shard.batchSetEntries c cfg id values expected) := by
  refine bind (metadataOrDefault id) ?_
  intro m
  have hprobe : Unranged (Shard.preExist cfg id (values.toList.map Prod.fst) : ShardM Ev _) :=
    ite (probeAll id _) (pure _)
  refine ite (pure _) ?_
  cases Shard.versionMatches expected m with
  | error e => exact throw _
  | ok _ =>
    refine bind hprobe fun _ => bind (replicate _) fun _ => ?_
    exact bind (announce _ _ _) fun _ => pure _

theorem deleteAll (id : Str) : ∀ keys : List Str, Unranged (Shard.deleteAll id keys : ShardM Ev _)
  | [] => pure _
  | _ :: keys => by
    refine bind (existsKey _) fun _ => ite ?_ (deleteAll id keys)
    refine bind (replicate _) fun _ => ?_
    exact bind (deleteAll id keys) fun _ => pure _

theorem batchDeleteEntries (id : Str) (keys : List Str) : Unranged (Shard.batchDeleteEntries c cfg id keys) := by
  refine bind (deleteAll id keys) fun _ => ite ?_ (pure _)
  exact bind (bumpVersion id) fun _ => announce _ _ _

theorem internalSetObject (id : Str) (input : ObjectInput Ev) : Unranged (Shard.internalSetObject c cfg id input) := by
  have hevent : Unranged (Shard.writeEventConfig c id input.entry.event) := by
    unfold Shard.writeEventConfig
    cases input.entry.event with
    | none => exact pure _
    | some ev => exact bind (replicate _) fun _ => pure _
  exact bind hevent fun _ => bind (batchSetEntries _ _ _) fun _ => pure _

theorem setObject (id : Str) (input : ObjectInput Ev) : Unranged (Shard.setObject c cfg id input) := by
  have hold : Unranged (Shard.oldEntry cfg id input.entry.event) :=
    ite (reconstruct id) (pure _)
  exact bind (getMetadata id) fun _ => bind hold fun _ => internalSetObject id input

end Unranged

theorem Logged.run {α : Type} {p : ShardM Ev α} (hp : Unranged p) (h : Logged sh) : Logged (Shard.run c .raft p sh).2 :=
  Prog.Avoids.run (Shard.handle c .raft) Logged (fun _ _ hq hs => Logged.call hq hs) hp h

/-! ## Deletions on the leader -/

def FitsPages (c : Codec Ev) (cfg : ShardConfig) (id : ObjectId) (s : Store) : Prop :=
  cfg.v2Dispatcher = true → (storedEntries c s id).length ≤ maxPages * pageSize cfg.granularPrefetchLimit

def Bypasses (c : Codec Ev) (cfg : ShardConfig) (id : ObjectId) (s : Store) : Prop :=
  Live s id ∧ ¬ NoRecords s id ∧ FitsPages c cfg id s

section
variable {n : Node} {id : ObjectId} {m : ObjectMetadata}

theorem runsOn_existingEntry (cfg : ShardConfig) (hwf : WellFormed c n.app) (hm : getMetadata n.app id = .ok (some m)) :
    (FitsPages c cfg id n.app →
      ∃ existing, RunsOn c .raft (Shard.existingEntry cfg id) n (.ok existing) n) ∧
    (¬ FitsPages c cfg id n.app → ∃ e, RunsOn c .raft (Shard.existingEntry cfg id) n (.error e) n) := by
  have hpos : cfg.granularPrefetchLimit ≠ 0 := cfg.prefetch_pos.ne'
  have hread : RunsOn c .raft (Shard.reconstruct cfg id) n _ n := (reads_reconstruct id).runsOn n
  unfold Shard.existingEntry FitsPages
  cases cfg.v2Dispatcher with
  | false => exact ⟨fun _ => ⟨none, RunsOn.pure _ n⟩, fun h => absurd (fun hfalse => by cases hfalse) h⟩
  | true =>
    constructor
    · intro hfits
      rw [reconstructObject_eq hwf id hpos (hfits rfl) hm] at hread
      exact ⟨_, hread⟩
    · intro hfits
      rw [reconstructObject_exceeded hwf id hpos (Nat.lt_of_not_le fun hle => hfits fun _ => hle)] at hread
      exact ⟨_, hread⟩

theorem runsOn_deleteObjectGranular (id : Str) (n : Node) :
    RunsOn c .raft (Shard.deleteObjectGranular id) n (.ok ())
      (n.deleteRange (buildObjectPrefix id) (computeObjectRangeEnd (buildObjectPrefix id))) := by
  rintro sh rfl
  exact ⟨_, rfl, rfl⟩

def Node.buried (n : Node) (id : Str) (m : ObjectMetadata) : Node :=
  { n with
    app := Odgm.buried id m n.app
    log := n.log ++ [.write (buildMetadataKey id) m.incrementVersion.markTombstone.toBytes false] }

theorem runsOn_bury_raft (hf : n.faults = []) (existing : Option (ObjectData Ev)) :
    RunsOn c .raft (Shard.bury c cfg id m existing) n (.ok ()) (n.buried id m) := by
  refine RunsOn.bind ((reads_readEventConfig _).runsOn n) (RunsOn.bind (runsOn_deleteObjectGranular _ n) ?_)
  have hop : ∃ response, replicateWrite .raft
      (.write (buildMetadataKey id) m.incrementVersion.markTombstone.toBytes false)
      (n.deleteRange (buildObjectPrefix id) (computeObjectRangeEnd (buildObjectPrefix id))) =
        (.ok response, n.buried id m) := by
    have hf' : ({ n.deleteRange (buildObjectPrefix id) (computeObjectRangeEnd (buildObjectPrefix id)) with
        log := n.log ++ [.write (buildMetadataKey id) m.incrementVersion.markTombstone.toBytes false] } :
        Node).faults = [] := hf
    refine ⟨⟨.applied, none, .write ((n.deleteRange (buildObjectPrefix id)
      (computeObjectRangeEnd (buildObjectPrefix id))).app.get (buildMetadataKey id)).isSome⟩, ?_⟩
    simp only [replicateWrite, raftExec, applyShardRequest]
    rw [show (n.deleteRange (buildObjectPrefix id) (computeObjectRangeEnd (buildObjectPrefix id))).log = n.log from rfl,
      put_ok hf']
    rfl
  obtain ⟨response, hop⟩ := hop
  have hset : RunsOn c .raft (Shard.setMetadata id m.incrementVersion.markTombstone)
      (n.deleteRange (buildObjectPrefix id) (computeObjectRangeEnd (buildObjectPrefix id))) (.ok ()) (n.buried id m) :=
    RunsOn.bind (runsOn_replicate hop) (RunsOn.pure _ _)
  refine RunsOn.bind hset ?_
  split
  · exact runsOn_trySend _ _
  · exact RunsOn.pure _ _

theorem node_deleteObject (cfg : ShardConfig) (hs : sh.Sound c) (id : ObjectId) :
    (∃ m, getMetadata sh.node.app id = .ok (some m) ∧ FitsPages c cfg id sh.node.app ∧
      (Shard.run c .raft (Shard.deleteObject c cfg id) sh).2.node = sh.node.buried id m ∧
      Live sh.node.app id) ∨
    ((¬ Live sh.node.app id ∨ ¬ FitsPages c cfg id sh.node.app) ∧
      (Shard.run c .raft (Shard.deleteObject c cfg id) sh).2.node = sh.node) := by
  obtain ⟨metadata, hm⟩ := getMetadata_of_wellFormed hs.wf id
  by_cases hlive : Live sh.node.app id
  · obtain ⟨m, hm', ht⟩ := hlive
    obtain ⟨hfits, hexceeds⟩ := runsOn_existingEntry cfg hs.wf hm'
    have hget : RunsOn c .raft (Shard.getMetadata id) sh.node (.ok (some m)) sh.node :=
      hm' ▸ (reads_getMetadata id).runsOn sh.node
    by_cases hpages : FitsPages c cfg id sh.node.app
    · left
      refine ⟨m, hm', hpages, ?_, m, hm', ht⟩
      obtain ⟨existing, hexisting⟩ := hfits hpages
      have hrun : RunsOn c .raft (Shard.deleteObject c cfg id) sh.node (.ok ()) (sh.node.buried id m) := by
        refine RunsOn.bind hget ?_
        simp only [ht, Bool.false_eq_true, if_false]
        exact RunsOn.bind hexisting (runsOn_bury_raft hs.healthy existing)
      obtain ⟨sh', hsh', hn⟩ := hrun sh rfl
      rw [hsh', hn]
    · right
      refine ⟨Or.inr hpages, ?_⟩
      obtain ⟨e, herr⟩ := hexceeds hpages
      have hrun : RunsOn c .raft (Shard.deleteObject c cfg id) sh.node (.error e) sh.node := by
        refine RunsOn.bind hget ?_
        simp only [ht, Bool.false_eq_true, if_false]
        exact RunsOn.bind_error herr
      obtain ⟨sh', hsh', hn⟩ := hrun sh rfl
      rw [hsh', hn]
  · right
    refine ⟨Or.inl hlive, ?_⟩
    have hearly : ∀ m ∈ metadata, m.tombstone = true := tombstone_of_not_live hm hlive
    have hrun : RunsOn c .raft (Shard.deleteObject c cfg id) sh.node (.ok ()) sh.node :=
      runsOn_deleteObject_early hm hearly
    obtain ⟨sh', hsh', hn⟩ := hrun sh rfl
    rw [hsh', hn]

theorem buried_eq_insert_iff {s : Store} (hwf : WellFormed c s) (id : ObjectId) (m : ObjectMetadata) :
    buried id m s = s.insert (buildMetadataKey id) m.incrementVersion.markTombstone.toBytes ↔ NoRecords s id := by
  constructor
  · intro h
    have hrecords := noRecords_buried m s id
    rw [h] at hrecords
    refine ⟨fun key => ?_, ?_⟩
    · have hkey := hrecords.1 key
      rwa [OrdMap.get_insert_of_ne _ _ (metaKey_ne_entryKey id key)] at hkey
    · have hkey := hrecords.2
      rwa [OrdMap.get_insert_of_ne _ _ (eventConfigKey_ne_metaKey id id).symm] at hkey
  · rintro ⟨hentries, hevent⟩
    apply OrdMap.ext_get
    intro k
    rw [buried, OrdMap.get_insert, OrdMap.get_insert]
    split
    · rfl
    · rename_i hk
      rw [OrdMap.get_eraseRange]
      split
      · -- A stored key in the range would be a record of the object other than its metadata.
        rename_i hrange
        by_contra hne
        obtain ⟨v, hv⟩ := Option.ne_none_iff_exists'.1 (Ne.symm hne)
        obtain ⟨id', r, rfl, _⟩ := hwf k v hv
        obtain rfl := mem_objectRange_iff.1 hrange
        cases r with
        | metadata => exact hk rfl
        | eventConfig => exact absurd (hevent.symm.trans hv) (by simp)
        | entry key => exact absurd ((hentries key).symm.trans hv) (by simp)
      · rfl

theorem Logged.deleteObject (hs : sh.Sound c) (h : Logged sh) (id : ObjectId) :
    Logged (Shard.run c .raft (Shard.deleteObject c cfg id) sh).2 ↔ ¬ Bypasses c cfg id sh.node.app := by
  have hsound : (Shard.mutate c .raft cfg sh (.deleteObject id)).Sound c := hs.mutate _
  have hf := hsound.healthy
  rcases node_deleteObject cfg hs id with ⟨m, hm, hpages, hnode, hlive⟩ | ⟨hdead, hnode⟩
  · have happly : replay (sh.node.buried id m).log =
        sh.node.app.insert (buildMetadataKey id) m.incrementVersion.markTombstone.toBytes := by
      rw [Node.buried, replay_append, ← h.app]
      rfl
    have hiff : Logged (Shard.run c .raft (Shard.deleteObject c cfg id) sh).2 ↔
        buried id m sh.node.app =
          sh.node.app.insert (buildMetadataKey id) m.incrementVersion.markTombstone.toBytes := by
      rw [← happly]
      constructor
      · intro hlogged
        have happ := hlogged.app
        rwa [hnode] at happ
      · intro heq
        refine ⟨?_, hf⟩
        rw [hnode]
        exact heq
    rw [hiff, buried_eq_insert_iff hs.wf]
    unfold Bypasses
    simp [hlive, hpages]
  · refine iff_of_true ⟨by rw [hnode]; exact h.app, by rw [hnode]; exact h.healthy⟩ ?_
    rintro ⟨hlive, _, hpages⟩
    exact hdead.elim (fun hd => hd hlive) fun hp => hp hpages

end

/-! ## The group -/

structure Replica where
  applied : Nat
  app : Store

structure Group (Ev : Type) where
  leader : Shard Ev
  followers : List Replica

inductive GroupStep (Ev : Type)
  | client (m : Mutation Ev)
  | apply (i : Nat)

def Replica.applyNext (log : List Operation) (r : Replica) : Replica :=
  match log[r.applied]? with
  | none => r
  | some operation => ⟨r.applied + 1, applyEntry r.app operation⟩

namespace Group

def new (followers : Nat) : Group Ev := ⟨Shard.new, List.replicate followers ⟨0, OrdMap.empty⟩⟩

def step (c : Codec Ev) (cfg : ShardConfig) (g : Group Ev) : GroupStep Ev → Group Ev
  | .client m => { g with leader := Shard.mutate c .raft cfg g.leader m }
  | .apply i => { g with followers := g.followers.modify i (Replica.applyNext g.leader.node.log) }

def run (c : Codec Ev) (cfg : ShardConfig) (followers : Nat) (steps : List (GroupStep Ev)) : Group Ev :=
  steps.foldl (step c cfg) (new followers)

def replicas (g : Group Ev) : List Replica := ⟨g.leader.node.log.length, g.leader.node.app⟩ :: g.followers

def Agree (g : Group Ev) : Prop :=
  ∀ a ∈ g.replicas, ∀ b ∈ g.replicas, a.applied = b.applied → a.app = b.app

def clients (steps : List (GroupStep Ev)) : List (Mutation Ev) :=
  steps.filterMap fun
    | .client m => some m
    | .apply _ => none

def deletedObject : Mutation Ev → Option ObjectId
  | .deleteObject id => some id
  | .internalDeleteObject id => some id
  | _ => none

/-! ### Followers -/

def Follows (log : List Operation) (r : Replica) : Prop :=
  r.applied ≤ log.length ∧ r.app = replay (log.take r.applied)

variable {log : List Operation} {r : Replica}

theorem follows_applyNext (h : Follows log r) : Follows log (r.applyNext log) := by
  unfold Replica.applyNext
  cases hget : log[r.applied]? with
  | none => exact h
  | some operation =>
    obtain ⟨hlt, hop⟩ := List.getElem?_eq_some_iff.1 hget
    refine ⟨hlt, ?_⟩
    rw [List.take_add_one, hget, Option.toList_some, replay_append, ← h.2]

theorem follows_extend {log' : List Operation} (hlog : log <+: log') (h : Follows log r) : Follows log' r := by
  obtain ⟨rest, rfl⟩ := hlog
  refine ⟨by rw [length_append]; exact Nat.le_add_right_of_le h.1, ?_⟩
  rw [take_append_of_le_length h.1]
  exact h.2

theorem log_mutate (c : Codec Ev) (cfg : ShardConfig) (hf : sh.node.faults = []) (m : Mutation Ev) :
    sh.node.log <+: (Shard.mutate c .raft cfg sh m).node.log := by
  have havoids : ∀ {α : Type} (p : Prog (shardInterface Ev) α), p.Avoids fun _ => False := by
    intro α p
    induction p with
    | done a => exact trivial
    | call q k ih => exact ⟨fun h => h, ih⟩
  have hrun := Prog.Avoids.run (Shard.handle c .raft)
    (fun sh' : Shard Ev => sh'.node.faults = [] ∧ sh.node.log <+: sh'.node.log)
    (by
      rintro q sh' - ⟨hf', hlog⟩
      cases q with
      | replicate operation =>
        obtain ⟨_, hlog', hf''⟩ := raftExec_logged operation hf'
        refine ⟨hf'', ?_⟩
        change sh.node.log <+: (raftExec operation sh'.node).2.log
        rw [hlog']
        exact hlog.trans (prefix_append _ _)
      | get key | existsKey key | reconstruct id limit | deleteRange start stop => exact ⟨hf', hlog⟩
      | trySend context => exact ⟨hf', hlog⟩)
    (havoids (ExceptT.run (m.program c cfg))) ⟨hf, prefix_rfl⟩
  exact hrun.2

theorem followers_step {g : Group Ev} (hf : g.leader.node.faults = [])
    (h : ∀ r ∈ g.followers, Follows g.leader.node.log r) (st : GroupStep Ev) :
    ∀ r ∈ (step c cfg g st).followers, Follows (step c cfg g st).leader.node.log r := by
  cases st with
  | client m =>
    intro r hr
    exact follows_extend (log_mutate c cfg hf m) (h r hr)
  | apply i =>
    intro r hr
    obtain ⟨j, hlt, rfl⟩ := getElem_of_mem hr
    simp only [step, getElem_modify]
    split
    · exact follows_applyNext (h _ (getElem_mem _))
    · exact h _ (getElem_mem _)

theorem run_spec (c : Codec Ev) (cfg : ShardConfig) (followers : Nat) (steps : List (GroupStep Ev)) :
    (run c cfg followers steps).leader = Shard.afterAll c .raft cfg (clients steps) ∧
      ∀ r ∈ (run c cfg followers steps).followers, Follows (run c cfg followers steps).leader.node.log r := by
  induction steps using reverseRecOn with
  | nil =>
    refine ⟨rfl, ?_⟩
    intro r hr
    obtain rfl := eq_of_mem_replicate hr
    exact ⟨Nat.zero_le _, rfl⟩
  | append_singleton steps st ih =>
    obtain ⟨hleader, hfollow⟩ := ih
    have hrun : run c cfg followers (steps ++ [st]) = step c cfg (run c cfg followers steps) st := by
      simp [run]
    have hf : (run c cfg followers steps).leader.node.faults = [] := by
      rw [hleader]
      exact (afterAll_sound c .raft cfg _).healthy
    rw [hrun]
    refine ⟨?_, followers_step hf hfollow st⟩
    cases st with
    | client m =>
      simp only [step, hleader, clients, filterMap_append, Shard.afterAll, foldl_append]
      rfl
    | apply i =>
      simp only [step, hleader, clients, filterMap_append]
      simp

theorem applied_applyNext (h : r.applied < log.length) : (r.applyNext log).applied = r.applied + 1 := by
  rw [Replica.applyNext, getElem?_eq_getElem h]

theorem applyNext_iterate :
    ∀ k, r.applied + k ≤ log.length → ((Replica.applyNext log)^[k] r).applied = r.applied + k
  | 0, _ => rfl
  | k + 1, hk => by
    have ih := applyNext_iterate k (Nat.le_of_succ_le hk)
    rw [Function.iterate_succ_apply', applied_applyNext (by omega), ih]
    rfl

theorem apply_iterate (c : Codec Ev) (cfg : ShardConfig) (leader : Shard Ev) (r : Replica) (rest : List Replica) (k : Nat) :
    (replicate k (GroupStep.apply 0)).foldl (step c cfg) ⟨leader, r :: rest⟩ =
      ⟨leader, (Replica.applyNext leader.node.log)^[k] r :: rest⟩ := by
  induction k generalizing r with
  | zero => rfl
  | succ k ih =>
    rw [replicate_succ, foldl_cons, Function.iterate_succ_apply]
    exact ih _

theorem clients_map_client (ms : List (Mutation Ev)) : clients (ms.map GroupStep.client) = ms := by
  induction ms with
  | nil => rfl
  | cons m ms ih => exact congrArg (m :: ·) ih

theorem clients_replicate_apply (k i : Nat) : clients (replicate k (GroupStep.apply i : GroupStep Ev)) = [] := by
  induction k with
  | zero => rfl
  | succ k ih => exact ih

theorem followers_clients (c : Codec Ev) (cfg : ShardConfig) (g : Group Ev) (ms : List (Mutation Ev)) :
    ((ms.map GroupStep.client).foldl (step c cfg) g).followers = g.followers := by
  induction ms generalizing g with
  | nil => rfl
  | cons m ms ih => exact ih _

theorem logged_of_agree (c : Codec Ev) (cfg : ShardConfig) (k : Nat) (ms : List (Mutation Ev))
    (h : ∀ steps, clients steps = ms → Agree (run c cfg (k + 1) steps)) :
    Logged (Shard.afterAll c .raft cfg ms) := by
  have hleader : (run c cfg (k + 1) (ms.map GroupStep.client)).leader = Shard.afterAll c .raft cfg ms := by
    rw [(run_spec c cfg (k + 1) _).1, clients_map_client]
  have hfollowers : (run c cfg (k + 1) (ms.map GroupStep.client)).followers =
      ⟨0, empty⟩ :: replicate k ⟨0, empty⟩ := followers_clients c cfg (new (k + 1)) ms
  have hrun : run c cfg (k + 1) (ms.map GroupStep.client ++
      replicate (Shard.afterAll c .raft cfg ms).node.log.length (GroupStep.apply 0)) =
      ⟨Shard.afterAll c .raft cfg ms,
        (Replica.applyNext (Shard.afterAll c .raft cfg ms).node.log)^[(Shard.afterAll c .raft cfg ms).node.log.length]
          ⟨0, empty⟩ :: replicate k ⟨0, empty⟩⟩ := by
    have hmid : run c cfg (k + 1) (ms.map GroupStep.client) =
        ⟨Shard.afterAll c .raft cfg ms, ⟨0, empty⟩ :: replicate k ⟨0, empty⟩⟩ := by
      rw [← hleader, ← hfollowers]
    rw [run, foldl_append, ← run, hmid, apply_iterate]
  have hagree := h (ms.map GroupStep.client ++
      replicate (Shard.afterAll c .raft cfg ms).node.log.length (GroupStep.apply 0))
    (by rw [clients, filterMap_append, ← clients, ← clients, clients_map_client, clients_replicate_apply,
      append_nil])
  have hspec := (run_spec c cfg (k + 1) (ms.map GroupStep.client ++
    replicate (Shard.afterAll c .raft cfg ms).node.log.length (GroupStep.apply 0))).2
  rw [hrun] at hagree hspec
  have hfollow := hspec _ mem_cons_self
  have happlied : ((Replica.applyNext (Shard.afterAll c .raft cfg ms).node.log)^[
      (Shard.afterAll c .raft cfg ms).node.log.length] ⟨0, empty⟩).applied =
      (Shard.afterAll c .raft cfg ms).node.log.length := by
    rw [applyNext_iterate _ (by simp), Nat.zero_add]
  refine ⟨?_, (afterAll_sound c .raft cfg ms).healthy⟩
  have hsame := hagree _ mem_cons_self _ (mem_cons_of_mem _ mem_cons_self) happlied.symm
  refine hsame.trans ?_
  rw [hfollow.2, happlied, take_length]

theorem agree_of_logged {g : Group Ev} (hleader : Logged g.leader)
    (hfollow : ∀ r ∈ g.followers, Follows g.leader.node.log r) : Agree g := by
  have hall : ∀ r ∈ g.replicas, r.app = replay (g.leader.node.log.take r.applied) := by
    intro r hr
    rcases mem_cons.1 hr with rfl | hr
    · rw [take_length]
      exact hleader.app
    · exact (hfollow r hr).2
  intro a ha b hb hab
  rw [hall a ha, hall b hb, hab]

end Group

/-! ## Agreement -/

theorem Logged.mutate (hs : sh.Sound c) (h : Logged sh) (m : Mutation Ev) :
    Logged (Shard.mutate c .raft cfg sh m) ↔
      ∀ id, Group.deletedObject m = some id → ¬ Bypasses c cfg id sh.node.app := by
  cases m with
  | setObject id input => exact iff_of_true (h.run (Unranged.setObject _ _)) (by simp [Group.deletedObject])
  | internalSetObject id input =>
    exact iff_of_true (h.run (Unranged.internalSetObject _ _)) (by simp [Group.deletedObject])
  | setEntry id key value => exact iff_of_true (h.run (Unranged.setEntry _ _ _)) (by simp [Group.deletedObject])
  | batchSetEntries id values expected =>
    refine iff_of_true (h.run ?_) (by simp [Group.deletedObject])
    exact bind (Unranged.batchSetEntries _ _ _) fun _ => pure _
  | deleteEntry id key => exact iff_of_true (h.run (Unranged.deleteEntry _ _)) (by simp [Group.deletedObject])
  | batchDeleteEntries id keys =>
    exact iff_of_true (h.run (Unranged.batchDeleteEntries _ _)) (by simp [Group.deletedObject])
  | deleteObject id | internalDeleteObject id =>
    simp only [Group.deletedObject, Option.some.injEq, forall_eq']
    exact h.deleteObject hs id

theorem afterAll_append (c : Codec Ev) (cfg : ShardConfig) (ms : List (Mutation Ev)) (m : Mutation Ev) :
    Shard.afterAll c .raft cfg (ms ++ [m]) = Shard.mutate c .raft cfg (Shard.afterAll c .raft cfg ms) m := by
  simp [Shard.afterAll]

/-- **Raft replica agreement** at every moment of every interleaving, if no mutation deletes past the log. -/
theorem raft_agreement_iff (c : Codec Ev) (cfg : ShardConfig) (k : Nat) (ms : List (Mutation Ev)) :
    (∀ steps, Group.clients steps <+: ms → Group.Agree (Group.run c cfg (k + 1) steps)) ↔
      ∀ before m, before ++ [m] <+: ms → ∀ id, Group.deletedObject m = some id →
        ¬ Bypasses c cfg id (Shard.afterAll c .raft cfg before).node.app := by
  constructor
  · intro h before m hsplit
    have hlogged : ∀ ms', ms' <+: ms → Logged (Shard.afterAll c .raft cfg ms') := by
      intro ms' hms'
      refine Group.logged_of_agree c cfg k ms' ?_
      rintro steps rfl
      exact h steps hms'
    have hbefore := hlogged before ((prefix_append before [m]).trans hsplit)
    have hafter := hlogged (before ++ [m]) hsplit
    rw [afterAll_append] at hafter
    exact (hbefore.mutate (afterAll_sound c .raft cfg before) m).1 hafter
  · intro h
    have hlogged : ∀ ms', ms' <+: ms → Logged (Shard.afterAll c .raft cfg ms') := by
      intro ms'
      induction ms' using reverseRecOn with
      | nil => exact fun _ => ⟨rfl, rfl⟩
      | append_singleton before m ih =>
        intro hsplit
        have hbefore := ih ((prefix_append before [m]).trans hsplit)
        rw [afterAll_append]
        exact (hbefore.mutate (afterAll_sound c .raft cfg before) m).2 (h before m hsplit)
    intro steps hsteps
    obtain ⟨hleader, hfollow⟩ := Group.run_spec c cfg (k + 1) steps
    refine Group.agree_of_logged ?_ hfollow
    rw [hleader]
    exact hlogged _ hsteps

end

/-! ## A deletion the follower does not see -/

namespace Unseen

open Recreated

def steps : List (GroupStep Unit) :=
  [.client (.setObject id input), .client (.deleteObject id), .apply 0, .apply 0]

def group : Group Unit := Group.run Postcard.codec config 1 steps
def follower : Replica := group.followers.head?.getD ⟨0, OrdMap.empty⟩

/-- Both have applied the two entries of the log, and only the follower still has the object's entry. -/
theorem raft_diverges : ¬ Group.Agree (Group.run Postcard.codec config 1 steps) := by
  intro h
  have hfollower : follower ∈ (Group.run Postcard.codec config 1 steps).replicas :=
    mem_cons_of_mem _ (mem_singleton.2 rfl)
  have hsame := h _ mem_cons_self follower hfollower rfl
  have hentry := congrArg (fun s : Store => (s.get (buildEntryKey id key)).isSome) hsame
  cases hentry

end Unseen

end Odgm
