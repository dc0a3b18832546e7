import OaasIot.Odgm.Collections

/-!
# From a partition id to a shard (`cluster.rs:14-105`, `shard/manager.rs:110-197`)

Every call narrows the partition id of a request with `as u16`, so **ids that agree in their low 16 bits are one
partition**; and `invoke_fn` takes the first shard of the collection it finds. The shard of a group is the first of its
ids that runs on this node.
-/

open Grpc

namespace Odgm

open OprcMetaManager List

structure ObjectDataGridManager where
  metadata : OprcMetaManager
  hosted : ShardTable
  keyed : ∀ id s, hosted.get id = some s → s.id = id

inductive PartitionRequest
  /-- `get`, `get_value`, `delete`, `delete_value`, `batch_set_values`, `list_values`, `list_objects`, `invoke_obj` -/
  | unsigned (pid : UInt32)
  /-- `set`, `set_value`, `merge` -/
  | signed (pid : Int32)
  | invokeFn (pid : UInt32)
  deriving DecidableEq

namespace PartitionRequest

def partition : PartitionRequest → Int
  | unsigned pid => pid.toNat
  | signed pid => pid.toInt
  | invokeFn pid => pid.toNat

def narrowed : PartitionRequest → UInt16
  | unsigned pid => pid.toUInt16
  | signed pid => pid.toUInt32.toUInt16
  | invokeFn pid => pid.toUInt16

theorem narrowed_eq_iff (r : PartitionRequest) :
    (r.narrowed.toNat : Int) = r.partition ↔ 0 ≤ r.partition ∧ r.partition < 2 ^ 16 := by
  have hlt := r.narrowed.toNat_lt
  constructor
  · intro h
    omega
  · rintro ⟨hnonneg, hsmall⟩
    cases r with
    | unsigned pid =>
      simp only [partition, narrowed, UInt32.toNat_toUInt16] at *
      omega
    | signed pid =>
      have hword : (pid.toUInt32.toNat : Int) = pid.toInt := by
        have h := BitVec.toInt_eq_toNat_cond pid.toBitVec
        have hbound := pid.toBitVec.isLt
        change 0 ≤ pid.toBitVec.toInt at hnonneg
        change (pid.toBitVec.toNat : Int) = pid.toBitVec.toInt
        split at h <;> omega
      simp only [partition, narrowed, UInt32.toNat_toUInt16] at *
      omega
    | invokeFn pid =>
      simp only [partition, narrowed, UInt32.toNat_toUInt16] at *
      omega

end PartitionRequest

namespace ObjectDataGridManager

section Lookup

variable (n : ObjectDataGridManager) (collection : String)

def group (pid : UInt16) : Option (List UInt64) :=
  (n.metadata.collections.get collection).bind (·.shards[pid.toNat]?)

def getLocalShard (pid : UInt16) : Option ShardMetadata :=
  (n.group collection pid).bind fun ids => ids.findSome? n.hosted.get

def getAnyLocalShard : Option ShardMetadata :=
  (n.metadata.collections.get collection).bind fun c => c.shards.findSome? fun ids => ids.findSome? n.hosted.get

def reach : PartitionRequest → Option ShardMetadata
  | .invokeFn _ => n.getAnyLocalShard collection
  | r => n.getLocalShard collection r.narrowed

end Lookup

variable (n : ObjectDataGridManager) (collection : String)

def ReachesOwn (r : PartitionRequest) : Prop :=
  ∀ s, n.reach collection r = some s → ∃ c p, n.metadata.collections.get collection = some c ∧ p < c.shards.length ∧
    (p : Int) = r.partition ∧ s.collection = collection ∧ s.partitionId.toNat = p

structure Isolated (n : ObjectDataGridManager) (collection : String) (r r' : PartitionRequest) : Prop where
  left : n.ReachesOwn collection r
  right : n.ReachesOwn collection r'
  apart : r.partition ≠ r'.partition →
    ∀ s s', n.reach collection r = some s → n.reach collection r' = some s' → s.id ≠ s'.id

def Vacant (pid : UInt16) : Prop :=
  ∀ ids, n.group collection pid = some ids → ∀ id ∈ ids, n.hosted.get id = none

def OwnFirst (pid : UInt16) : Prop :=
  ∀ ids s, n.group collection pid = some ids → ids.findSome? n.hosted.get = some s →
    s.collection = collection ∧ s.partitionId = pid

/-- **A request that is routed right**: nothing runs at the narrowed id, or the id is not changed by narrowing and its group
is in order. An `invoke_fn` has to name the partition of whatever shard comes first. -/
def Routed : PartitionRequest → Prop
  | .invokeFn pid => ∀ c s, n.metadata.collections.get collection = some c →
      c.shards.findSome? (fun ids => ids.findSome? n.hosted.get) = some s →
      pid.toNat < c.shards.length ∧ s.collection = collection ∧ s.partitionId.toNat = pid.toNat
  | r => n.Vacant collection r.narrowed ∨
      (0 ≤ r.partition ∧ r.partition < 2 ^ 16 ∧ n.OwnFirst collection r.narrowed)

variable {s : ShardMetadata}

section Iff

variable {n : ObjectDataGridManager} {collection : String}

theorem getLocalShard_eq_none {pid : UInt16} : n.getLocalShard collection pid = none ↔ n.Vacant collection pid := by
  unfold getLocalShard Vacant
  rw [Option.bind_eq_none_iff]
  refine forall₂_congr fun ids _ => ?_
  rw [findSome?_eq_none_iff]

variable {r : PartitionRequest}

theorem reach_hosted (h : n.reach collection r = some s) : n.hosted.get s.id = some s := by
  obtain ⟨ids, hids⟩ : ∃ ids : List UInt64, ids.findSome? n.hosted.get = some s := by
    cases r with
    | invokeFn pid =>
      obtain ⟨c, _, hc⟩ := Option.bind_eq_some_iff.1 h
      obtain ⟨ids, _, hids⟩ := exists_of_findSome?_eq_some hc
      exact ⟨ids, hids⟩
    | unsigned pid | signed pid =>
      obtain ⟨ids, _, hids⟩ := Option.bind_eq_some_iff.1 h
      exact ⟨ids, hids⟩
  obtain ⟨id, _, hid⟩ := exists_of_findSome?_eq_some hids
  rwa [n.keyed id s hid]

theorem reachesOwn_lookup_iff (hreach : n.reach collection r = n.getLocalShard collection r.narrowed) :
    n.ReachesOwn collection r ↔ n.Vacant collection r.narrowed ∨
      (0 ≤ r.partition ∧ r.partition < 2 ^ 16 ∧ n.OwnFirst collection r.narrowed) := by
  unfold ReachesOwn
  rw [hreach, ← getLocalShard_eq_none]
  cases hs : n.getLocalShard collection r.narrowed with
  | none => simp
  | some s =>
    obtain ⟨ids, hids, hfirst⟩ := Option.bind_eq_some_iff.1 hs
    constructor
    · intro h
      obtain ⟨c, p, _, _, hp, hcol, hpart⟩ := h s rfl
      have hlt := s.partitionId.toNat_lt
      have hsmall : 0 ≤ r.partition ∧ r.partition < 2 ^ 16 := by omega
      refine .inr ⟨hsmall.1, hsmall.2, fun ids' s' hids' hfirst' => ?_⟩
      obtain rfl : ids = ids' := Option.some.inj (hids.symm.trans hids')
      obtain rfl : s = s' := Option.some.inj (hfirst.symm.trans hfirst')
      have hnarrow := r.narrowed_eq_iff.2 hsmall
      exact ⟨hcol, UInt16.toNat_inj.1 (by omega)⟩
    · rintro (hnone | ⟨hnonneg, hsmall, hown⟩)
      · cases hnone
      · rintro s' hs'
        obtain rfl : s = s' := Option.some.inj hs'
        obtain ⟨hcol, hpart⟩ := hown ids s hids hfirst
        obtain ⟨c, hc, hgroup⟩ := Option.bind_eq_some_iff.1 hids
        exact ⟨c, r.narrowed.toNat, hc, (List.getElem?_eq_some_iff.1 hgroup).1, r.narrowed_eq_iff.2 ⟨hnonneg, hsmall⟩, hcol,
          by rw [hpart]⟩

theorem reachesOwn_iff (r : PartitionRequest) : n.ReachesOwn collection r ↔ n.Routed collection r := by
  cases r with
  | unsigned pid | signed pid => exact reachesOwn_lookup_iff rfl
  | invokeFn pid =>
    unfold ReachesOwn Routed
    constructor
    · intro h c s hc hs
      obtain ⟨c', p, hc', hp, hpid, hcol, hpart⟩ := h s (Option.bind_eq_some_iff.2 ⟨c, hc, hs⟩)
      obtain rfl : c = c' := Option.some.inj (hc.symm.trans hc')
      have hpid' : p = pid.toNat := Int.ofNat.inj hpid
      exact ⟨hpid' ▸ hp, hcol, hpart.trans hpid'⟩
    · intro h s hs
      obtain ⟨c, hc, hfirst⟩ := Option.bind_eq_some_iff.1 hs
      obtain ⟨hlt, hcol, hpart⟩ := h c s hc hfirst
      exact ⟨c, pid.toNat, hc, hlt, rfl, hcol, hpart⟩

theorem Isolated.of_reachesOwn {r' : PartitionRequest} (h : n.ReachesOwn collection r)
    (h' : n.ReachesOwn collection r') :
    n.Isolated collection r r' where
  left := h
  right := h'
  apart := by
    intro hne s s' hs hs' hid
    have hhost := reach_hosted hs
    rw [hid, reach_hosted hs', Option.some.injEq] at hhost
    subst hhost
    obtain ⟨_, p, _, _, hp, _, hpart⟩ := h _ hs
    obtain ⟨_, p', _, _, hp', _, hpart'⟩ := h' _ hs'
    omega

end Iff

/-! ## Runs of a node -/

inductive Event
  | create (request : CreateCollectionRequest)
  | sync (id : UInt64) (made : Bool)

def empty (nodeId : UInt64) (members : List UInt64) : ObjectDataGridManager :=
  ⟨.new nodeId members, .empty, by intro id s h; cases h⟩

def syncShard (n : ObjectDataGridManager) (s : ShardMetadata) (made : Bool) : ObjectDataGridManager :=
  if (n.hosted.get s.id).isSome || !made then n
  else
    { n with
      hosted := n.hosted.insert s.id s
      keyed := by
        intro id s' h
        rw [OrdMap.get_insert] at h
        split at h
        · rename_i hid
          cases h
          exact hid
        · exact n.keyed id s' h }

def step (overflowChecks : Bool) (n : ObjectDataGridManager) : Event → ObjectDataGridManager
  | .create request => { n with metadata := n.metadata.step overflowChecks request }
  | .sync id made =>
    match n.metadata.localShards.get id with
    | none => n
    | some s => n.syncShard s made

def Orderly (overflowChecks : Bool) (n : ObjectDataGridManager) : Event → Prop
  | .create request => n.metadata.Succeeds overflowChecks request ∧ n.metadata.FreshIds request
  | .sync _ _ => True

structure Faithful (n : ObjectDataGridManager) : Prop where
  ledger : n.metadata.Ledger
  rows : n.hosted.Sub n.metadata.shards

theorem faithful_empty (nodeId : UInt64) (members : List UInt64) : (empty nodeId members).Faithful where
  ledger := ledger_new nodeId members
  rows := by intro id s h; cases h

variable {checks : Bool}

theorem sub_step {m : OprcMetaManager} {request : CreateCollectionRequest} (hok : m.Succeeds checks request)
    (hfresh : m.FreshIds request) : m.shards.Sub (m.step checks request).shards := by
  obtain ⟨_, as, groups, rows, has, hparts, hrows, hstep⟩ := step_of_succeeds hok
  intro id s hs
  rw [hstep]
  exact get_old_row hrows ((freshGroups_iff has hparts).2 hfresh) hs

theorem Faithful.syncShard {n : ObjectDataGridManager} (h : n.Faithful) (hs : n.metadata.shards.get s.id = some s)
    (made : Bool) : (n.syncShard s made).Faithful := by
  unfold ObjectDataGridManager.syncShard
  split
  · exact h
  · refine ⟨h.ledger, fun id s' hid => ?_⟩
    rw [OrdMap.get_insert] at hid
    split at hid
    · rename_i heq
      cases hid
      rwa [← heq]
    · exact h.rows id s' hid

theorem Faithful.step {n : ObjectDataGridManager} (h : n.Faithful) {e : Event} (he : n.Orderly checks e) :
    (n.step checks e).Faithful := by
  cases e with
  | create request =>
    obtain ⟨hok, hfresh⟩ := he
    exact ⟨(owned_iff h.ledger hok).2 hfresh, h.rows.trans (sub_step hok hfresh)⟩
  | sync id made =>
    unfold ObjectDataGridManager.step
    dsimp only
    split
    · exact h
    · rename_i s hs
      have hrow := ((h.ledger.localShards id s).1 hs).1
      exact h.syncShard (by rwa [h.ledger.keyed hrow]) made

theorem faithful_of_run {nodeId : UInt64} {members : List UInt64} {events : List Event}
    (h : AlongRun (step checks) (Orderly checks) (empty nodeId members) events) :
    (events.foldl (step checks) (empty nodeId members)).Faithful :=
  h.invariant Faithful (fun _ _ hn he => hn.step he) (faithful_empty nodeId members)

theorem Faithful.ownFirst {n : ObjectDataGridManager} (h : n.Faithful) (collection : String) (pid : UInt16) :
    n.OwnFirst collection pid := by
  intro ids s hids hs
  obtain ⟨c, hc, hp⟩ := Option.bind_eq_some_iff.1 hids
  obtain ⟨id, hid, hhost⟩ := exists_of_findSome?_eq_some hs
  obtain ⟨s', hrow, _, hcol, hpart⟩ := h.ledger.row collection pid.toNat id ⟨c, ids, hc, hp, hid⟩
  obtain rfl : s' = s := Option.some.inj (hrow.symm.trans (h.rows id s hhost))
  exact ⟨hcol, UInt16.toNat_inj.1 hpart⟩

theorem routed_iff_of_run {nodeId : UInt64} {members : List UInt64} {events : List Event}
    (h : AlongRun (step checks) (Orderly checks) (empty nodeId members) events) (collection : String)
    {r : PartitionRequest} (hr : ∀ pid, r ≠ .invokeFn pid) :
    (events.foldl (step checks) (empty nodeId members)).Routed collection r ↔
      (events.foldl (step checks) (empty nodeId members)).Vacant collection r.narrowed ∨
        (0 ≤ r.partition ∧ r.partition < 2 ^ 16) := by
  have hown := (faithful_of_run h).ownFirst collection r.narrowed
  cases r with
  | unsigned pid | signed pid => exact or_congr_right (and_congr_right fun _ => and_iff_left hown)
  | invokeFn pid => exact absurd rfl (hr pid)

/-- **Partition isolation** of two requests: both are routed right. -/
theorem partition_isolation_iff (n : ObjectDataGridManager) (collection : String) (r r' : PartitionRequest) :
    n.Isolated collection r r' ↔ n.Routed collection r ∧ n.Routed collection r' := by
  rw [← reachesOwn_iff r, ← reachesOwn_iff r']
  exact ⟨fun h => ⟨h.left, h.right⟩, fun h => .of_reachesOwn h.1 h.2⟩

namespace OnePartition

def events : List Event := [.create (TwoCollections.plain "a" 1 1), .sync 1 true]
def node : ObjectDataGridManager := events.foldl (step true) (empty 1 [1])

theorem orderly_events : AlongRun (step true) (Orderly true) (empty 1 [1]) events := by
  refine ⟨⟨by decide +kernel, ?_⟩, trivial, trivial⟩
  rw [FreshIds, if_pos (by rfl)]
  exact ⟨by decide +kernel, TwoCollections.free_of_all (by decide +kernel)⟩

/-- **An id of 17 bits reaches the shard of partition 0**, after a run with fresh ids. -/
theorem narrowed_id_reaches_partition_zero :
    AlongRun (step true) (Orderly true) (empty 1 [1]) events ∧
      (node.metadata.collections.get "a").map (·.shards.length) = some 1 ∧
      (node.reach "a" (.unsigned 65536)).map (fun s => (s.id, s.partitionId)) = some (1, 0) ∧
      node.reach "a" (.unsigned 65536) = node.reach "a" (.unsigned 0) ∧
      ¬ node.Isolated "a" (.unsigned 65536) (.unsigned 0) := by
  have hreach : (node.reach "a" (.unsigned 65536)).map (fun s => (s.id, s.partitionId)) = some (1, 0) := by decide +kernel
  have hsame : node.reach "a" (.unsigned 65536) = node.reach "a" (.unsigned 0) := by decide +kernel
  refine ⟨orderly_events, by decide +kernel, hreach, hsame, fun h => ?_⟩
  obtain ⟨s, hs, _⟩ := Option.map_eq_some_iff.1 hreach
  exact h.apart (by decide) s s hs (hsame ▸ hs) rfl

end OnePartition

end ObjectDataGridManager

end Odgm
