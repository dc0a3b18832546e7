import OaasIot.Odgm.Collections
import OaasIot.Lib.Decimal

/-!
# Invocation endpoints and liveliness (`shard/invocation/manager.rs`, `shard/liveliness.rs`)

A function is callable through a queryable and a subscriber. `start` declares them unless the function is on standby, or
the collection is `invoke_only_primary` and the shard is not the primary. A sample about another member declares and
undeclares standby functions **without that check**.
-/

open Grpc

namespace Odgm

open OrdMap

/-- The entries are the key expressions the endpoints are declared with. -/
structure InvocationNetworkManager where
  metadata : ShardMetadata
  queryableTable : OrdMap String String
  asyncSubscriberTable : OrdMap String String
  deriving DecidableEq

namespace InvocationNetworkManager

def new (metadata : ShardMetadata) : InvocationNetworkManager := ⟨metadata, .empty, .empty⟩

def endpointKey (m : ShardMetadata) (route : FuncInvokeRoute) (fnId : String) : String :=
  "oprc/" ++ m.collection ++ "/" ++ toString m.partitionId.toNat ++
    (if route.stateless then "/invokes/" else "/objects/*/invokes/") ++ fnId

def asyncKey (fnId : String) : String := fnId ++ "_async"
def needPrimary (m : ShardMetadata) : Bool := m.options.get "invoke_only_primary" == some "true"

def groupOf (m : ShardMetadata) (route : FuncInvokeRoute) : List UInt64 :=
  if route.activeGroup.isEmpty then m.replica else route.activeGroup

def shouldActive (m : ShardMetadata) (live : OrdMap UInt64 Bool) (route : FuncInvokeRoute) : Bool :=
  (groupOf m route).all fun id => id == m.id || !(live.get id).getD false

section Loops

variable (declare : String → Bool) (m : InvocationNetworkManager)

def startInvokeLoop (route : FuncInvokeRoute) (fnId : String) : InvocationNetworkManager × Bool :=
  if (m.queryableTable.get fnId).isSome then (m, true)
  else
    let key := endpointKey m.metadata route fnId
    if declare key then ({ m with queryableTable := m.queryableTable.insert fnId key }, true) else (m, false)

def startAsyncInvokeLoop (route : FuncInvokeRoute) (fnId : String) : InvocationNetworkManager × Bool :=
  if (m.asyncSubscriberTable.get (asyncKey fnId)).isSome then (m, true)
  else
    let key := endpointKey m.metadata route fnId ++ "/async/*"
    if declare key then ({ m with asyncSubscriberTable := m.asyncSubscriberTable.insert (asyncKey fnId) key }, true)
    else (m, false)

def startRoutes : List (String × FuncInvokeRoute) → InvocationNetworkManager → InvocationNetworkManager × Bool
  | [], m => (m, true)
  | (fnId, route) :: routes, m =>
    if route.standby then startRoutes routes m
    else
      match startInvokeLoop declare m route fnId with
      | (m, false) => (m, false)
      | (m, true) =>
        match startAsyncInvokeLoop declare m route fnId with
        | (m, false) => (m, false)
        | (m, true) => startRoutes routes m

def start : InvocationNetworkManager × Bool :=
  if !needPrimary m.metadata || m.metadata.primary == some m.metadata.id then
    startRoutes declare m.metadata.invocations.fnRoutes.toList m
  else (m, true)

def startBoth (route : FuncInvokeRoute) (fnId : String) : InvocationNetworkManager :=
  (startAsyncInvokeLoop declare (startInvokeLoop declare m route fnId).1 route fnId).1

def stopBoth (fnId : String) : InvocationNetworkManager :=
  { m with
    queryableTable := m.queryableTable.erase fnId
    asyncSubscriberTable := m.asyncSubscriberTable.erase (asyncKey fnId) }

def updateRoute (live : OrdMap UInt64 Bool) (x : String × FuncInvokeRoute) : InvocationNetworkManager :=
  if !x.2.standby then m
  else if shouldActive m.metadata live x.2 then startBoth declare m x.2 x.1 else stopBoth m x.1

def onLivelinessUpdated (live : OrdMap UInt64 Bool) : InvocationNetworkManager :=
  m.metadata.invocations.fnRoutes.toList.foldl (fun m x => updateRoute declare m live x) m

end Loops

end InvocationNetworkManager

open InvocationNetworkManager

/-! ## Liveliness -/

inductive SampleKind
  | put
  | delete
  deriving DecidableEq

structure Sample where
  key : Bytes
  kind : SampleKind
  deriving DecidableEq

def Sample.member (s : Sample) : Option UInt64 := ((s.key.splitOn 0x2F)[4]?).bind parseU64

def handleSample (live : OrdMap UInt64 Bool) (s : Sample) : OrdMap UInt64 Bool :=
  match s.member with
  | some id => live.insert id (s.kind == .put)
  | none => live

structure Member where
  manager : InvocationNetworkManager
  live : OrdMap UInt64 Bool
  deriving DecidableEq

def Updates (m : ShardMetadata) (s : Sample) : Bool := s.member != some m.id

def Member.step (declare : String → Bool) (p : Member) (s : Sample) : Member :=
  let live := handleSample p.live s
  ⟨if Updates p.manager.metadata s then onLivelinessUpdated declare p.manager live else p.manager, live⟩

def Member.started (declare : String → Bool) (m : ShardMetadata) : Member := ⟨(start declare (new m)).1, .empty⟩

/-! ## The right endpoints -/

def ServesHere (m : ShardMetadata) : Prop := needPrimary m = true → m.primary = some m.id
instance (m : ShardMetadata) : Decidable (ServesHere m) := inferInstanceAs (Decidable (_ → _))

def Deserted (m : ShardMetadata) (live : OrdMap UInt64 Bool) (route : FuncInvokeRoute) : Prop :=
  ∀ id ∈ groupOf m route, id ≠ m.id → live.get id ≠ some true

/-- **The functions that should be callable.** -/
def ShouldServe (m : ShardMetadata) (live : OrdMap UInt64 Bool) (fnId : String) : Prop :=
  ServesHere m ∧ ∃ route, m.invocations.fnRoutes.get fnId = some route ∧
    (route.standby = true → Deserted m live route)

structure TablesAgree (m : InvocationNetworkManager) : Prop where
  both : ∀ fnId, m.asyncSubscriberTable.get (asyncKey fnId) = (m.queryableTable.get fnId).map (· ++ "/async/*")
  only : ∀ k, (∀ fnId, k ≠ asyncKey fnId) → m.asyncSubscriberTable.get k = none

def EndpointsRight (p : Member) : Prop :=
  ∀ fnId, ((p.manager.queryableTable.get fnId).isSome = true ↔ ShouldServe p.manager.metadata p.live fnId) ∧
    ((p.manager.asyncSubscriberTable.get (asyncKey fnId)).isSome = true ↔
      ShouldServe p.manager.metadata p.live fnId)

/-! ## One endpoint -/

theorem asyncKey_inj {f g : String} : asyncKey f = asyncKey g ↔ f = g := String.append_left_inj _

theorem shouldActive_iff (m : ShardMetadata) (live : OrdMap UInt64 Bool) (route : FuncInvokeRoute) :
    shouldActive m live route = true ↔ Deserted m live route := by
  unfold shouldActive Deserted
  rw [List.all_eq_true]
  refine forall₂_congr fun id _ => ?_
  rw [Bool.or_eq_true, beq_iff_eq, Bool.not_eq_true', or_iff_not_imp_left]
  refine imp_congr_right fun _ => ?_
  cases live.get id with
  | none => simp
  | some b => cases b <;> simp

section One

variable {declare : String → Bool} (hdeclare : ∀ key, declare key = true) {m : InvocationNetworkManager}
include hdeclare

theorem startInvokeLoop_ok (m : InvocationNetworkManager) (route : FuncInvokeRoute) (fnId : String) :
    (startInvokeLoop declare m route fnId).2 = true := by
  unfold startInvokeLoop
  split
  · rfl
  · simp [hdeclare]

theorem startAsyncInvokeLoop_ok (m : InvocationNetworkManager) (route : FuncInvokeRoute) (fnId : String) :
    (startAsyncInvokeLoop declare m route fnId).2 = true := by
  unfold startAsyncInvokeLoop
  split
  · rfl
  · simp [hdeclare]

theorem startRoutes_cons {route : FuncInvokeRoute} (hstandby : route.standby = false) {fnId : String}
    {routes : List (String × FuncInvokeRoute)} : startRoutes declare ((fnId, route) :: routes) m =
      startRoutes declare routes (startBoth declare m route fnId) := by
  have hsync := startInvokeLoop_ok hdeclare m route fnId
  have hasync := startAsyncInvokeLoop_ok hdeclare (startInvokeLoop declare m route fnId).1 route fnId
  rw [startRoutes, if_neg (by simp [hstandby]), startBoth]
  cases hs : startInvokeLoop declare m route fnId with
  | mk m₁ ok₁ =>
    rw [hs] at hsync hasync
    obtain rfl : ok₁ = true := hsync
    cases ha : startAsyncInvokeLoop declare m₁ route fnId with
    | mk m₂ ok₂ =>
      rw [ha] at hasync
      obtain rfl : ok₂ = true := hasync
      simp [ha]

structure Leads (m m' : InvocationNetworkManager) (P : String → Prop) : Prop where
  metadata : m'.metadata = m.metadata
  agree : TablesAgree m'
  callable : ∀ g, (m'.queryableTable.get g).isSome = true ↔ P g

theorem startBoth_spec (hagree : TablesAgree m) (route : FuncInvokeRoute) (fnId : String) :
    Leads m (startBoth declare m route fnId) fun g => g = fnId ∨ (m.queryableTable.get g).isSome = true := by
  have hboth := hagree.both fnId
  cases hq : m.queryableTable.get fnId with
  | some key =>
    rw [hq, Option.map_some] at hboth
    have hsame : startBoth declare m route fnId = m := by
      simp [startBoth, startInvokeLoop, startAsyncInvokeLoop, hq, hboth]
    rw [hsame]
    refine ⟨rfl, hagree, fun g => ⟨.inr, ?_⟩⟩
    rintro (rfl | hg)
    · simp [hq]
    · exact hg
  | none =>
    rw [hq, Option.map_none] at hboth
    obtain ⟨key, hkey⟩ : ∃ key, startBoth declare m route fnId =
        ⟨m.metadata, m.queryableTable.insert fnId key, m.asyncSubscriberTable.insert (asyncKey fnId) (key ++ "/async/*")⟩ :=
      ⟨endpointKey m.metadata route fnId, by
        simp [startBoth, startInvokeLoop, startAsyncInvokeLoop, hq, hboth, hdeclare]⟩
    rw [hkey]
    refine ⟨rfl, ⟨fun g => ?_, fun k hk => ?_⟩, fun g => ?_⟩
    · by_cases hg : g = fnId
      · simp [hg]
      · simp [get_insert, Ne.symm hg, asyncKey_inj, hagree.both g]
    · simp [get_insert, (hk fnId).symm, hagree.only k hk]
    · by_cases hg : g = fnId
      · simp [hg]
      · simp [get_insert, Ne.symm hg, hg]

omit hdeclare in
theorem stopBoth_spec (hagree : TablesAgree m) (fnId : String) :
    Leads m (stopBoth m fnId) fun g => g ≠ fnId ∧ (m.queryableTable.get g).isSome = true := by
  refine ⟨rfl, ⟨fun g => ?_, fun k hk => ?_⟩, fun g => ?_⟩
  · by_cases hg : g = fnId
    · simp [stopBoth, get_erase, hg]
    · simp [stopBoth, get_erase, hg, asyncKey_inj, hagree.both g]
  · simp [stopBoth, get_erase, hk fnId, hagree.only k hk]
  · by_cases hg : g = fnId
    · simp [stopBoth, get_erase, hg]
    · simp [stopBoth, get_erase, hg]

theorem updateRoute_spec (hagree : TablesAgree m) (live : OrdMap UInt64 Bool) (fnId : String) (route : FuncInvokeRoute) :
    Leads m (updateRoute declare m live (fnId, route)) fun g =>
      if g = fnId ∧ route.standby = true then Deserted m.metadata live route
      else (m.queryableTable.get g).isSome = true := by
  unfold updateRoute
  cases hstandby : route.standby with
  | false => exact ⟨rfl, hagree, fun g => by simp⟩
  | true =>
    simp only [Bool.not_true, Bool.false_eq_true, if_false, and_true]
    by_cases hactive : shouldActive m.metadata live route = true
    · obtain ⟨hmeta, hagree', hget⟩ := startBoth_spec hdeclare hagree route fnId
      rw [if_pos hactive]
      refine ⟨hmeta, hagree', fun g => ?_⟩
      rw [hget]
      by_cases hg : g = fnId
      · simp [hg, (shouldActive_iff ..).1 hactive]
      · simp [hg]
    · obtain ⟨hmeta, hagree', hget⟩ := stopBoth_spec hagree fnId
      rw [if_neg hactive]
      refine ⟨hmeta, hagree', fun g => ?_⟩
      rw [hget]
      by_cases hg : g = fnId
      · simp [hg, mt (shouldActive_iff ..).2 hactive]
      · simp [hg]

/-! ## The two loops -/

theorem get_startRoutes (hagree : TablesAgree m) (routes : List (String × FuncInvokeRoute)) :
    Leads m (startRoutes declare routes m).1 fun g =>
      (∃ route, (g, route) ∈ routes ∧ route.standby = false) ∨ (m.queryableTable.get g).isSome = true := by
  induction routes generalizing m with
  | nil => exact ⟨rfl, hagree, fun g => by simp [startRoutes]⟩
  | cons x routes ih =>
    obtain ⟨fnId, route⟩ := x
    cases hstandby : route.standby with
    | true =>
      obtain ⟨hmeta, hagree', hget⟩ := ih hagree
      rw [startRoutes, if_pos hstandby]
      refine ⟨hmeta, hagree', fun g => ?_⟩
      rw [hget]
      refine or_congr_left (exists_congr fun r => ?_)
      by_cases hr : r = route
      · simp [hr, hstandby]
      · simp [hr]
    | false =>
      obtain ⟨hmeta₁, hagree₁, hget₁⟩ := startBoth_spec hdeclare hagree route fnId
      obtain ⟨hmeta, hagree', hget⟩ := ih hagree₁
      rw [startRoutes_cons hdeclare hstandby]
      refine ⟨hmeta.trans hmeta₁, hagree', fun g => ?_⟩
      rw [hget, hget₁]
      by_cases hg : g = fnId
      · simp [hg, hstandby]
      · simp [hg]

theorem get_updateRoutes (hagree : TablesAgree m) (live : OrdMap UInt64 Bool) {routes : List (String × FuncInvokeRoute)}
    (hnodup : (routes.map Prod.fst).Nodup) :
    Leads m (routes.foldl (fun m x => updateRoute declare m live x) m) fun g =>
      (∃ route, (g, route) ∈ routes ∧ route.standby = true ∧ Deserted m.metadata live route) ∨
      ((∀ route, (g, route) ∈ routes → route.standby = false) ∧ (m.queryableTable.get g).isSome = true) := by
  induction routes generalizing m with
  | nil => exact ⟨rfl, hagree, fun g => by simp⟩
  | cons x routes ih =>
    obtain ⟨fnId, route⟩ := x
    obtain ⟨hnew, hrest⟩ := List.nodup_cons.1 hnodup
    obtain ⟨hmeta₁, hagree₁, hget₁⟩ := updateRoute_spec hdeclare hagree live fnId route
    obtain ⟨hmeta, hagree', hget⟩ := ih hagree₁ hrest
    refine ⟨hmeta.trans hmeta₁, hagree', fun g => ?_⟩
    rw [List.foldl_cons, hget, hget₁, hmeta₁]
    -- the first function is not touched again, and the others are not touched by it
    by_cases hg : g = fnId
    · subst hg
      have hlater : ∀ r, (g, r) ∉ routes := fun r hr => hnew (List.mem_map.2 ⟨_, hr, rfl⟩)
      cases hstandby : route.standby <;> simp [hlater, hstandby]
    · simp [hg]

end One

/-! ## Along a run -/

/-- **The invariant**: the tables agree, and of the functions without standby all are callable or none. -/
structure Member.Consistent (m : ShardMetadata) (p : Member) : Prop where
  metadata : p.manager.metadata = m
  agree : TablesAgree p.manager
  steady : ∀ fnId, (∀ route, m.invocations.fnRoutes.get fnId = some route → route.standby = false) →
    ((p.manager.queryableTable.get fnId).isSome = true ↔
      ServesHere m ∧ (m.invocations.fnRoutes.get fnId).isSome = true)

theorem tablesAgree_new (m : ShardMetadata) : TablesAgree (new m) := ⟨fun _ => rfl, fun _ _ => rfl⟩

section Run

variable {declare : String → Bool} (hdeclare : ∀ key, declare key = true) {m : ShardMetadata}
include hdeclare

theorem consistent_started : Member.Consistent m (Member.started declare m) := by
  have hserves : (!needPrimary m || m.primary == some m.id) = true ↔ ServesHere m := by
    unfold ServesHere
    cases needPrimary m <;> simp
  by_cases hhere : ServesHere m
  · have hstart : Member.started declare m = ⟨(startRoutes declare m.invocations.fnRoutes.toList (new m)).1, .empty⟩ := by
      simp [Member.started, start, new, hserves.2 hhere]
    obtain ⟨hmeta, hagree, hget⟩ := get_startRoutes hdeclare (tablesAgree_new m) m.invocations.fnRoutes.toList
    rw [hstart]
    refine ⟨hmeta, hagree, fun fnId hsteady => (hget fnId).trans ?_⟩
    simp only [← get_eq_some]
    cases hroute : m.invocations.fnRoutes.get fnId with
    | none => simp [new]
    | some route => simp [hhere, hsteady route hroute]
  · have hstart : Member.started declare m = ⟨new m, .empty⟩ := by
      simp [Member.started, start, new, mt hserves.1 hhere]
    rw [hstart]
    exact ⟨rfl, tablesAgree_new m, fun fnId _ => by simp [new, hhere]⟩

theorem onLivelinessUpdated_spec {p : Member} (hp : Member.Consistent m p) (live : OrdMap UInt64 Bool) :
    Member.Consistent m ⟨onLivelinessUpdated declare p.manager live, live⟩ ∧
      ∀ fnId, ((onLivelinessUpdated declare p.manager live).queryableTable.get fnId).isSome = true ↔
        ∃ route, m.invocations.fnRoutes.get fnId = some route ∧
          ((route.standby = true ∧ Deserted m live route) ∨ (route.standby = false ∧ ServesHere m)) := by
  obtain ⟨hmeta, hagree, hget⟩ := get_updateRoutes hdeclare hp.agree live (nodup_keys p.manager.metadata.invocations.fnRoutes)
  have hupdated : onLivelinessUpdated declare p.manager live =
      p.manager.metadata.invocations.fnRoutes.toList.foldl (fun m x => updateRoute declare m live x) p.manager := rfl
  rw [← hupdated] at hmeta hagree hget
  rw [hp.metadata] at hmeta
  simp only [hp.metadata, ← get_eq_some] at hget
  refine ⟨⟨hmeta, hagree, fun fnId hsteady => (hget fnId).trans ?_⟩, fun fnId => (hget fnId).trans ?_⟩
  · rw [hp.steady fnId hsteady]
    cases hroute : m.invocations.fnRoutes.get fnId with
    | none => simp
    | some route => simp [hsteady route hroute]
  · cases hroute : m.invocations.fnRoutes.get fnId with
    | none => simp [hp.steady fnId (by simp [hroute]), hroute]
    | some route =>
      cases hs : route.standby with
      | true => simp [hs]
      | false => simp [hs, hp.steady fnId (by simp [hroute, hs]), hroute]

theorem consistent_step {p : Member} (hp : Member.Consistent m p) (s : Sample) : Member.Consistent m (p.step declare s) := by
  unfold Member.step
  by_cases hupdates : Updates p.manager.metadata s = true
  · simp only [hupdates, if_true]
    exact (onLivelinessUpdated_spec hdeclare hp _).1
  · simp only [hupdates]
    exact ⟨hp.metadata, hp.agree, hp.steady⟩

theorem endpointsRight_iff {p : Member} (hp : Member.Consistent m p) {s : Sample} (hupdates : Updates m s = true) :
    EndpointsRight (p.step declare s) ↔
      ServesHere m ∨ ∀ fnId route, m.invocations.fnRoutes.get fnId = some route → route.standby = true →
        ¬ Deserted m (handleSample p.live s) route := by
  obtain ⟨hp', hget⟩ := onLivelinessUpdated_spec hdeclare hp (handleSample p.live s)
  have hstep : p.step declare s = ⟨onLivelinessUpdated declare p.manager (handleSample p.live s), handleSample p.live s⟩ := by
    rw [Member.step, hp.metadata, if_pos hupdates]
  have hasync : ∀ fnId,
      ((onLivelinessUpdated declare p.manager (handleSample p.live s)).asyncSubscriberTable.get (asyncKey fnId)).isSome =
        ((onLivelinessUpdated declare p.manager (handleSample p.live s)).queryableTable.get fnId).isSome :=
    fun fnId => (congrArg Option.isSome (hp'.agree.both fnId)).trans Option.isSome_map
  have hmeta : (onLivelinessUpdated declare p.manager (handleSample p.live s)).metadata = m := hp'.metadata
  unfold EndpointsRight ShouldServe
  simp only [hstep, hasync, hget, and_self, hmeta]
  constructor
  · intro hright
    by_contra hnot
    rw [not_or] at hnot
    obtain ⟨hhere, hstandby⟩ := hnot
    refine hstandby fun fnId route hroute hs hdeserted => hhere ?_
    exact ((hright fnId).1 ⟨route, hroute, .inl ⟨hs, hdeserted⟩⟩).1
  · intro hor fnId
    cases hroute : m.invocations.fnRoutes.get fnId with
    | none => simp
    | some route =>
      cases hs : route.standby with
      | true =>
        have hhere : Deserted m (handleSample p.live s) route → ServesHere m := fun hdeserted =>
          hor.resolve_right fun hnone => hnone fnId route hroute hs hdeserted
        simp [hs, and_iff_right_of_imp hhere]
      | false => simp [hs]

end Run

def StepRight (declare : String → Bool) (p : Member) (s : Sample) : Prop :=
  TablesAgree (p.step declare s).manager ∧
    (Updates p.manager.metadata s = true → EndpointsRight (p.step declare s))

def NoneDeserted (m : ShardMetadata) (live : OrdMap UInt64 Bool) (s : Sample) : Prop :=
  Updates m s = true → ∀ fnId route, m.invocations.fnRoutes.get fnId = some route → route.standby = true →
    ¬ Deserted m (handleSample live s) route

/-- **Endpoints follow liveliness** if the shard may serve invocations, or no group of a standby function is ever
deserted. -/
theorem endpoints_follow_liveliness_iff (declare : String → Bool) (m : ShardMetadata) (samples : List Sample)
    (hdeclare : ∀ key, declare key = true) :
    (TablesAgree (Member.started declare m).manager ∧
      AlongRun (Member.step declare) (StepRight declare) (Member.started declare m) samples) ↔
      ServesHere m ∨ AlongRun handleSample (NoneDeserted m) .empty samples := by
  have hstarted := consistent_started hdeclare (m := m)
  have hrun : ∀ p : Member, Member.Consistent m p → (AlongRun (Member.step declare) (StepRight declare) p samples ↔
      ServesHere m ∨ AlongRun handleSample (NoneDeserted m) p.live samples) := by
    induction samples with
    | nil => exact fun _ _ => iff_of_true trivial (.inr trivial)
    | cons s samples ih =>
      intro p hp
      have hlive : (p.step declare s).live = handleSample p.live s := rfl
      have hone : StepRight declare p s ↔ ServesHere m ∨ NoneDeserted m p.live s := by
        unfold StepRight NoneDeserted
        rw [hp.metadata]
        by_cases hupdates : Updates m s = true
        · simp only [hupdates, forall_const]
          rw [endpointsRight_iff hdeclare hp hupdates]
          exact and_iff_right (consistent_step hdeclare hp s).agree
        · exact iff_of_true ⟨(consistent_step hdeclare hp s).agree, fun h => absurd h hupdates⟩
            (.inr fun h => absurd h hupdates)
      rw [AlongRun, AlongRun, hone, ih _ (consistent_step hdeclare hp s), hlive, ← or_and_left]
  rw [hrun _ hstarted]
  exact and_iff_right hstarted.agree

namespace Standby

def shard (primary : UInt64) : ShardMetadata :=
  ⟨1, "cls", 0, some 1, some primary, [1, 2], [1, 2], "mst", OrdMap.empty.insert "invoke_only_primary" "true",
    ⟨OrdMap.empty.insert "f" ⟨"http://f", false, true, [], none, none⟩, []⟩⟩

def gone : Sample := ⟨"oprc/cls/0/liveliness/2".toUTF8.toList, .delete⟩

theorem endpoints_at_primary :
    TablesAgree (Member.started (fun _ => true) (shard 1)).manager ∧
      AlongRun (Member.step fun _ => true) (StepRight fun _ => true) (Member.started (fun _ => true) (shard 1)) [gone] :=
  (endpoints_follow_liveliness_iff (fun _ => true) (shard 1) [gone] fun _ => rfl).2 (.inl (by decide +kernel))

theorem standby_ignores_primary :
    ¬ ServesHere (shard 2) ∧
      ((Member.started (fun _ => true) (shard 2)).step (fun _ => true) gone).manager.queryableTable.get "f" =
        some "oprc/cls/0/objects/*/invokes/f" := by
  decide +kernel

end Standby

end Odgm
