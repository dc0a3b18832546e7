import OaasIot.Pm.FailedDeployment
import OaasIot.Pm.PlannedShards

/-!
# Does a strongly consistent class get its replicas?

`calculate_requirements` asks for 2f + 1 replicas, and for at least three. The number is used to choose environments and
then **forgotten**: the replica count becomes the number of environments, and two that draw the same node id are one
node.
-/

open Grpc

namespace Pm

open List OrdMap

variable {F : Type}

/-- Every unit has a plan for every collection, and in it every partition has as many replicas as required on different
nodes. -/
def GivesReplicas (o : OdgmDataSpec) (plan : Plan F) : Prop :=
  ∀ u ∈ plan.units, ∀ col ∈ o.collections, ∃ cfg assignments,
    u.odgmConfig = some cfg ∧ cfg.collectionAssignments.get col = some assignments ∧
      assignments.length = partitionsOf o ∧
      ∀ a ∈ assignments, plan.requirements.targetReplicas.toNat ≤ a.replica.toFinset.card

def drawnNodes (selected : List String) (nodeIds : Nat → UInt32) : OrdMap String UInt32 :=
  OrdMap.empty.insertMany (selected.zipIdx.map fun x => (x.1, nodeIds x.2))

def distinctNodes (selected : List String) (nodeIds : Nat → UInt32) : Nat :=
  ((drawnNodes selected nodeIds).toList.map Prod.snd).toFinset.card

/-! ## Which nodes a plan has -/

section Nodes

variable {selected : List String} {nodeIds : Nat → UInt32} {o : OdgmDataSpec}

theorem get_ensureNodeIds (ho : o.envNodeIds = .empty) (env : String) :
    (ensureNodeIds selected nodeIds o).envNodeIds.get env =
      ((drawnNodes selected nodeIds).get env).map fun id => [id.toUInt64] := by
  have hdrawn : ensureNodeIds selected nodeIds o = { o with
      envNodeIds := empty.insertMany (selected.zipIdx.map fun x => (x.1, [(nodeIds x.2).toUInt64])) } := by
    rw [ensureNodeIds, ho]
    rfl
  have hlist : (selected.zipIdx.map fun x => (x.1, [(nodeIds x.2).toUInt64])) =
      (selected.zipIdx.map fun x => (x.1, nodeIds x.2)).map fun x => (x.1, [x.2.toUInt64]) := by
    rw [map_map]
    rfl
  rw [hdrawn]
  dsimp only
  rw [hlist]
  exact get_insertMany_map (fun id : UInt32 => [id.toUInt64]) (m := .empty) (fun _ => rfl) _ env

theorem length_allNodes (ho : o.envNodeIds = .empty) :
    (allNodes (ensureNodeIds selected nodeIds o)).length = distinctNodes selected nodeIds := by
  have hnodes : (allNodes (ensureNodeIds selected nodeIds o)).toFinset =
      ((drawnNodes selected nodeIds).toList.map Prod.snd).toFinset.image UInt32.toUInt64 := by
    ext n
    rw [mem_toFinset, mem_allNodes, Finset.mem_image]
    constructor
    · rintro ⟨env, ids, hget, hn⟩
      rw [get_ensureNodeIds ho] at hget
      obtain ⟨id, hid, rfl⟩ := Option.map_eq_some_iff.1 hget
      refine ⟨id, mem_toFinset.2 (mem_map.2 ⟨(env, id), get_eq_some.1 hid, rfl⟩), ?_⟩
      exact (mem_singleton.1 hn).symm
    · rintro ⟨id, hid, rfl⟩
      obtain ⟨x, hx, rfl⟩ := mem_map.1 (mem_toFinset.1 hid)
      refine ⟨x.1, [x.2.toUInt64], ?_, mem_singleton_self _⟩
      rw [get_ensureNodeIds ho, get_eq_some.2 hx]
      rfl
  have hinj : Function.Injective UInt32.toUInt64 := fun a b h => UInt32.toUInt64_inj.1 h
  rw [← toFinset_card_of_nodup (nodup_allNodes _), hnodes, Finset.card_image_of_injective _ hinj]
  rfl

theorem distinctNodes_pos (h : selected ≠ []) (nodeIds : Nat → UInt32) : 0 < distinctNodes selected nodeIds := by
  rw [distinctNodes, Finset.card_pos, toFinset_nonempty_iff]
  intro hnil
  have hempty : drawnNodes selected nodeIds = .empty := ext_toList (map_eq_nil_iff.1 hnil)
  refine insertMany_ne_empty (fun hl => h ?_) hempty
  exact zipIdx_eq_nil_iff.1 (map_eq_nil_iff.1 hl)

theorem distinctNodes_le (selected : List String) (nodeIds : Nat → UInt32) :
    distinctNodes selected nodeIds ≤ selected.length := by
  have hsub : ((drawnNodes selected nodeIds).toList.map Prod.snd).toFinset ⊆
      (Finset.range selected.length).image nodeIds := by
    intro id hid
    obtain ⟨⟨env, _⟩, hmem, rfl⟩ := List.mem_map.1 (List.mem_toFinset.1 hid)
    rcases get_insertMany_eq_some _ (get_eq_some.2 hmem) with hdrawn | hempty
    · obtain ⟨⟨_, i⟩, hi, heq⟩ := List.mem_map.1 hdrawn
      cases heq
      have hlt := (List.getElem?_eq_some_iff.1 (List.mem_zipIdx_iff_getElem?.1 hi)).1
      exact Finset.mem_image.2 ⟨i, Finset.mem_range.2 hlt, rfl⟩
    · cases hempty
  refine (Finset.card_le_card hsub).trans (Finset.card_image_le.trans ?_)
  rw [Finset.card_range]

end Nodes

/-! ## What a plan gives -/

def chosenOdgm (o : OdgmDataSpec) (selected : List String) (nodeIds : Nat → UInt32) : OdgmDataSpec :=
  ensureNodeIds selected nodeIds { o with replicaCount := some (.ofNat selected.length) }

section Given

variable {fl : FloatOps F} {cls : OClass} {d : OClassDeployment F} {ans : Answers F} {plan : Plan F} {o : OdgmDataSpec}

theorem three_le_targetReplicas (hstrong : isStrong cls = true) (hplan : planDeployment fl cls d ans = .ok plan) :
    3 ≤ plan.requirements.targetReplicas.toNat := by
  obtain ⟨candidates, requirements, _, hreq, hreqs, _⟩ := planDeployment_ok hplan
  obtain ⟨ratios, hratios⟩ : ∃ ratios, requirements.targetReplicas =
      .ofNat (targetReplicas fl cls d.availability ratios) := by
    unfold calculateRequirements at hreq
    cases hm : (candidates.zipIdx.mapM fun x => healthRatio fl x.1 (ans.health x.2)) with
    | error e =>
      simp only [hm, bind, Except.bind] at hreq
      cases hreq
    | ok ratios =>
      simp only [hm, bind, Except.bind] at hreq
      split at hreq
      · cases hreq
      · obtain rfl := Except.ok.inj hreq
        exact ⟨ratios, rfl⟩
  obtain ⟨⟨-, hle⟩, hthree⟩ := targetReplicas_bounds fl cls d.availability ratios
  rw [hreqs, hratios, UInt32.toNat_ofNat_of_lt' (lt_of_le_of_lt hle (by decide))]
  exact hthree hstrong

theorem chosenOdgm_fields (o : OdgmDataSpec) (selected : List String) (nodeIds : Nat → UInt32) :
    (chosenOdgm o selected nodeIds).collections = o.collections ∧
      partitionsOf (chosenOdgm o selected nodeIds) = partitionsOf o ∧
      ∀ requirements, replicasOf (chosenOdgm o selected nodeIds) requirements = max (selected.length % 2 ^ 32) 1 := by
  unfold chosenOdgm ensureNodeIds
  split <;> exact ⟨rfl, rfl, fun _ => rfl⟩

theorem odgmConfig_of_mem (hplan : planDeployment fl cls d ans = .ok plan) (hodgm : d.odgm = some o) {u : DeploymentUnit}
    (hu : u ∈ plan.units) : ∃ cfg, u.odgmConfig = some cfg ∧
      cfg.collectionAssignments = collectionAssignments (chosenOdgm o plan.selected ans.nodeIds) plan.requirements := by
  obtain ⟨candidates, requirements, _, _, hreqs, _, heffective, hunits⟩ := planDeployment_ok hplan
  have hchosen : plan.effective.odgm = some (chosenOdgm o plan.selected ans.nodeIds) := by
    rw [heffective, effectiveDeployment, hodgm]
    rfl
  rw [hunits] at hu
  obtain ⟨x, _, rfl⟩ := mem_map.1 hu
  refine ⟨odgmConfigFor cls plan.effective x.1 requirements (chosenOdgm o plan.selected ans.nodeIds), ?_, ?_⟩
  · rw [createDeploymentUnitsForEnv, hchosen]
    rfl
  · rw [hreqs]
    rfl

theorem allNodes_chosenOdgm_ne_nil (hids : o.envNodeIds = .empty) {selected : List String} (hsel : selected ≠ [])
    (nodeIds : Nat → UInt32) : allNodes (chosenOdgm o selected nodeIds) ≠ [] := by
  have hlen : (allNodes (chosenOdgm o selected nodeIds)).length = distinctNodes selected nodeIds := length_allNodes hids
  have hpos := distinctNodes_pos hsel nodeIds
  exact length_pos_iff.1 (by omega)

theorem card_replica (hids : o.envNodeIds = .empty) {selected : List String} {nodeIds : Nat → UInt32}
    (hsel : selected ≠ []) {requirements : DeploymentRequirements} {a : ShardAssignment}
    (ha : a ∈ planOf (chosenOdgm o selected nodeIds) requirements) :
    a.replica.toFinset.card = min (max (selected.length % 2 ^ 32) 1) (distinctNodes selected nodeIds) := by
  have hlen : (allNodes (chosenOdgm o selected nodeIds)).length = distinctNodes selected nodeIds := length_allNodes hids
  have hne := allNodes_chosenOdgm_ne_nil hids hsel nodeIds
  rw [planOf_eq hne] at ha
  obtain ⟨_, ⟨p, hreplica⟩, _⟩ := mem_assignPartitions ha
  rw [hreplica, card_replicaNodes hne (nodup_allNodes _), hlen, (chosenOdgm_fields o selected nodeIds).2.2]

theorem givesReplicas_iff (hplan : planDeployment fl cls d ans = .ok plan) (hodgm : d.odgm = some o)
    (hids : o.envNodeIds = .empty) (hsel : plan.selected ≠ []) :
    GivesReplicas o plan ↔ o.collections = [] ∨
      (plan.requirements.targetReplicas.toNat ≤ distinctNodes plan.selected ans.nodeIds ∧
        plan.requirements.targetReplicas.toNat ≤ max (plan.selected.length % 2 ^ 32) 1) := by
  obtain ⟨hcols, hparts, -⟩ := chosenOdgm_fields o plan.selected ans.nodeIds
  have hne := allNodes_chosenOdgm_ne_nil hids hsel ans.nodeIds
  have hget : ∀ col ∈ o.collections, (collectionAssignments (chosenOdgm o plan.selected ans.nodeIds)
      plan.requirements).get col = some (planOf (chosenOdgm o plan.selected ans.nodeIds) plan.requirements) :=
    fun col hcol => get_collectionAssignments hne (hcols.symm ▸ hcol)
  constructor
  · intro hgives
    refine or_iff_not_imp_left.2 fun hnonempty => ?_
    obtain ⟨col, hcol⟩ := exists_mem_of_ne_nil _ hnonempty
    obtain ⟨u, hu⟩ : ∃ u, u ∈ plan.units := by
      have hpos := length_pos_iff.2 hsel
      rw [← length_units hplan] at hpos
      exact exists_mem_of_length_pos hpos
    obtain ⟨cfg, assignments, hcfg, hassigned, -, hall⟩ := hgives u hu col hcol
    obtain ⟨cfg', hcfg', hplanned⟩ := odgmConfig_of_mem hplan hodgm hu
    obtain rfl := Option.some.inj (hcfg.symm.trans hcfg')
    rw [hplanned, hget col hcol] at hassigned
    obtain rfl := Option.some.inj hassigned
    obtain ⟨a, ha⟩ := exists_mem_of_ne_nil _ (planOf_ne_nil plan.requirements hne)
    have hle := hall a ha
    rw [card_replica hids hsel ha] at hle
    omega
  · intro henough u hu col hcol
    obtain ⟨cfg, hcfg, hplanned⟩ := odgmConfig_of_mem hplan hodgm hu
    refine ⟨cfg, _, hcfg, by rw [hplanned]; exact hget col hcol, (length_planOf hne).trans hparts, fun a ha => ?_⟩
    rw [card_replica hids hsel ha]
    rcases henough with hnil | henough
    · rw [hnil] at hcol
      cases hcol
    · omega

theorem not_givesReplicas (hstrong : isStrong cls = true) (hplan : planDeployment fl cls d ans = .ok plan)
    (hodgm : d.odgm = some o) (hids : o.envNodeIds = .empty) (hcols : o.collections ≠ []) (hsel : plan.selected ≠ [])
    (hfew : plan.selected.length < 3) : ¬ GivesReplicas o plan := by
  rw [givesReplicas_iff hplan hodgm hids hsel]
  have hthree := three_le_targetReplicas hstrong hplan
  have hnodes := distinctNodes_le plan.selected ans.nodeIds
  rintro (hnil | henough)
  · exact hcols hnil
  · omega

end Given

/-- **Replicas of a strongly consistent class**: no collections, or enough different nodes were drawn. -/
theorem strong_replicas_iff (fl : FloatOps F) (policy : DeploymentPolicyConfig) (cls : OClass) (d : OClassDeployment F)
    (ans : Answers F) (w : World F) (o : OdgmDataSpec) (hodgm : d.odgm = some o) (hids : o.envNodeIds = .empty) :
    ((∃ e, (deployClass fl policy cls d ans w).1 = .error e) ∨
        ∃ plan, planDeployment fl cls d ans = .ok plan ∧ GivesReplicas o plan) ↔
      ∀ plan, planDeployment fl cls d ans = .ok plan → ¬ ClustersFail policy ans plan.selected.length →
        o.collections = [] ∨
          (plan.requirements.targetReplicas.toNat ≤ distinctNodes plan.selected ans.nodeIds ∧
            plan.requirements.targetReplicas.toNat ≤ max (plan.selected.length % 2 ^ 32) 1) := by
  cases hplan : planDeployment fl cls d ans with
  | error e =>
    refine iff_of_true (.inl ⟨e, by rw [deployClass, hplan]⟩) fun plan h => ?_
    cases h
  | ok plan =>
    have hfails := (deployClass_failed policy w hplan).1
    -- a call that does not fail has an environment
    have hgives : ¬ ClustersFail policy ans plan.selected.length → (GivesReplicas o plan ↔ _) := fun hok =>
      givesReplicas_iff hplan hodgm hids fun hnil => hok (.inl fun i hi => by rw [hnil] at hi; cases hi)
    constructor
    · rintro (herror | ⟨plan', hplan', hgiven⟩) plan'' hplan'' hok
      · obtain rfl := Except.ok.inj hplan''
        exact absurd (hfails.1 herror) hok
      · obtain rfl := Except.ok.inj hplan'
        obtain rfl := Except.ok.inj hplan''
        exact (hgives hok).1 hgiven
    · intro h
      by_cases hok : ClustersFail policy ans plan.selected.length
      · exact .inl (hfails.2 hok)
      · exact .inr ⟨plan, rfl, (hgives hok).2 (h plan rfl hok)⟩

namespace Replicated

open Refused

def strongCounter : OClass := { counter with stateSpec := some ⟨.strong, false⟩ }
def odgm : OdgmDataSpec := ⟨["counters"], some 2, none, none, .empty, none, .empty, none⟩
def strongDeployment (envs : List String) : OClassDeployment Unit := { deployment envs with odgm := some odgm }
def willing : Answers Unit := answers (fun _ => true) fun i => "counter-" ++ toString i

theorem strong_replicas_three :
    (∃ e, (deployClass flat ⟨2, true⟩ strongCounter (strongDeployment ["edge", "cloud", "far"]) willing noWorld).1 =
        .error e) ∨
      ∃ plan, planDeployment flat strongCounter (strongDeployment ["edge", "cloud", "far"]) willing = .ok plan ∧
        GivesReplicas odgm plan := by
  refine (strong_replicas_iff flat ⟨2, true⟩ strongCounter (strongDeployment ["edge", "cloud", "far"]) willing noWorld odgm
    rfl rfl).2 fun plan hplan _ => ?_
  have hvalues : (planDeployment flat strongCounter (strongDeployment ["edge", "cloud", "far"]) willing).map
      (fun p => (p.selected, p.requirements.targetReplicas)) = .ok (["edge", "cloud", "far"], 3) := by decide +kernel
  rw [hplan] at hvalues
  obtain ⟨hselected, hreplicas⟩ := Prod.ext_iff.1 (Except.ok.inj hvalues)
  dsimp only at hselected hreplicas
  rw [hselected, hreplicas]
  exact .inr ⟨by decide +kernel, by decide⟩

/-- One environment: three replicas are asked for, one is planned, and the call succeeds. -/
theorem one_replica_for_three :
    (deployClass flat ⟨2, true⟩ strongCounter (strongDeployment ["edge"]) willing noWorld).1 = .ok "counter-0" ∧
      (planDeployment flat strongCounter (strongDeployment ["edge"]) willing).map (fun p =>
          (p.requirements.targetReplicas, (p.units.flatMap fun u =>
            (u.odgmConfig.bind fun c => c.collectionAssignments.get "counters").getD []).map (·.replica))) =
        .ok (3, [[0], [0]]) ∧
      ¬ ∃ plan, planDeployment flat strongCounter (strongDeployment ["edge"]) willing = .ok plan ∧
        GivesReplicas odgm plan := by
  refine ⟨by decide +kernel, by decide +kernel, ?_⟩
  rintro ⟨plan, hplan, hgives⟩
  have hselected : (planDeployment flat strongCounter (strongDeployment ["edge"]) willing).map Plan.selected =
      .ok ["edge"] := by decide +kernel
  rw [hplan] at hselected
  have hsel : plan.selected = ["edge"] := Except.ok.inj hselected
  exact not_givesReplicas rfl hplan rfl rfl (by decide) (by rw [hsel]; decide) (by rw [hsel]; decide) hgives

end Replicated

end Pm
