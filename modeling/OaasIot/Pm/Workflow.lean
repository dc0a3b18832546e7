import OaasIot.Pm.Requirements

/-!
# Deploying and deleting (`oprc-pm/src/services/deployment/workflow.rs`)

A call first plans, which changes nothing, then **stores the record**, then sends the units one after another. What the
environment answers is collected in `Answers`. Storage calls succeed; a cluster call that fails has no effect.
-/

open Grpc

namespace Pm

open List OrdMap

variable {F : Type}

/-! ## The world -/

structure World (F : Type) where
  records : OrdMap String (OClassDeployment F)
  mappings : OrdMap String (OrdMap String String)
  runtimes : Finset (String × String)

namespace World

def mappingsOf (w : World F) (key : String) : OrdMap String String := (w.mappings.get key).getD .empty
def storeDeployment (w : World F) (d : OClassDeployment F) : World F := { w with records := w.records.insert d.key d }

def accept (w : World F) (key cluster id : String) : World F :=
  { w with
    runtimes := insert (cluster, id) w.runtimes
    mappings := w.mappings.insert key ((w.mappingsOf key).insert cluster id) }

def removeClusterMappings (w : World F) (key : String) : World F := { w with mappings := w.mappings.erase key }
def deleteRuntime (w : World F) (cluster id : String) : World F := { w with runtimes := w.runtimes.erase (cluster, id) }

end World

structure DeploymentPolicyConfig where
  maxRetries : Nat
  rollbackOnPartial : Bool

structure Answers (F : Type) where
  clusters : List String
  health : Nat → Except String (ClusterHealth F)
  healthAgain : Nat → Except String (ClusterHealth F)
  nodeIds : Nat → UInt32
  unitIds : Nat → String
  now : Nat
  accepts : Nat → Nat → Bool
  deletes : Nat → Bool

/-! ## Planning -/

def selectCandidateEnvs (clusters : List String) (d : OClassDeployment F) : Except DeploymentError (List String) :=
  let candidates :=
    if d.targetEnvs.isEmpty then
      if d.availableEnvs.isEmpty then clusters else d.availableEnvs.filter clusters.contains
    else d.targetEnvs
  if candidates.isEmpty then
    .error (.invalid "No eligible environments found (check available_envs or cluster config)")
  else .ok candidates

section Plan

variable (fl : FloatOps F)

def selectionAvailability : Except String (ClusterHealth F) → F
  | .error _ => fl.zero
  | .ok h =>
    let p :=
      match h.availability, h.readyNodes, h.nodeCount with
      | some av, _, _ => av
      | none, some r, some n => if n = 0 then fl.zero else fl.clamp fl.zero fl.one (fl.ratio r n)
      | none, _, _ => fl.zero
    fl.clamp fl.zero fl.one p

def rankedEnvs (candidates : List String) (health : Nat → Except String (ClusterHealth F)) : List (String × F) :=
  (candidates.zipIdx.map fun x => (x.1, selectionAvailability fl (health x.2))).insertionSort
    fun a b => fl.before b.2 a.2

def selectEnvironments (d : OClassDeployment F) (ranked : List (String × F)) (replicas : UInt32) : List String :=
  if d.targetEnvs.isEmpty then (ranked.take (max replicas.toNat 1)).map Prod.fst else d.targetEnvs

def computeAchievedQuorum (selected : List String) (ranked : List (String × F)) : F :=
  let avails := selected.filterMap fun n => (ranked.find? fun x => x.1 == n).map Prod.snd
  if avails.isEmpty then fl.zero else clusterQuorumAvailability fl (avails.insertionSort fl.before)

def ensureNodeIds (selected : List String) (nodeIds : Nat → UInt32) (o : OdgmDataSpec) : OdgmDataSpec :=
  if o.envNodeIds.toList.isEmpty then
    { o with envNodeIds := o.envNodeIds.insertMany (selected.zipIdx.map fun x => (x.1, [(nodeIds x.2).toUInt64])) }
  else o

def effectiveDeployment (d : OClassDeployment F) (selected : List String) (achieved : F) (nodeIds : Nat → UInt32)
    (now : Nat) : OClassDeployment F :=
  { d with
    targetEnvs := if d.targetEnvs.isEmpty then selected else d.targetEnvs
    odgm := d.odgm.map fun o =>
      ensureNodeIds selected nodeIds { o with replicaCount := some (.ofNat selected.length) }
    status := some ⟨.ofNat selected.length, selected, some achieved, none⟩
    updatedAt := some now }

structure Plan (F : Type) where
  requirements : DeploymentRequirements
  selected : List String
  effective : OClassDeployment F
  units : List DeploymentUnit

def planDeployment (cls : OClass) (d : OClassDeployment F) (ans : Answers F) : Except DeploymentError (Plan F) := do
  let candidates ← selectCandidateEnvs ans.clusters d
  let requirements ← calculateRequirements fl cls { d with targetEnvs := candidates } ans.health
  let ranked := rankedEnvs fl candidates ans.healthAgain
  let selected := selectEnvironments d ranked requirements.targetReplicas
  let achieved := computeAchievedQuorum fl selected ranked
  let effective := effectiveDeployment d selected achieved ans.nodeIds ans.now
  return ⟨requirements, selected, effective, createDeploymentUnits cls effective requirements ans.unitIds⟩

end Plan

/-! ## Dispatch -/

def accepted (accepts : Nat → Bool) : Nat → Nat → Bool
  | 0, attempt => accepts attempt
  | retries + 1, attempt => accepts attempt || accepted accepts retries (attempt + 1)

def dispatchUnits (policy : DeploymentPolicyConfig) (ans : Answers F) (key : String) :
    Nat → List DeploymentUnit → World F → List (String × String) × World F
  | _, [], w => ([], w)
  | i, unit :: units, w =>
    if accepted (ans.accepts i) policy.maxRetries 1 then
      let rest := dispatchUnits policy ans key (i + 1) units (w.accept key unit.targetEnv unit.id)
      ((unit.targetEnv, unit.id) :: rest.1, rest.2)
    else dispatchUnits policy ans key (i + 1) units w

/-- The spawned task, at its end: the accepted units are deleted, and **all mappings of the key** with them. -/
def rollback (deletes : Nat → Bool) (successes : List (String × String)) (key : String) (w : World F) : World F :=
  (successes.zipIdx.foldl (fun w x => if deletes x.2 then w.deleteRuntime x.1.1 x.1.2 else w) w).removeClusterMappings key

def finalizeDispatch (policy : DeploymentPolicyConfig) (ans : Answers F) (total : Nat) (key : String)
    (dispatched : List (String × String) × World F) : Except DeploymentError String × World F :=
  match dispatched with
  | ([], w) => (.error (.invalid "Deployment failed in all clusters"), w)
  | ((cluster, id) :: more, w) =>
    if more.length + 1 = total then (.ok id, w)
    else if policy.rollbackOnPartial then
      (.error (.invalid "Deployment rolled back due to partial failure"), rollback ans.deletes ((cluster, id) :: more) key w)
    else (.ok id, w)

def deployClass (fl : FloatOps F) (policy : DeploymentPolicyConfig) (cls : OClass) (d : OClassDeployment F) (ans : Answers F)
    (w : World F) : Except DeploymentError String × World F :=
  match planDeployment fl cls d ans with
  | .error e => (.error e, w)
  | .ok plan =>
    finalizeDispatch policy ans plan.effective.targetEnvs.length d.key
      (dispatchUnits policy ans d.key 0 plan.units (w.storeDeployment plan.effective))

/-! ## Deletion -/

def recordedEnvs (d : OClassDeployment F) : List String :=
  match d.status with
  | some status => if status.selectedEnvs.isEmpty then d.targetEnvs else status.selectedEnvs
  | none => d.targetEnvs

def deleteDeployment (ans : Answers F) (key : String) (w : World F) : Except DeploymentError Unit × World F :=
  match w.records.get key with
  | none => (.error (.notFound key), w)
  | some d =>
    let ids := w.mappingsOf d.key
    let w := (recordedEnvs d).zipIdx.foldl
      (fun w x => if ans.deletes x.2 then w.deleteRuntime x.1 ((ids.get x.1).getD key) else w) w
    (.ok (), ({ w with records := w.records.erase key } : World F).removeClusterMappings key)

/-! ## What a plan contains -/

theorem planDeployment_ok {fl : FloatOps F} {cls : OClass} {d : OClassDeployment F} {ans : Answers F} {plan : Plan F}
    (h : planDeployment fl cls d ans = .ok plan) : ∃ candidates requirements,
      selectCandidateEnvs ans.clusters d = .ok candidates ∧
      calculateRequirements fl cls { d with targetEnvs := candidates } ans.health = .ok requirements ∧
      plan.requirements = requirements ∧
      plan.selected = selectEnvironments d (rankedEnvs fl candidates ans.healthAgain) requirements.targetReplicas ∧
      plan.effective = effectiveDeployment d plan.selected
        (computeAchievedQuorum fl plan.selected (rankedEnvs fl candidates ans.healthAgain)) ans.nodeIds ans.now ∧
      plan.units = createDeploymentUnits cls plan.effective requirements ans.unitIds := by
  unfold planDeployment at h
  cases hcand : selectCandidateEnvs ans.clusters d with
  | error e => rw [hcand] at h; cases h
  | ok candidates =>
    cases hreq : calculateRequirements fl cls { d with targetEnvs := candidates } ans.health with
    | error e =>
      rw [hcand] at h
      simp only [Except.bind, bind, hreq] at h
      cases h
    | ok requirements =>
      rw [hcand] at h
      simp only [Except.bind, bind, hreq, pure, Except.pure, Except.ok.injEq] at h
      subst h
      exact ⟨candidates, requirements, rfl, hreq, rfl, rfl, rfl, rfl⟩

section PlanFacts

variable {fl : FloatOps F} {cls : OClass} {d : OClassDeployment F} {ans : Answers F} {plan : Plan F}

theorem effective_ok (h : planDeployment fl cls d ans = .ok plan) :
    plan.effective.key = d.key ∧ plan.effective.targetEnvs = plan.selected ∧ recordedEnvs plan.effective = plan.selected := by
  obtain ⟨candidates, requirements, _, _, _, hselected, heffective, _⟩ := planDeployment_ok h
  have htarget : plan.effective.targetEnvs = plan.selected := by
    rw [heffective, effectiveDeployment]
    dsimp only
    split
    · rfl
    · rename_i hne
      rw [hselected, selectEnvironments, if_neg hne]
  refine ⟨by rw [heffective]; rfl, htarget, ?_⟩
  have hstatus : ∃ summary, plan.effective.status = some summary ∧ summary.selectedEnvs = plan.selected := by
    rw [heffective]
    exact ⟨_, rfl, rfl⟩
  obtain ⟨summary, hsome, hsel⟩ := hstatus
  rw [recordedEnvs, hsome]
  dsimp only
  rw [hsel, htarget]
  split <;> rfl

theorem units_ok (h : planDeployment fl cls d ans = .ok plan) :
    plan.units.map (fun u => (u.targetEnv, u.id)) = plan.selected.zipIdx.map fun x => (x.1, ans.unitIds x.2) := by
  obtain ⟨candidates, requirements, _, _, _, _, _, hunits⟩ := planDeployment_ok h
  rw [hunits, createDeploymentUnits, (effective_ok h).2.1, map_map]
  rfl

end PlanFacts

/-! ## What a dispatch does -/

def acceptedFrom (policy : DeploymentPolicyConfig) (ans : Answers F) (i : Nat) (units : List DeploymentUnit) :
    List (String × String) :=
  ((units.zipIdx i).filter fun x => accepted (ans.accepts x.2) policy.maxRetries 1).map fun x => (x.1.targetEnv, x.1.id)

def World.acceptAll (w : World F) (key : String) (sent : List (String × String)) : World F :=
  sent.foldl (fun w x => w.accept key x.1 x.2) w

theorem dispatchUnits_eq (policy : DeploymentPolicyConfig) (ans : Answers F) (key : String) (i : Nat)
    (units : List DeploymentUnit) (w : World F) : dispatchUnits policy ans key i units w =
      (acceptedFrom policy ans i units, w.acceptAll key (acceptedFrom policy ans i units)) := by
  induction units generalizing i w with
  | nil => rfl
  | cons unit units ih =>
    unfold dispatchUnits acceptedFrom
    rw [zipIdx_cons, filter_cons]
    split
    · rw [ih, map_cons]
      rfl
    · rw [ih]
      rfl

namespace World

variable (w : World F)

theorem mappingsOf_accept (key cluster id key' : String) :
    (w.accept key cluster id).mappingsOf key' =
      if key' = key then (w.mappingsOf key).insert cluster id else w.mappingsOf key' := by
  unfold mappingsOf accept
  dsimp only
  rw [get_insert]
  by_cases hk : key = key'
  · simp [hk, mappingsOf]
  · simp [hk, Ne.symm hk]

theorem mappingsOf_acceptAll (key key' : String) (sent : List (String × String)) :
    (w.acceptAll key sent).mappingsOf key' =
      if key' = key then (w.mappingsOf key).insertMany sent else w.mappingsOf key' := by
  induction sent generalizing w with
  | nil =>
    by_cases hk : key' = key
    · rw [if_pos hk, hk]; rfl
    · rw [if_neg hk]; rfl
  | cons x sent ih =>
    have hcons : w.acceptAll key (x :: sent) = (w.accept key x.1 x.2).acceptAll key sent := rfl
    rw [hcons, ih, mappingsOf_accept, mappingsOf_accept, if_pos rfl, insertMany_cons]
    by_cases hk : key' = key
    · rw [if_pos hk, if_pos hk]
    · rw [if_neg hk, if_neg hk, if_neg hk]

theorem mem_runtimes_acceptAll (key : String) (sent : List (String × String)) (x : String × String) :
    x ∈ (w.acceptAll key sent).runtimes ↔ x ∈ w.runtimes ∨ x ∈ sent := by
  induction sent generalizing w with
  | nil => simp [acceptAll]
  | cons y sent ih =>
    have hcons : w.acceptAll key (y :: sent) = (w.accept key y.1 y.2).acceptAll key sent := rfl
    rw [hcons, ih, accept, Finset.mem_insert, mem_cons]
    tauto

theorem records_acceptAll (key : String) (sent : List (String × String)) :
    (w.acceptAll key sent).records = w.records := by
  induction sent generalizing w with
  | nil => rfl
  | cons x sent ih => exact ih (w.accept key x.1 x.2)

theorem records_storeDeployment (d : OClassDeployment F) (key : String) :
    (w.storeDeployment d).records.get key = if key = d.key then some d else w.records.get key := by
  rw [storeDeployment, get_insert]
  by_cases hk : d.key = key
  · rw [if_pos hk, if_pos hk.symm]
  · rw [if_neg hk, if_neg (Ne.symm hk)]

theorem mappingsOf_removeClusterMappings (key key' : String) :
    (w.removeClusterMappings key).mappingsOf key' = if key' = key then .empty else w.mappingsOf key' := by
  unfold removeClusterMappings mappingsOf
  dsimp only
  rw [get_erase]
  split <;> rfl

theorem foldl_deleteRuntime {α : Type} (deletes : Nat → Bool) (f : α → String × String) (l : List (α × Nat)) (w : World F) :
    l.foldl (fun w x => if deletes x.2 then w.deleteRuntime (f x.1).1 (f x.1).2 else w) w =
      { w with runtimes := w.runtimes \ ((l.filter fun x => deletes x.2).map fun x => f x.1).toFinset } := by
  induction l generalizing w with
  | nil => simp
  | cons x l ih =>
    rw [foldl_cons, ih, filter_cons]
    split
    · have hruntimes : (w.deleteRuntime (f x.1).1 (f x.1).2).runtimes = w.runtimes.erase (f x.1) := rfl
      rw [hruntimes, map_cons, toFinset_cons]
      congr 1
      ext y
      simp only [Finset.mem_sdiff, Finset.mem_erase, Finset.mem_insert, not_or]
      tauto
    · rfl

end World

theorem rollback_eq (deletes : Nat → Bool) (sent : List (String × String)) (key : String) (w : World F) :
    (rollback deletes sent key w).records = w.records ∧ (rollback deletes sent key w).mappingsOf key = .empty := by
  have hfold := World.foldl_deleteRuntime deletes (fun x => x) sent.zipIdx w
  unfold rollback
  rw [hfold]
  exact ⟨rfl, by rw [World.mappingsOf_removeClusterMappings, if_pos rfl]⟩

end Pm
