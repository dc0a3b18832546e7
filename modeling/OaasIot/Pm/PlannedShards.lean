import OaasIot.Pm.Units
import OaasIot.Crm.CollectionRequests
import OaasIot.Odgm.Collections

/-!
# Planned shard ids, from the package manager to the data grid

`createDeploymentUnitsForEnv` makes a plan, `Crm.Builder.build` and `Crm.buildRequests` carry it, and
`OprcMetaManager.createAll` writes the shard table from it. Every collection of a unit is numbered **from 1**, and the
counts pass through a signed 32-bit field.
-/

open Grpc Odgm

namespace Pm

open List OrdMap

/-! ## Counts -/

theorem toInt_toInt32 (x : UInt32) : x.toInt32.toInt = if x.toNat < 2 ^ 31 then (x.toNat : Int) else x.toNat - 2 ^ 32 := by
  have h : x.toInt32.toInt = x.toBitVec.toInt := rfl
  have hlt := x.toNat_lt
  rw [h, BitVec.toInt_eq_toNat_cond, UInt32.toNat_toBitVec]
  split <;> split <;> omega

theorem toInt32_le_zero (x : UInt32) : x.toInt32 ≤ 0 ↔ x.toNat = 0 ∨ 2 ^ 31 ≤ x.toNat := by
  have hlt := x.toNat_lt
  rw [Int32.le_iff_toInt_le, toInt_toInt32, Int32.toInt_zero]
  split <;> omega

theorem toNatClampNeg_toInt32 {x : UInt32} (h : x.toNat < 2 ^ 31) : x.toInt32.toNatClampNeg = x.toNat := by
  rw [Int32.toNatClampNeg, toInt_toInt32, if_pos h, Int.toNat_natCast]

def sentPartitions (o : OdgmDataSpec) : UInt32 := o.partitionCount.getD 1

def sentReplicas (o : OdgmDataSpec) (requirements : DeploymentRequirements) : UInt32 :=
  o.replicaCount.getD requirements.targetReplicas

/-! ## The plan of a unit -/

def planOf (o : OdgmDataSpec) (requirements : DeploymentRequirements) : List ShardAssignment :=
  generateShardAssignmentsSpec (partitionsOf o) (replicasOf o requirements) (allNodes o)

section Plan

variable {o : OdgmDataSpec} {requirements : DeploymentRequirements}

theorem partitionsOf_pos (o : OdgmDataSpec) : 0 < partitionsOf o := by unfold partitionsOf; omega

theorem replicasOf_pos (o : OdgmDataSpec) (requirements : DeploymentRequirements) : 0 < replicasOf o requirements := by
  unfold replicasOf; omega

section
variable (h : allNodes o ≠ [])
include h

theorem planOf_eq : planOf o requirements = assignPartitions (replicasOf o requirements) (allNodes o) (partitionsOf o)
      (replicate (allNodes o).length 0) 1 :=
  generateShardAssignmentsSpec_eq_assign (partitionsOf_pos o) (replicasOf_pos o requirements) h

theorem shardIds_planOf :
    (planOf o requirements).map (·.shardIds) = wordBlocks (replicasOf o requirements) (partitionsOf o) 1 :=
  shardIds_generated (partitionsOf_pos o) (replicasOf_pos o requirements) h

theorem length_planOf : (planOf o requirements).length = partitionsOf o := by
  rw [← length_map (·.shardIds), shardIds_planOf h, length_wordBlocks]

theorem flatMap_shardIds_planOf :
    (planOf o requirements).flatMap (·.shardIds) = wordsFrom 1 (partitionsOf o * replicasOf o requirements) := by
  rw [flatMap_def, shardIds_planOf h, flatten_wordBlocks]

theorem nodup_planOf : ((planOf o requirements).flatMap (·.shardIds)).Nodup := by
  rw [flatMap_shardIds_planOf h]
  apply nodup_wordsFrom
  have hp : partitionsOf o ≤ 2 ^ 32 := by have := (o.partitionCount.getD 1).toNat_lt; unfold partitionsOf; omega
  have hr : replicasOf o requirements ≤ 2 ^ 32 := by
    have := (o.replicaCount.getD requirements.targetReplicas).toNat_lt
    unfold replicasOf
    omega
  calc partitionsOf o * replicasOf o requirements ≤ 2 ^ 32 * 2 ^ 32 := Nat.mul_le_mul hp hr
    _ = 2 ^ 64 := by omega

omit h in
theorem one_mem_planOf (requirements : DeploymentRequirements) (h : allNodes o ≠ []) :
    1 ∈ (planOf o requirements).flatMap (·.shardIds) := by
  have hpos := Nat.mul_pos (partitionsOf_pos o) (replicasOf_pos o requirements)
  rw [flatMap_shardIds_planOf h, wordsFrom, mem_map]
  exact ⟨0, by simpa using hpos, by simp⟩

omit h in
theorem planOf_ne_nil (requirements : DeploymentRequirements) (h : allNodes o ≠ []) : planOf o requirements ≠ [] := by
  have := partitionsOf_pos o
  exact ne_nil_of_length_pos (by rw [length_planOf h]; omega)

theorem shardIds_ne_nil {a : ShardAssignment} (ha : a ∈ planOf o requirements) : a.shardIds ≠ [] := by
  have hmem : a.shardIds ∈ (planOf o requirements).map (·.shardIds) := mem_map_of_mem ha
  rw [shardIds_planOf h] at hmem
  exact ne_nil_of_mem_wordBlocks (by have := replicasOf_pos o requirements; omega) hmem

end

theorem allNodes_ne_nil {env : String} {ids : List UInt64} {id : UInt64} (hget : o.envNodeIds.get env = some ids)
    (hid : id ∈ ids) : allNodes o ≠ [] :=
  ne_nil_of_mem (mem_allNodes.2 ⟨env, ids, hget, hid⟩)

end Plan

/-- **Assignment validation** (`validate_assignments`): what passes, and that every generated plan does. -/
theorem assignments_validated (list : List ShardAssignment) (partitions replicas : Int32) (members : List UInt64) :
    (Crm.validateAssignments list partitions replicas = true ↔ Crm.ValidPlan list partitions replicas) ∧
      (0 < partitions → 0 < replicas → members ≠ [] →
        Crm.validateAssignments (generateShardAssignmentsSpec partitions.toNatClampNeg replicas.toNatClampNeg members)
          partitions replicas = true) := by
  refine ⟨Crm.validateAssignments_iff, fun hp hr hm => Crm.validateAssignments_iff.2 ?_⟩
  have hpos : ∀ {x : Int32}, 0 < x → 0 < x.toNatClampNeg ∧ x.toNatClampNeg ≤ 2 ^ 32 := by
    intro x hx
    have hlt := x.toInt_lt
    rw [Int32.lt_iff_toInt_lt, Int32.toInt_zero] at hx
    rw [Int32.toNatClampNeg]
    omega
  have hids := shardIds_generated (hpos hp).1 (hpos hr).1 hm
  refine ⟨hp, hr, ?_, fun a ha => shape_generated hm ha, ?_⟩
  · rw [← length_map (·.shardIds), hids, length_wordBlocks]
  · rw [flatMap_def, hids, flatten_wordBlocks]
    have hle := Nat.mul_le_mul (hpos hp).2 (hpos hr).2
    exact nodup_wordsFrom (hle.trans (by decide))

/-! ## Through the runtime to the shard table -/

def requestsOf (name ns : String) (merged : Option Crm.InvocationsSpec) (unit : DeploymentUnit) :
    List CreateCollectionRequest :=
  let spec := Crm.Builder.build name unit
  match Crm.collectionNames spec with
  | none => []
  | some names => Crm.buildRequests spec ns names merged

def plannedIds (cfg : OdgmConfig) : List UInt64 :=
  cfg.collections.flatMap fun col => ((cfg.collectionAssignments.get col).getD []).flatMap (·.shardIds)

def PlanKept (m : OprcMetaManager) (cfg : OdgmConfig) : Prop :=
  ∀ col plan, cfg.collectionAssignments.get col = some plan → ∀ (p : Nat) (a : ShardAssignment), plan[p]? = some a →
    ∀ id ∈ a.shardIds, ∃ s, m.shards.get id = some s ∧ s.collection = col ∧ s.partitionId.toNat = p

structure CountsFit (o : OdgmDataSpec) (requirements : DeploymentRequirements) : Prop where
  partitions_pos : 1 ≤ (sentPartitions o).toNat
  partitions_le : (sentPartitions o).toNat ≤ 2 ^ 16
  replicas_pos : 1 ≤ (sentReplicas o requirements).toNat
  replicas_lt : (sentReplicas o requirements).toNat < 2 ^ 31

/-- **What the plan of a unit must satisfy to arrive**: one collection at most, and counts that fit where there is one. -/
def Fits (o : OdgmDataSpec) (requirements : DeploymentRequirements) : Prop :=
  o.collections.length ≤ 1 ∧ (o.collections ≠ [] → CountsFit o requirements)

namespace CountsFit

variable {o : OdgmDataSpec} {requirements : DeploymentRequirements} (h : CountsFit o requirements)

include h

theorem partitionsOf_eq : partitionsOf o = (sentPartitions o).toNat := by
  have := h.partitions_pos
  unfold partitionsOf sentPartitions at *
  omega

theorem replicasOf_eq : replicasOf o requirements = (sentReplicas o requirements).toNat := by
  have := h.replicas_pos
  unfold replicasOf sentReplicas at *
  omega

theorem toInt32_partitions_pos : 0 < (sentPartitions o).toInt32 := by
  have := h.partitions_pos
  have := h.partitions_le
  rw [← Int32.not_le, toInt32_le_zero]
  omega

theorem toInt32_replicas_pos : 0 < (sentReplicas o requirements).toInt32 := by
  have := h.replicas_pos
  have := h.replicas_lt
  rw [← Int32.not_le, toInt32_le_zero]
  omega

theorem length_plan (hnodes : allNodes o ≠ []) :
    (planOf o requirements).length = (sentPartitions o).toInt32.toNatClampNeg := by
  have := h.partitions_le
  rw [length_planOf hnodes, toNatClampNeg_toInt32 (by omega), h.partitionsOf_eq]

theorem validate (hnodes : allNodes o ≠ []) :
    Crm.validateAssignments (planOf o requirements) (sentPartitions o).toInt32
      (sentReplicas o requirements).toInt32 = true := by
  refine Crm.validateAssignments_iff.2 ⟨h.toInt32_partitions_pos, h.toInt32_replicas_pos, h.length_plan hnodes,
    fun a ha => ?_, nodup_planOf hnodes⟩
  rw [toNatClampNeg_toInt32 h.replicas_lt, ← h.replicasOf_eq]
  exact shape_generated hnodes ha

end CountsFit

section Pipeline

variable {F : Type} {cls : OClass} {deployment : OClassDeployment F} {env : String} {requirements : DeploymentRequirements}
  {o : OdgmDataSpec}

theorem get_collectionAssignments (hnodes : allNodes o ≠ []) {col : String} (hcol : col ∈ o.collections) :
    (collectionAssignments o requirements).get col = some (planOf o requirements) := by
  rw [collectionAssignments, if_neg hnodes]
  cases hget : (empty.insertMany (o.collections.map fun col => (col, planOf o requirements))).get col with
  | none =>
    have hnot := (get_insertMany_eq_none.1 hget).1
    rw [map_map] at hnot
    exact absurd (mem_map_of_mem hcol) hnot
  | some plan =>
    rcases get_insertMany_eq_some _ hget with hmem | hempty
    · obtain ⟨_, _, heq⟩ := mem_map.1 hmem
      cases heq
      exact hget
    · cases hempty

theorem mem_of_get_collectionAssignments {col : String} {plan : List ShardAssignment}
    (h : (collectionAssignments o requirements).get col = some plan) : col ∈ o.collections := by
  unfold collectionAssignments at h
  split at h
  · cases h
  · by_contra hcol
    rw [get_insertMany_of_notMem _ (by simpa [map_map, Function.comp_def] using hcol)] at h
    cases h

def requestOf (spec : Crm.ClassRuntimeSpec) (ns : String) (merged : Option Crm.InvocationsSpec) (cls : OClass)
    (requirements : DeploymentRequirements) (o : OdgmDataSpec) (col : String) : CreateCollectionRequest :=
  Crm.buildCollectionRequest col ns (sentPartitions o).toInt32 (sentReplicas o requirements).toInt32
    (shardTypeOf cls o) (merged.or (spec.odgmConfig.bind (·.invocations))) (spec.odgmConfig.bind (·.options))
    ((collectionAssignments o requirements).get col)

theorem requestsOf_unit (cls : OClass) (env : String) (requirements : DeploymentRequirements)
    (ho : deployment.odgm = some o) (id name ns : String) (merged : Option Crm.InvocationsSpec) :
    ∃ spec, requestsOf name ns merged (createDeploymentUnitsForEnv cls deployment env requirements id) =
      o.collections.map (requestOf spec ns merged cls requirements o) := by
  obtain ⟨spec, hspec⟩ : ∃ spec, spec = Crm.Builder.build name
      (createDeploymentUnitsForEnv cls deployment env requirements id) := ⟨_, rfl⟩
  refine ⟨spec, ?_⟩
  have hpc : (spec.odgmConfig.bind (·.partitionCount)).getD 1 = (sentPartitions o).toInt32 := by
    cases hp : o.partitionCount <;>
      simp [hspec, Crm.Builder.build, Crm.Builder.buildOdgmConfig, createDeploymentUnitsForEnv, ho, odgmConfigFor, hp,
        sentPartitions]
  have hrc : (spec.odgmConfig.bind (·.replicaCount)).getD 1 = (sentReplicas o requirements).toInt32 := by
    cases hr : o.replicaCount <;>
      simp [hspec, Crm.Builder.build, Crm.Builder.buildOdgmConfig, createDeploymentUnitsForEnv, ho, odgmConfigFor, hr,
        sentReplicas]
  have htype : (spec.odgmConfig.bind (·.shardType)).getD "none" = shardTypeOf cls o := by
    simp [hspec, Crm.Builder.build, Crm.Builder.buildOdgmConfig, createDeploymentUnitsForEnv, ho, odgmConfigFor]
  have hplan : ∀ n, (spec.odgmConfig.bind fun c => c.collectionAssignments.get n) =
      (collectionAssignments o requirements).get n := by
    simp [hspec, Crm.Builder.build, Crm.Builder.buildOdgmConfig, createDeploymentUnitsForEnv, ho, odgmConfigFor]
  have hnames : Crm.collectionNames spec = if o.collections.isEmpty then none else some o.collections := by
    cases hc : o.collections <;>
      simp [hspec, Crm.collectionNames, Crm.Builder.build, Crm.Builder.buildOdgmConfig, createDeploymentUnitsForEnv, ho,
        odgmConfigFor, hc, Option.filter]
  unfold requestsOf
  simp only [← hspec, hnames]
  by_cases hempty : o.collections = []
  · simp [hempty]
  · simp [hempty, Crm.buildRequests, hpc, hrc, htype, hplan, requestOf]

theorem plannedIds_eq (hnodes : allNodes o ≠ []) :
    plannedIds (odgmConfigFor cls deployment env requirements o) =
      o.collections.flatMap fun _ => (planOf o requirements).flatMap (·.shardIds) := by
  simp only [plannedIds, odgmConfigFor, flatMap_def]
  congr 1
  apply map_congr_left
  intro col hcol
  simp [get_collectionAssignments hnodes hcol]

theorem length_le_one_of_nodup (hnodes : allNodes o ≠ [])
    (h : (plannedIds (odgmConfigFor cls deployment env requirements o)).Nodup) : o.collections.length ≤ 1 := by
  rw [plannedIds_eq hnodes] at h
  rcases hc : o.collections with _ | ⟨c, _ | ⟨c', cs⟩⟩
  · simp
  · simp
  · rw [hc, flatMap_cons, flatMap_cons] at h
    have hone := one_mem_planOf requirements hnodes
    exact absurd (mem_append_left _ hone) ((nodup_append'.1 h).2.2 hone)

theorem nodup_plannedIds (hnodes : allNodes o ≠ []) (hone : o.collections.length ≤ 1) :
    (plannedIds (odgmConfigFor cls deployment env requirements o)).Nodup := by
  rw [plannedIds_eq hnodes]
  rcases hc : o.collections with _ | ⟨c, _ | ⟨c', cs⟩⟩
  · simp
  · simpa using nodup_planOf hnodes
  · simp [hc] at hone

section One

variable {checks : Bool} {nodeId : UInt64} {members : List UInt64} {spec : Crm.ClassRuntimeSpec} {ns col : String}
  {merged : Option Crm.InvocationsSpec}

theorem counts_of_planKept (hnodes : allNodes o ≠ []) (hcol : col ∈ o.collections)
    (h : PlanKept ((OprcMetaManager.new nodeId members).step checks (requestOf spec ns merged cls requirements o col))
      (odgmConfigFor cls deployment env requirements o)) :
    ((sentPartitions o).toNat ≠ 0 ∧ (sentPartitions o).toNat < 2 ^ 31) ∧
      (sentReplicas o requirements).toNat ≠ 0 ∧ (sentReplicas o requirements).toNat < 2 ^ 31 := by
  have hplan : (collectionAssignments o requirements).get col = some (planOf o requirements) :=
    get_collectionAssignments hnodes hcol
  obtain ⟨a, ha, hid⟩ := mem_flatMap.1 (one_mem_planOf requirements hnodes)
  obtain ⟨p, hp⟩ := mem_iff_getElem?.1 ha
  obtain ⟨s, hs, _⟩ := h col _ hplan p a hp 1 hid
  have hcounts : ¬ ((sentPartitions o).toInt32 ≤ 0 ∨ (sentReplicas o requirements).toInt32 ≤ 0) := by
    intro hc
    have hrefused : ∀ list, Crm.validateAssignments list (sentPartitions o).toInt32
        (sentReplicas o requirements).toInt32 = false := fun _ => if_pos hc
    have hnone : (requestOf spec ns merged cls requirements o col).shardAssignments = [] := by
      simp [requestOf, Crm.buildCollectionRequest, hplan, hrefused]
    have hempty : ((OprcMetaManager.new nodeId members).step checks
        (requestOf spec ns merged cls requirements o col)).shards = .empty := OprcMetaManager.shards_of_counts hnone hc
    rw [hempty] at hs
    cases hs
  rw [toInt32_le_zero, toInt32_le_zero] at hcounts
  omega

theorem partitionsOf_le_of_planKept {m : OprcMetaManager} (hnodes : allNodes o ≠ [])
    (hcol : col ∈ o.collections) (h : PlanKept m (odgmConfigFor cls deployment env requirements o)) :
    partitionsOf o ≤ 2 ^ 16 := by
  by_contra hlt
  have hp : 2 ^ 16 < (planOf o requirements).length := by rw [length_planOf hnodes]; omega
  have hget := getElem?_eq_getElem hp
  obtain ⟨id, hid⟩ := exists_mem_of_ne_nil _ (shardIds_ne_nil hnodes (getElem_mem hp))
  obtain ⟨s, _, _, hpart⟩ := h col _ (get_collectionAssignments hnodes hcol) _ _ hget id hid
  have := s.partitionId.toNat_lt
  omega

variable (hnodes : allNodes o ≠ []) (hcol : (collectionAssignments o requirements).get col = some (planOf o requirements))
  (hfit : CountsFit o requirements)

include hnodes hcol hfit

theorem shardAssignments_requestOf :
    (requestOf spec ns merged cls requirements o col).shardAssignments = planOf o requirements := by
  simp [requestOf, Crm.buildCollectionRequest, hcol, hfit.validate hnodes, Option.filter]

theorem length_requestOf : (requestOf spec ns merged cls requirements o col).shardAssignments.length =
    OprcMetaManager.count (requestOf spec ns merged cls requirements o col).partitionCount := by
  rw [shardAssignments_requestOf hnodes hcol hfit]
  exact hfit.length_plan hnodes

theorem succeeds_requestOf :
    OprcMetaManager.Succeeds checks (.new nodeId members) (requestOf spec ns merged cls requirements o col) := by
  refine OprcMetaManager.succeeds_of_plan rfl hfit.toInt32_partitions_pos (length_requestOf hnodes hcol hfit) fun a ha => ?_
  rw [shardAssignments_requestOf hnodes hcol hfit] at ha
  have := (shape_generated hnodes ha).1
  have := replicasOf_pos o requirements
  exact ne_nil_of_length_pos (by omega)

theorem freshIds_requestOf :
    (OprcMetaManager.new nodeId members).FreshIds (requestOf spec ns merged cls requirements o col) := by
  have has : (requestOf spec ns merged cls requirements o col).shardAssignments = planOf o requirements :=
    shardAssignments_requestOf hnodes hcol hfit
  refine OprcMetaManager.freshIds_of_plan (by rw [has]; exact planOf_ne_nil requirements hnodes)
    (length_requestOf hnodes hcol hfit) (fun a ha => shardIds_ne_nil hnodes (has ▸ ha)) ?_
  rw [has]
  refine ⟨?_, fun id _ => rfl, ?_⟩
  · rw [← List.flatMap_def]
    exact nodup_planOf hnodes
  · intro p ids hget _
    obtain ⟨hlt, _⟩ := List.getElem?_eq_some_iff.1 hget
    have := hfit.partitions_le
    rw [List.length_map, length_planOf hnodes, hfit.partitionsOf_eq] at hlt
    omega

theorem planKept_of_counts (hcols : o.collections = [col]) :
    PlanKept ((OprcMetaManager.new nodeId members).step checks (requestOf spec ns merged cls requirements o col))
      (odgmConfigFor cls deployment env requirements o) := by
  have has : (requestOf spec ns merged cls requirements o col).shardAssignments = planOf o requirements :=
    shardAssignments_requestOf hnodes hcol hfit
  have hok : OprcMetaManager.Succeeds checks (.new nodeId members) (requestOf spec ns merged cls requirements o col) :=
    succeeds_requestOf hnodes hcol hfit
  have hfresh : (OprcMetaManager.new nodeId members).FreshIds (requestOf spec ns merged cls requirements o col) :=
    freshIds_requestOf hnodes hcol hfit
  intro col' plan hget p a ha id hid
  obtain rfl : col' = col := by simpa [hcols] using mem_of_get_collectionAssignments hget
  obtain rfl : planOf o requirements = plan := by simpa [odgmConfigFor, hcol] using hget
  have howned := ((OprcMetaManager.owned_iff (OprcMetaManager.ledger_new nodeId members) hok).2 hfresh).toOwned
  have hrec := OprcMetaManager.recorded_of_plan hok hfresh (length_requestOf hnodes hcol hfit)
    (by rw [has]; exact planOf_ne_nil requirements hnodes) (fun a ha => shardIds_ne_nil hnodes (has ▸ ha))
    (by rw [has]; exact ha) hid
  obtain ⟨s, hs, _, hcol', hpart⟩ := howned.row _ _ _ hrec
  exact ⟨s, hs, hcol', hpart⟩

end One

/-- **Planned ids arrive at their partition** if the unit has one collection at most, and its counts fit. -/
theorem planned_ids_survive_iff (checks : Bool) (nodeId : UInt64) (members : List UInt64) (cls : OClass)
    (deployment : OClassDeployment F) (o : OdgmDataSpec) (env id name ns : String) (merged : Option Crm.InvocationsSpec)
    (requirements : DeploymentRequirements) (ho : deployment.odgm = some o)
    (hnodes : ∃ e ids node, o.envNodeIds.get e = some ids ∧ node ∈ ids) :
    ((plannedIds (odgmConfigFor cls deployment env requirements o)).Nodup ∧
        PlanKept (OprcMetaManager.createAll checks (.new nodeId members)
            (requestsOf name ns merged (createDeploymentUnitsForEnv cls deployment env requirements id)))
          (odgmConfigFor cls deployment env requirements o)) ↔
      Fits o requirements := by
  obtain ⟨e, ids, node, hget, hnode⟩ := hnodes
  have hall := allNodes_ne_nil hget hnode
  obtain ⟨spec, hrequests⟩ := requestsOf_unit cls env requirements ho id name ns merged
  rw [hrequests]
  constructor
  · rintro ⟨hnd, hkept⟩
    have hone := length_le_one_of_nodup hall hnd
    refine ⟨hone, fun hne => ?_⟩
    obtain ⟨col, hcol⟩ : ∃ col, o.collections = [col] := by
      rcases hc : o.collections with _ | ⟨c, _ | ⟨c', cs⟩⟩
      · exact absurd hc hne
      · exact ⟨c, rfl⟩
      · simp [hc] at hone
    have hmem : col ∈ o.collections := by simp [hcol]
    rw [hcol, map_singleton, OprcMetaManager.createAll_singleton] at hkept
    have hcounts := counts_of_planKept hall hmem hkept
    have hparts := partitionsOf_le_of_planKept hall hmem hkept
    have hle : (sentPartitions o).toNat ≤ 2 ^ 16 := le_trans (le_max_left _ _) hparts
    exact ⟨by omega, hle, by omega, by omega⟩
  · rintro ⟨hone, hfits⟩
    refine ⟨nodup_plannedIds hall hone, ?_⟩
    rcases hc : o.collections with _ | ⟨col, _ | ⟨c', cs⟩⟩
    · intro col plan hplan
      exact absurd (mem_of_get_collectionAssignments hplan) (by simp [hc])
    · rw [map_singleton, OprcMetaManager.createAll_singleton]
      exact planKept_of_counts hall (get_collectionAssignments hall (by simp [hc])) (hfits (by simp [hc])) hc
    · simp [hc] at hone

end Pipeline

namespace Planned

def cls : OClass := ⟨"Counter", none, [], .empty⟩

variable (collections : List String)

def odgm : OdgmDataSpec :=
  ⟨collections, some 2, some 1, none, OrdMap.empty.insert "edge" [7], none, .empty, none⟩

def deployment : OClassDeployment Unit :=
  ⟨"counter", "demo", "Counter", ["edge"], [], none, .empty, [], some (odgm collections), none, none⟩

def requirements : DeploymentRequirements := ⟨1, 100, 1⟩

def config : OdgmConfig :=
  odgmConfigFor cls (deployment collections) "edge" requirements (odgm collections)

def table : OprcMetaManager :=
  OprcMetaManager.createAll true (.new 7 [7]) (requestsOf "counter-x" "default" none
    (createDeploymentUnitsForEnv cls (deployment collections) "edge" requirements "counter-x"))

theorem planned_ids_survive_one :
    (plannedIds (config ["a"])).Nodup ∧ PlanKept (table ["a"]) (config ["a"]) := by
  have hnodes : ∃ e ids node, (odgm ["a"]).envNodeIds.get e = some ids ∧ node ∈ ids := ⟨"edge", [7], 7, by decide +kernel⟩
  exact (planned_ids_survive_iff true 7 [7] cls (deployment ["a"]) (odgm ["a"]) "edge" "counter-x" "counter-x" "default" none
    requirements rfl hnodes).2 ⟨by decide, fun _ => ⟨by decide, by decide, by decide, by decide⟩⟩

/-- Both plans start at id 1, and the row of shard 1 is left with the second. -/
theorem second_collection_overwrites :
    ¬ (plannedIds (config ["a", "b"])).Nodup ∧
      ((table ["a", "b"]).shards.get 1).map (·.collection) = some "b" ∧
      ¬ PlanKept (table ["a", "b"]) (config ["a", "b"]) := by
  have hrow : ((table ["a", "b"]).shards.get 1).map (·.collection) = some "b" := by decide +kernel
  refine ⟨by decide +kernel, hrow, fun h => ?_⟩
  have hplan : (config ["a", "b"]).collectionAssignments.get "a" = some [⟨some 1, [7], [1]⟩, ⟨some 2, [7], [2]⟩] := by
    decide +kernel
  obtain ⟨s, hs, hcol, _⟩ := h "a" _ hplan 0 ⟨some 1, [7], [1]⟩ rfl 1 (by decide)
  rw [hs, Option.map_some, hcol, Option.some.injEq] at hrow
  exact absurd hrow (by decide)

end Planned

end Pm
