import OaasIot.Grpc.Messages

/-!
# Deployment units (`oprc-pm/src/services/deployment`)

A deployment becomes one unit per target environment, with the plan of every ODGM collection: for each partition the
nodes of its replicas and the ids of their shards. `F` is the type of the availabilities; the id of a unit is drawn at
random, so it is an argument.
-/

open Grpc

namespace Pm

open List

inductive ConsistencyModel
  | none
  | readYourWrite
  | boundedStaleness
  | strong
  deriving DecidableEq

structure StateSpecification where
  consistencyModel : ConsistencyModel
  persistent : Bool
  deriving DecidableEq

structure FunctionBinding where
  name : String
  functionKey : String
  stateless : Bool
  deriving DecidableEq

structure OClass where
  key : String
  stateSpec : Option StateSpecification
  functionBindings : List FunctionBinding
  options : OrdMap String String
  deriving DecidableEq

structure OdgmDataSpec where
  collections : List String
  partitionCount : Option UInt32
  replicaCount : Option UInt32
  shardType : Option String
  envNodeIds : OrdMap String (List UInt64)
  log : Option String
  options : OrdMap String String
  zenohMode : Option String
  deriving DecidableEq

structure DeploymentStatusSummary (F : Type) where
  replicationFactor : UInt32
  selectedEnvs : List String
  achievedQuorumAvailability : Option F
  lastError : Option String
  deriving DecidableEq

structure OClassDeployment (F : Type) where
  key : String
  packageName : String
  classKey : String
  targetEnvs : List String
  availableEnvs : List String
  availability : Option F
  envTemplates : OrdMap String String
  functions : List FunctionDeploymentSpec
  odgm : Option OdgmDataSpec
  status : Option (DeploymentStatusSummary F)
  updatedAt : Option Nat
  deriving DecidableEq

structure DeploymentRequirements where
  minReplicas : UInt32
  maxReplicas : UInt32
  targetReplicas : UInt32
  deriving DecidableEq

/-! ## The plan of one collection -/

def primaryIndex (counts : List Nat) : Nat := counts.findIdx fun c => counts.all fun d => c ≤ d

def takeShardIds : Nat → UInt64 → List UInt64 × UInt64
  | 0, next => ([], next)
  | n + 1, next =>
    let (ids, next') := takeShardIds n (next + 1)
    (next :: ids, next')

def replicaNodes (members : List UInt64) (replicas primary : Nat) : List UInt64 :=
  (List.range replicas).filterMap fun i => members[(primary + i) % members.length]?

def assignPartitions (replicas : Nat) (members : List UInt64) : Nat → List Nat → UInt64 → List ShardAssignment
  | 0, _, _ => []
  | n + 1, primaryCounts, nextShardId =>
    let primary := primaryIndex primaryCounts
    let (shardIds, next) := takeShardIds replicas nextShardId
    ⟨shardIds.head?, replicaNodes members replicas primary, shardIds⟩ ::
      assignPartitions replicas members n (primaryCounts.modify primary (· + 1)) next

def generateShardAssignmentsSpec (partitionCount replicaCount : Nat) (members : List UInt64) : List ShardAssignment :=
  if partitionCount = 0 ∨ replicaCount = 0 ∨ members = [] then []
  else assignPartitions replicaCount members partitionCount (List.replicate members.length 0) 1

/-! ## The unit of one environment -/

def allNodes (o : OdgmDataSpec) : List UInt64 :=
  ((o.envNodeIds.toList.flatMap Prod.snd).insertionSort (· ≤ ·)).destutter (· ≠ ·)

def partitionsOf (o : OdgmDataSpec) : Nat := max (o.partitionCount.getD 1).toNat 1

def replicasOf (o : OdgmDataSpec) (requirements : DeploymentRequirements) : Nat :=
  max (o.replicaCount.getD requirements.targetReplicas).toNat 1

def collectionAssignments (o : OdgmDataSpec) (requirements : DeploymentRequirements) :
    OrdMap String (List ShardAssignment) :=
  if allNodes o = [] then .empty
  else OrdMap.empty.insertMany
    (o.collections.map fun col =>
      (col, generateShardAssignmentsSpec (partitionsOf o) (replicasOf o requirements) (allNodes o)))

def invocationRoutes (cls : OClass) (functions : List FunctionDeploymentSpec) : Option InvocationRoutes :=
  if cls.functionBindings.isEmpty then none
  else
    let bound := cls.functionBindings.filter fun b => functions.any fun f => f.functionKey == b.functionKey
    some
      { fnRoutes := OrdMap.empty.insertMany
          (bound.map fun b => (b.name, ⟨"", some b.stateless, some false, [], some b.functionKey⟩))
        disabledFn := [] }

def mergedOptions (packageName : String) (cls : OClass) (o : OdgmDataSpec) : OrdMap String String :=
  let merged := cls.options.insertMany o.options.toList
  let persistent := (cls.stateSpec.map (·.persistent)).getD false
  if (merged.get "storage_backend").isSome || !persistent then merged
  else
    let merged := merged.insert "storage_backend" "fjall"
    if (merged.get "storage_path").isSome then merged
    else
      let col := o.collections.head?.getD (packageName ++ "." ++ cls.key)
      merged.insert "storage_path" ("/data/odgm/" ++ col)

def shardTypeOf (cls : OClass) (o : OdgmDataSpec) : String :=
  o.shardType.getD (if cls.stateSpec.map (·.consistencyModel) = some .strong then "raft" else "mst")

section Units

variable {F : Type}

def odgmConfigFor (cls : OClass) (deployment : OClassDeployment F) (env : String) (requirements : DeploymentRequirements)
    (o : OdgmDataSpec) : OdgmConfig :=
  { collections := o.collections
    partitionCount := o.partitionCount
    replicaCount := o.replicaCount.or (some requirements.targetReplicas)
    shardType := some (shardTypeOf cls o)
    invocations := invocationRoutes cls deployment.functions
    options := mergedOptions deployment.packageName cls o
    log := o.log
    envNodeIds := o.envNodeIds
    odgmNodeId := ((o.envNodeIds.get env).getD []).head?
    collectionAssignments := collectionAssignments o requirements
    zenohMode := o.zenohMode }

def createDeploymentUnitsForEnv (cls : OClass) (deployment : OClassDeployment F) (env : String)
    (requirements : DeploymentRequirements) (id : String) : DeploymentUnit :=
  { id
    functions := deployment.functions.map fun f => ⟨f.functionKey, some (f.provisionConfig.getD ⟨none, none, none⟩)⟩
    targetEnv := env
    functionBindings := cls.functionBindings.map fun b => ⟨b.name, b.functionKey, some b.stateless⟩
    odgmConfig := deployment.odgm.map (odgmConfigFor cls deployment env requirements)
    selectedTemplate := deployment.envTemplates.get env }

def createDeploymentUnits (cls : OClass) (deployment : OClassDeployment F) (requirements : DeploymentRequirements)
    (ids : Nat → String) : List DeploymentUnit :=
  deployment.targetEnvs.zipIdx.map fun x => createDeploymentUnitsForEnv cls deployment x.1 requirements (ids x.2)

end Units

/-! ## What a plan contains -/

theorem takeShardIds_eq (n : Nat) (x : UInt64) : takeShardIds n x = (wordsFrom x n, x + .ofNat n) := by
  induction n generalizing x with
  | zero => simp [takeShardIds, wordsFrom]
  | succ n ih => simp [takeShardIds, ih, wordsFrom_succ, UInt64.ofNat_add, UInt64.add_assoc, UInt64.add_comm]

section Plan

variable {replicas : Nat} {members : List UInt64}

theorem shardIds_assignPartitions (n : Nat) (counts : List Nat) (x : UInt64) :
    (assignPartitions replicas members n counts x).map (·.shardIds) = wordBlocks replicas n x := by
  induction n generalizing counts x with
  | zero => rfl
  | succ n ih => simp [assignPartitions, takeShardIds_eq, wordBlocks, ih]

theorem mem_assignPartitions {n : Nat} {counts : List Nat} {x : UInt64} {a : ShardAssignment}
    (h : a ∈ assignPartitions replicas members n counts x) :
    (∃ y, a.shardIds = wordsFrom y replicas) ∧ (∃ p, a.replica = replicaNodes members replicas p) ∧
      a.primary = a.shardIds.head? := by
  induction n generalizing counts x with
  | zero => simp [assignPartitions] at h
  | succ n ih =>
    simp only [assignPartitions, takeShardIds_eq, mem_cons] at h
    rcases h with rfl | h
    · exact ⟨⟨x, rfl⟩, ⟨_, rfl⟩, rfl⟩
    · exact ih h

theorem length_replicaNodes (hm : members ≠ []) (replicas p : Nat) : (replicaNodes members replicas p).length = replicas := by
  have hpos : 0 < members.length := length_pos_iff.2 hm
  rw [replicaNodes, filterMap_length_eq_length.2, length_range]
  intro i _
  simpa using Nat.mod_lt _ hpos

theorem generateShardAssignmentsSpec_eq_assign {n : Nat} (hp : 0 < n) (hr : 0 < replicas) (hm : members ≠ []) :
    generateShardAssignmentsSpec n replicas members =
      assignPartitions replicas members n (replicate members.length 0) 1 := by
  rw [generateShardAssignmentsSpec, if_neg]
  rintro (h | h | h)
  · omega
  · omega
  · exact hm h

theorem shardIds_generated {n : Nat} (hp : 0 < n) (hr : 0 < replicas) (hm : members ≠ []) :
    (generateShardAssignmentsSpec n replicas members).map (·.shardIds) = wordBlocks replicas n 1 := by
  rw [generateShardAssignmentsSpec_eq_assign hp hr hm, shardIds_assignPartitions]

theorem shape_generated (hm : members ≠ []) {n : Nat} {a : ShardAssignment}
    (ha : a ∈ generateShardAssignmentsSpec n replicas members) :
    a.replica.length = replicas ∧ a.shardIds.length = replicas ∧ ∀ p ∈ a.primary, p ∈ a.shardIds := by
  unfold generateShardAssignmentsSpec at ha
  split at ha
  · cases ha
  · obtain ⟨⟨y, hids⟩, ⟨p, hreplica⟩, hprimary⟩ := mem_assignPartitions ha
    refine ⟨by rw [hreplica, length_replicaNodes hm], by simp [hids, wordsFrom], fun q hq => ?_⟩
    rw [hprimary] at hq
    exact mem_of_head? hq

theorem mem_replicaNodes {replicas p : Nat} {n : UInt64} :
    n ∈ replicaNodes members replicas p ↔ ∃ i < replicas, members[(p + i) % members.length]? = some n := by
  simp [replicaNodes]

theorem card_replicaNodes (hm : members ≠ []) (hnodup : members.Nodup) (replicas p : Nat) :
    (replicaNodes members replicas p).toFinset.card = min replicas members.length := by
  have hpos : 0 < members.length := length_pos_iff.2 hm
  have hring : ∀ i, members[(p + i) % members.length]? = some (members.getD ((p + i) % members.length) 0) := by
    intro i
    rw [getD_eq_getElem?_getD, getElem?_eq_getElem (Nat.mod_lt _ hpos), Option.getD_some]
  have himage : (replicaNodes members replicas p).toFinset =
      (Finset.range (min replicas members.length)).image fun i => members.getD ((p + i) % members.length) 0 := by
    ext n
    rw [mem_toFinset, mem_replicaNodes, Finset.mem_image]
    constructor
    · rintro ⟨i, hi, hn⟩
      have hmod := Nat.mod_lt i hpos
      have hle := Nat.mod_le i members.length
      refine ⟨i % members.length, Finset.mem_range.2 (by omega), ?_⟩
      rw [Nat.add_mod_mod]
      exact Option.some.inj ((hring i).symm.trans hn)
    · rintro ⟨i, hi, rfl⟩
      have := Finset.mem_range.1 hi
      exact ⟨i, by omega, hring i⟩
  rw [himage, Finset.card_image_of_injOn, Finset.card_range]
  intro i hi j hj hnode
  have hi := Finset.mem_range.1 hi
  have hj := Finset.mem_range.1 hj
  have hmod : (p + i) % members.length = (p + j) % members.length := by
    refine (getElem?_inj (Nat.mod_lt _ hpos) hnodup).1 ?_
    rw [hring, hring]
    exact congrArg some hnode
  have hcancel : i % members.length = j % members.length := Nat.ModEq.add_left_cancel' p hmod
  rwa [Nat.mod_eq_of_lt (by omega), Nat.mod_eq_of_lt (by omega)] at hcancel

end Plan

/-! ## The nodes of a plan -/

variable {α : Type} {l : List α}

theorem mem_destutter'_ne [DecidableEq α] {x a : α} (h : x ∈ a :: l) : x ∈ l.destutter' (· ≠ ·) a := by
  induction l generalizing a with
  | nil => simpa using h
  | cons b l ih =>
    by_cases hab : a = b
    · subst hab
      rw [destutter'_cons_neg _ (by simp)]
      exact ih (by simpa using h)
    · rw [destutter'_cons_pos _ hab]
      rcases mem_cons.1 h with rfl | h
      · exact mem_cons_self
      · exact mem_cons_of_mem _ (ih h)

theorem mem_destutter_ne [DecidableEq α] {x : α} : x ∈ l.destutter (· ≠ ·) ↔ x ∈ l := by
  refine ⟨fun h => (destutter_sublist _ l).mem h, fun h => ?_⟩
  cases l with
  | nil => exact h
  | cons a l => exact mem_destutter'_ne h

theorem nodup_destutter_ne [LinearOrder α] (h : l.Pairwise (· ≤ ·)) : (l.destutter (· ≠ ·)).Nodup := by
  have hle : (l.destutter (· ≠ ·)).Pairwise (· ≤ ·) := h.sublist (destutter_sublist _ l)
  have hne : (l.destutter (· ≠ ·)).IsChain (· ≠ ·) := isChain_destutter _ l
  have hlt : (l.destutter (· ≠ ·)).IsChain (· < ·) := by
    rw [isChain_iff_getElem] at hne ⊢
    intro i hi
    exact lt_of_le_of_ne (isChain_iff_getElem.1 hle.isChain i hi) (hne i hi)
  exact (isChain_iff_pairwise.1 hlt).imp ne_of_lt
theorem mem_allNodes {o : OdgmDataSpec} {n : UInt64} :
    n ∈ allNodes o ↔ ∃ env ids, o.envNodeIds.get env = some ids ∧ n ∈ ids := by
  rw [allNodes, mem_destutter_ne, (perm_insertionSort _ _).mem_iff, mem_flatMap]
  constructor
  · rintro ⟨x, hx, hn⟩
    exact ⟨x.1, x.2, OrdMap.get_eq_some.2 hx, hn⟩
  · rintro ⟨env, ids, hget, hn⟩
    exact ⟨(env, ids), OrdMap.get_eq_some.1 hget, hn⟩

theorem nodup_allNodes (o : OdgmDataSpec) : (allNodes o).Nodup :=
  nodup_destutter_ne (pairwise_insertionSort _ _)

end Pm
