import OaasIot.Pm.Units

/-!
# How many replicas a deployment needs (`oprc-pm/src/services/deployment`)

The arithmetic is that of `f64`. The model takes its operations as a parameter (`FloatOps`): what is proved holds
whatever they compute. A comparison of two numbers may have no answer (`partial_cmp`).
-/

namespace Pm

structure FloatOps (F : Type) where
  zero : F
  one : F
  defaultTarget : F
  maxTarget : F
  ratio : UInt32 → UInt32 → F
  add : F → F → F
  sub : F → F → F
  mul : F → F → F
  partialCmp : F → F → Option Ordering

variable {F : Type}

namespace FloatOps

variable (fl : FloatOps F)

def lt (a b : F) : Bool := fl.partialCmp a b == some .lt
def ge (a b : F) : Bool := fl.partialCmp a b == some .gt || fl.partialCmp a b == some .eq
def clamp (lo hi x : F) : F := if fl.lt x lo then lo else if fl.lt hi x then hi else x

def before (a b : F) : Prop := (fl.partialCmp a b).getD .eq ≠ .gt

instance : DecidableRel fl.before := fun _ _ => inferInstanceAs (Decidable (_ ≠ _))

end FloatOps

/-! ## Quorums -/

section Quorum

variable (fl : FloatOps F)

def spread (p : F) : F → List F → List F
  | carry, [] => [carry]
  | carry, base :: rest =>
    fl.add carry (fl.mul base (fl.sub fl.one p)) :: spread p (fl.add fl.zero (fl.mul base p)) rest

def clusterQuorumAvailability (avails : List F) : F :=
  if avails.isEmpty then fl.zero
  else
    let dist := avails.foldl (fun dist p => spread fl p fl.zero dist) [fl.one]
    (dist.drop (avails.length / 2 + 1)).foldl fl.add fl.zero

def quorumLoop (t : F) (maxR : Nat) : List F → Nat → List F → Option Nat
  | _, _, [] => none
  | current, i, p :: ps =>
    let current := current ++ [fl.clamp fl.zero fl.one p]
    if fl.ge (clusterQuorumAvailability fl current) t then some (i + 1)
    else if maxR ≤ i + 1 then none
    else quorumLoop t maxR current (i + 1) ps

def requiredReplicasQuorum (target : F) (sortedWorstFirst : List F) (maxR : Nat) : Nat :=
  let t := fl.clamp fl.zero fl.maxTarget target
  if sortedWorstFirst.isEmpty then 1
  else (quorumLoop fl t maxR [] 0 sortedWorstFirst).getD (max (min sortedWorstFirst.length maxR) 1)

end Quorum

/-! ## Requirements -/

structure ClusterHealth (F : Type) where
  availability : Option F
  readyNodes : Option UInt32
  nodeCount : Option UInt32

inductive DeploymentError
  | invalid (msg : String)
  | notFound (key : String)
  deriving DecidableEq

def healthRatio (fl : FloatOps F) (cluster : String) : Except String (ClusterHealth F) → Except DeploymentError F
  | .error e => .error (.invalid ("Failed to get cluster health for " ++ cluster ++ ": " ++ e))
  | .ok h =>
    match h.availability, h.readyNodes, h.nodeCount with
    | some av, _, _ => .ok (fl.clamp fl.zero fl.one av)
    | none, some r, some n =>
      if n = 0 then .error (.invalid ("Cluster " ++ cluster ++ " reported zero nodes"))
      else .ok (fl.clamp fl.zero fl.one (fl.ratio r n))
    | none, _, _ => .error (.invalid ("Cluster " ++ cluster ++ " missing availability and ready/node counts"))

def strongReplicas (target : Nat) : Nat :=
  let f := max (target / 2 + 1 - 1) 1
  min (max target (2 * f + 1)) 50

def isStrong (cls : OClass) : Bool := cls.stateSpec.map (·.consistencyModel) = some .strong

def targetAvailability (fl : FloatOps F) : Option F → F
  | some a => if fl.ge a fl.zero && fl.ge fl.one a then a else fl.defaultTarget
  | none => fl.defaultTarget

def targetReplicas (fl : FloatOps F) (cls : OClass) (availability : Option F) (ratios : List F) : Nat :=
  let base := requiredReplicasQuorum fl (targetAvailability fl availability) (ratios.insertionSort fl.before) 50
  if isStrong cls then strongReplicas base else base

def calculateRequirements (fl : FloatOps F) (cls : OClass) (deployment : OClassDeployment F)
    (health : Nat → Except String (ClusterHealth F)) : Except DeploymentError DeploymentRequirements := do
  let ratios ← deployment.targetEnvs.zipIdx.mapM fun x => healthRatio fl x.1 (health x.2)
  if ratios.isEmpty then .error (.invalid "No cluster health data available for availability calculation")
  else .ok ⟨1, 100, .ofNat (targetReplicas fl cls deployment.availability ratios)⟩

/-! ## Bounds -/

variable (fl : FloatOps F)

theorem quorumLoop_bounds {t : F} {maxR i n : Nat} {current ps : List F} (hi : i < maxR)
    (h : quorumLoop fl t maxR current i ps = some n) : 1 ≤ n ∧ n ≤ maxR := by
  induction ps generalizing current i with
  | nil => cases h
  | cons p ps ih =>
    unfold quorumLoop at h
    dsimp only at h
    split at h
    · obtain rfl := Option.some.inj h
      omega
    · split at h
      · cases h
      · rename_i hmax
        exact ih (by omega) h

theorem requiredReplicasQuorum_bounds (target : F) (ps : List F) {maxR : Nat} (hmax : 0 < maxR) :
    1 ≤ requiredReplicasQuorum fl target ps maxR ∧ requiredReplicasQuorum fl target ps maxR ≤ maxR := by
  unfold requiredReplicasQuorum
  dsimp only
  split
  · omega
  · cases hloop : quorumLoop fl (fl.clamp fl.zero fl.maxTarget target) maxR [] 0 ps with
    | none => simp only [Option.getD_none]; omega
    | some n => exact quorumLoop_bounds fl hmax hloop

theorem strongReplicas_bounds {n : Nat} (h : n ≤ 50) :
    3 ≤ strongReplicas n ∧ n ≤ strongReplicas n ∧ strongReplicas n ≤ 50 := by
  unfold strongReplicas
  dsimp only
  omega

theorem targetReplicas_bounds (cls : OClass) (availability : Option F) (ratios : List F) :
    (1 ≤ targetReplicas fl cls availability ratios ∧ targetReplicas fl cls availability ratios ≤ 50) ∧
      (isStrong cls = true → 3 ≤ targetReplicas fl cls availability ratios) := by
  have hbase := requiredReplicasQuorum_bounds fl (targetAvailability fl availability) (ratios.insertionSort fl.before)
    (show 0 < 50 by omega)
  have hstrong := strongReplicas_bounds hbase.2
  unfold targetReplicas
  dsimp only
  split
  · exact ⟨by omega, fun _ => hstrong.1⟩
  · rename_i hweak
    exact ⟨hbase, fun h => absurd h hweak⟩

end Pm
