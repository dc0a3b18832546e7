import OaasIot.Crm.Naming
import OaasIot.Grpc.Messages

/-!
# From a deployment unit to a ClassRuntime (`oprc-crm/src/grpc/builders/class_runtime.rs`)

The spec keeps the functions that have an image or a module (`buildFunctions`), while the routes are numbered over
**all functions of the unit** (`fkIndex`).
-/

open Grpc

namespace Crm

structure FunctionRoute where
  url : String
  wasmModuleUrl : Option String
  wasmFuel : Option UInt64
  stateless : Option Bool
  standby : Option Bool
  activeGroup : List UInt64
  functionKey : Option String
  deriving DecidableEq

structure InvocationsSpec where
  fnRoutes : OrdMap String FunctionRoute
  disabledFn : List String
  deriving DecidableEq

structure OdgmConfigSpec where
  collections : Option (List String)
  partitionCount : Option Int32
  replicaCount : Option Int32
  shardType : Option String
  invocations : Option InvocationsSpec
  options : Option (OrdMap String String)
  log : Option String
  envNodeIds : OrdMap String (List UInt64)
  zenohMode : Option String
  nodeId : Option UInt64
  collectionAssignments : OrdMap String (List ShardAssignment)
  deriving DecidableEq

structure NfrRequirementsSpec where
  minThroughputRps : Option UInt32
  maxLatencyMs : Option UInt32
  availabilityPct : Option Float32
  consistency : Option String

structure ClassRuntimeSpec where
  selectedTemplate : Option String
  addons : Option (List String)
  odgmConfig : Option OdgmConfigSpec
  functions : List FunctionDeploymentSpec
  nfrRequirements : Option NfrRequirementsSpec

namespace Builder

structure Indexed where
  idx : Nat
  wasmUrl : Option String
  wasmFuel : Option UInt64
  deriving DecidableEq

/-- Function key to function; of several with one key the last (class_runtime.rs:168-186). -/
def fkIndex (functions : List FunctionDeploymentSpec) : OrdMap String Indexed :=
  OrdMap.empty.insertMany
    (functions.zipIdx.map fun x => (x.1.functionKey, ⟨x.2, x.1.wasmModuleUrl, x.1.wasmFuel⟩))

/-- Binding name to function key; of several with one name the last. -/
def bindingIndex (bindings : List ClassFunctionBinding) : OrdMap String String :=
  OrdMap.empty.insertMany (bindings.map fun b => (b.name, b.functionKey))

section Build

variable (name : String) (du : DeploymentUnit)

def routeFromProto (k : String) (v : Grpc.FunctionRoute) : FunctionRoute :=
  let resolvedFk := v.functionKey.or ((bindingIndex du.functionBindings).get k)
  let found := resolvedFk.bind fun fk => (fkIndex du.functions).get fk
  let target : String × Option String :=
    match resolvedFk, found with
    | some fk, some f =>
      match f.wasmUrl with
      | some moduleUrl => ("wasm://" ++ fk, some moduleUrl)
      | none => (functionServiceUrl name f.idx du.functions.length, none)
    | _, _ => (v.url, none)
  { url := target.1, wasmModuleUrl := target.2, wasmFuel := found.bind (·.wasmFuel), stateless := v.stateless
    standby := v.standby, activeGroup := v.activeGroup, functionKey := resolvedFk }

def mapInvocationsFromProto (cfg : OdgmConfig) : Option InvocationsSpec :=
  cfg.invocations.map fun inv => ⟨inv.fnRoutes.mapWithKey (routeFromProto name du), inv.disabledFn⟩

def routeFromBinding (b : ClassFunctionBinding) : Option FunctionRoute :=
  ((fkIndex du.functions).get b.functionKey).map fun f =>
    let target : String × Option String :=
      match f.wasmUrl with
      | some moduleUrl => ("wasm://" ++ b.functionKey, some moduleUrl)
      | none => ("http://" ++ functionServiceName name f.idx du.functions.length, none)
    { url := target.1, wasmModuleUrl := target.2, wasmFuel := f.wasmFuel, stateless := b.stateless
      standby := some false, activeGroup := [], functionKey := some b.functionKey }

def invocationsFromBindings : Option InvocationsSpec :=
  if du.functionBindings.isEmpty || du.functions.isEmpty then none
  else
    let routes := OrdMap.empty.insertMany
      (du.functionBindings.filterMap fun b => (routeFromBinding name du b).map fun r => (b.name, r))
    if routes.toList.isEmpty then none else some ⟨routes, []⟩

def buildOdgmConfig : Option OdgmConfigSpec :=
  match du.odgmConfig with
  | some cfg => some
      { collections := if cfg.collections.isEmpty then none else some cfg.collections
        partitionCount := cfg.partitionCount.map (·.toInt32)
        replicaCount := cfg.replicaCount.map (·.toInt32)
        shardType := cfg.shardType
        invocations := (mapInvocationsFromProto name du cfg).or (invocationsFromBindings name du)
        options := if cfg.options.toList.isEmpty then none else some cfg.options
        log := cfg.log
        envNodeIds := cfg.envNodeIds
        zenohMode := cfg.zenohMode
        nodeId := cfg.odgmNodeId
        collectionAssignments := cfg.collectionAssignments }
  | none =>
    if du.functions.isEmpty then none
    else some
      { collections := some [name], partitionCount := some 1, replicaCount := some 1, shardType := some "mst"
        invocations := some ⟨.empty, []⟩, options := none, log := none, envNodeIds := .empty, zenohMode := none
        nodeId := none, collectionAssignments := .empty }

def Kept (f : FunctionDeploymentSpec) : Bool := f.containerImage.isSome || f.wasmModuleUrl.isSome
def buildFunctions : List FunctionDeploymentSpec := du.functions.filter Kept

/-- The spec of the runtime `name` (no addons and no requirements are set). -/
def build : ClassRuntimeSpec :=
  { selectedTemplate := du.selectedTemplate, addons := none, odgmConfig := buildOdgmConfig name du
    functions := buildFunctions du, nfrRequirements := none }

end Build

end Builder
end Crm
