import OaasIot.Lib.OrdMap
import OaasIot.Lib.Words

/-!
# Messages between the planes (`commons/oprc-grpc/proto`)

A `ShardAssignmentSpec` is a `ShardAssignment` here, and the fields of a unit that no function below reads are left out.
A `map<string, _>` field is an `OrdMap`, since nothing depends on its iteration order.
-/

namespace Grpc

structure ShardAssignment where
  primary : Option UInt64
  replica : List UInt64
  shardIds : List UInt64
  deriving DecidableEq

structure FuncInvokeRoute where
  url : String
  stateless : Bool
  standby : Bool
  activeGroup : List UInt64
  wasmModuleUrl : Option String
  wasmFuel : Option UInt64
  deriving DecidableEq

structure InvocationRoute where
  fnRoutes : OrdMap String FuncInvokeRoute
  disabledFn : List String
  deriving DecidableEq

def InvocationRoute.default : InvocationRoute := ⟨.empty, []⟩

structure CreateCollectionRequest where
  name : String
  partitionCount : Int32
  replicaCount : Int32
  shardAssignments : List ShardAssignment
  shardType : String
  options : OrdMap String String
  invocations : Option InvocationRoute
  deriving DecidableEq

/-! ## Deployment units -/

structure ProvisionConfig where
  containerImage : Option String
  wasmModuleUrl : Option String
  wasmFuel : Option UInt64
  deriving DecidableEq

structure FunctionDeploymentSpec where
  functionKey : String
  provisionConfig : Option ProvisionConfig
  deriving DecidableEq

namespace FunctionDeploymentSpec

def containerImage (f : FunctionDeploymentSpec) : Option String := f.provisionConfig.bind (·.containerImage)
def wasmModuleUrl (f : FunctionDeploymentSpec) : Option String := f.provisionConfig.bind (·.wasmModuleUrl)
def wasmFuel (f : FunctionDeploymentSpec) : Option UInt64 := f.provisionConfig.bind (·.wasmFuel)

end FunctionDeploymentSpec

structure FunctionRoute where
  url : String
  stateless : Option Bool
  standby : Option Bool
  activeGroup : List UInt64
  functionKey : Option String
  deriving DecidableEq

structure InvocationRoutes where
  fnRoutes : OrdMap String FunctionRoute
  disabledFn : List String
  deriving DecidableEq

structure OdgmConfig where
  collections : List String
  partitionCount : Option UInt32
  replicaCount : Option UInt32
  shardType : Option String
  invocations : Option InvocationRoutes
  options : OrdMap String String
  log : Option String
  envNodeIds : OrdMap String (List UInt64)
  odgmNodeId : Option UInt64
  collectionAssignments : OrdMap String (List ShardAssignment)
  zenohMode : Option String
  deriving DecidableEq

structure ClassFunctionBinding where
  name : String
  functionKey : String
  stateless : Option Bool
  deriving DecidableEq

structure DeploymentUnit where
  id : String
  functions : List FunctionDeploymentSpec
  targetEnv : String
  functionBindings : List ClassFunctionBinding
  odgmConfig : Option OdgmConfig
  selectedTemplate : Option String
  deriving DecidableEq

end Grpc
