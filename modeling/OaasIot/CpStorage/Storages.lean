import OaasIot.Pm.Packages

/-!
# The storages of the control plane (`oprc-cp-storage`)

Packages, deployments and cluster mappings are kept in hash maps or in etcd, an ordered map from strings to strings
whose calls do not fail. `Json` is a parameter that reads back what it wrote. The order of a hash map shows in the order
of the lists only.
-/

namespace CpStorage

open Pm

variable {F : Type}

structure PackageFilter where
  namePattern : Option String
  author : Option String
  tags : List String
  deriving DecidableEq

structure DeploymentFilter where
  packageName : Option String
  classKey : Option String
  targetEnv : Option String
  deriving DecidableEq

def containsText (s pattern : String) : Bool := decide (pattern.toList <:+: s.toList)

def PackageFilter.passes (filter : PackageFilter) (p : OPackage F) : Bool :=
  (filter.namePattern.all fun pattern => containsText p.name pattern) &&
  (filter.author.all fun author => p.metadata.author == some author) &&
  (filter.tags.isEmpty || filter.tags.any fun tag => p.metadata.tags.contains tag)

def DeploymentFilter.passes (filter : DeploymentFilter) (d : OClassDeployment F) : Bool :=
  (filter.packageName.all fun name => d.packageName == name) &&
  (filter.classKey.all fun key => d.classKey == key) &&
  (filter.targetEnv.all fun env => d.targetEnvs.contains env)

/-! ## In memory -/

structure MemoryPackageStorage (F : Type) where
  store : OrdMap String (OPackage F)

namespace MemoryPackageStorage

variable (st : MemoryPackageStorage F)

def new : MemoryPackageStorage F := ⟨.empty⟩
def storePackage (p : OPackage F) : MemoryPackageStorage F := ⟨st.store.insert p.name p⟩
def getPackage (name : String) : Option (OPackage F) := st.store.get name
def listPackages (filter : PackageFilter) : List (OPackage F) := (st.store.toList.map Prod.snd).filter filter.passes
def deletePackage (name : String) : MemoryPackageStorage F := ⟨st.store.erase name⟩
def packageExists (name : String) : Bool := (st.store.get name).isSome

end MemoryPackageStorage

structure MemoryDeploymentStorage (F : Type) where
  store : OrdMap String (OClassDeployment F)
  clusterMappings : OrdMap String (OrdMap String String)

namespace MemoryDeploymentStorage

variable (st : MemoryDeploymentStorage F)

def new : MemoryDeploymentStorage F := ⟨.empty, .empty⟩
def storeDeployment (d : OClassDeployment F) : MemoryDeploymentStorage F := { st with store := st.store.insert d.key d }
def getDeployment (key : String) : Option (OClassDeployment F) := st.store.get key

def listDeployments (filter : DeploymentFilter) : List (OClassDeployment F) :=
  (st.store.toList.map Prod.snd).filter filter.passes

def deleteDeployment (key : String) : MemoryDeploymentStorage F := { st with store := st.store.erase key }
def deploymentExists (key : String) : Bool := (st.store.get key).isSome
def getClusterMappings (key : String) : OrdMap String String := (st.clusterMappings.get key).getD .empty

def saveClusterMapping (key cluster id : String) : MemoryDeploymentStorage F :=
  { st with clusterMappings := st.clusterMappings.insert key ((st.getClusterMappings key).insert cluster id) }

def removeClusterMappings (key : String) : MemoryDeploymentStorage F :=
  { st with clusterMappings := st.clusterMappings.erase key }

end MemoryDeploymentStorage

/-! ## In etcd -/

structure Json (α : Type) where
  toString : α → String
  fromSlice : String → Except String α
  lossless : ∀ a, fromSlice (toString a) = .ok a

inductive StorageError
  | serialization (msg : String)
  deriving DecidableEq

abbrev Kv := OrdMap String String

/-- `s.starts_with(p)`, as etcd and `strip_prefix` ask it. -/
def startsWith (p s : String) : Bool := p.toList.isPrefixOf s.toList

def Kv.getPrefix (kv : Kv) (p : String) : List (String × String) := kv.toList.filter fun x => startsWith p x.1
def Kv.deletePrefix (kv : Kv) (p : String) : Kv := kv.filterKeys fun k => !startsWith p k

def stripPrefix (p s : String) : Option String :=
  if startsWith p s then some (String.ofList (s.toList.drop p.toList.length)) else none

structure EtcdStorage (F : Type) where
  keyPrefix : String
  packageJson : Json (OPackage F)
  deploymentJson : Json (OClassDeployment F)

namespace EtcdStorage

variable (e : EtcdStorage F) (kv : Kv)

def packageKey (name : String) : String := e.keyPrefix ++ "/packages/" ++ name
def deploymentKey (key : String) : String := e.keyPrefix ++ "/deployments/" ++ key
def clusterMappingPrefix (key : String) : String := e.keyPrefix ++ "/deployments/" ++ key ++ "/clusters/"

def decode {α : Type} (json : Json α) (value : String) : Except StorageError α :=
  match json.fromSlice value with
  | .ok a => .ok a
  | .error msg => .error (.serialization msg)

def getDecoded {α : Type} (json : Json α) (key : String) : Except StorageError (Option α) :=
  match kv.get key with
  | some value => do
    let a ← decode json value
    pure (some a)
  | none => pure none

def decodeAll {α : Type} (json : Json α) : List (String × String) → Except StorageError (List α)
  | [] => pure []
  | x :: kvs => do
    let a ← decode json x.2
    let rest ← decodeAll json kvs
    pure (a :: rest)

def storePackage (p : OPackage F) : Kv := kv.insert (e.packageKey p.name) (e.packageJson.toString p)

def getPackage (name : String) : Except StorageError (Option (OPackage F)) :=
  getDecoded kv e.packageJson (e.packageKey name)

/-- The filter is not read (`_filter`). -/
def listPackages (_filter : PackageFilter) : Except StorageError (List (OPackage F)) :=
  decodeAll e.packageJson (kv.getPrefix (e.keyPrefix ++ "/packages/"))

def deletePackage (name : String) : Kv := kv.erase (e.packageKey name)
def packageExists (name : String) : Bool := (kv.get (e.packageKey name)).isSome
def storeDeployment (d : OClassDeployment F) : Kv := kv.insert (e.deploymentKey d.key) (e.deploymentJson.toString d)

def getDeployment (key : String) : Except StorageError (Option (OClassDeployment F)) :=
  getDecoded kv e.deploymentJson (e.deploymentKey key)

def listedDeployment (filter : DeploymentFilter) (x : String × String) : Option (OClassDeployment F) :=
  if (stripPrefix (e.keyPrefix ++ "/deployments/") x.1).any fun rest => rest.toList.contains '/' then none
  else
    match e.deploymentJson.fromSlice x.2 with
    | .ok d => if filter.passes d then some d else none
    | .error _ => none

def listDeployments (filter : DeploymentFilter) : List (OClassDeployment F) :=
  (kv.getPrefix (e.keyPrefix ++ "/deployments/")).filterMap (e.listedDeployment filter)

def deleteDeployment (key : String) : Kv := kv.erase (e.deploymentKey key)
def deploymentExists (key : String) : Bool := (kv.get (e.deploymentKey key)).isSome
def saveClusterMapping (key cluster id : String) : Kv := kv.insert (e.clusterMappingPrefix key ++ cluster) id

def getClusterMappings (key : String) : OrdMap String String :=
  OrdMap.empty.insertMany ((kv.getPrefix (e.clusterMappingPrefix key)).map fun x =>
    ((stripPrefix (e.clusterMappingPrefix key) x.1).getD x.1, x.2))

def removeClusterMappings (key : String) : Kv := kv.deletePrefix (e.clusterMappingPrefix key)

end EtcdStorage

/-! ## Calls -/

inductive StorageCall (F : Type)
  | storePackage (p : OPackage F)
  | getPackage (name : String)
  | listPackages (filter : PackageFilter)
  | deletePackage (name : String)
  | packageExists (name : String)
  | storeDeployment (d : OClassDeployment F)
  | getDeployment (key : String)
  | listDeployments (filter : DeploymentFilter)
  | deleteDeployment (key : String)
  | deploymentExists (key : String)
  | saveClusterMapping (key cluster id : String)
  | getClusterMappings (key : String)
  | removeClusterMappings (key : String)

inductive StorageAnswer (F : Type)
  | done
  | package (p : Option (OPackage F))
  | packages (ps : List (OPackage F))
  | deployment (d : Option (OClassDeployment F))
  | deployments (ds : List (OClassDeployment F))
  | found (b : Bool)
  | mappings (ms : OrdMap String String)

structure MemoryStorage (F : Type) where
  packages : MemoryPackageStorage F
  deployments : MemoryDeploymentStorage F

namespace MemoryStorage

def new : MemoryStorage F := ⟨.new, .new⟩

variable (m : MemoryStorage F)

def answer : StorageCall F → StorageAnswer F
  | .getPackage name => .package (m.packages.getPackage name)
  | .listPackages filter => .packages (m.packages.listPackages filter)
  | .packageExists name => .found (m.packages.packageExists name)
  | .getDeployment key => .deployment (m.deployments.getDeployment key)
  | .listDeployments filter => .deployments (m.deployments.listDeployments filter)
  | .deploymentExists key => .found (m.deployments.deploymentExists key)
  | .getClusterMappings key => .mappings (m.deployments.getClusterMappings key)
  | _ => .done

def after : StorageCall F → MemoryStorage F
  | .storePackage p => { m with packages := m.packages.storePackage p }
  | .deletePackage name => { m with packages := m.packages.deletePackage name }
  | .storeDeployment d => { m with deployments := m.deployments.storeDeployment d }
  | .deleteDeployment key => { m with deployments := m.deployments.deleteDeployment key }
  | .saveClusterMapping key cluster id => { m with deployments := m.deployments.saveClusterMapping key cluster id }
  | .removeClusterMappings key => { m with deployments := m.deployments.removeClusterMappings key }
  | _ => m

end MemoryStorage

namespace EtcdStorage

variable (e : EtcdStorage F) (kv : Kv)

def answer : StorageCall F → Except StorageError (StorageAnswer F)
  | .getPackage name => do
    let p ← e.getPackage kv name
    pure (.package p)
  | .listPackages filter => do
    let ps ← e.listPackages kv filter
    pure (.packages ps)
  | .packageExists name => pure (.found (e.packageExists kv name))
  | .getDeployment key => do
    let d ← e.getDeployment kv key
    pure (.deployment d)
  | .listDeployments filter => pure (.deployments (e.listDeployments kv filter))
  | .deploymentExists key => pure (.found (e.deploymentExists kv key))
  | .getClusterMappings key => pure (.mappings (e.getClusterMappings kv key))
  | _ => pure .done

def after : StorageCall F → Kv
  | .storePackage p => e.storePackage kv p
  | .deletePackage name => e.deletePackage kv name
  | .storeDeployment d => e.storeDeployment kv d
  | .deleteDeployment key => e.deleteDeployment kv key
  | .saveClusterMapping key cluster id => e.saveClusterMapping kv key cluster id
  | .removeClusterMappings key => e.removeClusterMappings kv key
  | _ => kv

end EtcdStorage

end CpStorage
