import OaasIot.Pm.Requirements

/-!
# Packages (`oprc-models/src/package.rs`, `oprc-pm/src/services/validation.rs`)

Versions, descriptions, times, the type of a function and its environment are read by nothing below and left out.
-/

open Grpc

namespace Pm

structure OFunction where
  key : String
  provisionConfig : Option ProvisionConfig
  deriving DecidableEq

structure PackageMetadata where
  author : Option String := none
  description : Option String := none
  tags : List String := []
  createdAt : Option Nat := none
  updatedAt : Option Nat := none
  deriving DecidableEq

structure OPackage (F : Type) where
  name : String
  metadata : PackageMetadata
  classes : List OClass
  functions : List OFunction
  dependencies : List String
  deployments : List (OClassDeployment F)
  deriving DecidableEq

inductive PackageError
  | notFound (name : String)
  | alreadyExists (name : String)
  | invalid (msg : String)
  | dependencyNotFound (name : String)
  | circularDependency (msg : String)
  deriving DecidableEq

def PackageError.display : PackageError → String
  | .notFound name => "Package not found: " ++ name
  | .alreadyExists name => "Package already exists: " ++ name
  | .invalid msg => "Invalid package: " ++ msg
  | .dependencyNotFound name => "Dependency not found: " ++ name
  | .circularDependency msg => "Circular dependency detected: " ++ msg

def DeploymentError.display : DeploymentError → String
  | .invalid msg => "Invalid deployment: " ++ msg
  | .notFound key => "Deployment not found: " ++ key

inductive PackageManagerError
  | package (e : PackageError)
  | deployment (e : DeploymentError)
  deriving DecidableEq

def PackageManagerError.display : PackageManagerError → String
  | .package e => "Package error: " ++ e.display
  | .deployment e => "Deployment error: " ++ e.display

variable {F : Type}

/-! ## Validation -/

namespace PackageValidator

def validatePackageStructure (p : OPackage F) : Except PackageError Unit :=
  if p.name.isEmpty then .error (.invalid "Package name cannot be empty")
  else if ' ' ∈ p.name.toList then .error (.invalid "Package name cannot contain spaces")
  else .ok ()

def checkBindings (bad : FunctionBinding → Bool) (msg : OClass → FunctionBinding → String) (p : OPackage F) :
    Except PackageError Unit :=
  match (p.classes.flatMap fun cls => cls.functionBindings.map (cls, ·)).find? fun x => bad x.2 with
  | some x => .error (.invalid (msg x.1 x.2))
  | none => .ok ()

def validateClassFunctionConsistency (p : OPackage F) : Except PackageError Unit :=
  checkBindings (fun b => !(p.functions.map OFunction.key).contains b.functionKey)
    (fun cls b => "Class " ++ cls.key ++ " references non-existent function: " ++ b.functionKey) p

def validateFunctionBindings (p : OPackage F) : Except PackageError Unit :=
  checkBindings (fun b => b.functionKey.isEmpty)
    (fun cls _ => "Class " ++ cls.key ++ " has empty function key in binding") p

def validate (p : OPackage F) : Except PackageError Unit := do
  validatePackageStructure p
  validateClassFunctionConsistency p
  validateFunctionBindings p

end PackageValidator

structure OPackage.Valid (p : OPackage F) : Prop where
  named : p.name.isEmpty = false
  spaceless : ' ' ∉ p.name.toList
  bound : ∀ cls ∈ p.classes, ∀ b ∈ cls.functionBindings, b.functionKey ∈ p.functions.map OFunction.key
  keyed : ∀ cls ∈ p.classes, ∀ b ∈ cls.functionBindings, b.functionKey.isEmpty = false

theorem checkBindings_ok_iff {bad : FunctionBinding → Bool} {msg : OClass → FunctionBinding → String} {p : OPackage F} :
    PackageValidator.checkBindings bad msg p = .ok () ↔
      ∀ cls ∈ p.classes, ∀ b ∈ cls.functionBindings, bad b = false := by
  have hnone : (p.classes.flatMap fun cls => cls.functionBindings.map (cls, ·)).find? (fun x => bad x.2) = none ↔
      ∀ cls ∈ p.classes, ∀ b ∈ cls.functionBindings, bad b = false := by
    simp only [List.find?_eq_none, List.mem_flatMap, List.mem_map, Bool.not_eq_true]
    constructor
    · intro h cls hcls b hb
      exact h (cls, b) ⟨cls, hcls, b, hb, rfl⟩
    · rintro h _ ⟨cls, hcls, b, hb, rfl⟩
      exact h cls hcls b hb
  rw [← hnone, PackageValidator.checkBindings]
  split
  · rename_i x hx
    simp [hx]
  · rename_i hx
    simp [hx]

theorem validate_ok_iff (p : OPackage F) : PackageValidator.validate p = .ok () ↔ p.Valid := by
  have hconsistent : PackageValidator.validateClassFunctionConsistency p = .ok () ↔
      ∀ cls ∈ p.classes, ∀ b ∈ cls.functionBindings, b.functionKey ∈ p.functions.map OFunction.key := by
    rw [PackageValidator.validateClassFunctionConsistency, checkBindings_ok_iff]
    simp
  have hkeyed : PackageValidator.validateFunctionBindings p = .ok () ↔
      ∀ cls ∈ p.classes, ∀ b ∈ cls.functionBindings, b.functionKey.isEmpty = false := checkBindings_ok_iff
  have hvalid : p.Valid ↔ PackageValidator.validatePackageStructure p = .ok () ∧
      PackageValidator.validateClassFunctionConsistency p = .ok () ∧
      PackageValidator.validateFunctionBindings p = .ok () := by
    rw [hconsistent, hkeyed, PackageValidator.validatePackageStructure]
    constructor
    · intro h
      exact ⟨by rw [if_neg (by simp [h.named]), if_neg h.spaceless], h.bound, h.keyed⟩
    · rintro ⟨hname, hbound, hkeyed⟩
      split at hname
      · cases hname
      · rename_i hempty
        split at hname
        · cases hname
        · rename_i hspace
          exact ⟨Bool.eq_false_iff.2 hempty, hspace, hbound, hkeyed⟩
  rw [hvalid, PackageValidator.validate]
  cases PackageValidator.validatePackageStructure p with
  | error e => simp [bind, Except.bind]
  | ok _ => cases PackageValidator.validateClassFunctionConsistency p <;> simp [bind, Except.bind]

end Pm
