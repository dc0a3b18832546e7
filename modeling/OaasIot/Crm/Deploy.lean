import OaasIot.Crm.ClassRuntime
import OaasIot.Crm.ResourceNames
import OaasIot.Lib.Program

/-!
# Deploying to a cluster (`oprc-crm/src/grpc/deployment.rs`)

A runtime is stored under the sanitized id of its unit, and its label holds **the sanitized id too**. A deploy that
finds a runtime compares the label with the id as it was sent, and leaves the runtime as it is. The API server is a map
from names to objects; what is built from an id is a parameter.
-/

open Grpc

namespace Crm

open OrdMap

structure UnitBuilder (U S : Type) where
  id : U → String
  build : String → U → S

structure RuntimeObject (S : Type) where
  labels : Option (OrdMap String String)
  spec : S
  createdFor : String

abbrev KubeApi (S : Type) := OrdMap String (RuntimeObject S)
def labelDeploymentId : String := "oaas.io/deployment-id"

variable {U S : Type} (b : UnitBuilder U S)

def buildObject (name : String) (u : U) : RuntimeObject S :=
  ⟨some (OrdMap.empty.insert labelDeploymentId (sanitizeName (b.id u))), b.build name u, b.id u⟩

def validateExistingId (existing : RuntimeObject S) (requestedId : String) : Except String Unit :=
  match existing.labels with
  | none => .error "resource name in use by a different deployment (no label)"
  | some labels =>
    if labels.get labelDeploymentId = some requestedId then .ok ()
    else .error "resource name in use by a different deployment"

def deploy (unit : Option U) (api : KubeApi S) : Except String String × KubeApi S :=
  match unit with
  | none => (.error "deployment_unit is required", api)
  | some u =>
    let name := sanitizeName (b.id u)
    match validateName name with
    | .error e => (.error e, api)
    | .ok () =>
      match api.get name with
      | some existing => ((validateExistingId existing (b.id u)).map fun _ => b.id u, api)
      | none => (.ok (b.id u), api.insert name (buildObject b name u))

def deleteDeployment (deploymentId : String) (api : KubeApi S) : Except String Unit × KubeApi S :=
  if deploymentId.isEmpty then (.error "deployment_id required", api)
  else
    let name := sanitizeName deploymentId
    match validateName name with
    | .error e => (.error e, api)
    | .ok () => if (api.get name).isSome then (.ok (), api.erase name) else (.error "deployment not found", api)

inductive CrmRequest (U : Type)
  | deploy (unit : Option U)
  | delete (deploymentId : String)

def serve (api : KubeApi S) : CrmRequest U → KubeApi S
  | .deploy unit => (deploy b unit api).2
  | .delete deploymentId => (deleteDeployment deploymentId api).2

/-- A deploy that returns `Ok` leaves a runtime that was created for this id and has the spec of this unit, and returns
`Ok` again. -/
def FaithfulDeploy (api : KubeApi S) : CrmRequest U → Prop
  | .deploy (some u) => ∀ id, (deploy b (some u) api).1 = .ok id →
      (∃ o, (deploy b (some u) api).2.get (sanitizeName (b.id u)) = some o ∧ o.createdFor = b.id u ∧
        o.spec = b.build (sanitizeName (b.id u)) u) ∧
      ∃ id', (deploy b (some u) (deploy b (some u) api).2).1 = .ok id'
  | _ => True

def OwnName (api : KubeApi S) : CrmRequest U → Prop
  | .deploy (some u) => validateName (sanitizeName (b.id u)) = .ok () →
      (api.get (sanitizeName (b.id u)) = none → sanitizeName (b.id u) = b.id u) ∧
      ∀ o, api.get (sanitizeName (b.id u)) = some o → sanitizeName (b.id u) = b.id u →
        o.createdFor = b.id u ∧ o.spec = b.build (sanitizeName (b.id u)) u
  | _ => True

/-- The label of every runtime is its name. -/
def Labelled (api : KubeApi S) : Prop :=
  ∀ name o, api.get name = some o → o.labels = some (OrdMap.empty.insert labelDeploymentId name)

variable {b} {api : KubeApi S}

theorem deploy_new {u : U} (hvalid : validateName (sanitizeName (b.id u)) = .ok ())
    (hget : api.get (sanitizeName (b.id u)) = none) :
    deploy b (some u) api = (.ok (b.id u), api.insert (sanitizeName (b.id u)) (buildObject b (sanitizeName (b.id u)) u)) := by
  simp [deploy, hvalid, hget]

/-- A labelled runtime is accepted where the id is its name, and never changed. -/
theorem deploy_known {u : U} {o : RuntimeObject S} (hvalid : validateName (sanitizeName (b.id u)) = .ok ())
    (hget : api.get (sanitizeName (b.id u)) = some o)
    (hlabel : o.labels = some (OrdMap.empty.insert labelDeploymentId (sanitizeName (b.id u)))) :
    deploy b (some u) api =
      (if sanitizeName (b.id u) = b.id u then .ok (b.id u)
        else .error "resource name in use by a different deployment", api) := by
  simp only [deploy, hvalid, hget, validateExistingId, hlabel, get_insert_self, Option.some.injEq, Prod.mk.injEq, and_true]
  split <;> rfl

theorem labelled_serve (h : Labelled api) (req : CrmRequest U) : Labelled (serve b api req) := by
  intro name o
  rcases req with (_ | u) | id
  · exact h name o
  · simp only [serve, deploy]
    split
    · exact h name o
    · split
      · exact h name o
      · rw [get_insert]
        split
        · rename_i hname
          rintro ⟨⟩
          rw [← hname]
          rfl
        · exact h name o
  · simp only [serve, deleteDeployment]
    split
    · exact h name o
    · split
      · exact h name o
      · split
        · rw [get_erase]
          split
          · exact nofun
          · exact h name o
        · exact h name o

theorem faithfulDeploy_iff (h : Labelled api) (req : CrmRequest U) : FaithfulDeploy b api req ↔ OwnName b api req := by
  rcases req with (_ | u) | id
  · exact Iff.rfl
  · simp only [FaithfulDeploy, OwnName]
    rcases hvalid : validateName (sanitizeName (b.id u)) with e | ⟨⟩
    · simp [deploy, hvalid]
    rcases hget : api.get (sanitizeName (b.id u)) with _ | o
    · rw [deploy_new hvalid hget, deploy_known hvalid (get_insert_self _ _ _) rfl]
      by_cases hid : sanitizeName (b.id u) = b.id u <;> simp [buildObject, hid]
    · rw [deploy_known hvalid hget (h _ _ hget), deploy_known hvalid hget (h _ _ hget)]
      by_cases hid : sanitizeName (b.id u) = b.id u
      · rw [hid] at hget
        simp [hget, hid]
      · simp [hid]
  · exact Iff.rfl

/-- **Deploys are faithful and repeatable** in a history exactly where every request meets `OwnName`. -/
theorem deploys_faithful_iff (b : UnitBuilder U S) (requests : List (CrmRequest U)) :
    AlongRun (serve b) (FaithfulDeploy b) .empty requests ↔ AlongRun (serve b) (OwnName b) .empty requests :=
  alongRun_iff_of_step Labelled (fun _ req h => ⟨faithfulDeploy_iff h req, fun _ => labelled_serve h req⟩)
    (fun name o h => by simp at h) requests

def unitBuilder : UnitBuilder DeploymentUnit ClassRuntimeSpec := ⟨(·.id), Builder.build⟩

/-- An upper-case id is deployed and then refused; its lower-case form is accepted without a runtime. -/
theorem deploy_not_repeatable :
    let unit : String → Option DeploymentUnit := fun id => some ⟨id, [], "edge", [], none, none⟩
    let api := (deploy unitBuilder (unit "Seg") .empty).2
    (deploy unitBuilder (unit "Seg") .empty).1 = .ok "Seg" ∧
      (deploy unitBuilder (unit "Seg") api).1 = .error "resource name in use by a different deployment" ∧
      (deploy unitBuilder (unit "seg") api).1 = .ok "seg" ∧
      ((deploy unitBuilder (unit "seg") api).2.get "seg").map (·.createdFor) = some "Seg" := by
  refine ⟨by decide, by decide, by decide, by decide⟩

end Crm
