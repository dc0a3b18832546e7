import OaasIot.Pm.CreateDeployment
import OaasIot.Pm.PackageGraph

/-!
# Deploying a script (`oprc-pm/src/services/script.rs`)

A script is compiled, its module stored as an artifact, a package written for it, and its class deployed: with the bare
deployment, so the units have no functions and no ODGM configuration. The compiler and the artifact store are parameters
(`ScriptService`); the source store is left out.
-/

open Grpc CpStorage

namespace Pm

open List

variable {F : Type}

/-! ## The service -/

structure ScriptFunctionBinding where
  name : String
  stateless : Bool
  deriving DecidableEq

structure DeployScriptRequest where
  source : String
  language : String
  packageName : String
  classKey : String
  functionBindings : List ScriptFunctionBinding
  targetEnvs : List String
  deriving DecidableEq

structure DeployScriptResponse where
  success : Bool
  deploymentKey : Option String
  artifactId : Option String
  artifactUrl : Option String
  errors : List String
  message : Option String
  deriving DecidableEq

inductive CompilerError
  | compilationFailed (errors : List String)
  | serviceUnavailable (msg : String)
  | requestFailed (msg : String)
  | unexpectedResponse (msg : String)
  deriving DecidableEq

structure ScriptService where
  artifactBaseUrl : String
  compile : String → String → Except CompilerError (List UInt8)
  store : List UInt8 → Except String String

def ScriptService.artifactUrl (svc : ScriptService) (id : String) : String :=
  String.ofList (svc.artifactBaseUrl.toList.rdropWhile (· == '/')) ++ "/" ++ id

namespace DeployScriptRequest

variable (req : DeployScriptRequest)

def wasmFnKey : String := req.packageName ++ "-" ++ req.classKey ++ "-wasm"
def scriptFunction (url : String) : OFunction := ⟨req.wasmFnKey, some ⟨none, some url, none⟩⟩

def scriptBindings : List FunctionBinding :=
  if req.functionBindings.isEmpty then [⟨req.classKey, req.wasmFnKey, false⟩]
  else req.functionBindings.map fun b => ⟨b.name, req.wasmFnKey, b.stateless⟩

def scriptClass : OClass := ⟨req.classKey, none, req.scriptBindings, .empty⟩

def scriptPackage (F : Type) (url : String) : OPackage F :=
  ⟨req.packageName, {}, [req.scriptClass], [req.scriptFunction url], [], []⟩

def scriptDeployment (F : Type) (now : Nat) : OClassDeployment F :=
  ⟨req.packageName ++ "-" ++ req.classKey, req.packageName, req.classKey, req.targetEnvs, [], none, .empty, [], none, none,
    some now⟩

end DeployScriptRequest

def ensurePackage (p : OPackage F) (s : PmState F) : Except PackageError (PmState F) :=
  if (s.packages.getPackage p.name).isSome then updatePackage p s else createPackage p s

def compilerFailure : CompilerError → DeployScriptResponse
  | .compilationFailed errors => ⟨false, none, none, none, errors, some "Compilation failed"⟩
  | .serviceUnavailable msg => unreachable ("Compiler service unavailable: " ++ msg)
  | .requestFailed msg => unreachable ("Compiler request failed: " ++ msg)
  | .unexpectedResponse msg => unreachable ("Unexpected response from compiler: " ++ msg)
where
  unreachable (e : String) : DeployScriptResponse :=
    ⟨false, none, none, none, ["Compiler error: " ++ e], some "Failed to reach compiler service"⟩

def deployScript (fl : FloatOps F) (policy : DeploymentPolicyConfig) (svc : ScriptService) (req : DeployScriptRequest)
    (ans : Answers F) (s : PmState F) : DeployScriptResponse × PmState F :=
  match svc.compile req.source req.language with
  | .error e => (compilerFailure e, s)
  | .ok wasm =>
    match svc.store wasm with
    | .error e => (⟨false, none, none, none, ["Failed to store artifact: " ++ e], none⟩, s)
    | .ok id =>
      let url := svc.artifactUrl id
      match ensurePackage (req.scriptPackage F url) s with
      | .error e => (⟨false, none, some id, some url,
          ["Failed to create package: " ++ (PackageManagerError.package e).display], none⟩, s)
      | .ok s =>
        match deployClass fl policy req.scriptClass (req.scriptDeployment F ans.now) ans s.world with
        | (.ok depId, w) =>
          (⟨true, some depId, some id, some url, [], some "Script deployed successfully"⟩, { s with world := w })
        | (.error e, w) => (⟨false, none, some id, some url,
            ["Deployment failed: " ++ (PackageManagerError.deployment e).display], none⟩, { s with world := w })

def scriptUnits (fl : FloatOps F) (req : DeployScriptRequest) (ans : Answers F) : List DeploymentUnit :=
  plannedUnits fl req.scriptClass (req.scriptDeployment F ans.now) ans

/-! ## Carrying the script -/

def Carries (req : DeployScriptRequest) (url : String) (u : DeploymentUnit) : Prop :=
  (∃ f ∈ u.functions, f.functionKey = req.wasmFnKey ∧ f.wasmModuleUrl = some url) ∧
  ∃ o, u.odgmConfig = some o ∧ req.packageName ++ "." ++ req.classKey ∈ o.collections ∧
    ∃ routes, o.invocations = some routes ∧ ∀ b ∈ req.scriptBindings, ∃ route,
      routes.fnRoutes.get b.name = some route ∧ route.functionKey = some req.wasmFnKey

def unitContents (u : DeploymentUnit) :
    List FunctionDeploymentSpec × Option (List String × Option InvocationRoutes) :=
  (u.functions, u.odgmConfig.map fun o => (o.collections, o.invocations))

/-- **The script is carried**: if the request is answered with success, every unit sent for it has the script, and what a
unit of the API has for the stored package and class. -/
def ScriptCarried (fl : FloatOps F) (policy : DeploymentPolicyConfig) (svc : ScriptService) (req : DeployScriptRequest)
    (ans : Answers F) (s : PmState F) : Prop :=
  ∀ url, (deployScript fl policy svc req ans s).1.success = true →
    (deployScript fl policy svc req ans s).1.artifactUrl = some url → ∀ u ∈ scriptUnits fl req ans, Carries req url u ∧
      ∃ v ∈ createdUnits fl (deployScript fl policy svc req ans s).2.packages true (req.scriptDeployment F ans.now) ans,
        unitContents v = unitContents u

structure Deployable (fl : FloatOps F) (policy : DeploymentPolicyConfig) (svc : ScriptService) (req : DeployScriptRequest)
    (ans : Answers F) : Prop where
  compiled : ∃ wasm id, svc.compile req.source req.language = .ok wasm ∧ svc.store wasm = .ok id
  named : req.packageName.isEmpty = false
  spaceless : ' ' ∉ req.packageName.toList
  planned : ∃ plan, planDeployment fl req.scriptClass (req.scriptDeployment F ans.now) ans = .ok plan ∧
    ¬ ClustersFail policy ans plan.selected.length

/-! ## When a script is deployed -/

section
variable {fl : FloatOps F} {policy : DeploymentPolicyConfig} {svc : ScriptService} {req : DeployScriptRequest}
  {ans : Answers F} {s s' : PmState F} {url : String}

theorem functionKey_scriptBindings {b : FunctionBinding} (hb : b ∈ req.scriptBindings) :
    b.functionKey = req.wasmFnKey := by
  unfold DeployScriptRequest.scriptBindings at hb
  split at hb
  · rw [mem_singleton.1 hb]
  · obtain ⟨_, _, rfl⟩ := mem_map.1 hb
    rfl

theorem wasmFnKey_ne_empty (req : DeployScriptRequest) : req.wasmFnKey.isEmpty = false := by
  rw [Bool.eq_false_iff, ne_eq, String.isEmpty_iff]
  intro hempty
  have hlength := congrArg (fun s => s.toList.length) hempty
  simp [DeployScriptRequest.wasmFnKey] at hlength

theorem scriptPackage_valid_iff :
    (req.scriptPackage F url).Valid ↔ req.packageName.isEmpty = false ∧ ' ' ∉ req.packageName.toList := by
  constructor
  · exact fun h => ⟨h.named, h.spaceless⟩
  · rintro ⟨hname, hspace⟩
    refine ⟨hname, hspace, ?_, ?_⟩
    · intro cls hcls b hb
      obtain rfl := mem_singleton.1 hcls
      rw [functionKey_scriptBindings hb]
      exact mem_singleton_self _
    · intro cls hcls b hb
      obtain rfl := mem_singleton.1 hcls
      rw [functionKey_scriptBindings hb]
      exact wasmFnKey_ne_empty req

theorem ensurePackage_ok_iff : ensurePackage (req.scriptPackage F url) s = .ok s' ↔
    (req.packageName.isEmpty = false ∧ ' ' ∉ req.packageName.toList) ∧
      s' = { s with packages := s.packages.storePackage (req.scriptPackage F url) } := by
  have hchecked : ensurePackage (req.scriptPackage F url) s = storeChecked (req.scriptPackage F url) none s := by
    unfold ensurePackage updatePackage createPackage
    have hsome : s.packages.packageExists (req.scriptPackage F url).name =
        (s.packages.getPackage (req.scriptPackage F url).name).isSome := rfl
    rw [hsome]
    split <;> rfl
  rw [hchecked, storeChecked_ok_iff, scriptPackage_valid_iff]
  constructor
  · rintro ⟨hname, _, _, hs'⟩
    exact ⟨hname, hs'⟩
  · rintro ⟨hname, hs'⟩
    exact ⟨hname, rfl, nofun, hs'⟩

theorem success_compilerFailure (e : CompilerError) : (compilerFailure e).success = false := by cases e <;> rfl

theorem deployScript_spec (fl : FloatOps F) (policy : DeploymentPolicyConfig) (svc : ScriptService)
    (req : DeployScriptRequest) (ans : Answers F) (s : PmState F) :
    (Deployable fl policy svc req ans ∧ (deployScript fl policy svc req ans s).1.success = true ∧
      ∃ url, (deployScript fl policy svc req ans s).1.artifactUrl = some url ∧
        (deployScript fl policy svc req ans s).2.packages = s.packages.storePackage (req.scriptPackage F url)) ∨
    (¬ Deployable fl policy svc req ans ∧ (deployScript fl policy svc req ans s).1.success = false) := by
  unfold deployScript
  cases hcompile : svc.compile req.source req.language with
  | error e =>
    refine .inr ⟨fun h => ?_, success_compilerFailure e⟩
    obtain ⟨_, _, hok, _⟩ := h.compiled
    cases hcompile.symm.trans hok
  | ok wasm =>
    dsimp only
    cases hstore : svc.store wasm with
    | error e =>
      refine .inr ⟨fun h => ?_, rfl⟩
      obtain ⟨_, _, hok, hstored⟩ := h.compiled
      cases hcompile.symm.trans hok
      cases hstore.symm.trans hstored
    | ok id =>
      dsimp only
      cases hensure : ensurePackage (req.scriptPackage F (svc.artifactUrl id)) s with
      | error e =>
        refine .inr ⟨fun h => ?_, rfl⟩
        have hok : ensurePackage (req.scriptPackage F (svc.artifactUrl id)) s = .ok _ :=
          ensurePackage_ok_iff.2 ⟨⟨h.named, h.spaceless⟩, rfl⟩
        cases hensure.symm.trans hok
      | ok s' =>
        obtain ⟨⟨hname, hspace⟩, rfl⟩ := ensurePackage_ok_iff.1 hensure
        have hdeploy := deployClass_ok_iff fl policy req.scriptClass (req.scriptDeployment F ans.now) ans s.world
        dsimp only
        rcases hcall : deployClass fl policy req.scriptClass (req.scriptDeployment F ans.now) ans s.world with ⟨out, w⟩
        rw [hcall] at hdeploy
        cases out with
        | ok depId =>
          have hplanned := hdeploy.1 ⟨depId, rfl⟩
          exact .inl ⟨⟨⟨wasm, id, hcompile, hstore⟩, hname, hspace, hplanned⟩, rfl, _, rfl, rfl⟩
        | error e =>
          refine .inr ⟨fun h => ?_, rfl⟩
          obtain ⟨_, hok⟩ := hdeploy.2 h.planned
          cases hok

/-! ## What its units contain -/

theorem scriptUnits_bare {u : DeploymentUnit} (h : u ∈ scriptUnits fl req ans) :
    u.functions = [] ∧ u.odgmConfig = none := by
  obtain ⟨hfunctions, hodgm⟩ := plannedUnits_spec h
  exact ⟨hfunctions, Option.map_eq_none_iff.1 hodgm⟩

theorem exists_scriptUnit (h : Deployable fl policy svc req ans) : ∃ u, u ∈ scriptUnits fl req ans := by
  obtain ⟨plan, hplan, hfail⟩ := h.planned
  have hunits : scriptUnits fl req ans = plan.units := by rw [scriptUnits, plannedUnits, hplan]
  rw [hunits]
  cases hlist : plan.units with
  | cons u units => exact ⟨u, mem_cons_self⟩
  | nil =>
    have hlength := length_units hplan
    rw [hlist, length_nil] at hlength
    exact absurd (Or.inl fun i hi => by omega) hfail

end

/-- **Whether a script is carried**: it is not, in any deployment. The units carry what they should only where none are
sent. -/
theorem script_carried_iff (fl : FloatOps F) (policy : DeploymentPolicyConfig) (svc : ScriptService)
    (req : DeployScriptRequest) (ans : Answers F) (s : PmState F) :
    ScriptCarried fl policy svc req ans s ↔ ¬ Deployable fl policy svc req ans := by
  rcases deployScript_spec fl policy svc req ans s with ⟨hdeploy, hsuccess, url, hurl, _⟩ | ⟨hnot, hfailed⟩
  · refine iff_of_false (fun hcarried => ?_) (not_not.2 hdeploy)
    obtain ⟨u, hu⟩ := exists_scriptUnit hdeploy
    obtain ⟨f, hf, _⟩ := (hcarried url hsuccess hurl u hu).1.1
    rw [(scriptUnits_bare hu).1] at hf
    cases hf
  · refine iff_of_true (fun url hsuccess => ?_) hnot
    rw [hfailed] at hsuccess
    cases hsuccess

/-! ## What happens to the package -/

def Storable (svc : ScriptService) (req : DeployScriptRequest) : Prop :=
  (∃ wasm id, svc.compile req.source req.language = .ok wasm ∧ svc.store wasm = .ok id) ∧
    req.packageName.isEmpty = false ∧ ' ' ∉ req.packageName.toList

structure KeepsRest (req : DeployScriptRequest) (p p' : OPackage F) : Prop where
  classes : ∀ c ∈ p.classes, c.key ≠ req.classKey → c ∈ p'.classes
  functions : ∀ f ∈ p.functions, f.key ≠ req.wasmFnKey → f ∈ p'.functions
  dependencies : p'.dependencies = p.dependencies
  metadata : p'.metadata = p.metadata

section

variable (fl : FloatOps F) (policy : DeploymentPolicyConfig) (svc : ScriptService) (req : DeployScriptRequest)
  (ans : Answers F) (s : PmState F)

theorem packages_deployScript :
    (Storable svc req ∧
      ∃ url, (deployScript fl policy svc req ans s).2.packages = s.packages.storePackage (req.scriptPackage F url)) ∨
    (¬Storable svc req ∧ (deployScript fl policy svc req ans s).2 = s) := by
  unfold deployScript
  rcases hcompile : svc.compile req.source req.language with e | wasm
  · exact .inr ⟨by simp [Storable, hcompile], rfl⟩
  rcases hstore : svc.store wasm with e | id
  · exact .inr ⟨by simp [Storable, hcompile, hstore], by simp [hstore]⟩
  dsimp only
  rw [hstore]
  dsimp only
  rcases hensure : ensurePackage (req.scriptPackage F (svc.artifactUrl id)) s with e | s'
  · refine .inr ⟨fun h => ?_, rfl⟩
    have hok : ensurePackage (req.scriptPackage F (svc.artifactUrl id)) s = .ok _ := ensurePackage_ok_iff.2 ⟨h.2, rfl⟩
    cases hensure.symm.trans hok
  · obtain ⟨hname, rfl⟩ := ensurePackage_ok_iff.1 hensure
    refine .inl ⟨⟨⟨wasm, id, hcompile, hstore⟩, hname⟩, svc.artifactUrl id, ?_⟩
    dsimp only
    split <;> rfl

/-- **The rest of the package is kept** only where there is none, or nothing is stored. -/
theorem rest_kept_iff {p : OPackage F} (hp : s.packages.getPackage req.packageName = some p) :
    (∃ p', (deployScript fl policy svc req ans s).2.packages.getPackage req.packageName = some p' ∧
        KeepsRest req p p') ↔
      (Storable svc req → (∀ c ∈ p.classes, c.key = req.classKey) ∧ (∀ f ∈ p.functions, f.key = req.wasmFnKey) ∧
        p.dependencies = [] ∧ p.metadata = {}) := by
  rcases packages_deployScript fl policy svc req ans s with ⟨hst, url, hpk⟩ | ⟨hst, heq⟩
  · have hget : (s.packages.storePackage (req.scriptPackage F url)).getPackage req.packageName =
        some (req.scriptPackage F url) := OrdMap.get_insert_self _ _ _
    simp only [hpk, hget, Option.some.injEq, exists_eq_left', hst, true_imp_iff]
    constructor
    · intro h
      refine ⟨fun c hc => by_contra fun hne => ?_, fun f hf => by_contra fun hne => ?_, h.dependencies.symm,
        h.metadata.symm⟩
      · exact hne (mem_singleton.1 (h.classes c hc hne) ▸ rfl)
      · exact hne (mem_singleton.1 (h.functions f hf hne) ▸ rfl)
    · rintro ⟨hc, hf, hd, hm⟩
      exact ⟨fun c h hne => absurd (hc c h) hne, fun f h hne => absurd (hf f h) hne, hd.symm, hm.symm⟩
  · rw [heq]
    exact iff_of_true ⟨p, hp, fun _ h _ => h, fun _ h _ => h, rfl, rfl⟩ fun h => absurd h hst

end

namespace Refused

def script : DeployScriptRequest := ⟨"export default Counter", "typescript", "pkg", "Counter", [⟨"increment", false⟩], ["edge"]⟩
def scripts : ScriptService := ⟨"http://oprc-pm:8080/api/v1/artifacts/", fun _ _ => .ok [0], fun _ => .ok "a1"⟩

def deployed : DeployScriptResponse × PmState Unit :=
  deployScript flat ⟨2, true⟩ scripts script accepting ⟨.new, noWorld⟩

/-- The one unit of the script is empty; the API would send the function. -/
theorem script_not_carried :
    deployed.1.success = true ∧
      (scriptUnits flat script accepting).map unitContents = [([], none)] ∧
      (createdUnits flat deployed.2.packages true (script.scriptDeployment Unit 0) accepting).map
        (fun u => u.functions.map fun f => (f.functionKey, f.wasmModuleUrl)) =
          [[("pkg-Counter-wasm", some "http://oprc-pm:8080/api/v1/artifacts/a1")]] ∧
      ¬ ScriptCarried flat ⟨2, true⟩ scripts script accepting ⟨.new, noWorld⟩ := by
  have hsuccess : deployed.1.success = true := by decide +kernel
  have hurl : deployed.1.artifactUrl = some "http://oprc-pm:8080/api/v1/artifacts/a1" := by decide +kernel
  have hunits : (scriptUnits flat script accepting).map unitContents = [([], none)] := by decide +kernel
  refine ⟨hsuccess, hunits, by decide +kernel, fun hcarried => ?_⟩
  obtain ⟨u, hu⟩ : ∃ u, u ∈ scriptUnits flat script accepting := by
    refine exists_mem_of_ne_nil _ fun hnil => ?_
    rw [hnil] at hunits
    cases hunits
  obtain ⟨f, hf, _⟩ := (hcarried _ hsuccess hurl u hu).1.1
  rw [(scriptUnits_bare hu).1] at hf
  cases hf

def otherClass : PmState Unit := ⟨MemoryPackageStorage.new.storePackage ⟨"pkg", {}, [⟨"Other", none, [], .empty⟩], [], [], []⟩, noWorld⟩

theorem rest_kept_without_artifact :
    ∃ p', (deployScript flat ⟨2, true⟩ ⟨"", fun _ _ => .ok [0], fun _ => .error "full"⟩ script accepting
        otherClass).2.packages.getPackage "pkg" = some p' ∧
      KeepsRest script ⟨"pkg", {}, [⟨"Other", none, [], .empty⟩], [], [], []⟩ p' :=
  (rest_kept_iff flat ⟨2, true⟩ ⟨"", fun _ _ => .ok [0], fun _ => .error "full"⟩ script accepting otherClass
    (OrdMap.get_insert_self _ _ _)).2 (by simp [Storable])

theorem other_class_lost :
    (otherClass.packages.getPackage "pkg").map (fun p => p.classes.map (·.key)) = some ["Other"] ∧
      ((deployScript flat ⟨2, true⟩ scripts script accepting otherClass).2.packages.getPackage "pkg").map
        (fun p => p.classes.map (·.key)) = some ["Counter"] := by
  decide +kernel

end Refused

end Pm
