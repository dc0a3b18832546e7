import OaasIot.Crm.ClassRuntime

/-!
# Rendering a runtime (`oprc-crm/src/templates`)

Of a rendered object the kind, the name and the `app` label are kept. The Knative template is among those to choose from
only if Knative is enabled; it renders **WASM functions too**, and panics if the first function has no image.
-/

open Grpc

namespace Crm

open List

inductive ResourceKind
  | deployment
  | service
  | knativeService
  deriving DecidableEq

structure RenderedResource where
  kind : ResourceKind
  name : String
  app : String
  deriving DecidableEq

/-- `TemplateError::MissingFunctionImage`, or a panic. -/
inductive RenderFailure
  | missingFunctionImage
  | panicked (msg : String)
  deriving DecidableEq

/-! ## Choosing a template -/

inductive Template
  | dev
  | edge
  | k8sDeployment
  | knative
  deriving DecidableEq

def Template.name : Template → String
  | .dev => "dev"
  | .edge => "edge"
  | .k8sDeployment => "k8s_deployment"
  | .knative => "knative"

def Template.aliases : Template → List String
  | .dev | .edge => []
  | .k8sDeployment => ["deployment", "k8s"]
  | .knative => ["kn", "knsvc"]

structure EnvironmentContext where
  profile : String
  isDatacenter : Bool
  isEdge : Bool
  deriving DecidableEq

def asciiLower (s : String) : List Char := s.toList.map Char.toLower
def eqIgnoreAsciiCase (s t : String) : Bool := asciiLower s == asciiLower t

def nfrScore (nfr : Option NfrRequirementsSpec) (rps : UInt32 × Int) (latency : UInt32 × Int)
    (availability : Option (Float32 × Int)) (strong : Int) : Int :=
  match nfr with
  | none => 0
  | some n =>
    (if rps.1 ≤ n.minThroughputRps.getD 0 then rps.2 else 0) +
    (if n.maxLatencyMs.getD 4294967295 ≤ latency.1 then latency.2 else 0) +
    (match availability with
      | none => 0
      | some (bound, points) => if bound ≤ n.availabilityPct.getD 99.0 then points else 0) +
    (if n.consistency = some "strong" then strong else 0)

def Template.score (env : EnvironmentContext) (nfr : Option NfrRequirementsSpec) : Template → Int
  | .dev =>
    if eqIgnoreAsciiCase env.profile "dev" then 1000000 else if env.isEdge then 10 else -10
  | .edge =>
    (if eqIgnoreAsciiCase env.profile "edge" || env.isEdge then 1000000 else 0) +
      nfrScore nfr (300, 2) (150, 2) (some (99.9, 1)) 0
  | .k8sDeployment =>
    (if eqIgnoreAsciiCase env.profile "k8s_deployment" then 800000 else if env.isDatacenter then 600000 else 0) +
      nfrScore nfr (1500, 3) (50, 3) (some (99.95, 2)) 2
  | .knative =>
    let profile := String.ofList (asciiLower env.profile)
    (if env.isDatacenter || profile == "full" || profile == "prod" || profile == "production" then 900000
      else if env.isEdge || profile == "edge" then 600000 else 100000) +
      nfrScore nfr (500, 2) (100, 2) none 0

variable (name : String) (includeKnative : Bool) (env : Option EnvironmentContext)

def templates : List Template :=
  [.dev, .edge, .k8sDeployment] ++ if includeKnative then [.knative] else []

def envFromEnv (profileOverride : String) : EnvironmentContext :=
  match env with
  | some cfg => if profileOverride.isEmpty then cfg else { cfg with profile := profileOverride }
  | none => ⟨profileOverride, false, false⟩

def bestTemplate (env : EnvironmentContext) (nfr : Option NfrRequirementsSpec) (ts : List Template) : Template :=
  ts.foldl (fun best t => if best.score env nfr < t.score env nfr then t else best) .dev

def selectTemplate (profile : String) (spec : ClassRuntimeSpec) : Template :=
  let hinted := spec.selectedTemplate.bind fun h =>
    (templates includeKnative).find? fun t => t.name == h || t.aliases.contains h
  hinted.getD (bestTemplate (envFromEnv env profile) spec.nfrRequirements (templates includeKnative))

/-! ## Rendering -/

def odgmResources : List RenderedResource :=
  let odgmName := dns1035Safe name ++ "-odgm"
  [⟨.deployment, odgmName, odgmName⟩, ⟨.service, odgmName ++ "-svc", odgmName⟩]

/-- Function `i`: nothing for a WASM function, which runs inside the data grid. -/
def renderFunction (total i : Nat) (f : FunctionDeploymentSpec) : Except RenderFailure (List RenderedResource) :=
  if f.wasmModuleUrl.isSome then .ok []
  else if f.containerImage.isNone then .error .missingFunctionImage
  else
    let fnName := functionServiceName name i total
    .ok [⟨.deployment, fnName, fnName⟩, ⟨.service, fnName, fnName⟩]

def renderFunctions (name : String) (total : Nat) : Nat → List FunctionDeploymentSpec →
    Except RenderFailure (List RenderedResource)
  | _, [] => .ok []
  | i, f :: fs => do
    let resources ← renderFunction name total i f
    let rest ← renderFunctions name total (i + 1) fs
    return resources ++ rest

/-- The Deployment templates (dev, edge and k8s_deployment differ in the image of the data grid only). -/
def renderWith (enableOdgm : Bool) (spec : ClassRuntimeSpec) : Except RenderFailure (List RenderedResource) := do
  let resources ← renderFunctions name spec.functions.length 0 spec.functions
  return resources ++ if enableOdgm then odgmResources name else []

def knativeService (total i : Nat) : RenderedResource :=
  ⟨.knativeService, functionServiceName name i total, dns1035Safe name ++ "-fn-" ++ toString i⟩

def renderKnative (enableOdgm : Bool) (spec : ClassRuntimeSpec) : Except RenderFailure (List RenderedResource) :=
  match spec.functions.head?.bind (·.containerImage) with
  | none => .error (.panicked "function image validated in TemplateManager::render_workload")
  | some _ =>
    .ok ((List.range spec.functions.length).map (knativeService name spec.functions.length) ++
      if enableOdgm then odgmResources name else [])

def Imageless (f : FunctionDeploymentSpec) : Bool := f.wasmModuleUrl.isNone && f.containerImage.isNone

def renderWorkload (profile name : String) (enableOdgm : Bool)
    (spec : ClassRuntimeSpec) : Except RenderFailure (List RenderedResource) :=
  if spec.functions.any Imageless then .error .missingFunctionImage
  else
    match selectTemplate includeKnative env profile spec with
    | .knative => renderKnative name enableOdgm spec
    | _ => renderWith name enableOdgm spec

def computeEnableOdgm (odgmSidecar : Bool) (spec : ClassRuntimeSpec) : Bool :=
  odgmSidecar &&
    match spec.addons with
    | none => true
    | some list => list.any (eqIgnoreAsciiCase · "odgm")

/-! ## What is rendered -/

theorem not_imageless {f : FunctionDeploymentSpec} (h : Imageless f = false) :
    f.wasmModuleUrl.isSome = true ∨ f.containerImage.isNone = false := by
  unfold Imageless at h
  cases hw : f.wasmModuleUrl <;> cases hi : f.containerImage <;> simp_all

theorem mem_renderFunctions (total i : Nat) {fs : List FunctionDeploymentSpec}
    (h : ∀ f ∈ fs, Imageless f = false) : ∃ resources, renderFunctions name total i fs = .ok resources ∧
      ∀ r, r ∈ resources ↔ ∃ k f, fs[k]? = some f ∧ f.wasmModuleUrl = none ∧
        (r.kind = .deployment ∨ r.kind = .service) ∧ r.name = functionServiceName name (i + k) total ∧ r.app = r.name := by
  induction fs generalizing i with
  | nil => exact ⟨[], rfl, by simp⟩
  | cons f fs ih =>
    obtain ⟨hf, hfs⟩ := forall_mem_cons.1 h
    obtain ⟨rest, hrest, hmem⟩ := ih (i + 1) hfs
    by_cases hwasm : f.wasmModuleUrl.isSome = true
    · refine ⟨rest, by simp [renderFunctions, renderFunction, hwasm, hrest]; rfl, fun r => ?_⟩
      rw [← Nat.or_exists_add_one]
      have : f.wasmModuleUrl ≠ none := by simpa [Option.isSome_iff_ne_none] using hwasm
      simp [hmem, this, Nat.add_assoc, Nat.add_comm 1]
    · have himage := (not_imageless hf).resolve_left hwasm
      have hnone : f.wasmModuleUrl = none := by simpa using hwasm
      obtain ⟨n, hn⟩ : ∃ n, n = functionServiceName name i total := ⟨_, rfl⟩
      refine ⟨[⟨.deployment, n, n⟩, ⟨.service, n, n⟩] ++ rest, ?_, fun r => ?_⟩
      · simp [renderFunctions, renderFunction, hwasm, himage, hrest, hn]; rfl
      · rw [mem_append, ← Nat.or_exists_add_one]
        have hhead : r ∈ [(⟨.deployment, n, n⟩ : RenderedResource), ⟨.service, n, n⟩] ↔
            (r.kind = .deployment ∨ r.kind = .service) ∧ r.name = n ∧ r.app = r.name := by
          obtain ⟨kind, rname, app⟩ := r
          cases kind <;> simp <;> grind
        rw [hhead]
        simp [hmem, hnone, ← hn, Nat.add_assoc, Nat.add_comm 1]

/-! ## The workloads of a rendering -/

theorem mem_bestTemplate (env : EnvironmentContext) (nfr : Option NfrRequirementsSpec) (ts : List Template) (best : Template) :
    ts.foldl (fun best t => if best.score env nfr < t.score env nfr then t else best) best ∈ best :: ts := by
  induction ts generalizing best with
  | nil => simp
  | cons t ts ih =>
    rw [foldl_cons]
    split
    · exact mem_cons_of_mem _ (ih t)
    · rcases mem_cons.1 (ih best) with h | h
      · rw [h]; exact mem_cons_self
      · exact mem_cons_of_mem _ (mem_cons_of_mem _ h)

theorem mem_selectTemplate (profile : String)
    (spec : ClassRuntimeSpec) : selectTemplate includeKnative env profile spec ∈ templates includeKnative := by
  unfold selectTemplate
  dsimp only
  cases hhint : spec.selectedTemplate.bind fun h =>
      (templates includeKnative).find? fun t => t.name == h || t.aliases.contains h with
  | none =>
    rw [Option.getD_none, bestTemplate]
    have hmem := mem_bestTemplate (envFromEnv env profile) spec.nfrRequirements (templates includeKnative) .dev
    rcases mem_cons.1 hmem with h | h
    · rw [h]; simp [templates]
    · exact h
  | some t =>
    obtain ⟨h, _, hfind⟩ := Option.bind_eq_some_iff.1 hhint
    exact mem_of_find?_eq_some hfind

theorem selectTemplate_ne_knative (profile : String) (spec : ClassRuntimeSpec) :
    selectTemplate false env profile spec ≠ .knative := by
  intro h
  have hmem := mem_selectTemplate false env profile spec
  rw [h] at hmem
  simp [templates] at hmem

variable {includeKnative enableOdgm : Bool} {env : Option EnvironmentContext} {profile name : String}
  {spec : ClassRuntimeSpec} {resources : List RenderedResource}

variable (h : renderWorkload includeKnative env profile name enableOdgm spec = .ok resources)
include h

theorem renderWorkload_ok : (∀ f ∈ spec.functions, Imageless f = false) ∧
      if selectTemplate includeKnative env profile spec = .knative then renderKnative name enableOdgm spec = .ok resources
      else renderWith name enableOdgm spec = .ok resources := by
  unfold renderWorkload at h
  split at h
  · cases h
  · rename_i himages
    refine ⟨by simpa using himages, ?_⟩
    cases hsel : selectTemplate includeKnative env profile spec <;> simpa [hsel] using h

theorem renderWorkload_plain (hsel : selectTemplate includeKnative env profile spec ≠ .knative) :
    (∀ r ∈ resources, r.kind ≠ .knativeService) ∧
      ∀ f ∈ spec.functions, f.wasmModuleUrl = none → ∃ r ∈ resources, r.kind = .deployment := by
  obtain ⟨himages, hwith⟩ := renderWorkload_ok h
  rw [if_neg hsel] at hwith
  obtain ⟨rendered, hrendered, hmem⟩ := mem_renderFunctions name spec.functions.length 0 himages
  obtain rfl : rendered ++ (if enableOdgm then odgmResources name else []) = resources := by
    rw [renderWith, hrendered] at hwith
    exact Except.ok.inj hwith
  constructor
  · intro r hr
    rcases mem_append.1 hr with hr | hr
    · obtain ⟨_, _, _, _, hkind, _⟩ := (hmem r).1 hr
      rcases hkind with hkind | hkind <;> simp [hkind]
    · cases enableOdgm with
      | false => simp at hr
      | true =>
        simp only [if_true, odgmResources, mem_cons, not_mem_nil, or_false] at hr
        rcases hr with rfl | rfl <;> simp
  · intro f hf hwasm
    obtain ⟨k, hk⟩ := getElem?_of_mem hf
    obtain ⟨n, hn⟩ : ∃ n, n = functionServiceName name (0 + k) spec.functions.length := ⟨_, rfl⟩
    exact ⟨⟨.deployment, n, n⟩, mem_append_left _ ((hmem _).2 ⟨k, f, hk, hwasm, .inl rfl, hn, rfl⟩), rfl⟩

theorem renderWorkload_knative
    (hsel : selectTemplate includeKnative env profile spec = .knative) : ∃ r ∈ resources, r.kind = .knativeService := by
  have hkn := (renderWorkload_ok h).2
  rw [if_pos hsel, renderKnative] at hkn
  split at hkn
  · cases hkn
  · rename_i himage
    obtain rfl := Except.ok.inj hkn
    have hpos : 0 < spec.functions.length := by
      cases hfs : spec.functions with
      | nil => simp [hfs] at himage
      | cons f fs => simp
    exact ⟨knativeService name spec.functions.length 0,
      mem_append_left _ (mem_map_of_mem (mem_range.2 hpos)), rfl⟩

end Crm
