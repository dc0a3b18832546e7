import OaasIot.Crm.Fsm
import OaasIot.Crm.ResourceNames

/-!
# Rendered manifests: images and owner labels (`oprc-crm/src/templates`)

The renderer of `Crm.Templates` with labels and containers. The Deployment templates skip WASM functions; the Knative
template renders them too, with an **empty image**, and takes the image of the first function for granted.
-/

open Grpc DnsLabel

namespace Crm

open List OrdMap

structure PodContainer where
  name : String
  image : String
  deriving DecidableEq

structure Manifest where
  kind : ResourceKind
  name : String
  labels : OrdMap String String
  containers : List PodContainer
  deriving DecidableEq

structure RenderContext where
  name : String
  enableOdgmSidecar : Bool
  profile : String
  odgmImageOverride : Option String
  packageClassKey : Option String
  spec : ClassRuntimeSpec

namespace Rendering

def baseLabels (app owner : String) : OrdMap String String :=
  (OrdMap.empty.insert "app" app).insert "oaas.io/owner" owner

section Render

variable (ctx : RenderContext)

def buildOdgmResources (imageOverride : Option String) : List Manifest :=
  let odgmName := dns1035Safe ctx.name ++ "-odgm"
  let labels := baseLabels odgmName ctx.name
  let labels :=
    match ctx.packageClassKey with
    | some classKey => labels.insert "oaas.io/class" classKey
    | none => labels
  [⟨.deployment, odgmName, labels, [⟨"odgm", imageOverride.getD "ghcr.io/pawissanutt/oaas-rs/odgm:latest"⟩]⟩,
    ⟨.service, odgmName ++ "-svc", labels, []⟩]

def odgmImage : Template → Option String
  | .dev => ctx.odgmImageOverride.or (some "ghcr.io/pawissanutt/oaas-rs/odgm:dev-alpha")
  | .edge | .k8sDeployment => ctx.odgmImageOverride.or (some "ghcr.io/pawissanutt/oaas-rs/odgm:latest")
  | .knative => ctx.odgmImageOverride

def functionManifests (i : Nat) (image : String) : List Manifest :=
  let fnName := functionServiceName ctx.name i ctx.spec.functions.length
  [⟨.deployment, fnName, baseLabels fnName ctx.name, [⟨"function", image⟩]⟩,
    ⟨.service, fnName, baseLabels fnName ctx.name, []⟩]

def renderFunctions : Nat → List FunctionDeploymentSpec → Except RenderFailure (List Manifest)
  | _, [] => .ok []
  | i, f :: fs => do
    let manifests ←
      if f.wasmModuleUrl.isSome then .ok []
      else match f.containerImage with
        | none => .error .missingFunctionImage
        | some image => .ok (functionManifests ctx i image)
    let rest ← renderFunctions (i + 1) fs
    return manifests ++ rest

def renderWith (odgmImageOverride : Option String) : Except RenderFailure (List Manifest) := do
  let manifests ← renderFunctions ctx 0 ctx.spec.functions
  return manifests ++ if ctx.enableOdgmSidecar then buildOdgmResources ctx odgmImageOverride else []

def knativeService (i : Nat) (f : FunctionDeploymentSpec) : Manifest :=
  let safeName := dns1035Safe ctx.name
  let app := safeName ++ "-fn-" ++ toString i
  ⟨.knativeService, if ctx.spec.functions.length = 1 then safeName else app,
    (baseLabels app safeName).insert "networking.knative.dev/visibility" "cluster-local",
    [⟨"function", f.containerImage.getD ""⟩]⟩

def renderKnative : Except RenderFailure (List Manifest) :=
  match ctx.spec.functions.head?.bind (·.containerImage) with
  | none => .error (.panicked "function image validated in TemplateManager::render_workload")
  | some _ =>
    .ok (ctx.spec.functions.mapIdx (knativeService ctx) ++
      if ctx.enableOdgmSidecar then buildOdgmResources ctx (odgmImage ctx .knative) else [])

def render : Template → Except RenderFailure (List Manifest)
  | .knative => renderKnative ctx
  | t => renderWith ctx (odgmImage ctx t)

variable (includeKnative : Bool) (env : Option EnvironmentContext)

def template : Template := selectTemplate includeKnative env ctx.profile ctx.spec

def renderWorkload : Except RenderFailure (List Manifest) :=
  if ctx.spec.functions.any Imageless then .error .missingFunctionImage
  else render ctx (template ctx includeKnative env)

end Render

/-! ## Without labels and containers -/

@[simp] theorem get_baseLabels_app (app owner : String) : (baseLabels app owner).get "app" = some app := by
  rw [baseLabels, get_insert_of_ne _ _ (by decide), get_insert_self]

@[simp] theorem get_baseLabels_owner (app owner : String) : (baseLabels app owner).get "oaas.io/owner" = some owner :=
  get_insert_self _ _ _

def forget (m : Manifest) : RenderedResource := ⟨m.kind, m.name, (m.labels.get "app").getD ""⟩

section Forget

variable (ctx : RenderContext)

theorem forget_buildOdgmResources (image : Option String) :
    (buildOdgmResources ctx image).map forget = odgmResources ctx.name := by
  unfold buildOdgmResources odgmResources
  cases ctx.packageClassKey with
  | none => simp [forget]
  | some classKey =>
    have hne : "oaas.io/class" ≠ "app" := by decide
    simp [forget, get_insert_of_ne _ _ hne]

theorem forget_renderFunctions (i : Nat) (fs : List FunctionDeploymentSpec) :
    (renderFunctions ctx i fs).map (map forget) =
      Crm.renderFunctions ctx.name ctx.spec.functions.length i fs := by
  induction fs generalizing i with
  | nil => rfl
  | cons f fs ih =>
    have hrest := ih (i + 1)
    rw [renderFunctions, Crm.renderFunctions, ← hrest, renderFunction]
    cases hwasm : f.wasmModuleUrl.isSome with
    | true => cases renderFunctions ctx (i + 1) fs <;> rfl
    | false =>
      cases f.containerImage with
      | none => rfl
      | some image =>
        cases renderFunctions ctx (i + 1) fs with
        | error e => rfl
        | ok rest =>
          change Except.ok _ = Except.ok _
          simp [functionManifests, forget]

theorem forget_renderWith (image : Option String) :
    (renderWith ctx image).map (map forget) = Crm.renderWith ctx.name ctx.enableOdgmSidecar ctx.spec := by
  rw [renderWith, Crm.renderWith, ← forget_renderFunctions]
  cases renderFunctions ctx 0 ctx.spec.functions with
  | error e => rfl
  | ok manifests =>
    change Except.ok _ = Except.ok _
    cases ctx.enableOdgmSidecar <;> simp [forget_buildOdgmResources]

theorem forget_knativeService {i : Nat} {f : FunctionDeploymentSpec} (h : i < ctx.spec.functions.length) :
    forget (knativeService ctx i f) = Crm.knativeService ctx.name ctx.spec.functions.length i := by
  have happ : "networking.knative.dev/visibility" ≠ "app" := by decide
  have hone : (ctx.spec.functions.length = 1) ↔ ¬ 1 < ctx.spec.functions.length := by omega
  unfold knativeService Crm.knativeService functionServiceName
  by_cases hlen : 1 < ctx.spec.functions.length
  · simp [forget, get_insert_of_ne _ _ happ, hone, hlen]
  · simp [forget, get_insert_of_ne _ _ happ, hone, hlen]

theorem forget_renderKnative :
    (renderKnative ctx).map (map forget) = Crm.renderKnative ctx.name ctx.enableOdgmSidecar ctx.spec := by
  unfold renderKnative Crm.renderKnative
  cases ctx.spec.functions.head?.bind (·.containerImage) with
  | none => rfl
  | some image =>
    have hservices : (ctx.spec.functions.mapIdx (knativeService ctx)).map forget =
        (range ctx.spec.functions.length).map (Crm.knativeService ctx.name ctx.spec.functions.length) := by
      refine ext_getElem (by simp) fun i h _ => ?_
      simp only [length_map, length_mapIdx] at h
      simpa using forget_knativeService ctx h
    change Except.ok _ = Except.ok _
    rw [map_append, hservices]
    cases ctx.enableOdgmSidecar <;> simp [forget_buildOdgmResources]

theorem forget_renderWorkload (includeKnative : Bool) (env : Option EnvironmentContext) :
    (renderWorkload ctx includeKnative env).map (map forget) =
      Crm.renderWorkload includeKnative env ctx.profile ctx.name ctx.enableOdgmSidecar ctx.spec := by
  unfold renderWorkload Crm.renderWorkload template
  split
  · rfl
  · cases selectTemplate includeKnative env ctx.profile ctx.spec with
    | dev | edge | k8sDeployment => exact forget_renderWith ctx _
    | knative => exact forget_renderKnative ctx

end Forget

/-! ## What is rendered -/

def InContainer (f : FunctionDeploymentSpec) : Prop := f.wasmModuleUrl = none
instance (f : FunctionDeploymentSpec) : Decidable (InContainer f) := inferInstanceAs (Decidable (_ = _))

def Renders (ctx : RenderContext) (t : Template) (m : Manifest) : Prop :=
  (∃ i f, ctx.spec.functions[i]? = some f ∧
    if t = .knative then m = knativeService ctx i f
    else InContainer f ∧ ∃ image, f.containerImage = some image ∧ m ∈ functionManifests ctx i image) ∨
  (ctx.enableOdgmSidecar = true ∧ m ∈ buildOdgmResources ctx (odgmImage ctx t))

/-- The Knative template takes the image of the first function for granted. -/
def FirstHasImage (ctx : RenderContext) : Prop := (ctx.spec.functions.head?.bind (·.containerImage)).isSome = true

section Rendered

variable (ctx : RenderContext)

theorem renderFunctions_ok (i : Nat) {fs : List FunctionDeploymentSpec} (h : ∀ f ∈ fs, Imageless f = false) :
    ∃ manifests, renderFunctions ctx i fs = .ok manifests ∧ ∀ m, m ∈ manifests ↔ ∃ k f, fs[k]? = some f ∧
      InContainer f ∧ ∃ image, f.containerImage = some image ∧ m ∈ functionManifests ctx (i + k) image := by
  induction fs generalizing i with
  | nil => exact ⟨[], rfl, by simp⟩
  | cons f fs ih =>
    obtain ⟨hf, hfs⟩ := forall_mem_cons.1 h
    obtain ⟨rest, hrest, hmem⟩ := ih (i + 1) hfs
    by_cases hwasm : f.wasmModuleUrl.isSome = true
    · have hnot : ¬ InContainer f := Option.isSome_iff_ne_none.1 hwasm
      refine ⟨rest, by rw [renderFunctions, hrest, if_pos hwasm]; rfl, fun m => ?_⟩
      rw [← Nat.or_exists_add_one]
      simp [hmem, hnot, Nat.add_assoc, Nat.add_comm 1]
    · have hin : InContainer f := Option.not_isSome_iff_eq_none.1 hwasm
      obtain ⟨image, himage⟩ : ∃ image, f.containerImage = some image := by
        simpa [Option.isNone_eq_false_iff, Option.isSome_iff_exists] using (not_imageless hf).resolve_left hwasm
      refine ⟨functionManifests ctx i image ++ rest, ?_, fun m => ?_⟩
      · rw [renderFunctions, hrest, if_neg hwasm, himage]
        rfl
      · rw [← Nat.or_exists_add_one]
        simp [hmem, hin, himage, Nat.add_assoc, Nat.add_comm 1]

theorem mem_append_odgm {functions : List Manifest} {image : Option String} {m : Manifest} :
    m ∈ functions ++ (if ctx.enableOdgmSidecar then buildOdgmResources ctx image else []) ↔
      m ∈ functions ∨ (ctx.enableOdgmSidecar = true ∧ m ∈ buildOdgmResources ctx image) := by
  cases ctx.enableOdgmSidecar <;> simp

theorem renderWith_ok (h : ∀ f ∈ ctx.spec.functions, Imageless f = false) {t : Template} (ht : t ≠ .knative) :
    ∃ manifests, renderWith ctx (odgmImage ctx t) = .ok manifests ∧ ∀ m, m ∈ manifests ↔ Renders ctx t m := by
  obtain ⟨rendered, hrendered, hmem⟩ := renderFunctions_ok ctx 0 h
  refine ⟨rendered ++ if ctx.enableOdgmSidecar then buildOdgmResources ctx (odgmImage ctx t) else [], ?_, fun m => ?_⟩
  · rw [renderWith, hrendered]
    rfl
  · rw [mem_append_odgm, hmem, Renders]
    simp only [Nat.zero_add, if_neg ht]

theorem renderKnative_ok (h : FirstHasImage ctx) :
    ∃ manifests, renderKnative ctx = .ok manifests ∧ ∀ m, m ∈ manifests ↔ Renders ctx .knative m := by
  obtain ⟨image, himage⟩ := Option.isSome_iff_exists.1 h
  refine ⟨ctx.spec.functions.mapIdx (knativeService ctx) ++
    if ctx.enableOdgmSidecar then buildOdgmResources ctx (odgmImage ctx .knative) else [], ?_, fun m => ?_⟩
  · rw [renderKnative, himage]
  · rw [mem_append_odgm, Renders]
    refine or_congr_left ?_
    simp [mem_mapIdx, getElem?_eq_some_iff, eq_comm (a := m)]

theorem renderKnative_panics (h : ¬ FirstHasImage ctx) :
    renderKnative ctx = .error (.panicked "function image validated in TemplateManager::render_workload") := by
  rw [renderKnative, Option.not_isSome_iff_eq_none.1 h]

variable (includeKnative : Bool) (env : Option EnvironmentContext)

/-- **The three outcomes.** An error where a function lacks its image, a panic where the Knative template meets a first
function without one, and the objects of the template otherwise. -/
theorem renderWorkload_total :
    ((∃ f ∈ ctx.spec.functions, Imageless f = true) ∧
      renderWorkload ctx includeKnative env = .error .missingFunctionImage) ∨
    ((∀ f ∈ ctx.spec.functions, Imageless f = false) ∧ template ctx includeKnative env = .knative ∧ ¬ FirstHasImage ctx ∧
      ∃ msg, renderWorkload ctx includeKnative env = .error (.panicked msg)) ∨
    ((∀ f ∈ ctx.spec.functions, Imageless f = false) ∧
      (template ctx includeKnative env = .knative → FirstHasImage ctx) ∧
      ∃ manifests, renderWorkload ctx includeKnative env = .ok manifests ∧
        ∀ m, m ∈ manifests ↔ Renders ctx (template ctx includeKnative env) m) := by
  unfold renderWorkload
  by_cases himages : ctx.spec.functions.any Imageless = true
  · exact .inl ⟨any_eq_true.1 himages, if_pos himages⟩
  · have hall : ∀ f ∈ ctx.spec.functions, Imageless f = false := by simpa using himages
    rw [if_neg himages]
    by_cases hkn : template ctx includeKnative env = .knative
    · rw [hkn]
      by_cases hfirst : FirstHasImage ctx
      · exact .inr (.inr ⟨hall, fun _ => hfirst, renderKnative_ok ctx hfirst⟩)
      · exact .inr (.inl ⟨hall, rfl, hfirst, _, renderKnative_panics ctx hfirst⟩)
    · have hrender : render ctx (template ctx includeKnative env) =
          renderWith ctx (odgmImage ctx (template ctx includeKnative env)) := by
        cases ht : template ctx includeKnative env with
        | knative => exact absurd ht hkn
        | dev | edge | k8sDeployment => rfl
      rw [hrender]
      exact .inr (.inr ⟨hall, fun h => absurd h hkn, renderWith_ok ctx hall hkn⟩)

end Rendered

/-! ## Panics, images and WASM functions -/

structure Sound (ctx : RenderContext) (manifests : List Manifest) : Prop where
  images : ∀ m ∈ manifests, ∀ c ∈ m.containers, c.name = "function" → c.image ≠ ""
  wasm : ∀ i f, ctx.spec.functions[i]? = some f → ¬ InContainer f →
    ∀ m ∈ manifests, m.name ≠ functionServiceName ctx.name i ctx.spec.functions.length

def Safe (ctx : RenderContext) (result : Except RenderFailure (List Manifest)) : Prop :=
  (∀ msg, result ≠ .error (.panicked msg)) ∧ ∀ manifests, result = .ok manifests → Sound ctx manifests

section Images

variable (ctx : RenderContext)

theorem odgm_name_ne (i n : Nat) (suffix : String) :
    dns1035Safe ctx.name ++ ("-odgm" ++ suffix) ≠ functionServiceName ctx.name i n := by
  intro h
  unfold functionServiceName at h
  split at h
  · rw [String.append_assoc, String.append_right_inj] at h
    have hlist := congrArg (fun s => s.toList.take 2) h
    simp [String.toList_append] at hlist
  · have hlen := congrArg String.length h
    have hodgm : "-odgm".length = 5 := by decide
    rw [String.length_append, String.length_append, hodgm] at hlen
    omega

theorem odgm_sound {image : Option String} {m : Manifest} (h : m ∈ buildOdgmResources ctx image) :
    (∀ c ∈ m.containers, c.name ≠ "function") ∧ ∀ i n, m.name ≠ functionServiceName ctx.name i n := by
  rcases mem_pair.1 h with rfl | rfl
  · exact ⟨by simp, fun i n => by simpa using odgm_name_ne ctx i n ""⟩
  · exact ⟨by simp, fun i n => by simpa [String.append_assoc] using odgm_name_ne ctx i n "-svc"⟩

theorem sound_plain {t : Template} (ht : t ≠ .knative) {manifests : List Manifest}
    (hmem : ∀ m, m ∈ manifests ↔ Renders ctx t m) :
    Sound ctx manifests ↔ ∀ f ∈ ctx.spec.functions, InContainer f → f.containerImage ≠ some "" := by
  constructor
  · intro hsound f hf hin hempty
    obtain ⟨i, hi⟩ := List.getElem?_of_mem hf
    have hrendered : Renders ctx t ⟨.deployment, functionServiceName ctx.name i ctx.spec.functions.length,
        baseLabels (functionServiceName ctx.name i ctx.spec.functions.length) ctx.name, [⟨"function", ""⟩]⟩ := by
      refine .inl ⟨i, f, hi, ?_⟩
      rw [if_neg ht]
      exact ⟨hin, "", hempty, List.mem_cons_self⟩
    exact hsound.images _ ((hmem _).2 hrendered) _ List.mem_cons_self rfl rfl
  · intro himages
    constructor
    · intro m hm c hc hname hempty
      rcases (hmem m).1 hm with ⟨i, f, hi, hfn⟩ | ⟨_, hodgm⟩
      · rw [if_neg ht] at hfn
        obtain ⟨hin, image, himage, hm⟩ := hfn
        rcases List.mem_pair.1 hm with rfl | rfl
        · obtain rfl := List.mem_singleton.1 hc
          obtain rfl : image = "" := hempty
          exact himages f (List.mem_of_getElem? hi) hin himage
        · cases hc
      · exact (odgm_sound ctx hodgm).1 c hc hname
    · intro i f hi hwasm m hm hname
      rcases (hmem m).1 hm with ⟨j, g, hj, hfn⟩ | ⟨_, hodgm⟩
      · rw [if_neg ht] at hfn
        obtain ⟨hin, image, _, hm⟩ := hfn
        have hname' : m.name = functionServiceName ctx.name j ctx.spec.functions.length := by
          rcases List.mem_pair.1 hm with rfl | rfl <;> rfl
        have hij : j = i := by
          rcases functionServiceName_inj.1 (hname'.symm.trans hname) with ⟨_, _, hij⟩ | ⟨hone, _⟩
          · exact hij
          · have hi' := (List.getElem?_eq_some_iff.1 hi).1
            have hj' := (List.getElem?_eq_some_iff.1 hj).1
            omega
        obtain rfl : g = f := Option.some.inj (hj.symm.trans (hij ▸ hi))
        exact hwasm hin
      · exact (odgm_sound ctx hodgm).2 i _ hname

theorem sound_knative (hfunctions : ∀ f ∈ ctx.spec.functions, Imageless f = false) {manifests : List Manifest}
    (hmem : ∀ m, m ∈ manifests ↔ Renders ctx .knative m) :
    Sound ctx manifests ↔ ∀ f ∈ ctx.spec.functions, InContainer f ∧ f.containerImage ≠ some "" := by
  have hservice : ∀ i f, ctx.spec.functions[i]? = some f → knativeService ctx i f ∈ manifests := fun i f hi =>
    (hmem _).2 (.inl ⟨i, f, hi, by rw [if_pos rfl]⟩)
  have hname : ∀ i f, ctx.spec.functions[i]? = some f →
      (knativeService ctx i f).name = functionServiceName ctx.name i ctx.spec.functions.length := by
    intro i f hi
    exact congrArg RenderedResource.name (forget_knativeService ctx (f := f) (List.getElem?_eq_some_iff.1 hi).1)
  constructor
  · intro hsound f hf
    obtain ⟨i, hi⟩ := List.getElem?_of_mem hf
    constructor
    · by_contra hwasm
      exact hsound.wasm i f hi hwasm _ (hservice i f hi) (hname i f hi)
    · intro hempty
      exact hsound.images _ (hservice i f hi) ⟨"function", f.containerImage.getD ""⟩ List.mem_cons_self rfl (by simp [hempty])
  · intro hall
    constructor
    · intro m hm c hc hcname hempty
      rcases (hmem m).1 hm with ⟨i, f, hi, hfn⟩ | ⟨_, hodgm⟩
      · rw [if_pos rfl] at hfn
        subst hfn
        obtain rfl := List.mem_singleton.1 hc
        have hf := List.mem_of_getElem? hi
        obtain ⟨hin, hne⟩ := hall f hf
        cases himage : f.containerImage with
        | none =>
          have := hfunctions f hf
          simp [Imageless, himage, show f.wasmModuleUrl = none from hin] at this
        | some image =>
          rw [himage] at hne hempty
          exact hne (congrArg some hempty)
      · exact (odgm_sound ctx hodgm).1 c hc hcname
    · intro i f hi hwasm
      exact absurd (hall f (List.mem_of_getElem? hi)).1 hwasm

end Images

/-- **Rendering is safe** if it fails for want of an image, or no image is empty and the Knative template finds a
function and no WASM one. -/
theorem rendering_safe_iff (ctx : RenderContext) (includeKnative : Bool) (env : Option EnvironmentContext) :
    Safe ctx (renderWorkload ctx includeKnative env) ↔
      (∃ f ∈ ctx.spec.functions, Imageless f = true) ∨
      ((∀ f ∈ ctx.spec.functions, InContainer f → f.containerImage ≠ some "") ∧
        (template ctx includeKnative env = .knative →
          ctx.spec.functions ≠ [] ∧ ∀ f ∈ ctx.spec.functions, InContainer f)) := by
  unfold Safe
  rcases renderWorkload_total ctx includeKnative env with
    ⟨himageless, herr⟩ | ⟨hall, hkn, hfirst, msg, hpanic⟩ | ⟨hall, hfirst, manifests, hok, hmem⟩
  · rw [herr]
    exact iff_of_true (by simp) (.inl himageless)
  · refine iff_of_false (fun h => h.1 msg hpanic) ?_
    rintro (⟨f, hf, himageless⟩ | ⟨-, hsound⟩)
    · simp [hall f hf] at himageless
    · -- a first container function has an image, so the panic needs a WASM function in front or no function
      obtain ⟨hne, hcontainers⟩ := hsound hkn
      obtain ⟨f, fs, hfs⟩ := exists_cons_of_ne_nil hne
      have hf : f ∈ ctx.spec.functions := hfs ▸ mem_cons_self
      have himage := hall f hf
      apply hfirst
      unfold FirstHasImage
      simpa [hfs, Imageless, show f.wasmModuleUrl = none from hcontainers f hf, Option.isSome_iff_ne_none] using himage
  · have hnone : ¬ ∃ f ∈ ctx.spec.functions, Imageless f = true := by
      rintro ⟨f, hf, himageless⟩
      simp [hall f hf] at himageless
    have hsafe : ((∀ msg, renderWorkload ctx includeKnative env ≠ .error (.panicked msg)) ∧
        ∀ ms, renderWorkload ctx includeKnative env = .ok ms → Sound ctx ms) ↔ Sound ctx manifests := by
      rw [hok]
      simp
    rw [hsafe]
    by_cases hkn : template ctx includeKnative env = .knative
    · rw [hkn] at hmem
      rw [sound_knative ctx hall hmem]
      have hne : ctx.spec.functions ≠ [] := by
        intro hnil
        have := hfirst hkn
        simp [FirstHasImage, hnil] at this
      simp only [hkn, hnone, hne, ne_eq, not_false_eq_true, true_and, forall_const, false_or]
      exact ⟨fun h => ⟨fun f hf _ => (h f hf).2, fun f hf => (h f hf).1⟩,
        fun h f hf => ⟨h.2 f hf, h.1 f hf (h.2 f hf)⟩⟩
    · rw [sound_plain ctx hkn hmem]
      simp [hkn, hnone]

namespace Mixed

def container (key : String) : FunctionDeploymentSpec := ⟨key, some ⟨some "registry/app", none, none⟩⟩
def wasm (key : String) : FunctionDeploymentSpec := ⟨key, some ⟨none, some "https://modules/f.wasm", none⟩⟩

def knative (functions : List FunctionDeploymentSpec) : RenderContext :=
  ⟨"cls", false, "dev", none, none, ⟨some "knative", none, none, functions, none⟩⟩

/-- A WASM function alone panics; behind another it gets a Service without an image. -/
theorem wasm_under_knative :
    renderWorkload (knative [wasm "f"]) true none =
        .error (.panicked "function image validated in TemplateManager::render_workload") ∧
      ∃ m, renderWorkload (knative [container "g", wasm "f"]) true none =
          .ok [knativeService (knative [container "g", wasm "f"]) 0 (container "g"), m] ∧
        m.kind = .knativeService ∧ m.name = functionServiceName "cls" 1 2 ∧ m.containers = [⟨"function", ""⟩] :=
  ⟨by decide +kernel, knativeService (knative [container "g", wasm "f"]) 1 (wasm "f"), by decide +kernel⟩

end Mixed

end Rendering

end Crm
