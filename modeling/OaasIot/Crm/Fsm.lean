import OaasIot.Crm.Templates

/-!
# The state machine of a ClassRuntime (`oprc-crm/src/controller/fsm`)

Readiness is read off the observed children of **one kind only**, Deployments without Knative and Knative Services with
it. But with Knative another template may be chosen, the data grid is always a Deployment, and a workload that has not
been created yet is no child at all.
-/

open Grpc

namespace Crm

/-! ## Phases, children, descriptors -/

inductive Phase
  | pending
  | applying
  | progressing
  | available
  | degraded
  | deleting
  deriving DecidableEq

/-- Unicode white space, as `char::is_whitespace` has it. -/
def isWhiteSpace (c : Char) : Bool :=
  let n := c.toNat
  (9 ≤ n && n ≤ 13) || n == 32 || n == 0x85 || n == 0xa0 || n == 0x1680 || (0x2000 ≤ n && n ≤ 0x200a) ||
    n == 0x2028 || n == 0x2029 || n == 0x202f || n == 0x205f || n == 0x3000

def trim (s : String) : String := String.ofList ((s.toList.dropWhile isWhiteSpace).rdropWhile isWhiteSpace)

def Phase.ofString (s : String) : Phase :=
  match String.ofList (asciiLower (trim s)) with
  | "pending" => .pending
  | "applying" => .applying
  | "progressing" => .progressing
  | "available" => .available
  | "degraded" => .degraded
  | "deleting" => .deleting
  | _ => .progressing

structure ChildStatus where
  name : String
  kind : String
  ready : Bool
  reason : Option String
  message : Option String
  deriving DecidableEq

inductive ManagedKind
  | deployment
  | service
  | knativeService
  | odgmDeployment
  | odgmService
  | hpa
  deriving DecidableEq

structure ReadinessResult where
  ready : Bool
  reason : Option String
  message : Option String
  deriving DecidableEq

structure ReadinessRule where
  kind : ManagedKind
  contributesToAvailable : Bool
  evaluator : List ChildStatus → ReadinessResult

structure TemplateDescriptor where
  id : String
  managed : List ManagedKind
  readiness : List ReadinessRule
  functionNamer : String → Nat → Nat → String

def kindReady (kind noneReason : String) (observed : List ChildStatus) : ReadinessResult :=
  let children := observed.filter (·.kind == kind)
  if children.isEmpty then ⟨false, some noneReason, none⟩ else ⟨children.all (·.ready), none, none⟩

def deploymentsReady : List ChildStatus → ReadinessResult := kindReady "Deployment" "NoDeployments"
def knativeServicesReady : List ChildStatus → ReadinessResult := kindReady "KnativeService" "NoKnativeServices"

def descriptorK8s : TemplateDescriptor :=
  { id := "k8s_deployment"
    managed := [.deployment, .service, .odgmDeployment, .odgmService]
    readiness := [⟨.deployment, true, deploymentsReady⟩]
    functionNamer := functionServiceName }

def descriptorKnative : TemplateDescriptor :=
  { id := "knative"
    managed := [.knativeService, .odgmDeployment, .odgmService]
    readiness := [⟨.knativeService, true, knativeServicesReady⟩]
    functionNamer := functionServiceName }

/-! ## The evaluator -/

inductive FsmAction
  | applyWorkload
  | ensureMetricsTargets
  | deleteOrphans (names : List String)
  | enforceReplicas (n : UInt32)
  deriving DecidableEq

structure EvalInput where
  phase : Option Phase
  desc : TemplateDescriptor
  observed : List ChildStatus
  isDeleting : Bool
  generationChanged : Bool
  className : String
  functionsTotal : Nat

structure EvalOutput where
  phase : Phase
  actions : List FsmAction
  deriving DecidableEq

def functionKinds (managed : List ManagedKind) : List String :=
  managed.filterMap fun
    | .deployment => some "Deployment"
    | .service => some "Service"
    | .knativeService => some "KnativeService"
    | .odgmDeployment | .odgmService | .hpa => none

def orphans (input : EvalInput) : List String :=
  let expected := (List.range input.functionsTotal).map fun i => input.desc.functionNamer input.className i input.functionsTotal
  (input.observed.filter fun c =>
    !(c.name.endsWith "-odgm" || c.name.endsWith "-odgm-svc") &&
      (functionKinds input.desc.managed).contains c.kind && !expected.contains c.name).map (·.name)

def allRulesReady (input : EvalInput) : Bool :=
  let rules := input.desc.readiness.filter (·.contributesToAvailable)
  !rules.isEmpty && rules.all fun r => (r.evaluator input.observed).ready

def evaluate (input : EvalInput) : EvalOutput :=
  if input.isDeleting then ⟨.deleting, []⟩
  else if input.generationChanged then ⟨.applying, [.applyWorkload]⟩
  else if input.observed.isEmpty then
    -- nothing there: apply, but not again while the first apply is in flight
    ⟨.applying, if input.phase = some .applying ∨ input.phase = some .progressing then [] else [.applyWorkload]⟩
  else
    ⟨if allRulesReady input then .available else .progressing,
      if (orphans input).isEmpty then [] else [.deleteOrphans (orphans input)]⟩

/-! ## What a reconcile step evaluates -/

structure ControllerConfig where
  includeKnative : Bool
  env : Option EnvironmentContext
  profile : String
  odgmSidecar : Bool

def generationChanged (observedGeneration generation : Option Int) : Bool :=
  match observedGeneration with
  | none => false
  | some g => g ≠ generation.getD 0

/-- The evaluation of an object that is not being deleted. The descriptor depends on the Knative flag alone. -/
def evaluateObject (cfg : ControllerConfig) (name : String) (spec : ClassRuntimeSpec) (phase : Option String)
    (observedGeneration generation : Option Int) (observed : List ChildStatus) : EvalOutput :=
  evaluate
    { phase := phase.map Phase.ofString
      desc := if cfg.includeKnative then descriptorKnative else descriptorK8s
      observed := observed
      isDeleting := false
      generationChanged := generationChanged observedGeneration generation
      className := name
      functionsTotal := spec.functions.length }

def renderObject (cfg : ControllerConfig) (name : String) (spec : ClassRuntimeSpec) :
    Except RenderFailure (List RenderedResource) :=
  renderWorkload cfg.includeKnative cfg.env cfg.profile name (computeEnableOdgm cfg.odgmSidecar spec) spec

/-! ## Available -/

def ResourceKind.label : ResourceKind → String
  | .deployment => "Deployment"
  | .service => "Service"
  | .knativeService => "KnativeService"

def watchedKind (cfg : ControllerConfig) : ResourceKind := if cfg.includeKnative then .knativeService else .deployment
def workloads (resources : List RenderedResource) : List RenderedResource := resources.filter (·.kind ≠ .service)
def Represents (c : ChildStatus) (w : RenderedResource) : Prop := c.kind = w.kind.label ∧ c.name = w.name

def Settled (kind : ResourceKind) (observed : List ChildStatus) : Prop :=
  (∃ c ∈ observed, c.kind = kind.label) ∧ ∀ c ∈ observed, c.kind = kind.label → c.ready = true

def Seen (w : RenderedResource) (observed : List ChildStatus) : Prop := ∃ c ∈ observed, Represents c w

def Up (w : RenderedResource) (observed : List ChildStatus) : Prop :=
  Seen w observed ∧ ∀ c ∈ observed, Represents c w → c.ready = true

def AllUp (resources : List RenderedResource) (observed : List ChildStatus) : Prop :=
  ∀ w ∈ workloads resources, Up w observed

instance (c : ChildStatus) (w : RenderedResource) : Decidable (Represents c w) := inferInstanceAs (Decidable (_ ∧ _))

instance (kind : ResourceKind) (observed : List ChildStatus) : Decidable (Settled kind observed) :=
  inferInstanceAs (Decidable (_ ∧ _))

instance (w : RenderedResource) (observed : List ChildStatus) : Decidable (Seen w observed) :=
  inferInstanceAs (Decidable (∃ _ ∈ _, _))

instance (w : RenderedResource) (observed : List ChildStatus) : Decidable (Up w observed) :=
  inferInstanceAs (Decidable (_ ∧ _))

instance (resources : List RenderedResource) (observed : List ChildStatus) : Decidable (AllUp resources observed) :=
  inferInstanceAs (Decidable (∀ _ ∈ _, _))

theorem kindReady_ready (kind : ResourceKind) (why : String) (observed : List ChildStatus) :
    (kindReady kind.label why observed).ready = true ↔ Settled kind observed := by
  unfold kindReady Settled
  by_cases h : ∃ c ∈ observed, c.kind = kind.label
  · have hne : (observed.filter (·.kind == kind.label)).isEmpty = false := by
      obtain ⟨c, hc, hk⟩ := h
      rw [List.isEmpty_eq_false_iff_exists_mem]
      exact ⟨c, by simp [hc, hk]⟩
    simp [hne, h, imp_iff_not_or]
  · have hnil : observed.filter (·.kind == kind.label) = [] := by
      simpa [List.filter_eq_nil_iff] using h
    simp [hnil, h]

/-- **Available** is said exactly where the watched kind is settled. -/
theorem evaluate_available {cfg : ControllerConfig} {name : String} {spec : ClassRuntimeSpec} {phase : Option String}
    {observedGeneration generation : Option Int} {observed : List ChildStatus}
    (hgen : generationChanged observedGeneration generation = false) :
    (evaluateObject cfg name spec phase observedGeneration generation observed).phase = .available ↔
      Settled (watchedKind cfg) observed := by
  have hrules : ∀ desc phase total, (desc = if cfg.includeKnative then descriptorKnative else descriptorK8s) →
      (allRulesReady ⟨phase, desc, observed, false, false, name, total⟩ = true ↔ Settled (watchedKind cfg) observed) := by
    rintro _ phase total rfl
    unfold watchedKind
    cases cfg.includeKnative with
    | false =>
      have hready : (deploymentsReady observed).ready = true ↔ Settled .deployment observed :=
        kindReady_ready .deployment "NoDeployments" observed
      simpa [allRulesReady, descriptorK8s] using hready
    | true =>
      have hready : (knativeServicesReady observed).ready = true ↔ Settled .knativeService observed :=
        kindReady_ready .knativeService "NoKnativeServices" observed
      simpa [allRulesReady, descriptorKnative] using hready
  rw [evaluateObject, evaluate, hgen]
  by_cases hempty : observed = []
  · subst hempty
    simp [Settled]
  · have hne : observed.isEmpty = false := by simpa using hempty
    simp only [Bool.false_eq_true, if_false, hne, ← hrules _ (phase.map Phase.ofString) spec.functions.length rfl]
    split <;> simp_all

/-! ## Exactly when everything is up -/

/-- **An observation the machine reads right**: settled only where everything rendered is there and up, and unready
only where something rendered is not up. -/
structure Telling (cfg : ControllerConfig) (spec : ClassRuntimeSpec) (resources : List RenderedResource)
    (observed : List ChildStatus) : Prop where
  complete : Settled (watchedKind cfg) observed →
    ∀ w ∈ workloads resources, Seen w observed ∧ (w.kind ≠ watchedKind cfg → Up w observed)
  stray : cfg.includeKnative = true → ∀ c ∈ observed, c.kind = "KnativeService" → c.ready = false →
    (∃ w ∈ workloads resources, Represents c w) ∨ ∃ w ∈ workloads resources, ¬ Up w observed
  template : cfg.includeKnative = true → selectTemplate cfg.includeKnative cfg.env cfg.profile spec ≠ .knative →
    (∃ c ∈ observed, c.kind = "KnativeService") ∨ ∃ w ∈ workloads resources, ¬ Up w observed

section Exact

variable {cfg : ControllerConfig} {name : String} {spec : ClassRuntimeSpec} {resources : List RenderedResource}
  {observed : List ChildStatus}

theorem exists_watched (hrender : renderObject cfg name spec = .ok resources)
    (hcontainer : ∃ f ∈ spec.functions, f.wasmModuleUrl = none ∧ f.containerImage ≠ none)
    (hfits : cfg.includeKnative = true → selectTemplate cfg.includeKnative cfg.env cfg.profile spec = .knative) :
    ∃ w ∈ workloads resources, w.kind = watchedKind cfg := by
  unfold watchedKind
  cases hkn : cfg.includeKnative with
  | false =>
    have hsel : selectTemplate cfg.includeKnative cfg.env cfg.profile spec ≠ .knative := by
      rw [hkn]
      exact selectTemplate_ne_knative _ _ _
    obtain ⟨f, hf, hwasm, _⟩ := hcontainer
    obtain ⟨w, hw, hkind⟩ := (renderWorkload_plain hrender hsel).2 f hf hwasm
    exact ⟨w, by simp [workloads, hw, hkind], hkind⟩
  | true =>
    obtain ⟨w, hw, hkind⟩ := renderWorkload_knative hrender (hfits hkn)
    exact ⟨w, by simp [workloads, hw, hkind], hkind⟩

theorem represents_of_name (hrender : renderObject cfg name spec = .ok resources) (hkn : cfg.includeKnative = false)
    (hnames : ∀ c ∈ observed, ∃ w ∈ workloads resources, w.name = c.name) {c : ChildStatus} (hc : c ∈ observed)
    (hkind : c.kind = ResourceKind.deployment.label) : ∃ w ∈ workloads resources, Represents c w := by
  obtain ⟨w, hw, hname⟩ := hnames c hc
  have hsel : selectTemplate cfg.includeKnative cfg.env cfg.profile spec ≠ .knative := by
    rw [hkn]
    exact selectTemplate_ne_knative _ _ _
  obtain ⟨hmem, hservice⟩ : w ∈ resources ∧ w.kind ≠ .service := by simpa [workloads] using hw
  have hplain := (renderWorkload_plain hrender hsel).1 w hmem
  have hdep : w.kind = .deployment := by
    cases hk : w.kind with
    | deployment => rfl
    | service => exact absurd hk hservice
    | knativeService => exact absurd hk hplain
  exact ⟨w, hw, by rw [hdep]; exact hkind, hname.symm⟩

theorem not_allUp_of_exists (h : ∃ w ∈ workloads resources, ¬ Up w observed) : ¬ AllUp resources observed := by
  intro hall
  obtain ⟨w, hw, hnot⟩ := h
  exact hnot (hall w hw)

theorem allUp_of_settled (hsettled : Settled (watchedKind cfg) observed) :
    AllUp resources observed ↔
      ∀ w ∈ workloads resources, Seen w observed ∧ (w.kind ≠ watchedKind cfg → Up w observed) := by
  constructor
  · intro hall w hw
    exact ⟨(hall w hw).1, fun _ => hall w hw⟩
  · intro hcomplete w hw
    obtain ⟨hseen, hother⟩ := hcomplete w hw
    by_cases hkind : w.kind = watchedKind cfg
    · exact ⟨hseen, fun c hc hrep => hsettled.2 c hc (hkind ▸ hrep.1)⟩
    · exact hother hkind

theorem settled_of_allUp (hall : AllUp resources observed) (hseen : ∃ c ∈ observed, c.kind = (watchedKind cfg).label)
    (hstray : ∀ c ∈ observed, c.kind = (watchedKind cfg).label → c.ready = false →
      ∃ w ∈ workloads resources, Represents c w) : Settled (watchedKind cfg) observed := by
  refine ⟨hseen, fun c hc hkind => ?_⟩
  by_contra hready
  rw [Bool.not_eq_true] at hready
  obtain ⟨w, hw, hrep⟩ := hstray c hc hkind hready
  rw [(hall w hw).2 c hc hrep] at hready
  cases hready

theorem seen_of_watched (hall : AllUp resources observed) (h : ∃ w ∈ workloads resources, w.kind = watchedKind cfg) :
    ∃ c ∈ observed, c.kind = (watchedKind cfg).label := by
  obtain ⟨w, hw, hkind⟩ := h
  obtain ⟨c, hc, hrep⟩ := (hall w hw).1
  exact ⟨c, hc, hkind ▸ hrep.1⟩

end Exact

/-- **Exactness of `Available`**: it is said exactly when every rendered workload is up, where the observation is
telling. -/
theorem available_exact_iff (cfg : ControllerConfig) (name : String) (spec : ClassRuntimeSpec) (phase : Option String)
    (observedGeneration generation : Option Int) (observed : List ChildStatus) (resources : List RenderedResource)
    (hrender : renderObject cfg name spec = .ok resources)
    (hcontainer : ∃ f ∈ spec.functions, f.wasmModuleUrl = none ∧ f.containerImage ≠ none)
    (hnames : ∀ c ∈ observed, ∃ w ∈ workloads resources, w.name = c.name)
    (hgen : generationChanged observedGeneration generation = false) :
    ((evaluateObject cfg name spec phase observedGeneration generation observed).phase = .available ↔
      AllUp resources observed) ↔ Telling cfg spec resources observed := by
  rw [evaluate_available hgen]
  constructor
  · intro h
    refine ⟨fun hs => (allUp_of_settled hs).1 (h.1 hs), fun hkn c hc hkind hready => ?_, fun hkn _ => ?_⟩
    · by_cases hall : AllUp resources observed
      · have hs := h.2 hall
        rw [watchedKind, if_pos hkn] at hs
        rw [hs.2 c hc hkind] at hready
        cases hready
      · exact .inr (by simpa [AllUp] using hall)
    · by_cases hall : AllUp resources observed
      · have hs := h.2 hall
        rw [watchedKind, if_pos hkn] at hs
        exact .inl hs.1
      · exact .inr (by simpa [AllUp] using hall)
  · intro htell
    refine ⟨fun hs => (allUp_of_settled hs).2 (htell.complete hs), fun hall => ?_⟩
    have hnone : ¬ ∃ w ∈ workloads resources, ¬ Up w observed := fun h => not_allUp_of_exists h hall
    cases hkn : cfg.includeKnative with
    | false =>
      have hkind : watchedKind cfg = .deployment := by simp [watchedKind, hkn]
      have hwatched := exists_watched hrender hcontainer (by simp [hkn])
      refine settled_of_allUp hall (seen_of_watched hall hwatched) fun c hc hk _ => ?_
      exact represents_of_name hrender hkn hnames hc (hkind ▸ hk)
    | true =>
      have hkind : watchedKind cfg = .knativeService := by simp [watchedKind, hkn]
      refine settled_of_allUp hall ?_ fun c hc hk hready =>
        (htell.stray hkn c hc (by rw [hk, hkind]; rfl) hready).resolve_right hnone
      by_cases hsel : selectTemplate cfg.includeKnative cfg.env cfg.profile spec = .knative
      · exact seen_of_watched hall (exists_watched hrender hcontainer fun _ => hsel)
      · rw [hkind]
        exact (htell.template hkn hsel).resolve_right hnone

namespace Observations

def dev : ControllerConfig := ⟨false, none, "dev", true⟩

def images (n : Nat) : ClassRuntimeSpec :=
  ⟨none, none, none, (List.range n).map fun i => ⟨toString i, some ⟨some "registry/app", none, none⟩⟩, none⟩

def rendered (names : List String) : List RenderedResource :=
  names.flatMap (fun n => [⟨.deployment, n, n⟩, ⟨.service, n, n⟩]) ++ odgmResources "cls"

def deployment (name : String) : ChildStatus := ⟨name, "Deployment", true, none, none⟩

theorem available_exact_one :
    renderObject dev "cls" (images 1) = .ok (rendered ["cls"]) ∧
      ((evaluateObject dev "cls" (images 1) (some "progressing") (some 1) (some 1)
          [deployment "cls", deployment "cls-odgm"]).phase = .available ↔
        AllUp (rendered ["cls"]) [deployment "cls", deployment "cls-odgm"]) := by
  refine ⟨by decide +kernel, (available_exact_iff _ _ _ _ _ _ _ _ ?_ ?_ ?_ ?_).2 ⟨fun _ => ?_, ?_, ?_⟩⟩
  · decide +kernel
  · decide +kernel
  · decide +kernel
  · decide
  · decide +kernel
  · exact fun h => absurd h (by decide)
  · exact fun h => absurd h (by decide)

/-- Of two functions and the data grid only one Deployment exists so far: `Available`. -/
theorem available_before_created :
    renderObject dev "cls" (images 2) = .ok (rendered ["cls-fn-0", "cls-fn-1"]) ∧
      (∃ w ∈ workloads (rendered ["cls-fn-0", "cls-fn-1"]), w.name = (deployment "cls-fn-0").name) ∧
      (evaluateObject dev "cls" (images 2) (some "applying") (some 1) (some 1) [deployment "cls-fn-0"]).phase =
        .available ∧
      ¬ AllUp (rendered ["cls-fn-0", "cls-fn-1"]) [deployment "cls-fn-0"] := by
  decide +kernel

end Observations

end Crm
