import OaasIot.Crm.Fsm

/-!
# Orphaned workloads

What should be there is computed from **the number of functions alone**, so the workload of a function that was turned
into WASM is never deleted. Names with a suffix of the data grid are skipped whether or not there is one, and with
Knative enabled only Knative Services are looked at.
-/

open Grpc

namespace Crm

open List

def listedOrphans (actions : List FsmAction) : List String :=
  actions.flatMap fun
    | .deleteOrphans names => names
    | .applyWorkload | .ensureMetricsTargets | .enforceReplicas _ => []

def renderedNames (cfg : ControllerConfig) (name : String) (spec : ClassRuntimeSpec) : List String :=
  match renderObject cfg name spec with
  | .ok resources => resources.map (·.name)
  | .error _ => []

def descriptor (cfg : ControllerConfig) : TemplateDescriptor :=
  if cfg.includeKnative then descriptorKnative else descriptorK8s

def OdgmSuffix (n : String) : Prop := n.endsWith "-odgm" = true ∨ n.endsWith "-odgm-svc" = true
instance (n : String) : Decidable (OdgmSuffix n) := inferInstanceAs (Decidable (_ ∨ _))

section Names

variable {cfg : ControllerConfig} {name : String} {spec : ClassRuntimeSpec}

theorem endsWith_append (s t : String) : (s ++ t).endsWith t = true := by
  rw [String.endsWith_eq_endsWith_toSlice, String.Slice.endsWith_string_iff]
  simp

theorem odgmSuffix_odgmResources {r : RenderedResource} (h : r ∈ odgmResources name) : OdgmSuffix r.name := by
  rcases mem_pair.1 h with rfl | rfl
  · exact .inl (endsWith_append _ _)
  · refine .inr ?_
    change (dns1035Safe name ++ "-odgm" ++ "-svc").endsWith "-odgm-svc" = true
    rw [String.append_assoc]
    exact endsWith_append _ "-odgm-svc"

theorem mem_renderedNames {resources : List RenderedResource} (h : renderObject cfg name spec = .ok resources) (n : String) :
    n ∈ renderedNames cfg name spec ↔
      (∃ i f, spec.functions[i]? = some f ∧ n = functionServiceName name i spec.functions.length ∧
        (f.wasmModuleUrl ≠ none → selectTemplate cfg.includeKnative cfg.env cfg.profile spec = .knative)) ∨
      (computeEnableOdgm cfg.odgmSidecar spec = true ∧ n ∈ (odgmResources name).map (·.name)) := by
  have hnames : renderedNames cfg name spec = resources.map (·.name) := by rw [renderedNames, h]
  obtain ⟨himages, hresources⟩ := renderWorkload_ok h
  rw [hnames]
  -- both templates append the data grid to what they make of the functions
  suffices hfn : ∃ functions, resources =
      functions ++ (if computeEnableOdgm cfg.odgmSidecar spec then odgmResources name else []) ∧
      ∀ n, n ∈ functions.map (·.name) ↔ ∃ i f, spec.functions[i]? = some f ∧
        n = functionServiceName name i spec.functions.length ∧
        (f.wasmModuleUrl ≠ none → selectTemplate cfg.includeKnative cfg.env cfg.profile spec = .knative) by
    obtain ⟨functions, rfl, hfunctions⟩ := hfn
    rw [map_append, mem_append, hfunctions]
    cases computeEnableOdgm cfg.odgmSidecar spec <;> simp
  by_cases hkn : selectTemplate cfg.includeKnative cfg.env cfg.profile spec = .knative
  · rw [if_pos hkn, renderKnative] at hresources
    split at hresources
    · cases hresources
    · refine ⟨_, (Except.ok.inj hresources).symm, fun n => ?_⟩
      simp [hkn, knativeService, getElem?_eq_some_iff, eq_comm (a := n)]
  · rw [if_neg hkn] at hresources
    obtain ⟨rendered, hrendered, hmem⟩ := mem_renderFunctions name spec.functions.length 0 himages
    rw [renderWith, hrendered] at hresources
    refine ⟨rendered, (Except.ok.inj hresources).symm, fun n => ?_⟩
    rw [mem_map]
    constructor
    · rintro ⟨r, hr, rfl⟩
      obtain ⟨i, f, hf, hwasm, _, hname, _⟩ := (hmem r).1 hr
      rw [Nat.zero_add] at hname
      exact ⟨i, f, hf, hname, fun h => absurd hwasm h⟩
    · rintro ⟨i, f, hf, rfl, hwasm⟩
      refine ⟨⟨.deployment, functionServiceName name i spec.functions.length,
        functionServiceName name i spec.functions.length⟩, (hmem _).2 ⟨i, f, hf, ?_, .inl rfl, ?_, rfl⟩, rfl⟩
      · by_contra h
        exact hkn (hwasm h)
      · rw [Nat.zero_add]

theorem expected_of_rendered {n : String} (h : n ∈ renderedNames cfg name spec) :
    (∃ i < spec.functions.length, n = functionServiceName name i spec.functions.length) ∨ OdgmSuffix n := by
  cases hrender : renderObject cfg name spec with
  | error e => simp [renderedNames, hrender] at h
  | ok resources =>
    rcases (mem_renderedNames hrender n).1 h with ⟨i, f, hf, hname, _⟩ | ⟨_, hodgm⟩
    · exact .inl ⟨i, (List.getElem?_eq_some_iff.1 hf).1, hname⟩
    · obtain ⟨r, hr, rfl⟩ := List.mem_map.1 hodgm
      exact .inr (odgmSuffix_odgmResources hr)

end Names

/-! ## The list -/

def Listed (cfg : ControllerConfig) (name : String) (spec : ClassRuntimeSpec) (c : ChildStatus) : Prop :=
  c.kind ∈ functionKinds (descriptor cfg).managed ∧ ¬ OdgmSuffix c.name ∧
    ∀ i < spec.functions.length, c.name ≠ functionServiceName name i spec.functions.length

def Stray (kinds : List String) (cfg : ControllerConfig) (name : String) (spec : ClassRuntimeSpec) (c : ChildStatus) : Prop :=
  c.kind ∈ kinds ∧ c.name ∉ renderedNames cfg name spec

instance (cfg : ControllerConfig) (name : String) (spec : ClassRuntimeSpec) (c : ChildStatus) :
    Decidable (Listed cfg name spec c) := inferInstanceAs (Decidable (_ ∧ _))

instance (kinds : List String) (cfg : ControllerConfig) (name : String) (spec : ClassRuntimeSpec) (c : ChildStatus) :
    Decidable (Stray kinds cfg name spec c) := inferInstanceAs (Decidable (_ ∧ _))

section Exact

variable {cfg : ControllerConfig} {name : String} {spec : ClassRuntimeSpec} {phase : Option String}
  {observedGeneration generation : Option Int} {observed : List ChildStatus}

theorem listedOrphans_evaluate (hgen : generationChanged observedGeneration generation = false) (hne : observed ≠ []) :
    listedOrphans (evaluateObject cfg name spec phase observedGeneration generation observed).actions =
      (observed.filter fun c => Listed cfg name spec c).map (·.name) := by
  have hempty : observed.isEmpty = false := by simpa using hne
  have horphans : ∀ input : EvalInput, input.desc = descriptor cfg → input.className = name →
      input.functionsTotal = spec.functions.length → input.observed = observed →
      orphans input = (observed.filter fun c => Listed cfg name spec c).map (·.name) := by
    rintro ⟨_, _, _, _, _, _, _⟩ rfl rfl rfl rfl
    unfold orphans
    refine congrArg (map _) (filter_congr fun c _ => ?_)
    have hnamer : (descriptor cfg).functionNamer = functionServiceName := by
      unfold descriptor
      split <;> rfl
    rw [Bool.eq_iff_iff]
    simp only [hnamer, Listed, OdgmSuffix, Bool.and_eq_true, Bool.not_eq_true', Bool.or_eq_false_iff, not_or,
      Bool.not_eq_true, decide_eq_true_eq, contains_eq_mem, decide_eq_false_iff_not, mem_map, mem_range,
      not_exists, not_and]
    constructor
    · rintro ⟨⟨hsuffix, hkind⟩, hslot⟩
      exact ⟨hkind, hsuffix, fun i hi h => hslot i hi h.symm⟩
    · rintro ⟨hkind, hsuffix, hslot⟩
      exact ⟨⟨hsuffix, hkind⟩, fun i hi h => hslot i hi h.symm⟩
  rw [evaluateObject, evaluate, hgen]
  simp only [Bool.false_eq_true, if_false, hempty]
  rw [horphans _ rfl rfl rfl rfl]
  split
  · rename_i h
    rw [isEmpty_iff.1 h]
    rfl
  · simp [listedOrphans]

theorem stray_of_listed {kinds : List String} (hkinds : ∀ k ∈ functionKinds (descriptor cfg).managed, k ∈ kinds)
    {c : ChildStatus} (h : Listed cfg name spec c) : Stray kinds cfg name spec c := by
  obtain ⟨hkind, hsuffix, hslot⟩ := h
  refine ⟨hkinds _ hkind, fun hrendered => ?_⟩
  rcases expected_of_rendered hrendered with ⟨i, hi, hname⟩ | hodgm
  · exact hslot i hi hname
  · exact hsuffix hodgm

end Exact

theorem map_filter_eq_iff {α β : Type} {p q : α → Bool} {l : List α} (f : α → β) (hpq : ∀ x ∈ l, p x = true → q x = true) :
    (l.filter p).map f = (l.filter q).map f ↔ ∀ x ∈ l, q x = true → p x = true := by
  constructor
  · intro h x hx hq
    have hfiner : (l.filter q).filter p = l.filter p := by
      rw [filter_filter]
      refine filter_congr fun y hy => ?_
      cases hp : p y with
      | false => rfl
      | true => rw [hpq y hy hp, Bool.and_self]
    have hlen : ((l.filter q).filter p).length = (l.filter q).length := by
      rw [hfiner]
      simpa using congrArg length h
    have heq : (l.filter q).filter p = l.filter q := filter_sublist.eq_of_length hlen
    have hmem : x ∈ (l.filter q).filter p := by
      rw [heq]
      exact mem_filter.2 ⟨hx, hq⟩
    exact (mem_filter.1 hmem).2
  · intro h
    congr 1
    refine filter_congr fun x hx => ?_
    rw [Bool.eq_iff_iff]
    exact ⟨hpq x hx, h x hx⟩

/-- A stray child that is not listed: of another kind, with a suffix of the data grid, or in the slot of a function
without a workload. -/
inductive Overlooked (cfg : ControllerConfig) (name : String) (spec : ClassRuntimeSpec) (c : ChildStatus) : Prop
  | kind (h : c.kind ∉ functionKinds (descriptor cfg).managed)
  | suffix (h : OdgmSuffix c.name)
  | wasm (i : Nat) (f : FunctionDeploymentSpec) (hf : spec.functions[i]? = some f) (hwasm : f.wasmModuleUrl ≠ none)
      (htemplate : selectTemplate cfg.includeKnative cfg.env cfg.profile spec ≠ .knative)
      (hname : c.name = functionServiceName name i spec.functions.length)
  | unrendered (e : RenderFailure) (hrender : renderObject cfg name spec = .error e) (i : Nat)
      (hi : i < spec.functions.length) (hname : c.name = functionServiceName name i spec.functions.length)

/-- **Exactness of `DeleteOrphans`**, for the function kinds of the descriptor or any wider choice: no stray child may
be overlooked. -/
theorem orphans_exact_iff (kinds : List String) (cfg : ControllerConfig) (name : String) (spec : ClassRuntimeSpec)
    (phase : Option String) (observedGeneration generation : Option Int) (observed : List ChildStatus)
    (hkinds : ∀ k ∈ functionKinds (descriptor cfg).managed, k ∈ kinds) (hne : observed ≠ [])
    (hgen : generationChanged observedGeneration generation = false) :
    listedOrphans (evaluateObject cfg name spec phase observedGeneration generation observed).actions =
        (observed.filter fun c => Stray kinds cfg name spec c).map (·.name) ↔
      ∀ c ∈ observed, Stray kinds cfg name spec c → ¬ Overlooked cfg name spec c := by
  rw [listedOrphans_evaluate hgen hne, map_filter_eq_iff]
  · refine forall₂_congr fun c _ => ?_
    simp only [decide_eq_true_eq]
    refine imp_congr_right fun hstray => ?_
    constructor
    · rintro ⟨hkind, hsuffix, hslot⟩ hover
      cases hover with
      | kind h => exact h hkind
      | suffix h => exact hsuffix h
      | wasm i f hf _ _ hname => exact hslot i (List.getElem?_eq_some_iff.1 hf).1 hname
      | unrendered e _ i hi hname => exact hslot i hi hname
    · intro hnot
      refine ⟨by_contra fun h => hnot (.kind h), fun h => hnot (.suffix h), fun i hi hname => ?_⟩
      cases hrender : renderObject cfg name spec with
      | error e => exact hnot (.unrendered e hrender i hi hname)
      | ok resources =>
        have hf : spec.functions[i]? = some spec.functions[i] := List.getElem?_eq_getElem hi
        by_cases hwasm : spec.functions[i].wasmModuleUrl ≠ none →
            selectTemplate cfg.includeKnative cfg.env cfg.profile spec = .knative
        · exact hstray.2 ((mem_renderedNames hrender c.name).2 (.inl ⟨i, _, hf, hname, hwasm⟩))
        · rw [Classical.not_imp] at hwasm
          exact hnot (.wasm i _ hf hwasm.1 hwasm.2 hname)
  · intro c _ hlisted
    simp only [decide_eq_true_eq] at hlisted ⊢
    exact stray_of_listed hkinds hlisted

namespace Observations

def turned : ClassRuntimeSpec :=
  ⟨none, none, none, [⟨"g", some ⟨some "registry/app", none, none⟩⟩,
    ⟨"f", some ⟨none, some "https://modules/f.wasm", none⟩⟩], none⟩

theorem removed_function_listed :
    [deployment "cls", deployment "cls-fn-1", deployment "cls-odgm"] ≠ [] ∧
      listedOrphans (evaluateObject dev "cls" (images 1) (some "available") (some 1) (some 1)
          [deployment "cls", deployment "cls-fn-1", deployment "cls-odgm"]).actions =
        ([deployment "cls", deployment "cls-fn-1", deployment "cls-odgm"].filter fun c =>
          Stray ["Deployment", "Service", "KnativeService"] dev "cls" (images 1) c).map (·.name) := by
  refine ⟨by decide, (orphans_exact_iff _ _ _ _ _ _ _ _ (by decide +kernel) (by decide) (by decide)).2 ?_⟩
  intro c hc hstray hover
  -- only `cls-fn-1` is stray, and no reason to overlook it applies
  have hname : c = deployment "cls-fn-1" := by
    have hall : ∀ c ∈ [deployment "cls", deployment "cls-fn-1", deployment "cls-odgm"],
        Stray ["Deployment", "Service", "KnativeService"] dev "cls" (images 1) c → c = deployment "cls-fn-1" := by
      decide +kernel
    exact hall c hc hstray
  subst hname
  cases hover with
  | kind h => exact h (by decide +kernel)
  | suffix h => revert h; decide +kernel
  | wasm i f hf hwasm _ _ =>
    have hnone : ∀ f ∈ (images 1).functions, f.wasmModuleUrl = none := by decide +kernel
    exact hwasm (hnone f (mem_of_getElem? hf))
  | unrendered e hrender =>
    have hok : renderObject dev "cls" (images 1) = .ok (rendered ["cls"]) := by decide +kernel
    rw [hok] at hrender
    cases hrender

/-- The Deployment of the function that was turned into WASM stays. -/
theorem turned_function_overlooked :
    renderedNames dev "cls" turned = ["cls-fn-0", "cls-fn-0", "cls-odgm", "cls-odgm-svc"] ∧
      listedOrphans (evaluateObject dev "cls" turned (some "available") (some 1) (some 1)
        [deployment "cls-fn-0", deployment "cls-fn-1"]).actions = [] ∧
      Stray (functionKinds descriptorK8s.managed) dev "cls" turned (deployment "cls-fn-1") := by
  decide +kernel

end Observations

end Crm
