import OaasIot.Crm.Fsm

/-!
# Missing workloads (`controller/reconcile.rs`)

The evaluator is meant to apply the workload "if generation changed or missing children" (STATE_MACHINE_DESIGN.md, step
6). It does so only where **no child at all** is observed and the stored phase is not one of an apply in flight; and
such a phase is the one it returns.
-/

open Grpc

namespace Crm

def Phase.label : Phase → String
  | .pending => "pending"
  | .applying => "applying"
  | .progressing => "progressing"
  | .available => "available"
  | .degraded => "degraded"
  | .deleting => "deleting"

theorem Phase.ofString_label (p : Phase) : Phase.ofString p.label = p := by
  cases p <;> decide +kernel

section Rounds

variable (cfg : ControllerConfig) (name : String) (spec : ClassRuntimeSpec) (observedGeneration generation : Option Int)
  (observed : List ChildStatus)

def rounds : Nat → Option String → List EvalOutput
  | 0, _ => []
  | n + 1, phase =>
    let out := evaluateObject cfg name spec phase observedGeneration generation observed
    out :: rounds n (some out.phase.label)

def HealsWithin (n : Nat) (phase : Option String) : Prop :=
  ∃ out ∈ rounds cfg name spec observedGeneration generation observed n phase, FsmAction.applyWorkload ∈ out.actions

instance (n : Nat) (phase : Option String) :
    Decidable (HealsWithin cfg name spec observedGeneration generation observed n phase) :=
  inferInstanceAs (Decidable (∃ _ ∈ _, _))

end Rounds

def InFlight (phase : Option String) : Prop :=
  phase.map Phase.ofString = some .applying ∨ phase.map Phase.ofString = some .progressing

instance (phase : Option String) : Decidable (InFlight phase) := inferInstanceAs (Decidable (_ ∨ _))

def functionWorkload (cfg : ControllerConfig) (spec : ClassRuntimeSpec) : ResourceKind :=
  if selectTemplate cfg.includeKnative cfg.env cfg.profile spec = .knative then .knativeService else .deployment

def WorkloadMissing (cfg : ControllerConfig) (name : String) (spec : ClassRuntimeSpec) (observed : List ChildStatus) : Prop :=
  ∃ i f, spec.functions[i]? = some f ∧ f.wasmModuleUrl = none ∧ f.containerImage ≠ none ∧
    ∀ c ∈ observed, ¬ (c.kind = (functionWorkload cfg spec).label ∧
      c.name = functionServiceName name i spec.functions.length)

section Healing

variable {cfg : ControllerConfig} {name : String} {spec : ClassRuntimeSpec} {observedGeneration generation : Option Int}
  {observed : List ChildStatus}

theorem evaluate_applies_iff (phase : Option String) :
    FsmAction.applyWorkload ∈ (evaluateObject cfg name spec phase observedGeneration generation observed).actions ↔
      generationChanged observedGeneration generation = true ∨ (observed = [] ∧ ¬ InFlight phase) := by
  unfold evaluateObject evaluate InFlight
  cases generationChanged observedGeneration generation with
  | true => simp
  | false =>
    cases observed with
    | nil => simp
    | cons c cs =>
      simp only [Bool.false_eq_true, if_false, List.isEmpty_cons]
      split <;> simp

theorem inFlight_of_empty (phase : Option String) :
    InFlight (some (evaluateObject cfg name spec phase observedGeneration generation []).phase.label) := by
  have happlying : (evaluateObject cfg name spec phase observedGeneration generation []).phase = .applying := by
    unfold evaluateObject evaluate
    cases generationChanged observedGeneration generation <;> rfl
  rw [happlying]
  exact .inl (congrArg some (Phase.ofString_label _))

theorem healsWithin_iff (n : Nat) (phase : Option String) :
    HealsWithin cfg name spec observedGeneration generation observed (n + 1) phase ↔
      generationChanged observedGeneration generation = true ∨ (observed = [] ∧ ¬ InFlight phase) := by
  induction n generalizing phase with
  | zero => simp [HealsWithin, rounds, evaluate_applies_iff]
  | succ n ih =>
    have hnext := ih (some (evaluateObject cfg name spec phase observedGeneration generation observed).phase.label)
    have hfirst : HealsWithin cfg name spec observedGeneration generation observed (n + 2) phase ↔
        FsmAction.applyWorkload ∈ (evaluateObject cfg name spec phase observedGeneration generation observed).actions ∨
          HealsWithin cfg name spec observedGeneration generation observed (n + 1)
            (some (evaluateObject cfg name spec phase observedGeneration generation observed).phase.label) := by
      rw [HealsWithin, rounds]
      simp [HealsWithin]
    rw [hfirst, hnext, evaluate_applies_iff, or_iff_left_iff_imp]
    rintro (h | ⟨rfl, hflight⟩)
    · exact .inl h
    · exact absurd (inFlight_of_empty phase) hflight

end Healing

def SelfHeals (cfg : ControllerConfig) (name : String) (spec : ClassRuntimeSpec) (observedGeneration generation : Option Int)
    (observed : List ChildStatus) (phase : Option String) : Prop :=
  WorkloadMissing cfg name spec observed → phase.map Phase.ofString ≠ some .deleting →
    HealsWithin cfg name spec observedGeneration generation observed 2 phase

/-- **Self-healing** within two rounds: a new generation, or nothing observed and no apply in flight. -/
theorem self_healing_iff (cfg : ControllerConfig) (name : String) (spec : ClassRuntimeSpec)
    (observedGeneration generation : Option Int) (observed : List ChildStatus) (phase : Option String) :
    SelfHeals cfg name spec observedGeneration generation observed phase ↔
      (WorkloadMissing cfg name spec observed → phase.map Phase.ofString ≠ some .deleting →
        generationChanged observedGeneration generation = true ∨ (observed = [] ∧ ¬ InFlight phase)) := by
  unfold SelfHeals
  rw [healsWithin_iff 1 phase]

namespace Observations

/-- One of two Deployments is gone: nothing is applied, and the phase is `available`. -/
theorem missing_not_applied :
    WorkloadMissing dev "cls" (images 2) [deployment "cls-fn-0", deployment "cls-odgm"] ∧
      ¬ HealsWithin dev "cls" (images 2) (some 1) (some 1) [deployment "cls-fn-0", deployment "cls-odgm"] 2
        (some "available") ∧
      ((rounds dev "cls" (images 2) (some 1) (some 1) [deployment "cls-fn-0", deployment "cls-odgm"] 2
        (some "available")).map (·.phase)) = [.available, .available] :=
  ⟨⟨1, _, rfl, by decide +kernel⟩, by decide +kernel, by decide +kernel⟩

end Observations

end Crm
