import OaasIot.Lib.Program
import OaasIot.Lib.Upsert
import OaasIot.Crm.Fsm

/-!
# The status of a ClassRuntime (`oprc-crm/src/controller`, `grpc/helpers.rs`)

A step builds a status from its phase and merges it into the stored one: conditions are replaced **by type**, and the
conditions of a phase are of one type only. So an `Available` condition, once stored, is never taken back.
-/

open Grpc

namespace Crm

open List

/-! ## Data -/

inductive ConditionType
  | available
  | progressing
  | degraded
  | nfrObserved
  | telemetryConfigured
  | telemetryDegraded
  | unknown
  deriving DecidableEq

inductive ConditionStatus
  | true
  | false
  | unknown
  deriving DecidableEq

structure Condition where
  type : ConditionType
  status : ConditionStatus
  reason : Option String
  message : Option String
  lastTransitionTime : Option String
  deriving DecidableEq

structure FunctionStatus where
  functionKey : String
  service : String
  port : UInt16
  predictedUrl : String
  observedUrl : Option String
  template : String
  ready : Option Bool
  reason : Option String
  message : Option String
  lastTransitionTime : Option String
  deriving DecidableEq

structure ResourceRef where
  kind : String
  name : String
  deriving DecidableEq

structure RouterEndpoint where
  service : String
  port : Int32
  deriving DecidableEq

/-- A stored status. The recommendations of the analyzer are JSON values, of a type `J`. -/
structure ClassRuntimeStatus (J : Type) where
  phase : Option String
  message : Option String
  observedGeneration : Option Int
  lastUpdated : Option String
  conditions : Option (List Condition)
  resourceRefs : Option (List ResourceRef)
  nfrRecommendations : Option (OrdMap String J)
  lastAppliedRecommendations : Option (List J)
  lastAppliedAt : Option String
  routers : Option (List RouterEndpoint)
  functions : Option (List FunctionStatus)
  deriving DecidableEq

/-! ## The status of a step -/

def functionServiceUrlFqdn (className ns : String) (idx total : Nat) : String :=
  "http://" ++ functionServiceName className idx total ++ "." ++ ns ++ ".svc.cluster.local/"

/-- The predicted status of function `i` (the URL is the same with Knative). A blank key is replaced by the service. -/
def functionStatus (name ns template : String) (total i : Nat) (f : FunctionDeploymentSpec) : FunctionStatus :=
  let service := functionServiceName name i total
  { functionKey := if (trim f.functionKey).isEmpty then service else f.functionKey
    service := service
    port := 80
    predictedUrl := functionServiceUrlFqdn name ns i total
    observedUrl := none
    template := template
    ready := none, reason := none, message := none, lastTransitionTime := none }

def buildFunctionStatuses (spec : ClassRuntimeSpec) (name ns template : String) : Option (List FunctionStatus) :=
  if spec.functions.isEmpty then none
  else some (spec.functions.zipIdx.map fun x => functionStatus name ns template spec.functions.length x.2 x.1)

variable {J : Type}

def progressing (now : String) (generation : Option Int) (spec : ClassRuntimeSpec) (name ns template : String) :
    ClassRuntimeStatus J :=
  { phase := some "progressing"
    message := some "Applied workload"
    observedGeneration := generation
    lastUpdated := some now
    conditions := some [⟨.progressing, .true, some "ApplySuccessful", some "Resources applied", some now⟩]
    resourceRefs := none, nfrRecommendations := none, lastAppliedRecommendations := none, lastAppliedAt := none
    routers := none
    functions := buildFunctionStatuses spec name ns template }

def phaseCondition (now : String) : Phase → Condition
  | .pending => ⟨.progressing, .false, some "Pending", some "Awaiting apply", some now⟩
  | .applying => ⟨.progressing, .true, some "Applying", some "Applying resources", some now⟩
  | .progressing => ⟨.progressing, .true, some "Progressing", some "Waiting for readiness", some now⟩
  | .available => ⟨.available, .true, some "Ready", some "All readiness rules satisfied", some now⟩
  | .degraded =>
    ⟨.degraded, .true, some "Degraded", some "One or more readiness rules failing beyond threshold", some now⟩
  | .deleting => ⟨.progressing, .false, some "Deleting", some "Deleting child resources", some now⟩

def ConditionType.preserved : ConditionType → Bool
  | .nfrObserved | .telemetryConfigured | .telemetryDegraded => Bool.true
  | _ => Bool.false

def buildConditions (phase : Phase) (prev : Option (List Condition)) (now : String) : List Condition :=
  phaseCondition now phase :: (prev.getD []).filter (·.type.preserved)

def telemetryCondition (enabled endpointPresent : Bool) (now : String) : Condition :=
  if enabled && endpointPresent then
    ⟨.telemetryConfigured, .true, some "TelemetryEnabled", some "Telemetry is enabled with valid endpoint", some now⟩
  else if enabled then
    ⟨.telemetryDegraded, .true, some "NoEndpoint", some "Telemetry enabled but no OTLP endpoint configured", some now⟩
  else
    ⟨.telemetryConfigured, .false, some "TelemetryDisabled", some "Telemetry is disabled", some now⟩

def updateFunctionReadiness (observed : List ChildStatus) (functions : List FunctionStatus) : List FunctionStatus :=
  functions.map fun f =>
    if observed.any fun c => c.name == f.service && c.ready then
      { f with ready := some true, reason := none, message := none }
    else { f with ready := some false }

/-- What a step reads besides the stored status; the clock is read three times. -/
structure Surroundings where
  now : String
  conditionTime : String
  telemetryTime : String
  generation : Option Int
  spec : ClassRuntimeSpec
  name : String
  ns : String
  template : String
  telemetryEnabled : Bool
  endpointPresent : Bool
  observed : List ChildStatus
  routers : List RouterEndpoint

def Phase.text : Phase → String
  | .pending => "pending"
  | .applying => "applying"
  | .progressing => "progressing"
  | .available => "available"
  | .degraded => "degraded"
  | .deleting => "deleting"

def reportedConditions (r : Surroundings) (phase : Phase) (prev : Option (List Condition)) : List Condition :=
  (buildConditions phase prev r.conditionTime).filter
      (fun c => c.type ≠ .telemetryConfigured ∧ c.type ≠ .telemetryDegraded) ++
    [telemetryCondition r.telemetryEnabled r.endpointPresent r.telemetryTime]

def reportedStatus (r : Surroundings) (phase : Phase) (current : Option (ClassRuntimeStatus J)) : ClassRuntimeStatus J :=
  let base : ClassRuntimeStatus J := progressing r.now r.generation r.spec r.name r.ns r.template
  { base with
    phase := some phase.text
    conditions := some (reportedConditions r phase (current.bind (·.conditions)))
    functions := base.functions.map (updateFunctionReadiness r.observed)
    routers := if r.routers.isEmpty then none else some r.routers }

/-! ## Merging and writing -/

def condRank : ConditionType → Nat
  | .available => 0
  | .progressing => 1
  | .degraded => 2
  | .nfrObserved => 3
  | .telemetryConfigured => 4
  | .telemetryDegraded => 5
  | .unknown => 250

def upsertConditions (existing incoming : List Condition) : List Condition :=
  (Keyed.upsertAll Condition.type existing incoming).insertionSort fun a b => condRank a.type ≤ condRank b.type

def mergeFunction (d c : FunctionStatus) : FunctionStatus :=
  { d with
    ready := d.ready.or c.ready
    reason := d.reason.or c.reason
    message := d.message.or c.message
    lastTransitionTime := d.lastTransitionTime.or c.lastTransitionTime
    observedUrl := d.observedUrl.or c.observedUrl }

def mergeFunctions (current desired : Option (List FunctionStatus)) : Option (List FunctionStatus) :=
  match desired, current with
  | some ds, some cs => some (ds.map fun d =>
      match cs.find? (·.functionKey == d.functionKey) with
      | some c => mergeFunction d c
      | none => d)
  | some ds, none => some ds
  | none, cs => cs

def mergeStatus (current : Option (ClassRuntimeStatus J)) (desired : ClassRuntimeStatus J) : ClassRuntimeStatus J :=
  match current with
  | none => desired
  | some cur =>
    { desired with
      nfrRecommendations := desired.nfrRecommendations.or cur.nfrRecommendations
      lastAppliedRecommendations := desired.lastAppliedRecommendations.or cur.lastAppliedRecommendations
      lastAppliedAt := desired.lastAppliedAt.or cur.lastAppliedAt
      routers := desired.routers.or cur.routers
      resourceRefs := desired.resourceRefs.or cur.resourceRefs
      functions := mergeFunctions cur.functions desired.functions
      conditions := some (upsertConditions (cur.conditions.getD []) (desired.conditions.getD [])) }

def Condition.withoutTime (c : Condition) : Condition := { c with lastTransitionTime := none }

/-- A status without the fields that are not compared. **The observed generation is among them.** -/
def normalizeStatus (s : ClassRuntimeStatus J) : ClassRuntimeStatus J :=
  { s with
    lastUpdated := none
    observedGeneration := none
    conditions := s.conditions.map (·.map (·.withoutTime))
    resourceRefs := s.resourceRefs.map (·.insertionSort fun a b => a.kind < b.kind ∨ (a.kind = b.kind ∧ a.name ≤ b.name)) }

def shouldPatchStatus [DecidableEq J] (current : Option (ClassRuntimeStatus J)) (desired : ClassRuntimeStatus J) : Bool :=
  match current with
  | none => true
  | some cur => normalizeStatus cur ≠ normalizeStatus desired

def patchStatus (current : Option (ClassRuntimeStatus J)) (patch : ClassRuntimeStatus J) : ClassRuntimeStatus J :=
  match current with
  | none => patch
  | some cur =>
    { phase := patch.phase.or cur.phase
      message := patch.message.or cur.message
      observedGeneration := patch.observedGeneration.or cur.observedGeneration
      lastUpdated := patch.lastUpdated.or cur.lastUpdated
      conditions := patch.conditions.or cur.conditions
      resourceRefs := patch.resourceRefs.or cur.resourceRefs
      nfrRecommendations := patch.nfrRecommendations.or cur.nfrRecommendations
      lastAppliedRecommendations := patch.lastAppliedRecommendations.or cur.lastAppliedRecommendations
      lastAppliedAt := patch.lastAppliedAt.or cur.lastAppliedAt
      routers := patch.routers.or cur.routers
      functions := patch.functions.or cur.functions }

def mergedStatus (r : Surroundings) (phase : Phase) (current : Option (ClassRuntimeStatus J)) : ClassRuntimeStatus J :=
  mergeStatus current (reportedStatus r phase current)

def writeStatus [DecidableEq J] (r : Surroundings) (phase : Phase) (current : Option (ClassRuntimeStatus J)) :
    Option (ClassRuntimeStatus J) :=
  let merged := mergedStatus r phase current
  if shouldPatchStatus current merged then some (patchStatus current merged) else current

/-! ## Reading a status -/

def Reports (t : ConditionType) (cs : List Condition) : Prop := ∃ c ∈ cs, c.type = t ∧ c.status = .true

instance (t : ConditionType) (cs : List Condition) : Decidable (Reports t cs) :=
  inferInstanceAs (Decidable (∃ _ ∈ _, _))

def storedConditions (current : Option (ClassRuntimeStatus J)) : List Condition :=
  (current.bind (·.conditions)).getD []

def degradedText (c : Condition) : String :=
  "Degraded" ++ (c.reason.elim "" fun r => " (" ++ r ++ ")") ++ c.message.elim "" fun m => ": " ++ m

def summarizeStatus (s : ClassRuntimeStatus J) : String :=
  if Reports .available (s.conditions.getD []) then "Available"
  else
    match (s.conditions.getD []).find? fun c => c.type = .degraded ∧ c.status = .true with
    | some c => degradedText c
    | none => if Reports .progressing (s.conditions.getD []) then "Progressing" else (s.phase.or s.message).getD "found"

inductive DeploymentCondition
  | running
  | deploying
  | down
  | pending
  deriving DecidableEq

def startsWith (p s : String) : Bool := p.toList.isPrefixOf s.toList

def deploymentCondition (status : Option (ClassRuntimeStatus J)) : DeploymentCondition :=
  match status with
  | none => .pending
  | some s =>
    let msg := summarizeStatus s
    if startsWith "Available" msg || msg == "found" then .running
    else if startsWith "Progressing" msg then .deploying
    else if startsWith "Degraded" msg then .down
    else .pending

/-! ## What a merged status reports -/

theorem mem_upsertConditions {existing incoming : List Condition} {c : Condition} :
    c ∈ upsertConditions existing incoming ↔ c ∈ Keyed.upsertAll Condition.type existing incoming :=
  mem_insertionSort _

theorem reportedConditions_eq (r : Surroundings) (phase : Phase) (prev : Option (List Condition)) :
    ∃ rest, reportedConditions r phase prev = phaseCondition r.conditionTime phase :: rest ∧
      ∀ c ∈ rest, c.type.preserved = Bool.true := by
  refine ⟨_, by cases phase <;> rfl, ?_⟩
  intro c hc
  rcases mem_append.1 hc with hc | hc
  · exact (mem_filter.1 (mem_filter.1 hc).1).2
  · rw [mem_singleton.1 hc, telemetryCondition]
    split
    · rfl
    · split <;> rfl

section Reports

variable {t : ConditionType} {r : Surroundings} {phase : Phase} {current : Option (ClassRuntimeStatus J)}

theorem mem_phaseCondition_merged (r : Surroundings) (phase : Phase) (current : Option (ClassRuntimeStatus J)) :
    phaseCondition r.conditionTime phase ∈ storedConditions (some (mergedStatus r phase current)) := by
  obtain ⟨rest, hreported, hrest⟩ := reportedConditions_eq r phase (current.bind (·.conditions))
  cases current with
  | none => exact mem_of_mem_head? (congrArg head? hreported)
  | some cur =>
    change _ ∈ upsertConditions _ (reportedConditions r phase ((some cur).bind (·.conditions)))
    rw [hreported, mem_upsertConditions]
    refine Keyed.mem_upsertAll_cons (fun c hc htype => ?_) _
    have hpreserved := hrest c hc
    rw [htype] at hpreserved
    revert hpreserved
    cases phase <;> exact Bool.false_ne_true

theorem mem_merged_of_ne {c : Condition} (ht : c.type.preserved = Bool.false)
    (hne : c.type ≠ (phaseCondition r.conditionTime phase).type) :
    c ∈ storedConditions (some (mergedStatus r phase current)) ↔ c ∈ storedConditions current := by
  obtain ⟨rest, hreported, hrest⟩ := reportedConditions_eq r phase (current.bind (·.conditions))
  have hnew : ∀ d ∈ reportedConditions r phase (current.bind (·.conditions)), d.type ≠ c.type := by
    rw [hreported]
    rintro d hd htype
    rcases mem_cons.1 hd with rfl | hd
    · exact hne htype.symm
    · rw [← htype, hrest d hd] at ht
      cases ht
  cases current with
  | none => exact iff_of_false (fun hc => hnew c hc rfl) not_mem_nil
  | some cur => exact mem_upsertConditions.trans (Keyed.mem_upsertAll_of_ne hnew)

theorem reports_merged (ht : t.preserved = Bool.false)
    (hc : (phaseCondition r.conditionTime phase).type = t → (phaseCondition r.conditionTime phase).status = .true) :
    Reports t (storedConditions (some (mergedStatus r phase current))) ↔
      (phaseCondition r.conditionTime phase).type = t ∨ Reports t (storedConditions current) := by
  by_cases htype : (phaseCondition r.conditionTime phase).type = t
  · exact iff_of_true ⟨_, mem_phaseCondition_merged r phase current, htype, hc htype⟩ (.inl htype)
  · rw [or_iff_right htype]
    refine exists_congr fun c => and_congr_left fun ⟨hct, _⟩ => ?_
    subst hct
    exact mem_merged_of_ne ht (Ne.symm htype)

theorem reportsAvailable_merged :
    Reports .available (storedConditions (some (mergedStatus r phase current))) ↔
      phase = .available ∨ Reports .available (storedConditions current) := by
  rw [reports_merged rfl (by cases phase <;> simp [phaseCondition])]
  cases phase <;> simp [phaseCondition]

theorem reportsDegraded_merged :
    Reports .degraded (storedConditions (some (mergedStatus r phase current))) ↔
      phase = .degraded ∨ Reports .degraded (storedConditions current) := by
  rw [reports_merged rfl (by cases phase <;> simp [phaseCondition])]
  cases phase <;> simp [phaseCondition]

theorem reports_withoutTime (cs : List Condition) : Reports t (cs.map (·.withoutTime)) ↔ Reports t cs := by
  simp [Reports, Condition.withoutTime]

theorem reports_written [DecidableEq J] :
    Reports t (storedConditions (writeStatus r phase current)) ↔
      Reports t (storedConditions (some (mergedStatus r phase current))) := by
  unfold writeStatus
  dsimp only
  split
  · cases current <;> rfl
  · rename_i hskip
    cases current with
    | none => exact absurd rfl hskip
    | some cur =>
      have hsame : normalizeStatus cur = normalizeStatus (mergedStatus r phase (some cur)) := by
        simpa [shouldPatchStatus] using hskip
      have hconds := congrArg (fun s => s.conditions.getD []) hsame
      have hmap : ∀ s : ClassRuntimeStatus J,
          (normalizeStatus s).conditions.getD [] = (storedConditions (some s)).map (·.withoutTime) := by
        intro s
        cases h : s.conditions <;> simp [normalizeStatus, storedConditions, h]
      rw [← reports_withoutTime, ← hmap, hconds, hmap, reports_withoutTime]

end Reports

/-! ## The summary -/

theorem toList_degradedText (c : Condition) :
    ∃ rest, (degradedText c).toList = "Degraded".toList ++ rest := by
  unfold degradedText
  exact ⟨_, by rw [String.toList_append, String.toList_append, append_assoc]⟩

theorem summarizeStatus_cases {s : ClassRuntimeStatus J} {phase : Phase} (hphase : s.phase = some phase.text) :
    (Reports .available (storedConditions (some s)) ∧ summarizeStatus s = "Available") ∨
    (¬ Reports .available (storedConditions (some s)) ∧ Reports .degraded (storedConditions (some s)) ∧
      ∃ c, summarizeStatus s = degradedText c) ∨
    (¬ Reports .available (storedConditions (some s)) ∧ ¬ Reports .degraded (storedConditions (some s)) ∧
      (summarizeStatus s = "Progressing" ∨ summarizeStatus s = phase.text)) := by
  have hconds : storedConditions (some s) = s.conditions.getD [] := rfl
  rw [hconds, summarizeStatus]
  by_cases hav : Reports .available (s.conditions.getD [])
  · exact .inl ⟨hav, if_pos hav⟩
  · rw [if_neg hav]
    cases hfind : (s.conditions.getD []).find? fun c => c.type = .degraded ∧ c.status = .true with
    | some c =>
      have hc : c.type = .degraded ∧ c.status = .true := by simpa using find?_some hfind
      exact .inr (.inl ⟨hav, ⟨c, mem_of_find?_eq_some hfind, hc⟩, c, rfl⟩)
    | none =>
      have hnone : ¬ Reports .degraded (s.conditions.getD []) := by
        rintro ⟨c, hc, hd⟩
        have := find?_eq_none.1 hfind c hc
        simp [hd] at this
      refine .inr (.inr ⟨hav, hnone, ?_⟩)
      by_cases hp : Reports .progressing (s.conditions.getD [])
      · exact .inl (if_pos hp)
      · exact .inr (by simp [hp, hphase])

section Summary

variable {s : ClassRuntimeStatus J} {phase : Phase}

theorem summarizeStatus_available (hphase : s.phase = some phase.text) :
    (summarizeStatus s = "Available" ↔ Reports .available (storedConditions (some s))) ∧
      (deploymentCondition (some s) = .running ↔ Reports .available (storedConditions (some s))) := by
  rcases summarizeStatus_cases hphase with ⟨hav, hsum⟩ | ⟨hav, _, c, hsum⟩ | ⟨hav, _, hsum | hsum⟩
  · simp [hav, hsum, deploymentCondition, startsWith]
  · obtain ⟨rest, hrest⟩ := toList_degradedText c
    have hne : ∀ t : String, ¬ "Degraded".toList <+: t.toList → degradedText c ≠ t := by
      rintro t ht rfl
      exact ht (hrest ▸ prefix_append _ _)
    have hav' : degradedText c ≠ "Available" := hne _ (by decide)
    have hfound : degradedText c ≠ "found" := hne _ (by decide)
    simp [hav, hsum, deploymentCondition, startsWith, hrest, hav', hfound]
  · simp [hav, hsum, deploymentCondition, startsWith]
  · cases phase <;> simp [hav, hsum, deploymentCondition, startsWith, Phase.text]

theorem summarizeStatus_degraded (hphase : s.phase = some phase.text) :
    startsWith "Degraded" (summarizeStatus s) = true ↔
      ¬ Reports .available (storedConditions (some s)) ∧ Reports .degraded (storedConditions (some s)) := by
  rcases summarizeStatus_cases hphase with ⟨hav, hsum⟩ | ⟨hav, hdeg, c, hsum⟩ | ⟨hav, hdeg, hsum | hsum⟩
  · simp [hav, hsum, startsWith]
  · obtain ⟨rest, hrest⟩ := toList_degradedText c
    simp [hav, hdeg, hsum, startsWith, hrest]
  · simp [hav, hdeg, hsum, startsWith]
  · cases phase <;> simp [hav, hdeg, hsum, startsWith, Phase.text]

end Summary

/-! ## Runs -/

section Runs

variable [DecidableEq J]

def statusStep (current : Option (ClassRuntimeStatus J)) (x : Phase × Surroundings) : Option (ClassRuntimeStatus J) :=
  writeStatus x.2 x.1 current

/-- After the step the status reports the phase: it has a true `Available` condition, and its summary is `Available`
and says running, exactly if the phase is `Available`; and the summary is `Degraded` exactly if the phase is. -/
def FollowsPhase (current : Option (ClassRuntimeStatus J)) (x : Phase × Surroundings) : Prop :=
  let merged := mergedStatus x.2 x.1 current
  (Reports .available (storedConditions (some merged)) ↔ x.1 = .available) ∧
  (summarizeStatus merged = "Available" ↔ x.1 = .available) ∧
  (deploymentCondition (some merged) = .running ↔ x.1 = .available) ∧
  (startsWith "Degraded" (summarizeStatus merged) = true ↔ x.1 = .degraded)

def Lasting (p q : Phase) : Prop := (p = .available → q = .available) ∧ (p = .degraded → q = .degraded ∨ q = .available)

def Compatible (cs : List Condition) (q : Phase) : Prop :=
  (Reports .available cs → q = .available) ∧ (Reports .degraded cs → q = .degraded ∨ q = .available)

omit [DecidableEq J] in
theorem phase_mergedStatus (r : Surroundings) (phase : Phase) (current : Option (ClassRuntimeStatus J)) :
    (mergedStatus r phase current).phase = some phase.text := by
  cases current <;> rfl

omit [DecidableEq J] in
theorem followsPhase_iff {current : Option (ClassRuntimeStatus J)} {x : Phase × Surroundings} :
    FollowsPhase current x ↔ Compatible (storedConditions current) x.1 := by
  obtain ⟨phase, r⟩ := x
  have hphase := phase_mergedStatus r phase current
  obtain ⟨hsum, hrunning⟩ := summarizeStatus_available hphase
  unfold FollowsPhase Compatible
  dsimp only
  rw [hsum, hrunning, summarizeStatus_degraded hphase, reportsAvailable_merged, reportsDegraded_merged]
  by_cases hav : Reports .available (storedConditions current) <;>
    by_cases hdeg : Reports .degraded (storedConditions current) <;> cases phase <;> simp [hav, hdeg]

theorem compatible_statusStep {current : Option (ClassRuntimeStatus J)} {x : Phase × Surroundings} {q : Phase} :
    Compatible (storedConditions (statusStep current x)) q ↔ Compatible (storedConditions current) q ∧ Lasting x.1 q := by
  unfold Compatible statusStep Lasting
  rw [reports_written, reports_written, reportsAvailable_merged, reportsDegraded_merged]
  tauto

theorem alongRun_followsPhase (steps : List (Phase × Surroundings)) (current : Option (ClassRuntimeStatus J)) :
    AlongRun statusStep FollowsPhase current steps ↔
      (∀ p ∈ steps.map (·.1), Compatible (storedConditions current) p) ∧ (steps.map (·.1)).Pairwise Lasting := by
  induction steps generalizing current with
  | nil => simp [AlongRun]
  | cons x steps ih =>
    rw [AlongRun, ih, followsPhase_iff, map_cons, pairwise_cons, forall_mem_cons]
    simp only [compatible_statusStep]
    constructor
    · rintro ⟨hx, hrest, hpairs⟩
      exact ⟨⟨hx, fun p hp => (hrest p hp).1⟩, fun p hp => (hrest p hp).2, hpairs⟩
    · rintro ⟨⟨hx, hold⟩, hnew, hpairs⟩
      exact ⟨hx, fun p hp => ⟨hold p hp, hnew p hp⟩, hpairs⟩

variable (J) in
/-- **The report follows the phase** along a run if each phase lasts. -/
theorem reported_phase_iff (steps : List (Phase × Surroundings)) :
    AlongRun statusStep FollowsPhase (none : Option (ClassRuntimeStatus J)) steps ↔
      (steps.map (·.1)).Pairwise Lasting := by
  have hnone : ∀ p, Compatible (storedConditions (none : Option (ClassRuntimeStatus J))) p := by
    intro p
    simp [Compatible, Reports, storedConditions]
  rw [alongRun_followsPhase]
  exact ⟨And.right, fun h => ⟨fun p _ => hnone p, h⟩⟩

def quietSurroundings : Surroundings :=
  ⟨"t", "t", "t", some 1, ⟨none, none, none, [], none⟩, "cls", "default", "dev", false, false, [], []⟩

/-- A runtime that was available and goes back to waiting is still reported as running. -/
theorem available_is_sticky :
    ¬ AlongRun statusStep FollowsPhase (none : Option (ClassRuntimeStatus Unit))
      [(.available, quietSurroundings), (.progressing, quietSurroundings)] ∧
    deploymentCondition (some (mergedStatus quietSurroundings .progressing
      (statusStep (none : Option (ClassRuntimeStatus Unit)) (.available, quietSurroundings)))) = .running := by
  refine ⟨fun h => ?_, by decide +kernel⟩
  have hreport := h.2.1.1.1
  revert hreport
  decide +kernel

end Runs

end Crm
