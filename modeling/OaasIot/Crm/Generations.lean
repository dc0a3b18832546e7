import OaasIot.Crm.Status

/-!
# Which generation a status belongs to (`controller/reconcile.rs`)

A workload is applied again when the stored `observed_generation` is not that of the object. But a status is only sent
if it differs from the stored one without `observed_generation`, so a spec change that leaves the rest of the status
alone is **never recorded**.
-/

open Grpc

namespace Crm

open List

variable {J : Type}

/-- A ClassRuntime that is not being deleted; `telemetry` is the toggle of its telemetry section. -/
structure ClassRuntime (J : Type) where
  generation : Int
  spec : ClassRuntimeSpec
  telemetry : Option Bool
  status : Option (ClassRuntimeStatus J)

structure Context where
  controller : ControllerConfig
  name : String
  ns : String
  otelEnabled : Bool
  otelEndpoint : String

structure Findings where
  now : String
  conditionTime : String
  telemetryTime : String
  observed : List ChildStatus
  relisted : List ChildStatus
  routers : List RouterEndpoint

def surroundings (ctx : Context) (obj : ClassRuntime J) (found : Findings) : Surroundings :=
  { now := found.now, conditionTime := found.conditionTime, telemetryTime := found.telemetryTime
    generation := some obj.generation
    spec := obj.spec
    name := ctx.name
    ns := ctx.ns
    template := obj.spec.selectedTemplate.getD ctx.controller.profile
    telemetryEnabled := obj.telemetry.getD ctx.otelEnabled
    endpointPresent := !ctx.otelEndpoint.isEmpty
    observed := found.relisted
    routers := found.routers }

def observedGeneration (obj : ClassRuntime J) : Option Int := obj.status.bind (·.observedGeneration)

def evaluation (ctx : Context) (obj : ClassRuntime J) (found : Findings) : EvalOutput :=
  evaluateObject ctx.controller ctx.name obj.spec (obj.status.bind (·.phase)) (observedGeneration obj)
    (some obj.generation) found.observed

/-- A reconcile step whose calls to the API server succeed: it fails only if it has to apply and cannot render. -/
def reconcile [DecidableEq J] (ctx : Context) (obj : ClassRuntime J) (found : Findings) :
    Except RenderFailure (ClassRuntime J) :=
  let eval := evaluation ctx obj found
  let written := { obj with status := writeStatus (surroundings ctx obj found) eval.phase obj.status }
  if .applyWorkload ∈ eval.actions then
    match renderObject ctx.controller ctx.name obj.spec with
    | .error e => .error e
    | .ok _ => .ok written
  else .ok written

inductive Event
  | specChange (generation : Int) (spec : ClassRuntimeSpec) (telemetry : Option Bool)
  | reconcile (found : Findings)

def step [DecidableEq J] (ctx : Context) (obj : ClassRuntime J) : Event → ClassRuntime J
  | .specChange generation spec telemetry => { obj with generation := generation, spec := spec, telemetry := telemetry }
  | .reconcile found =>
    match reconcile ctx obj found with
    | .ok obj' => obj'
    | .error _ => obj

/-- A reconcile step that returns `Ok` leaves the generation of the object in its status, so that a later step does not
see a changed one. -/
def RecordsGeneration [DecidableEq J] (ctx : Context) (obj : ClassRuntime J) : Event → Prop
  | .specChange _ _ _ => True
  | .reconcile found => ∀ obj', reconcile ctx obj found = .ok obj' →
      observedGeneration obj' = some obj.generation ∧
        generationChanged (observedGeneration obj') (some obj'.generation) = false

/-! ## Conditions in order -/

structure Orderly (cs : List Condition) : Prop where
  nodup : (cs.map (·.type)).Nodup
  sorted : cs.Pairwise fun a b => condRank a.type ≤ condRank b.type

instance : Std.Total fun a b : Condition => condRank a.type ≤ condRank b.type := ⟨fun _ _ => Nat.le_total _ _⟩
instance : IsTrans Condition fun a b => condRank a.type ≤ condRank b.type := ⟨fun _ _ _ => Nat.le_trans⟩

theorem orderly_upsertConditions {cs : List Condition} (h : Orderly cs) (incoming : List Condition) :
    Orderly (upsertConditions cs incoming) := by
  refine ⟨?_, pairwise_insertionSort _ _⟩
  have hperm := (perm_insertionSort (fun a b : Condition => condRank a.type ≤ condRank b.type)
    (Keyed.upsertAll Condition.type cs incoming)).map (·.type)
  exact hperm.nodup_iff.2 (Keyed.nodup_keys_upsertAll h.nodup)

/-- Conditions that are the first of their type already, up to a projection, are stored without a change to it. -/
theorem map_upsertConditions {ε : Type} {proj : Condition → ε} {type' : ε → ConditionType}
    (htype : ∀ c, type' (proj c) = c.type) {cs incoming : List Condition}
    (hs : cs.Pairwise fun a b => condRank a.type ≤ condRank b.type)
    (hfind : ∀ c ∈ incoming, (cs.map proj).find? (type' · = c.type) = some (proj c)) :
    (upsertConditions cs incoming).map proj = cs.map proj := by
  have hsame := Keyed.map_upsertAll_of_find htype hfind
  have htypes : (Keyed.upsertAll Condition.type cs incoming).map (·.type) = cs.map (·.type) := by
    simpa [Function.comp_def, htype] using congrArg (map type') hsame
  have hsorted : (Keyed.upsertAll Condition.type cs incoming).Pairwise
      fun a b => condRank a.type ≤ condRank b.type := by
    have hcs : (cs.map (·.type)).Pairwise fun s t => condRank s ≤ condRank t := pairwise_map.2 hs
    rwa [← htypes, pairwise_map] at hcs
  rw [upsertConditions, hsorted.insertionSort_eq, hsame]

theorem upsertConditions_withoutTime {cs incoming : List Condition} (h : Orderly cs)
    (hmem : ∀ c ∈ incoming, c.withoutTime ∈ cs.map (·.withoutTime)) :
    (upsertConditions cs incoming).map (·.withoutTime) = cs.map (·.withoutTime) :=
  have htype : ∀ c : Condition, c.withoutTime.type = c.type := fun _ => rfl
  map_upsertConditions htype h.sorted fun c hc => Keyed.find?_map_of_nodup htype h.nodup (hmem c hc)

/-! ## When a changed generation is not sent -/

def reportedFunctions (r : Surroundings) : Option (List FunctionStatus) :=
  (buildFunctionStatuses r.spec r.name r.ns r.template).map (updateFunctionReadiness r.observed)

/-- A step of phase `Applying` after which the status would stay as it is. -/
structure NothingNew (cur : ClassRuntimeStatus J) (r : Surroundings) : Prop where
  phase : cur.phase = some "applying"
  telemetry : (telemetryCondition r.telemetryEnabled r.endpointPresent r.telemetryTime).withoutTime ∈
    (storedConditions (some cur)).map (·.withoutTime)
  routers : r.routers = [] ∨ cur.routers = some r.routers
  functions : mergeFunctions cur.functions (reportedFunctions r) = cur.functions

/-- A status that steps of a run have stored. -/
structure Written (cur : ClassRuntimeStatus J) : Prop where
  generation : cur.observedGeneration ≠ none
  message : cur.message = some "Applied workload"
  conditions : cur.conditions = some (storedConditions (some cur))
  orderly : Orderly (storedConditions (some cur))
  applying : cur.phase = some "applying" → ∀ now, (phaseCondition now .applying).withoutTime ∈
    (storedConditions (some cur)).map (·.withoutTime)

variable {cur : ClassRuntimeStatus J} {r : Surroundings}

theorem normalizeStatus_merged_iff (hmsg : cur.message = some "Applied workload")
    (hconds : cur.conditions = some (storedConditions (some cur))) :
    normalizeStatus cur = normalizeStatus (mergedStatus r .applying (some cur)) ↔
      cur.phase = some "applying" ∧
      (storedConditions (some cur)).map (·.withoutTime) =
        (upsertConditions (storedConditions (some cur)) (reportedConditions r .applying cur.conditions)).map (·.withoutTime) ∧
      (r.routers = [] ∨ cur.routers = some r.routers) ∧
      mergeFunctions cur.functions (reportedFunctions r) = cur.functions := by
  have hrouters : cur.routers = (if r.routers.isEmpty then none else some r.routers).or cur.routers ↔
      r.routers = [] ∨ cur.routers = some r.routers := by
    cases hr : r.routers <;> simp
  rw [← hrouters]
  unfold normalizeStatus mergedStatus mergeStatus reportedStatus progressing reportedFunctions
  simp only [ClassRuntimeStatus.mk.injEq, hmsg, Option.none_or, true_and, Phase.text, Option.getD_some]
  refine and_congr_right fun _ => and_congr ?_ (and_congr_right fun _ => eq_comm)
  obtain ⟨cs, hcs⟩ : ∃ cs, cs = storedConditions (some cur) := ⟨_, rfl⟩
  rw [← hcs] at hconds ⊢
  simp [hconds]

theorem unsent_iff [DecidableEq J] (hw : Written cur) (r : Surroundings) :
    shouldPatchStatus (some cur) (mergedStatus r .applying (some cur)) = false ↔ NothingNew cur r := by
  have hpatch : shouldPatchStatus (some cur) (mergedStatus r .applying (some cur)) = false ↔
      normalizeStatus cur = normalizeStatus (mergedStatus r .applying (some cur)) := by
    simp [shouldPatchStatus]
  rw [hpatch, normalizeStatus_merged_iff hw.message hw.conditions]
  constructor
  · rintro ⟨hphase, hconds, hrouters, hfunctions⟩
    refine ⟨hphase, ?_, hrouters, hfunctions⟩
    rw [hconds]
    refine mem_map_of_mem (mem_upsertConditions.2 ?_)
    rw [reportedConditions, Keyed.upsertAll_concat]
    exact Keyed.mem_upsert_self _ _
  · rintro ⟨hphase, htelemetry, hrouters, hfunctions⟩
    refine ⟨hphase, (upsertConditions_withoutTime hw.orderly fun c hc => ?_).symm, hrouters, hfunctions⟩
    rcases mem_append.1 hc with hc | hc
    · rcases mem_cons.1 (mem_filter.1 hc).1 with rfl | hc
      · exact hw.applying hphase _
      · refine mem_map_of_mem ?_
        have hstored := (mem_filter.1 hc).1
        rwa [hw.conditions, Option.getD_some] at hstored
    · rw [mem_singleton.1 hc]
      exact htelemetry

/-! ## What a step stores -/

theorem patchStatus_merged (r : Surroundings) (phase : Phase) (current : Option (ClassRuntimeStatus J)) :
    (patchStatus current (mergedStatus r phase current)).phase = some phase.text ∧
      (patchStatus current (mergedStatus r phase current)).message = some "Applied workload" ∧
      (patchStatus current (mergedStatus r phase current)).conditions = (mergedStatus r phase current).conditions := by
  cases current <;> exact ⟨rfl, rfl, rfl⟩

theorem observedGeneration_patchStatus {g : Int} (hg : r.generation = some g) (phase : Phase)
    (current : Option (ClassRuntimeStatus J)) :
    (patchStatus current (mergedStatus r phase current)).observedGeneration = some g := by
  cases current <;> simp [patchStatus, mergedStatus, mergeStatus, reportedStatus, progressing, hg]

theorem orderly_first (r : Surroundings) (phase : Phase) : Orderly (reportedConditions r phase none) := by
  have htel : ∀ now, (telemetryCondition r.telemetryEnabled r.endpointPresent now).type = .telemetryConfigured ∨
      (telemetryCondition r.telemetryEnabled r.endpointPresent now).type = .telemetryDegraded := by
    intro now
    unfold telemetryCondition
    split
    · exact .inl rfl
    · split
      · exact .inr rfl
      · exact .inl rfl
  have hfirst : reportedConditions r phase none =
      [phaseCondition r.conditionTime phase, telemetryCondition r.telemetryEnabled r.endpointPresent r.telemetryTime] := by
    cases phase <;> rfl
  rw [hfirst]
  rcases htel r.telemetryTime with htel | htel <;> cases phase <;>
    exact ⟨by simp [phaseCondition, htel], by simp [phaseCondition, htel, condRank]⟩

theorem orderly_merged {current : Option (ClassRuntimeStatus J)} (h : ∀ cur, current = some cur → Written cur)
    (r : Surroundings) (phase : Phase) : Orderly (storedConditions (some (mergedStatus r phase current))) := by
  cases current with
  | none => exact orderly_first r phase
  | some cur => exact orderly_upsertConditions (h cur rfl).orderly _

theorem written_patchStatus {current : Option (ClassRuntimeStatus J)} (h : ∀ cur, current = some cur → Written cur)
    {g : Int} (hg : r.generation = some g) (phase : Phase) :
    Written (patchStatus current (mergedStatus r phase current)) := by
  obtain ⟨hphase, hmessage, hconds⟩ := patchStatus_merged r phase current
  have hstored : storedConditions (some (patchStatus current (mergedStatus r phase current))) =
      storedConditions (some (mergedStatus r phase current)) := congrArg (·.getD []) hconds
  refine ⟨?_, hmessage, ?_, ?_, ?_⟩
  · rw [observedGeneration_patchStatus hg]
    exact Option.some_ne_none g
  · rw [hstored, hconds]
    cases current <;> rfl
  · rw [hstored]
    exact orderly_merged h r phase
  · intro happlying now
    obtain rfl : phase = .applying := by
      rw [hphase] at happlying
      revert happlying
      cases phase <;> decide
    rw [hstored]
    exact mem_map.2 ⟨_, mem_phaseCondition_merged r .applying current, rfl⟩

theorem writeStatus_cases [DecidableEq J] (r : Surroundings) (phase : Phase) (current : Option (ClassRuntimeStatus J)) :
    (shouldPatchStatus current (mergedStatus r phase current) = true ∧
      writeStatus r phase current = some (patchStatus current (mergedStatus r phase current))) ∨
    (shouldPatchStatus current (mergedStatus r phase current) = false ∧ writeStatus r phase current = current) := by
  unfold writeStatus
  cases h : shouldPatchStatus current (mergedStatus r phase current)
  · exact .inr ⟨rfl, by simp [h]⟩
  · exact .inl ⟨rfl, by simp [h]⟩

/-! ## Runs -/

section Runs

variable [DecidableEq J] {ctx : Context} {obj obj' : ClassRuntime J} {found : Findings}

theorem reconcile_ok (h : reconcile ctx obj found = .ok obj') :
    obj' = { obj with status := writeStatus (surroundings ctx obj found) (evaluation ctx obj found).phase obj.status } := by
  unfold reconcile at h
  dsimp only at h
  split at h
  · split at h
    · cases h
    · exact (Except.ok.inj h).symm
  · exact (Except.ok.inj h).symm

omit [DecidableEq J] in
theorem evaluation_changed (ctx : Context) (found : Findings) (hstatus : obj.status = some cur)
    (hsome : cur.observedGeneration ≠ none) (hne : cur.observedGeneration ≠ some obj.generation) :
    evaluation ctx obj found = ⟨.applying, [.applyWorkload]⟩ := by
  obtain ⟨g, hg⟩ := Option.ne_none_iff_exists'.1 hsome
  have hchanged : generationChanged (observedGeneration obj) (some obj.generation) = true := by
    rw [observedGeneration, hstatus, Option.bind_some, hg]
    simpa [generationChanged, hg] using hne
  simp [evaluation, evaluateObject, evaluate, hchanged]

/-- **A step that is noted.** If the stored generation is another one and the workload renders, there is something new
for the status. -/
def Noted (ctx : Context) (obj : ClassRuntime J) : Event → Prop
  | .specChange _ _ _ => True
  | .reconcile found => ∀ cur, obj.status = some cur → cur.observedGeneration ≠ some obj.generation →
      (∃ resources, renderObject ctx.controller ctx.name obj.spec = .ok resources) →
      ¬ NothingNew cur (surroundings ctx obj found)

def RunStatus (obj : ClassRuntime J) : Prop := ∀ cur, obj.status = some cur → Written cur

theorem runStatus_step (h : RunStatus obj) (e : Event) : RunStatus (step ctx obj e) := by
  cases e with
  | specChange generation spec telemetry => exact h
  | reconcile found =>
    unfold step
    dsimp only
    split
    · rename_i obj' hok
      obtain rfl := reconcile_ok hok
      intro cur hcur
      rcases writeStatus_cases (surroundings ctx obj found) (evaluation ctx obj found).phase obj.status with
        ⟨_, hwrite⟩ | ⟨_, hwrite⟩
      · obtain rfl : patchStatus _ _ = cur := Option.some.inj (hwrite.symm.trans hcur)
        exact written_patchStatus h rfl _
      · exact h cur (hwrite.symm.trans hcur)
    · exact h

theorem recordsGeneration_of (h : ∀ obj', reconcile ctx obj found = .ok obj' → observedGeneration obj' = some obj.generation) :
    RecordsGeneration ctx obj (.reconcile found) := by
  intro obj' hok
  have hrecorded := h obj' hok
  have hgen : obj'.generation = obj.generation := by rw [reconcile_ok hok]
  exact ⟨hrecorded, by simp [hrecorded, hgen, generationChanged]⟩

theorem observedGeneration_reconcile (hok : reconcile ctx obj found = .ok obj') :
    observedGeneration obj' =
      if shouldPatchStatus obj.status
          (mergedStatus (surroundings ctx obj found) (evaluation ctx obj found).phase obj.status) then
        some obj.generation
      else observedGeneration obj := by
  rw [reconcile_ok hok, observedGeneration]
  rcases writeStatus_cases (surroundings ctx obj found) (evaluation ctx obj found).phase obj.status with
    ⟨hsend, hwrite⟩ | ⟨hskip, hwrite⟩
  · rw [hwrite, hsend, if_pos rfl]
    exact observedGeneration_patchStatus rfl _ _
  · rw [hwrite, hskip]
    rfl

theorem recordsGeneration_iff (h : RunStatus obj) (e : Event) : RecordsGeneration ctx obj e ↔ Noted ctx obj e := by
  cases e with
  | specChange generation spec telemetry => exact Iff.rfl
  | reconcile found =>
    by_cases hrecorded : ∀ cur, obj.status = some cur → cur.observedGeneration = some obj.generation
    · -- no status, or the generation is there already: sent or not, it is there afterwards
      refine iff_of_true (recordsGeneration_of fun obj' hok => ?_) fun cur hcur hne => absurd (hrecorded cur hcur) hne
      rw [observedGeneration_reconcile hok, observedGeneration]
      cases hstatus : obj.status with
      | none => rfl
      | some cur => exact (congrArg _ (hrecorded cur hstatus)).trans (ite_self _)
    · push Not at hrecorded
      obtain ⟨cur, hstatus, hne⟩ := hrecorded
      have heval := evaluation_changed ctx found hstatus (h cur hstatus).generation hne
      cases hrender : renderObject ctx.controller ctx.name obj.spec with
      | error e =>
        -- the step does not return `Ok`
        have herror : reconcile ctx obj found = .error e := by simp [reconcile, heval, hrender]
        refine iff_of_true (fun obj' hok => ?_) fun cur' _ _ hok => ?_
        · rw [herror] at hok
          cases hok
        · obtain ⟨_, hok⟩ := hok
          rw [hrender] at hok
          cases hok
      | ok resources =>
        have hok : reconcile ctx obj found =
            .ok { obj with status := writeStatus (surroundings ctx obj found) .applying obj.status } := by
          simp [reconcile, heval, hrender]
        have hunsent := unsent_iff (h cur hstatus) (surroundings ctx obj found)
        cases hsend : shouldPatchStatus (some cur) (mergedStatus (surroundings ctx obj found) .applying (some cur)) with
        | true =>
          refine iff_of_true (recordsGeneration_of fun obj' hok' => ?_) ?_
          · rw [observedGeneration_reconcile hok', heval, hstatus, hsend, if_pos rfl]
          · intro cur' hcur' _ _ hnothing
            obtain rfl : cur = cur' := Option.some.inj (hstatus.symm.trans hcur')
            rw [hunsent.2 hnothing] at hsend
            cases hsend
        | false =>
          refine iff_of_false (fun hrec => hne ?_) fun hnoted => ?_
          · have hgen := (hrec _ hok).1
            rw [observedGeneration_reconcile hok, heval, hstatus, hsend, observedGeneration, hstatus] at hgen
            exact hgen
          · exact hnoted cur hstatus hne ⟨resources, hrender⟩ (hunsent.1 hsend)

/-- **Generation bookkeeping** along a run from a new object: every step with another stored generation must be noted.
-/
theorem generation_recorded_iff (ctx : Context) (generation : Int) (spec : ClassRuntimeSpec) (telemetry : Option Bool)
    (events : List Event) :
    AlongRun (step ctx) (RecordsGeneration ctx) (⟨generation, spec, telemetry, none⟩ : ClassRuntime J) events ↔
      AlongRun (step ctx) (Noted ctx) (⟨generation, spec, telemetry, none⟩ : ClassRuntime J) events := by
  have hnew : RunStatus (⟨generation, spec, telemetry, none⟩ : ClassRuntime J) := fun _ h => by cases h
  generalize (⟨generation, spec, telemetry, none⟩ : ClassRuntime J) = obj at hnew
  induction events generalizing obj with
  | nil => exact Iff.rfl
  | cons e events ih => exact and_congr (recordsGeneration_iff hnew e) (ih _ (runStatus_step hnew e))

end Runs

/-! ## A spec change that is never recorded -/

namespace Unrecorded

def ctx : Context := ⟨⟨false, none, "dev", true⟩, "cls", "default", false, ""⟩

def spec (addons : Option (List String)) : ClassRuntimeSpec :=
  ⟨none, addons, none, [⟨"echo", some ⟨some "registry/app", none, none⟩⟩], none⟩

def found : Findings := ⟨"t", "t", "t", [], [], []⟩

/-- The data grid is switched off while the first apply is in flight. -/
def events : List Event := [.reconcile found, .specChange 2 (spec (some [])) none, .reconcile found]

theorem spec_change_unrecorded :
    ¬ AlongRun (step ctx) (RecordsGeneration ctx) (⟨1, spec none, none, none⟩ : ClassRuntime Unit) events := by
  rintro ⟨_, _, hlast, _⟩
  obtain ⟨obj', hok⟩ : ∃ obj', reconcile ctx (step ctx (step ctx (⟨1, spec none, none, none⟩ : ClassRuntime Unit)
      (.reconcile found)) (.specChange 2 (spec (some [])) none)) found = .ok obj' := ⟨_, rfl⟩
  have hrecorded := (hlast obj' hok).1
  rw [reconcile_ok hok] at hrecorded
  revert hrecorded
  decide +kernel

end Unrecorded

end Crm
