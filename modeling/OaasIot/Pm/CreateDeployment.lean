import OaasIot.CpStorage.Storages
import OaasIot.Pm.FailedDeployment

/-!
# Creating a deployment through the API (`oprc-pm/src/api/handlers/deployment.rs`)

Before a deployment is handed to `deploy_class`, the handler fills in what the units are built from: a spec for the
function of each binding, and the ODGM collection of the class. Whether clusters can be selected is an answer of the
environment (`selectable`).
-/

open Grpc CpStorage

namespace Pm

open List OrdMap

variable {F : Type}

inductive ApiError
  | badRequest (msg : String)
  | notFound (msg : String)
  | internalServerError (msg : String)
  deriving DecidableEq

/-! ## The handler -/

def resolveClass (st : MemoryPackageStorage F) (d : OClassDeployment F) : Except ApiError (OPackage F × OClass) :=
  match st.getPackage d.packageName with
  | none => .error (.notFound ("Package not found: " ++ d.packageName))
  | some pkg =>
    match pkg.classes.find? fun cls => cls.key == d.classKey with
    | none => .error (.badRequest ("Class '" ++ d.classKey ++ "' not found in package '" ++ pkg.name))
    | some cls => .ok (pkg, cls)

def functionSpec (pkg : OPackage F) (b : FunctionBinding) : Except ApiError FunctionDeploymentSpec :=
  match pkg.functions.find? fun f => f.key == b.functionKey with
  | some f => .ok ⟨f.key, f.provisionConfig⟩
  | none => .error (.badRequest ("Function '" ++ b.functionKey ++ "' referenced by binding '" ++ b.name ++
      "' not found in package '" ++ pkg.name))

def functionSpecs (pkg : OPackage F) : List FunctionBinding → Except ApiError (List FunctionDeploymentSpec)
  | [] => pure []
  | b :: bindings => do
    let spec ← functionSpec pkg b
    let specs ← functionSpecs pkg bindings
    pure (spec :: specs)

def OdgmDataSpec.default : OdgmDataSpec := ⟨[], none, none, none, .empty, none, .empty, none⟩

def withCollections (d : OClassDeployment F) (o : OdgmDataSpec) : OdgmDataSpec :=
  { o with
    collections := if o.collections.isEmpty then [d.packageName ++ "." ++ d.classKey] else o.collections
    log := o.log.or (some "info") }

def enrichDeployment (pkg : OPackage F) (cls : OClass) (d : OClassDeployment F) :
    Except ApiError (OClassDeployment F) := do
  let functions ← if d.functions.isEmpty then functionSpecs pkg cls.functionBindings else pure d.functions
  pure { d with functions, odgm := some (withCollections d (d.odgm.getD .default)) }

def prepareDeployment (st : MemoryPackageStorage F) (selectable : Bool) (d : OClassDeployment F) :
    Except ApiError (OClass × OClassDeployment F) := do
  let (pkg, cls) ← resolveClass st d
  if !selectable then .error (.badRequest "Invalid target envs")
  else
    let enriched ← enrichDeployment pkg cls d
    pure (cls, enriched)

def plannedUnits (fl : FloatOps F) (cls : OClass) (d : OClassDeployment F) (ans : Answers F) : List DeploymentUnit :=
  match planDeployment fl cls d ans with
  | .error _ => []
  | .ok plan => plan.units

def createdUnits (fl : FloatOps F) (st : MemoryPackageStorage F) (selectable : Bool) (d : OClassDeployment F)
    (ans : Answers F) : List DeploymentUnit :=
  match prepareDeployment st selectable d with
  | .error _ => []
  | .ok (cls, enriched) => plannedUnits fl cls enriched ans

/-! ## What is filled in -/

section
variable {pkg : OPackage F} {cls : OClass} {d e : OClassDeployment F}

variable {specs : List FunctionDeploymentSpec} {bindings : List FunctionBinding} {b : FunctionBinding}

theorem functionSpec_ok {spec : FunctionDeploymentSpec} (h : functionSpec pkg b = .ok spec) :
    ∃ f ∈ pkg.functions, f.key = b.functionKey ∧ spec = ⟨f.key, f.provisionConfig⟩ := by
  unfold functionSpec at h
  split at h
  · rename_i f hf
    cases h
    exact ⟨f, mem_of_find?_eq_some hf, by simpa using find?_some hf, rfl⟩
  · cases h

theorem functionSpecs_cons (h : functionSpecs pkg (b :: bindings) = .ok specs) :
    ∃ spec rest, functionSpec pkg b = .ok spec ∧ functionSpecs pkg bindings = .ok rest ∧ specs = spec :: rest := by
  unfold functionSpecs at h
  cases hspec : functionSpec pkg b with
  | error e =>
    rw [hspec] at h
    cases h
  | ok spec =>
    cases hrest : functionSpecs pkg bindings with
    | error e =>
      simp only [hspec, hrest, bind, Except.bind] at h
      cases h
    | ok rest =>
      simp only [hspec, hrest, bind, Except.bind, pure, Except.pure, Except.ok.injEq] at h
      exact ⟨spec, rest, rfl, rfl, h.symm⟩

theorem functionSpecs_ok
    (h : functionSpecs pkg bindings = .ok specs) : ∀ b ∈ bindings, ∃ spec ∈ specs, functionSpec pkg b = .ok spec := by
  induction bindings generalizing specs with
  | nil => simp
  | cons b bindings ih =>
    obtain ⟨spec, rest, hspec, hrest, rfl⟩ := functionSpecs_cons h
    intro b' hb'
    rcases mem_cons.1 hb' with rfl | hb'
    · exact ⟨spec, mem_cons_self, hspec⟩
    · obtain ⟨spec', hmem, hspec'⟩ := ih hrest b' hb'
      exact ⟨spec', mem_cons_of_mem _ hmem, hspec'⟩

theorem functionSpecs_keys
    (h : functionSpecs pkg bindings = .ok specs) : specs.map (·.functionKey) = bindings.map (·.functionKey) := by
  induction bindings generalizing specs with
  | nil =>
    cases h
    rfl
  | cons b bindings ih =>
    obtain ⟨spec, rest, hspec, hrest, rfl⟩ := functionSpecs_cons h
    obtain ⟨f, _, hkey, rfl⟩ := functionSpec_ok hspec
    rw [map_cons, map_cons, ih hrest, hkey]

theorem enrichDeployment_ok (h : enrichDeployment pkg cls d = .ok e) (hnone : d.functions = []) :
    (∀ b ∈ cls.functionBindings, ∃ f ∈ pkg.functions, f.key = b.functionKey ∧ ⟨f.key, f.provisionConfig⟩ ∈ e.functions) ∧
      e.odgm = some (withCollections d (d.odgm.getD .default)) := by
  unfold enrichDeployment at h
  rw [hnone, if_pos (by rfl)] at h
  cases hspecs : functionSpecs pkg cls.functionBindings with
  | error e =>
    rw [hspecs] at h
    cases h
  | ok specs =>
    rw [hspecs] at h
    cases h
    refine ⟨fun b hb => ?_, rfl⟩
    obtain ⟨spec, hmem, hspec⟩ := functionSpecs_ok hspecs b hb
    obtain ⟨f, hf, hkey, rfl⟩ := functionSpec_ok hspec
    exact ⟨f, hf, hkey, hmem⟩

/-! ## What a unit takes from its deployment -/

theorem collections_effective {selected : List String} {achieved : F} {nodeIds : Nat → UInt32} {now : Nat} :
    (effectiveDeployment d selected achieved nodeIds now).odgm.map (·.collections) = d.odgm.map (·.collections) := by
  unfold effectiveDeployment ensureNodeIds
  cases d.odgm with
  | none => rfl
  | some o =>
    simp only [Option.map_some]
    split <;> rfl

theorem plannedUnits_spec {fl : FloatOps F} {ans : Answers F} {u : DeploymentUnit} (h : u ∈ plannedUnits fl cls d ans) :
    u.functions = d.functions.map (fun f => ⟨f.functionKey, some (f.provisionConfig.getD ⟨none, none, none⟩)⟩) ∧
      u.odgmConfig.map (fun o => (o.collections, o.invocations)) =
        d.odgm.map fun o => (o.collections, invocationRoutes cls d.functions) := by
  unfold plannedUnits at h
  cases hplan : planDeployment fl cls d ans with
  | error e =>
    rw [hplan] at h
    cases h
  | ok plan =>
    rw [hplan] at h
    obtain ⟨candidates, requirements, _, _, _, _, heffective, hunits⟩ := planDeployment_ok hplan
    dsimp only at h
    rw [hunits, createDeploymentUnits, mem_map] at h
    obtain ⟨x, _, rfl⟩ := h
    have hfunctions : plan.effective.functions = d.functions := by rw [heffective]; rfl
    have hcollections : plan.effective.odgm.map (·.collections) = d.odgm.map (·.collections) := by
      rw [heffective, collections_effective]
    refine ⟨by rw [createDeploymentUnitsForEnv, hfunctions], ?_⟩
    have hpairs : ∀ (o : Option OdgmDataSpec) (routes : Option InvocationRoutes),
        o.map (fun o => (o.collections, routes)) = (o.map (·.collections)).map fun c => (c, routes) := by
      rintro (_ | o) routes <;> rfl
    calc (plan.effective.odgm.map (odgmConfigFor cls plan.effective x.1 requirements)).map
          (fun o => (o.collections, o.invocations))
        = plan.effective.odgm.map fun o => (o.collections, invocationRoutes cls plan.effective.functions) :=
          Option.map_map _ _ _
      _ = d.odgm.map fun o => (o.collections, invocationRoutes cls d.functions) := by
          rw [hpairs, hpairs, hcollections, hfunctions]

theorem route_of_binding (cls : OClass) {functions : List FunctionDeploymentSpec}
    (hb : b ∈ cls.functionBindings) (hf : ∃ f ∈ functions, f.functionKey = b.functionKey) :
    ∃ routes, invocationRoutes cls functions = some routes ∧ ∃ route, routes.fnRoutes.get b.name = some route ∧
      ∃ b' ∈ cls.functionBindings, b'.name = b.name ∧ route.functionKey = some b'.functionKey := by
  have hnonempty : cls.functionBindings.isEmpty = false := by
    rw [isEmpty_eq_false_iff_exists_mem]
    exact ⟨b, hb⟩
  unfold invocationRoutes
  rw [if_neg (by simp [hnonempty])]
  refine ⟨_, rfl, ?_⟩
  dsimp only
  have hbound : b ∈ cls.functionBindings.filter fun b => functions.any fun f => f.functionKey == b.functionKey := by
    obtain ⟨f, hmem, hkey⟩ := hf
    exact mem_filter.2 ⟨hb, any_eq_true.2 ⟨f, hmem, beq_iff_eq.2 hkey⟩⟩
  cases hget : get (insertMany _ _) b.name with
  | none =>
    obtain ⟨hnot, _⟩ := get_insertMany_eq_none.1 hget
    rw [map_map] at hnot
    exact absurd (mem_map_of_mem hbound) hnot
  | some route =>
    refine ⟨route, rfl, ?_⟩
    rcases get_insertMany_eq_some _ hget with hmem | hempty
    · obtain ⟨b', hb', hpair⟩ := mem_map.1 hmem
      obtain ⟨hname, rfl⟩ := Prod.mk.inj hpair
      exact ⟨b', (mem_filter.1 hb').1, hname, rfl⟩
    · cases hempty

/-! ## The units of a class -/

theorem prepareDeployment_ok {st : MemoryPackageStorage F} {selectable : Bool} {c : OClass}
    (hres : resolveClass st d = .ok (pkg, cls)) (h : prepareDeployment st selectable d = .ok (c, e)) :
    c = cls ∧ enrichDeployment pkg cls d = .ok e := by
  unfold prepareDeployment at h
  simp only [hres, bind, Except.bind] at h
  split at h
  · cases h
  · rcases henrich : enrichDeployment pkg cls d with err | enriched <;> rw [henrich] at h <;> cases h
    exact ⟨rfl, rfl⟩

def ListsOnce (cls : OClass) (u : DeploymentUnit) : Prop :=
  ∀ b ∈ cls.functionBindings, (u.functions.map (·.functionKey)).count b.functionKey = 1

def RoutesBindings (cls : OClass) (u : DeploymentUnit) : Prop :=
  ∀ b ∈ cls.functionBindings, ∃ routes, u.odgmConfig.bind (·.invocations) = some routes ∧
    ∃ route, routes.fnRoutes.get b.name = some route ∧ route.functionKey = some b.functionKey

theorem createdUnits_spec {fl : FloatOps F} {st : MemoryPackageStorage F} {selectable : Bool} {ans : Answers F}
    {u : DeploymentUnit} (hres : resolveClass st d = .ok (pkg, cls)) (hnone : d.functions = [])
    (hu : u ∈ createdUnits fl st selectable d ans) :
    u.functions.map (·.functionKey) = cls.functionBindings.map (·.functionKey) ∧
      ∃ functions : List FunctionDeploymentSpec,
        functions.map (·.functionKey) = cls.functionBindings.map (·.functionKey) ∧
        u.odgmConfig.bind (·.invocations) = invocationRoutes cls functions := by
  unfold createdUnits at hu
  rcases hprepare : prepareDeployment st selectable d with err | ⟨c, e⟩ <;> rw [hprepare] at hu
  · cases hu
  obtain ⟨rfl, henrich⟩ := prepareDeployment_ok hres hprepare
  obtain ⟨hfunctions, hcontents⟩ := plannedUnits_spec hu
  have hkeys : e.functions.map (·.functionKey) = c.functionBindings.map (·.functionKey) := by
    unfold enrichDeployment at henrich
    rw [hnone, if_pos (by rfl)] at henrich
    rcases hspecs : functionSpecs pkg c.functionBindings with err | specs <;> rw [hspecs] at henrich <;> cases henrich
    exact functionSpecs_keys hspecs
  refine ⟨by rw [← hkeys, hfunctions, map_map]; rfl, e.functions, hkeys, ?_⟩
  obtain ⟨_, hodgm⟩ := enrichDeployment_ok henrich hnone
  rw [hodgm, Option.map_some] at hcontents
  obtain ⟨o, ho, hpair⟩ := Option.map_eq_some_iff.1 hcontents
  rw [ho]
  exact (Prod.mk.inj hpair).2

/-- **Enrichment is right** where no two bindings share a function, and none of different functions share a name. -/
theorem bindings_deployed_iff (fl : FloatOps F) (st : MemoryPackageStorage F) (selectable : Bool) (ans : Answers F)
    (hres : resolveClass st d = .ok (pkg, cls)) (hnone : d.functions = []) :
    (∀ u ∈ createdUnits fl st selectable d ans, ListsOnce cls u ∧ RoutesBindings cls u) ↔
      createdUnits fl st selectable d ans = [] ∨
        ((cls.functionBindings.map (·.functionKey)).Nodup ∧
          ∀ b ∈ cls.functionBindings, ∀ b' ∈ cls.functionBindings, b.name = b'.name → b.functionKey = b'.functionKey) := by
  constructor
  · intro h
    rcases hunits : createdUnits fl st selectable d ans with _ | ⟨u, us⟩
    · exact .inl rfl
    have hu : u ∈ createdUnits fl st selectable d ans := by rw [hunits]; exact mem_cons_self
    obtain ⟨honce, hroutes⟩ := h u hu
    refine .inr ⟨nodup_iff_count_eq_one.2 fun k hk => ?_, fun b hb b' hb' hname => ?_⟩
    · obtain ⟨b, hb, rfl⟩ := mem_map.1 hk
      rw [← (createdUnits_spec hres hnone hu).1]
      exact honce b hb
    · obtain ⟨r, hr, route, hget, hkey⟩ := hroutes b hb
      obtain ⟨r', hr', route', hget', hkey'⟩ := hroutes b' hb'
      cases hr.symm.trans hr'
      rw [hname, hget'] at hget
      cases hget
      exact Option.some.inj (hkey.symm.trans hkey')
  · rintro (hnil | ⟨hnd, hagree⟩) u hu
    · rw [hnil] at hu
      cases hu
    obtain ⟨hkeys, functions, hfunctions, hinvocations⟩ := createdUnits_spec hres hnone hu
    refine ⟨fun b hb => ?_, fun b hb => ?_⟩
    · rw [hkeys]
      exact nodup_iff_count_eq_one.1 hnd _ (mem_map_of_mem hb)
    · obtain ⟨f, hf, hfk⟩ := mem_map.1 (hfunctions ▸ mem_map_of_mem hb :
        b.functionKey ∈ functions.map (·.functionKey))
      obtain ⟨routes, hroutes, route, hget, b', hb', hname, hkey⟩ := route_of_binding cls hb ⟨f, hf, hfk⟩
      exact ⟨routes, hinvocations.trans hroutes, route, hget, hkey.trans (congrArg some (hagree b' hb' b hb hname))⟩

end

namespace Refused

def accepting : Answers Unit := answers (fun _ => true) fun _ => "counter-1"

def bound (bindings : List FunctionBinding) : MemoryPackageStorage Unit :=
  MemoryPackageStorage.new.storePackage ⟨"pkg", {}, [⟨"Counter", none, bindings, .empty⟩], [⟨"f", none⟩], [], []⟩

theorem one_binding_deployed :
    (createdUnits flat (bound [⟨"inc", "f", false⟩]) true (deployment ["edge"]) accepting).length = 1 ∧
    ∀ u ∈ createdUnits flat (bound [⟨"inc", "f", false⟩]) true (deployment ["edge"]) accepting,
      ListsOnce ⟨"Counter", none, [⟨"inc", "f", false⟩], .empty⟩ u ∧
        RoutesBindings ⟨"Counter", none, [⟨"inc", "f", false⟩], .empty⟩ u :=
  ⟨by decide +kernel,
    (bindings_deployed_iff flat (bound [⟨"inc", "f", false⟩]) true accepting rfl rfl).2 (.inr (by simp))⟩

/-- Two methods of one function: the unit lists it twice. -/
theorem function_listed_twice :
    (createdUnits flat (bound [⟨"inc", "f", false⟩, ⟨"dec", "f", false⟩]) true (deployment ["edge"]) accepting).map
      (fun u => u.functions.map (·.functionKey)) = [["f", "f"]] := by
  decide +kernel

end Refused

end Pm
