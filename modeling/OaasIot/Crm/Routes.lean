import OaasIot.Crm.Templates

/-!
# Do the routes reach the rendered services?

The builder makes the URL of each route, and the Deployment templates name each Service, from an index and a number of
functions. But the builder counts **all functions of the unit**, the template those **of the spec**, without those that
have neither an image nor a module.
-/

open Grpc

namespace Crm

open List OrdMap

def Container (f : FunctionDeploymentSpec) : Prop := f.wasmModuleUrl = none ∧ f.containerImage ≠ none
instance (f : FunctionDeploymentSpec) : Decidable (Container f) := inferInstanceAs (Decidable (_ ∧ _))

def renderedService (name : String) (spec : ClassRuntimeSpec) (j : Nat) : Option String :=
  match spec.functions[j]? with
  | none => none
  | some f =>
    match renderFunction name spec.functions.length j f with
    | .error _ => none
    | .ok resources => (resources.find? fun r => r.kind = .service).map (·.name)

def routeAt (spec : ClassRuntimeSpec) (k : String) : Option FunctionRoute :=
  (spec.odgmConfig.bind (·.invocations)).bind (·.fnRoutes.get k)

/-- Each route whose key names function `j` of the spec has the host of the Service rendered for `j`, if `j` is a
container function, and in no case that of another function. -/
def Reaches (name : String) (spec : ClassRuntimeSpec) : Prop :=
  ∀ k r j f, routeAt spec k = some r → spec.functions[j]? = some f → r.functionKey = some f.functionKey →
    (Container f → ∃ service, renderedService name spec j = some service ∧ httpHost r.url = some service) ∧
    ∀ j' service, j' ≠ j → renderedService name spec j' = some service → httpHost r.url ≠ some service

/-! ## The services -/

variable {j : Nat}

theorem renderedService_eq_some {name : String} {spec : ClassRuntimeSpec} {service : String} :
    renderedService name spec j = some service ↔ ∃ f, spec.functions[j]? = some f ∧ Container f ∧
      service = functionServiceName name j spec.functions.length := by
  unfold renderedService
  cases hf : spec.functions[j]? with
  | none => simp
  | some f =>
    cases hw : f.wasmModuleUrl <;> cases hi : f.containerImage <;>
      simp [renderFunction, Container, hw, hi, eq_comm]

theorem getElem?_filter_iff {α : Type} {p : α → Bool} {l : List α} {x : α} :
    (l.filter p)[j]? = some x ↔ ∃ i, l[i]? = some x ∧ p x ∧ ((l.take i).filter p).length = j := by
  induction l generalizing j with
  | nil => simp
  | cons a l ih =>
    constructor
    · intro h
      by_cases ha : p a = true
      · rw [filter_cons_of_pos ha] at h
        cases j with
        | zero =>
          obtain rfl : a = x := by simpa using h
          exact ⟨0, rfl, ha, by simp⟩
        | succ j =>
          obtain ⟨i, hi, hx, hlen⟩ := ih.1 (by simpa using h)
          exact ⟨i + 1, by simpa using hi, hx, by simp [filter_cons_of_pos ha, hlen]⟩
      · rw [filter_cons_of_neg ha] at h
        obtain ⟨i, hi, hx, hlen⟩ := ih.1 h
        exact ⟨i + 1, by simpa using hi, hx, by simp [filter_cons_of_neg ha, hlen]⟩
    · rintro ⟨_ | i, hi, hx, hlen⟩
      · obtain rfl : a = x := by simpa using hi
        obtain rfl : 0 = j := by simpa using hlen
        simp [filter_cons_of_pos hx]
      · have hi' : l[i]? = some x := by simpa using hi
        by_cases ha : p a = true
        · obtain rfl : ((l.take i).filter p).length + 1 = j := by simpa [filter_cons_of_pos ha] using hlen
          rw [filter_cons_of_pos ha, getElem?_cons_succ]
          exact ih.2 ⟨i, hi', hx, rfl⟩
        · rw [filter_cons_of_neg ha]
          exact ih.2 ⟨i, hi', hx, by simpa [filter_cons_of_neg ha] using hlen⟩

/-! ## Which function a route is for -/

namespace Builder

variable {name : String} {du : DeploymentUnit}

/-- The function key that the unit gives the route `k`: that of its own invocations (or of the binding of this name),
and without them that of the last binding of this name whose function is in the unit. -/
def routedKey (du : DeploymentUnit) (k : String) : Option String :=
  du.odgmConfig.bind fun cfg =>
    match cfg.invocations with
    | some inv => (inv.fnRoutes.get k).bind fun v => v.functionKey.or ((bindingIndex du.functionBindings).get k)
    | none => (du.functionBindings.reverse.find? fun b =>
        b.name = k ∧ du.functions.any (·.functionKey = b.functionKey)).map (·.functionKey)

/-- A unit whose routes are numbered as its spec: for every container function with a route, either the unit has no
other function, or at least two functions are kept and none before it is dropped. -/
def Aligned (du : DeploymentUnit) : Prop :=
  ∀ k i f, du.functions[i]? = some f → Container f → routedKey du k = some f.functionKey →
    du.functions.length = 1 ∨ (1 < (du.functions.filter Kept).length ∧ ∀ g ∈ du.functions.take i, Kept g = true)

variable {f : FunctionDeploymentSpec} {i : Nat}

theorem get_fkIndex {fs : List FunctionDeploymentSpec} (hnd : (fs.map (·.functionKey)).Nodup) (hf : fs[i]? = some f) :
    (fkIndex fs).get f.functionKey = some ⟨i, f.wasmModuleUrl, f.wasmFuel⟩ := by
  have hmem : (f, i) ∈ fs.zipIdx := mem_zipIdx_iff_getElem?.2 hf
  have hkeys : fs.map (·.functionKey) = fs.zipIdx.map ((·.functionKey) ∘ Prod.fst) := by
    rw [← map_map, zipIdx_map_fst]
  refine get_insertMany_of_mem _ ?_ (mem_map.2 ⟨(f, i), hmem, rfl⟩)
  rw [map_map]
  exact hkeys ▸ hnd

theorem get_fkIndex_isSome {fs : List FunctionDeploymentSpec} {fk : String} :
    ((fkIndex fs).get fk).isSome = fs.any (·.functionKey = fk) := by
  by_cases h : ∃ f ∈ fs, f.functionKey = fk
  · have hsome : (fkIndex fs).get fk ≠ none := by
      intro hnone
      obtain ⟨f, hf, rfl⟩ := h
      obtain ⟨i, hi⟩ := getElem?_of_mem hf
      refine (get_insertMany_eq_none.1 hnone).1 ?_
      rw [map_map]
      exact mem_map.2 ⟨(f, i), mem_zipIdx_iff_getElem?.2 hi, rfl⟩
    rw [Option.isSome_iff_ne_none.2 hsome, eq_comm, any_eq_true]
    simpa using h
  · have hnone : (fkIndex fs).get fk = none := by
      refine get_insertMany_of_notMem _ fun hmem => h ?_
      rw [map_map] at hmem
      obtain ⟨⟨f, i⟩, hf, rfl⟩ := mem_map.1 hmem
      exact ⟨f, mem_of_getElem? (mem_zipIdx_iff_getElem?.1 hf), rfl⟩
    rw [hnone, Option.isSome_none, eq_comm, any_eq_false]
    simpa using h

/-! ## Where a route leads -/

theorem httpHost_wasm (s : String) : httpHost ("wasm://" ++ s) = none := by
  simp [httpHost, String.toList_append]

def unitHost (name : String) (du : DeploymentUnit) (i : Nat) (f : FunctionDeploymentSpec) : Option String :=
  if f.wasmModuleUrl.isSome then none else some (functionServiceName name i du.functions.length)

variable {k : String}

theorem httpHost_routeFromProto (hnd : (du.functions.map (·.functionKey)).Nodup) (hf : du.functions[i]? = some f)
    {v : Grpc.FunctionRoute} (hkey : (routeFromProto name du k v).functionKey = some f.functionKey) :
    httpHost (routeFromProto name du k v).url = unitHost name du i f := by
  have hresolved : v.functionKey.or ((bindingIndex du.functionBindings).get k) = some f.functionKey := hkey
  unfold routeFromProto unitHost
  simp only [hresolved, Option.bind_some, get_fkIndex hnd hf]
  cases f.wasmModuleUrl with
  | none => exact httpHost_functionServiceUrl name i _
  | some moduleUrl => exact httpHost_wasm _

theorem httpHost_routeFromBinding (hnd : (du.functions.map (·.functionKey)).Nodup) (hf : du.functions[i]? = some f)
    {b : ClassFunctionBinding} {r : FunctionRoute} (hr : routeFromBinding name du b = some r)
    (hkey : r.functionKey = some f.functionKey) : httpHost r.url = unitHost name du i f := by
  obtain ⟨found, hfound, rfl⟩ := Option.map_eq_some_iff.1 hr
  obtain hb : b.functionKey = f.functionKey := Option.some.inj hkey
  obtain rfl : ⟨i, f.wasmModuleUrl, f.wasmFuel⟩ = found := by
    rw [hb, get_fkIndex hnd hf] at hfound
    exact Option.some.inj hfound
  unfold unitHost
  cases f.wasmModuleUrl with
  | none => exact httpHost_plain (plain_functionServiceName name i _)
  | some moduleUrl => exact httpHost_wasm _

theorem get_insertMany_routes {g : ClassFunctionBinding → Option FunctionRoute} (bs : List ClassFunctionBinding)
    (m : OrdMap String FunctionRoute) :
    (m.insertMany (bs.filterMap fun b => (g b).map fun r => (b.name, r))).get k =
      ((bs.reverse.find? fun b => b.name = k ∧ (g b).isSome).bind g).or (m.get k) := by
  induction bs generalizing m with
  | nil => simp
  | cons b bs ih =>
    rw [reverse_cons, find?_append]
    cases hg : g b with
    | none =>
      rw [filterMap_cons_none (by simp [hg]), ih]
      simp [hg]
    | some r =>
      rw [filterMap_cons_some (b := (b.name, r)) (by simp [hg]), insertMany_cons, ih, get_insert]
      by_cases hk : b.name = k
      · cases hlater : bs.reverse.find? fun b => b.name = k ∧ (g b).isSome with
        | none => simp [hg, hk]
        | some later =>
          obtain ⟨_, r', hr'⟩ : later.name = k ∧ ∃ r', g later = some r' := by
            simpa [Option.isSome_iff_exists] using find?_some hlater
          simp [hr']
      · simp [hk]

theorem routeAt_build_bindings {cfg : OdgmConfig} (hcfg : du.odgmConfig = some cfg) (hinv : cfg.invocations = none)
    (k : String) : routeAt (build name du) k =
      (du.functionBindings.reverse.find? fun b =>
        b.name = k ∧ du.functions.any (·.functionKey = b.functionKey)).bind (routeFromBinding name du) := by
  have hsome : ∀ b, (routeFromBinding name du b).isSome = du.functions.any (·.functionKey = b.functionKey) := by
    intro b
    rw [routeFromBinding, Option.isSome_map, get_fkIndex_isSome]
  have hroute : routeAt (build name du) k = (invocationsFromBindings name du).bind (·.fnRoutes.get k) := by
    simp [routeAt, build, buildOdgmConfig, hcfg, mapInvocationsFromProto, hinv]
  have hmap := get_insertMany_routes (g := routeFromBinding name du) (k := k) du.functionBindings .empty
  simp only [hsome, get_empty, Option.or_none] at hmap
  rw [hroute, ← hmap]
  unfold invocationsFromBindings
  split
  · -- no bindings, or no functions: nothing is inserted
    rename_i hempty
    rw [Bool.or_eq_true, List.isEmpty_iff, List.isEmpty_iff] at hempty
    rcases hempty with hempty | hempty
    · simp [hempty]
    · have hnone : (du.functionBindings.reverse.find? fun b =>
          b.name = k ∧ du.functions.any (·.functionKey = b.functionKey)) = none := by simp [hempty]
      rw [hmap, hnone]
      rfl
  · dsimp only
    split
    · rename_i hroutes
      rw [List.isEmpty_iff] at hroutes
      rw [show empty.insertMany _ = (empty : OrdMap String FunctionRoute) from ext_toList hroutes]
      rfl
    · rfl

theorem routeAt_build_proto {cfg : OdgmConfig} {inv : Grpc.InvocationRoutes} (hcfg : du.odgmConfig = some cfg)
    (hinv : cfg.invocations = some inv) (k : String) :
    routeAt (build name du) k = (inv.fnRoutes.get k).map (routeFromProto name du k) := by
  simp [routeAt, build, buildOdgmConfig, hcfg, mapInvocationsFromProto, hinv, get_mapWithKey]

theorem routeAt_build_none (hcfg : du.odgmConfig = none) (k : String) : routeAt (build name du) k = none := by
  simp only [routeAt, build, buildOdgmConfig, hcfg]
  split <;> simp

theorem exists_routeAt_build (name : String) {fk : String} :
    (∃ r, routeAt (build name du) k = some r ∧ r.functionKey = some fk) ↔ routedKey du k = some fk := by
  cases hcfg : du.odgmConfig with
  | none => simp [routeAt_build_none hcfg, routedKey, hcfg]
  | some cfg =>
    cases hinv : cfg.invocations with
    | some inv =>
      rw [routeAt_build_proto hcfg hinv]
      cases hv : inv.fnRoutes.get k with
      | none => simp [routedKey, hcfg, hinv, hv]
      | some v => simp [routedKey, hcfg, hinv, hv, routeFromProto]
    | none =>
      rw [routeAt_build_bindings hcfg hinv]
      simp only [routedKey, hcfg, hinv, Option.bind_some]
      cases hb : du.functionBindings.reverse.find? fun b =>
          b.name = k ∧ du.functions.any (·.functionKey = b.functionKey) with
      | none => simp
      | some b =>
        have hknown : du.functions.any (·.functionKey = b.functionKey) = true := by
          have hfound := find?_some hb
          rw [decide_eq_true_eq] at hfound
          exact hfound.2
        rw [← get_fkIndex_isSome, Option.isSome_iff_exists] at hknown
        obtain ⟨found, hfound⟩ := hknown
        simp [routeFromBinding, hfound]

theorem httpHost_routeAt_build (hnd : (du.functions.map (·.functionKey)).Nodup) (hf : du.functions[i]? = some f)
    {r : FunctionRoute} (hr : routeAt (build name du) k = some r) (hkey : r.functionKey = some f.functionKey) :
    httpHost r.url = unitHost name du i f := by
  cases hcfg : du.odgmConfig with
  | none => rw [routeAt_build_none hcfg] at hr; cases hr
  | some cfg =>
    cases hinv : cfg.invocations with
    | some inv =>
      rw [routeAt_build_proto hcfg hinv] at hr
      obtain ⟨v, _, rfl⟩ := Option.map_eq_some_iff.1 hr
      exact httpHost_routeFromProto hnd hf hkey
    | none =>
      rw [routeAt_build_bindings hcfg hinv] at hr
      obtain ⟨b, _, hb⟩ := Option.bind_eq_some_iff.1 hr
      exact httpHost_routeFromBinding hnd hf hb hkey

/-! ## Routes reach services -/

theorem unitHost_eq_renderedService (hf : du.functions[i]? = some f) (hc : Container f)
    (hj : ((du.functions.take i).filter Kept).length = j) :
    unitHost name du i f = some (functionServiceName name j (du.functions.filter Kept).length) ↔
      du.functions.length = 1 ∨ (1 < (du.functions.filter Kept).length ∧ ∀ g ∈ du.functions.take i, Kept g = true) := by
  have hi : i < du.functions.length := (List.getElem?_eq_some_iff.1 hf).1
  have hkept : (du.functions.filter Kept).length ≤ du.functions.length := List.length_filter_le _ _
  have hbefore : (∀ g ∈ du.functions.take i, Kept g = true) ↔ i = j := by
    rw [← List.length_filter_eq_length_iff, hj, List.length_take_of_le hi.le, eq_comm]
  rw [hbefore]
  simp only [unitHost, hc.1, Option.isSome_none, Bool.false_eq_true, if_false, Option.some.injEq, functionServiceName_inj]
  omega

theorem kept_of_container (h : Container f) : Kept f = true := by
  simp [Kept, Option.isSome_iff_ne_none, h.2]

theorem container_of_kept (h : Kept f = true) (hw : f.wasmModuleUrl = none) : Container f := by
  refine ⟨hw, ?_⟩
  simpa [Kept, hw, Option.isSome_iff_ne_none] using h

theorem renderedService_ne {spec : ClassRuntimeSpec} {j' : Nat} {service : String} (hj : spec.functions[j]? = some f)
    (hne : j' ≠ j) (h : renderedService name spec j' = some service) :
    functionServiceName name j spec.functions.length ≠ service := by
  obtain ⟨g, hg, _, rfl⟩ := renderedService_eq_some.1 h
  have hlt : j < spec.functions.length := (List.getElem?_eq_some_iff.1 hj).1
  have hlt' : j' < spec.functions.length := (List.getElem?_eq_some_iff.1 hg).1
  rw [Ne, functionServiceName_inj]
  omega

/-- **Routes and services**: every route has the host of the Service of its function if the unit is aligned. -/
theorem routes_reach_iff (name : String) (du : DeploymentUnit) (hnd : (du.functions.map (·.functionKey)).Nodup) :
    Reaches name (build name du) ↔ Aligned du := by
  constructor
  · intro h k i f hf hc hroute
    obtain ⟨r, hr, hkey⟩ := (exists_routeAt_build name).2 hroute
    have hj : (build name du).functions[((du.functions.take i).filter Kept).length]? = some f :=
      getElem?_filter_iff.2 ⟨i, hf, kept_of_container hc, rfl⟩
    obtain ⟨service, hservice, hhost⟩ := (h k r _ f hr hj hkey).1 hc
    obtain ⟨_, _, _, rfl⟩ := renderedService_eq_some.1 hservice
    rw [httpHost_routeAt_build hnd hf hr hkey] at hhost
    exact (unitHost_eq_renderedService hf hc rfl).1 hhost
  · intro h k r j f hr hj hkey
    obtain ⟨i, hf, hkept, hlen⟩ := getElem?_filter_iff.1 hj
    have hhost := httpHost_routeAt_build hnd hf hr hkey
    cases hw : f.wasmModuleUrl with
    | some moduleUrl =>
      -- a WASM route has no host at all
      have hnone : httpHost r.url = none := by rw [hhost, unitHost, hw]; rfl
      refine ⟨fun hc => ?_, fun j' service _ _ => by simp [hnone]⟩
      rw [hc.1] at hw
      cases hw
    | none =>
      have hc := container_of_kept hkept hw
      have hroute : routedKey du k = some f.functionKey := (exists_routeAt_build name).1 ⟨r, hr, hkey⟩
      rw [(unitHost_eq_renderedService hf hc hlen).2 (h k i f hf hc hroute)] at hhost
      refine ⟨fun _ => ⟨_, renderedService_eq_some.2 ⟨f, hj, hc, rfl⟩, hhost⟩, fun j' service hne hservice => ?_⟩
      rw [hhost, Ne, Option.some.injEq]
      exact renderedService_ne hj hne hservice

/-! ## Two units -/

namespace Units

def image (key : String) : FunctionDeploymentSpec := ⟨key, some ⟨some "registry/app", none, none⟩⟩
def wasm (key : String) : FunctionDeploymentSpec := ⟨key, some ⟨none, some "https://modules/app.wasm", none⟩⟩
def bare (key : String) : FunctionDeploymentSpec := ⟨key, none⟩

def bound (functions : List FunctionDeploymentSpec) : DeploymentUnit :=
  { id := "u1", functions := functions, targetEnv := "edge"
    functionBindings := functions.map fun f => ⟨f.functionKey, f.functionKey, none⟩
    odgmConfig := some ⟨["cls"], some 1, some 1, none, none, .empty, none, .empty, none, .empty, none⟩
    selectedTemplate := none }

theorem routes_reach_mixed :
    ([image "read", wasm "count", image "write"].map (·.functionKey)).Nodup ∧
      Reaches "cls" (build "cls" (bound [image "read", wasm "count", image "write"])) := by
  refine ⟨by decide, (routes_reach_iff _ _ (by decide)).2 fun k i f hf _ _ => .inr ⟨by decide, fun g hg => ?_⟩⟩
  have hall : ∀ g ∈ (bound [image "read", wasm "count", image "write"]).functions, Kept g = true := by decide
  exact hall g (mem_of_mem_take hg)

/-- A bare function in front: the route to `read` carries index 1, the Service of `write`. -/
theorem bare_function_shifts_routes :
    ((bound [bare "log", image "read", image "write"]).functions.map (·.functionKey)).Nodup ∧
      ¬ Reaches "cls" (build "cls" (bound [bare "log", image "read", image "write"])) := by
  refine ⟨by decide, fun h => ?_⟩
  have hread := h "read"
    ⟨"http://cls-fn-1", none, none, none, some false, [], some "read"⟩ 0 (image "read")
    (by decide +kernel) (by decide +kernel) rfl
  exact hread.2 1 "cls-fn-1" (by decide) (by decide +kernel) (by decide +kernel)

end Units

end Builder

end Crm
