import OaasIot.Crm.Status

/-!
# The routes of the data grid (`templates/odgm.rs`, `templates/manager.rs`)

Every function gets a predicted route under the **last segment of its key**; the first of several functions has the
segment. A route of the user without a URL takes it over from the predicted one, but not the module of a WASM function.
-/

open Grpc

namespace Crm

open List OrdMap

/-- `entry(k).or_insert(v)`. -/
def orInsert {α : Type} (m : OrdMap String α) (e : String × α) : OrdMap String α :=
  if (m.get e.1).isSome then m else m.insert e.1 e.2

/-- What follows the last dot (`rsplit('.').next()`). -/
def defaultMethod (key : String) : String := String.ofList (key.toList.reverse.takeWhile (· ≠ '.')).reverse

section

variable (name ns : String) (total : Nat)

def predictedRoute (x : FunctionDeploymentSpec × Nat) : FunctionRoute where
  url := x.1.wasmModuleUrl.elim (functionServiceUrlFqdn name ns x.2 total) fun _ => "wasm://" ++ x.1.functionKey
  wasmModuleUrl := x.1.wasmModuleUrl
  wasmFuel := none
  stateless := some true
  standby := none
  activeGroup := []
  functionKey := some x.1.functionKey

def predictedFunctionRoutes (functions : List FunctionDeploymentSpec) : OrdMap String FunctionRoute :=
  (functions.zipIdx.map fun x => (defaultMethod x.1.functionKey, predictedRoute name ns functions.length x)).foldl
    orInsert .empty

/-- `fk_index`: the predicted routes by the function they name. -/
def routeIndex (functions : List FunctionDeploymentSpec) : OrdMap String FunctionRoute :=
  OrdMap.empty.insertMany ((predictedFunctionRoutes name ns functions).toList.filterMap fun e =>
    e.2.functionKey.map fun fk => (fk, e.2))

/-- A route of the user: only one without a URL is filled in. -/
def enrich (index : OrdMap String FunctionRoute) (v : FunctionRoute) : FunctionRoute :=
  if v.url = "" then
    match v.functionKey.bind index.get with
    | some pred => { v with
        url := pred.url
        stateless := v.stateless.or pred.stateless
        standby := v.standby.or pred.standby
        activeGroup := if v.activeGroup = [] then pred.activeGroup else v.activeGroup }
    | none => v
  else v

def mergedFunctionRoutes (spec : ClassRuntimeSpec) : Option InvocationsSpec :=
  if spec.functions = [] then none
  else
    let predicted := predictedFunctionRoutes name ns spec.functions
    match spec.odgmConfig.bind (·.invocations) with
    | some inv =>
      if inv.fnRoutes.toList = [] then some ⟨predicted, []⟩
      else some ⟨predicted.toList.foldl orInsert (inv.fnRoutes.mapWithKey fun _ => enrich (routeIndex name ns spec.functions)),
        inv.disabledFn⟩
    | none => some ⟨predicted, []⟩

/-! ## What is merged -/

def userRoutes (spec : ClassRuntimeSpec) : OrdMap String FunctionRoute :=
  (spec.odgmConfig.bind (·.invocations)).elim .empty (·.fnRoutes)

theorem get_foldl_orInsert {α : Type} (l : List (String × α)) (m : OrdMap String α) (k : String) :
    (l.foldl orInsert m).get k = (m.get k).or (getList k l) := by
  induction l generalizing m with
  | nil => simp [getList]
  | cons e l ih =>
    rw [foldl_cons, ih, orInsert, getList]
    by_cases hk : e.1 = k
    · subst hk
      cases hm : m.get e.1 <;> simp [hm]
    · split <;> simp [hk, get_insert]

theorem getList_map {α : Type} (key : α → String) (v : α → FunctionRoute) (l : List α) (k : String) :
    getList k (l.map fun x => (key x, v x)) = (l.find? (key · = k)).map v := by
  induction l with
  | nil => rfl
  | cons x l ih => by_cases hk : key x = k <;> simp [getList, hk, ih]

variable {functions : List FunctionDeploymentSpec} {x y : FunctionDeploymentSpec × Nat}

/-- No function before `x` has the last segment of its key. -/
def Foremost (functions : List FunctionDeploymentSpec) (x : FunctionDeploymentSpec × Nat) : Prop :=
  functions.zipIdx.find? (fun y => defaultMethod y.1.functionKey = defaultMethod x.1.functionKey) = some x

theorem get_predicted {k : String} {r : FunctionRoute} :
    (predictedFunctionRoutes name ns functions).get k = some r ↔
      ∃ x, Foremost functions x ∧ defaultMethod x.1.functionKey = k ∧ predictedRoute name ns functions.length x = r := by
  rw [predictedFunctionRoutes, get_foldl_orInsert, get_empty, Option.none_or, getList_map, Option.map_eq_some_iff]
  refine exists_congr fun x => ⟨fun ⟨hfind, hr⟩ => ?_, fun ⟨hfind, hk, hr⟩ => ⟨hk ▸ hfind, hr⟩⟩
  have hk : defaultMethod x.1.functionKey = k := by simpa using find?_some hfind
  exact ⟨by rw [Foremost, hk]; exact hfind, hk, hr⟩

theorem eq_of_functionKey (hkeys : (functions.map (·.functionKey)).Nodup) (hx : x ∈ functions.zipIdx)
    (hy : y ∈ functions.zipIdx) (h : x.1.functionKey = y.1.functionKey) : x = y := by
  have hmap : functions.zipIdx.map (·.1.functionKey) = functions.map (·.functionKey) := by
    conv_rhs => rw [← zipIdx_map_fst 0 functions, map_map]
    rfl
  exact inj_on_of_nodup_map (hmap ▸ hkeys) hx hy h

theorem mem_routeIndex {fk : String} {r : FunctionRoute} :
    (fk, r) ∈ (predictedFunctionRoutes name ns functions).toList.filterMap
        (fun e => e.2.functionKey.map fun fk => (fk, e.2)) ↔
      ∃ y, Foremost functions y ∧ y.1.functionKey = fk ∧ predictedRoute name ns functions.length y = r := by
  simp only [mem_filterMap, Option.map_eq_some_iff]
  constructor
  · rintro ⟨⟨k, r'⟩, he, _, hfk, heq⟩
    cases heq
    obtain ⟨y, hy, -, rfl⟩ := (get_predicted name ns).1 (get_eq_some.2 he)
    exact ⟨y, hy, Option.some.inj hfk, rfl⟩
  · rintro ⟨y, hy, rfl, rfl⟩
    exact ⟨(_, _), get_eq_some.1 ((get_predicted name ns).2 ⟨y, hy, rfl, rfl⟩), _, rfl, rfl⟩

theorem get_routeIndex (hkeys : (functions.map (·.functionKey)).Nodup) (hx : x ∈ functions.zipIdx)
    {r : FunctionRoute} :
    (routeIndex name ns functions).get x.1.functionKey = some r ↔
      Foremost functions x ∧ predictedRoute name ns functions.length x = r := by
  have hsome : ∀ r, (routeIndex name ns functions).get x.1.functionKey = some r →
      Foremost functions x ∧ predictedRoute name ns functions.length x = r := by
    intro r h
    obtain ⟨y, hy, hkey, hr⟩ := (mem_routeIndex name ns).1 ((get_insertMany_eq_some _ h).resolve_right (by simp))
    obtain rfl := eq_of_functionKey hkeys (mem_of_find?_eq_some hy) hx hkey
    exact ⟨hy, hr⟩
  refine ⟨hsome r, ?_⟩
  rintro ⟨hfirst, rfl⟩
  cases hget : (routeIndex name ns functions).get x.1.functionKey with
  | none =>
    have hnot := (get_insertMany_eq_none.1 hget).1
    exact absurd (mem_map_of_mem ((mem_routeIndex name ns).2 ⟨x, hfirst, rfl, rfl⟩)) hnot
  | some r => rw [(hsome r hget).2]

theorem get_merged (spec : ClassRuntimeSpec) (hne : spec.functions ≠ []) :
    ∃ inv, mergedFunctionRoutes name ns spec = some inv ∧ ∀ k, inv.fnRoutes.get k =
      (((userRoutes spec).get k).map (enrich (routeIndex name ns spec.functions))).or
        ((predictedFunctionRoutes name ns spec.functions).get k) := by
  simp only [mergedFunctionRoutes, if_neg hne, userRoutes]
  cases spec.odgmConfig.bind (·.invocations) with
  | none => exact ⟨_, rfl, fun k => by simp⟩
  | some inv =>
    dsimp only
    split
    · rename_i hnil
      exact ⟨_, rfl, fun k => by simp [OrdMap.get, hnil, getList]⟩
    · exact ⟨_, rfl, fun k => by rw [get_foldl_orInsert, get_mapWithKey]; rfl⟩

theorem predictedRoute_url_ne : (predictedRoute name ns total x).url ≠ "" := by
  unfold predictedRoute
  cases x.1.wasmModuleUrl <;> simp [functionServiceUrlFqdn, ← String.toList_inj]

@[simp] theorem enrich_keeps (index : OrdMap String FunctionRoute) (v : FunctionRoute) :
    (enrich index v).functionKey = v.functionKey ∧ (enrich index v).wasmModuleUrl = v.wasmModuleUrl := by
  unfold enrich
  split
  · split <;> exact ⟨rfl, rfl⟩
  · exact ⟨rfl, rfl⟩

theorem url_enrich_iff (hkeys : (functions.map (·.functionKey)).Nodup) (hx : x ∈ functions.zipIdx) {r : FunctionRoute}
    (hurl : r.url = "") (hfk : r.functionKey = some x.1.functionKey) :
    (enrich (routeIndex name ns functions) r).url =
        (predictedRoute name ns functions.length x).url ↔ Foremost functions x := by
  have hget := fun r => get_routeIndex name ns hkeys hx (r := r)
  rw [enrich, if_pos hurl, hfk, Option.bind_some]
  cases h : (routeIndex name ns functions).get x.1.functionKey with
  | none =>
    have hnot : ¬Foremost functions x := fun hf => by simpa [h] using (hget _).2 ⟨hf, rfl⟩
    simp [hnot, hurl, (predictedRoute_url_ne name ns functions.length).symm]
  | some pred =>
    obtain ⟨hf, rfl⟩ := (hget _).1 h
    simp [hf]

/-! ## Completeness -/

/-- The routes fill in what the user left open, reach every function and keep the URLs of the user. -/
structure CompleteRoutes (spec : ClassRuntimeSpec) (routes : OrdMap String FunctionRoute) : Prop where
  filled : ∀ k r, (userRoutes spec).get k = some r → r.url = "" → ∀ x ∈ spec.functions.zipIdx,
    r.functionKey = some x.1.functionKey → ∃ r', routes.get k = some r' ∧
      r'.url = (predictedRoute name ns spec.functions.length x).url ∧
      ∀ m, x.1.wasmModuleUrl = some m → r'.wasmModuleUrl = some m
  reached : ∀ x ∈ spec.functions.zipIdx, ∃ k r, routes.get k = some r ∧ r.functionKey = some x.1.functionKey
  kept : ∀ k r, (userRoutes spec).get k = some r → r.url ≠ "" → ∃ r', routes.get k = some r' ∧ r'.url = r.url

end

/-- **Route merging is complete** where the user leaves no URL open for a function that is not foremost or whose module
is not given, and every function is named by the user or has the last segment of its key to itself. -/
theorem routes_complete_iff (name ns : String) (spec : ClassRuntimeSpec) (hne : spec.functions ≠ [])
    (hkeys : (spec.functions.map (·.functionKey)).Nodup) :
    (∃ inv, mergedFunctionRoutes name ns spec = some inv ∧ CompleteRoutes name ns spec inv.fnRoutes) ↔
      ∀ x ∈ spec.functions.zipIdx,
        (∀ k r, (userRoutes spec).get k = some r → r.url = "" → r.functionKey = some x.1.functionKey →
          Foremost spec.functions x ∧ ∀ m, x.1.wasmModuleUrl = some m → r.wasmModuleUrl = some m) ∧
        ((∃ k r, (userRoutes spec).get k = some r ∧ r.functionKey = some x.1.functionKey) ∨
          (Foremost spec.functions x ∧ (userRoutes spec).get (defaultMethod x.1.functionKey) = none)) := by
  obtain ⟨inv, hinv, hget⟩ := get_merged name ns spec hne
  have huser : ∀ k r, (userRoutes spec).get k = some r → inv.fnRoutes.get k =
      some (enrich (routeIndex name ns spec.functions) r) := by
    intro k r hr
    rw [hget, hr]
    rfl
  simp only [hinv, Option.some.injEq, exists_eq_left']
  constructor
  · intro h x hx
    refine ⟨fun k r hr hurl hfk => ?_, ?_⟩
    · obtain ⟨r', hr', hurl', hmod⟩ := h.filled k r hr hurl x hx hfk
      obtain rfl := Option.some.inj ((huser k r hr).symm.trans hr')
      exact ⟨(url_enrich_iff name ns hkeys hx hurl hfk).1 hurl', by simpa using hmod⟩
    · obtain ⟨k, r, hr, hfk⟩ := h.reached x hx
      cases hu : (userRoutes spec).get k with
      | some u =>
        obtain rfl := Option.some.inj ((huser k u hu).symm.trans hr)
        exact .inl ⟨k, u, hu, by simpa using hfk⟩
      | none =>
        rw [hget, hu, Option.map_none, Option.none_or] at hr
        obtain ⟨y, hy, rfl, rfl⟩ := (get_predicted name ns).1 hr
        obtain rfl := eq_of_functionKey hkeys (mem_of_find?_eq_some hy) hx (Option.some.inj hfk)
        exact .inr ⟨hy, hu⟩
  · intro h
    refine ⟨fun k r hr hurl x hx hfk => ?_, fun x hx => ?_, fun k r hr hurl => ?_⟩
    · obtain ⟨hfirst, hmod⟩ := (h x hx).1 k r hr hurl hfk
      exact ⟨_, huser k r hr, (url_enrich_iff name ns hkeys hx hurl hfk).2 hfirst, by simpa using hmod⟩
    · rcases (h x hx).2 with ⟨k, r, hr, hfk⟩ | ⟨hfirst, hnone⟩
      · exact ⟨k, _, huser k r hr, by simpa using hfk⟩
      · refine ⟨defaultMethod x.1.functionKey, predictedRoute name ns spec.functions.length x, ?_, rfl⟩
        rw [hget, hnone, Option.map_none, Option.none_or]
        exact (get_predicted name ns).2 ⟨x, hfirst, rfl, rfl⟩
    · exact ⟨_, huser k r hr, by rw [enrich, if_neg hurl]⟩

namespace SharedSegment

def function (key : String) : FunctionDeploymentSpec := ⟨key, some ⟨some "img", none, none⟩⟩
def spec (keys : List String) : ClassRuntimeSpec := ⟨none, none, none, keys.map function, none⟩

theorem routes_of_two_functions :
    ∃ inv, mergedFunctionRoutes "rt" "ns" (spec ["a.get", "a.set"]) = some inv ∧
      CompleteRoutes "rt" "ns" (spec ["a.get", "a.set"]) inv.fnRoutes := by
  have hfirst : ∀ x ∈ (spec ["a.get", "a.set"]).functions.zipIdx, Foremost (spec ["a.get", "a.set"]).functions x := by
    simp only [Foremost]
    decide
  exact (routes_complete_iff "rt" "ns" _ (by decide) (by decide)).2 fun x hx => ⟨nofun, .inr ⟨hfirst x hx, rfl⟩⟩

/-- Of two functions whose keys end alike only the first gets a route. -/
theorem second_function_unrouted :
    ((mergedFunctionRoutes "rt" "ns" (spec ["a.get", "b.get"])).map fun inv =>
      inv.fnRoutes.toList.map fun e => (e.1, e.2.functionKey)) = some [("get", some "a.get")] := by
  decide +kernel

end SharedSegment

end Crm
