import OaasIot.Crm.Rendering

/-!
# Finding the children of a runtime (`oprc-crm/src/controller`)

The selectors of the owner label use the name of the runtime, the Knative template writes the **safe form** of the name,
and for a name that starts with a digit or is long the two differ. The calls of the API server succeed.
-/

open Grpc

namespace Crm

open List

namespace Rendering

/-! ## The calls of the controller -/

def selects (name : String) (m : Manifest) : Bool := m.labels.get "oaas.io/owner" == some name
def SameObject (o m : Manifest) : Prop := o.kind = m.kind ∧ o.name = m.name
instance (o m : Manifest) : Decidable (SameObject o m) := inferInstanceAs (Decidable (_ ∧ _))

def applyWorkload (manifests objects : List Manifest) : List Manifest :=
  manifests.foldl (fun objects m => m :: objects.filter fun o => ¬ SameObject o m) objects

def deleteListed (kind : ResourceKind) (name : String) (objects : List Manifest) : List Manifest :=
  let listed := (objects.filter fun o => o.kind = kind && selects name o).map (·.name)
  objects.filter fun o => !(o.kind = kind && listed.contains o.name)

def deleteChildren (name : String) (includeKnative knativeServed : Bool) (objects : List Manifest) : List Manifest :=
  let objects := deleteListed .deployment name objects
  let objects := deleteListed .service name objects
  if includeKnative && knativeServed then deleteListed .knativeService name objects else objects

def observeChildren (ready : Manifest → Bool) (name : String) (includeKnative : Bool) (objects : List Manifest) :
    List ChildStatus :=
  let children := fun kind => (objects.filter fun o => o.kind = kind && selects name o).map fun o =>
    (⟨o.name, ResourceKind.label kind, ready o, none, none⟩ : ChildStatus)
  children .deployment ++ if includeKnative then children .knativeService else []

/-! ## What they leave -/

variable {objects manifests : List Manifest} {m o : Manifest}

theorem applyWorkload_concat (manifests : List Manifest) (last : Manifest) (objects : List Manifest) :
    applyWorkload (manifests ++ [last]) objects =
      last :: (applyWorkload manifests objects).filter fun o => ¬ SameObject o last := by
  simp [applyWorkload]

theorem mem_applyWorkload (ho : o ∈ applyWorkload manifests objects) (hm : m ∈ manifests) (hsame : SameObject o m) :
    o ∈ manifests := by
  -- from the right: the last manifest that touches the object decides
  induction manifests using reverseRecOn with
  | nil => cases hm
  | append_singleton manifests last ih =>
    simp only [applyWorkload_concat, mem_cons, mem_filter, decide_eq_true_eq] at ho
    rcases ho with rfl | ⟨ho, hne⟩
    · simp
    · rcases mem_append.1 hm with hm | hm
      · exact mem_append_left _ (ih ho hm)
      · exact absurd (mem_singleton.1 hm ▸ hsame) hne

theorem exists_applyWorkload (objects : List Manifest) (hm : m ∈ manifests) :
    ∃ o ∈ applyWorkload manifests objects, o ∈ manifests ∧ SameObject o m := by
  suffices h : ∃ o ∈ applyWorkload manifests objects, SameObject o m by
    obtain ⟨o, ho, hsame⟩ := h
    exact ⟨o, ho, mem_applyWorkload ho hm hsame, hsame⟩
  induction manifests using reverseRecOn with
  | nil => cases hm
  | append_singleton manifests last ih =>
    rw [applyWorkload_concat]
    by_cases hlast : SameObject last m
    · exact ⟨last, mem_cons_self, hlast⟩
    · have hm' : m ∈ manifests := by
        rcases mem_append.1 hm with hm | hm
        · exact hm
        · exact absurd (mem_singleton.1 hm ▸ ⟨rfl, rfl⟩) hlast
      obtain ⟨o, ho, hsame⟩ := ih hm'
      have hne : ¬ SameObject o last := fun h => hlast ⟨h.1.symm.trans hsame.1, h.2.symm.trans hsame.2⟩
      exact ⟨o, mem_cons_of_mem _ (by simp [ho, hne]), hsame⟩

variable {name : String}

theorem mem_deleteListed {kind : ResourceKind} :
    o ∈ deleteListed kind name objects ↔
      o ∈ objects ∧ ¬ (o.kind = kind ∧ ∃ p ∈ objects, p.kind = kind ∧ selects name p = true ∧ p.name = o.name) := by
  simp [deleteListed, and_assoc, imp_iff_not_or]

theorem deleteListed_subset (kind : ResourceKind) (name : String) (objects : List Manifest) :
    deleteListed kind name objects ⊆ objects := fun _ h => (mem_deleteListed.1 h).1

theorem notMem_deleteListed {kind : ResourceKind} (hkind : o.kind = kind) (hlabel : selects name o = true) :
    o ∉ deleteListed kind name objects := by
  intro h
  obtain ⟨ho, hnot⟩ := mem_deleteListed.1 h
  exact hnot ⟨hkind, o, ho, hkind, hlabel, rfl⟩

theorem mem_observeChildren {ready : Manifest → Bool} {includeKnative : Bool} (ho : o ∈ objects)
    (hlabel : selects name o = true) (hkind : o.kind = .deployment ∨ includeKnative = true ∧ o.kind = .knativeService) :
    ∃ c ∈ observeChildren ready name includeKnative objects, c.kind = o.kind.label ∧ c.name = o.name := by
  refine ⟨⟨o.name, o.kind.label, ready o, none, none⟩, ?_, rfl, rfl⟩
  unfold observeChildren
  dsimp only
  rcases hkind with hkind | ⟨hkn, hkind⟩
  · exact mem_append_left _ (mem_map.2 ⟨o, by simp [ho, hkind, hlabel], by rw [hkind]⟩)
  · rw [if_pos hkn]
    exact mem_append_right _ (mem_map.2 ⟨o, by simp [ho, hkind, hlabel], by rw [hkind]⟩)

/-! ## Finding everything -/

/-- What was rendered carries the label, is observed, and is removed with the runtime. -/
structure FindsEverything (name : String) (includeKnative : Bool) (manifests : List Manifest) : Prop where
  labelled : ∀ m ∈ manifests, m.labels.get "oaas.io/owner" = some name
  observed : ∀ ready objects, ∀ m ∈ manifests, m.kind ≠ .service →
    ∃ c ∈ observeChildren ready name includeKnative (applyWorkload manifests objects),
      c.kind = m.kind.label ∧ c.name = m.name
  removed : ∀ knativeServed objects, (includeKnative = true → knativeServed = true) →
    ∀ o ∈ deleteChildren name includeKnative knativeServed (applyWorkload manifests objects),
      ∀ m ∈ manifests, ¬ SameObject o m

theorem findsEverything_iff {includeKnative : Bool}
    (hkn : ∀ m ∈ manifests, m.kind = .knativeService → includeKnative = true) :
    FindsEverything name includeKnative manifests ↔ ∀ m ∈ manifests, m.labels.get "oaas.io/owner" = some name := by
  refine ⟨FindsEverything.labelled, fun hlabel => ⟨hlabel, ?_, ?_⟩⟩
  · intro ready objects m hm hservice
    obtain ⟨o, ho, hrendered, hkind, hname⟩ := exists_applyWorkload objects hm
    have hkinds : o.kind = .deployment ∨ includeKnative = true ∧ o.kind = .knativeService := by
      cases hk : o.kind with
      | deployment => exact .inl rfl
      | service => exact absurd (hkind.symm.trans hk) hservice
      | knativeService => exact .inr ⟨hkn o hrendered hk, rfl⟩
    rw [← hkind, ← hname]
    exact mem_observeChildren ho (by simp [selects, hlabel o hrendered]) hkinds
  · intro served objects hserved o ho m hm hsame
    have hdeleted : o ∈ deleteListed .service name (deleteListed .deployment name (applyWorkload manifests objects)) := by
      unfold deleteChildren at ho
      split at ho
      · exact deleteListed_subset _ _ _ ho
      · exact ho
    have hdeployments := deleteListed_subset _ _ _ hdeleted
    have hrendered := mem_applyWorkload (deleteListed_subset _ _ _ hdeployments) hm hsame
    have hselected : selects name o = true := by simp [selects, hlabel o hrendered]
    cases hk : o.kind with
    | deployment => exact notMem_deleteListed hk hselected hdeployments
    | service => exact notMem_deleteListed hk hselected hdeleted
    | knativeService =>
      have hinc := hkn o hrendered hk
      rw [deleteChildren, hinc, hserved hinc] at ho
      exact notMem_deleteListed hk hselected ho

/-! ## Which names -/

section Owner

variable (ctx : RenderContext)

theorem owner_odgm {image : Option String} (h : m ∈ buildOdgmResources ctx image) :
    m.labels.get "oaas.io/owner" = some ctx.name ∧ m.kind ≠ .knativeService := by
  have hne : "oaas.io/class" ≠ "oaas.io/owner" := by decide
  unfold buildOdgmResources at h
  rcases mem_pair.1 h with rfl | rfl <;> cases ctx.packageClassKey <;> simp [OrdMap.get_insert_of_ne _ _ hne]

theorem owner_function {i : Nat} {image : String} (h : m ∈ functionManifests ctx i image) :
    m.labels.get "oaas.io/owner" = some ctx.name ∧ m.kind ≠ .knativeService := by
  rcases mem_pair.1 h with rfl | rfl <;> simp

theorem owner_knativeService (i : Nat) (f : FunctionDeploymentSpec) :
    (knativeService ctx i f).labels.get "oaas.io/owner" = some (dns1035Safe ctx.name) := by
  have hne : "networking.knative.dev/visibility" ≠ "oaas.io/owner" := by decide
  rw [knativeService, OrdMap.get_insert_of_ne _ _ hne, get_baseLabels_owner]

theorem owner_plain {t : Template} (ht : t ≠ .knative) (h : Renders ctx t m) :
    m.labels.get "oaas.io/owner" = some ctx.name ∧ m.kind ≠ .knativeService := by
  rcases h with ⟨i, f, _, hfn⟩ | ⟨_, hodgm⟩
  · rw [if_neg ht] at hfn
    obtain ⟨_, image, _, hm⟩ := hfn
    exact owner_function ctx hm
  · exact owner_odgm ctx hodgm

theorem owner_knative_iff (hfirst : FirstHasImage ctx) :
    (∀ m, Renders ctx .knative m → m.labels.get "oaas.io/owner" = some ctx.name) ↔ dns1035Safe ctx.name = ctx.name := by
  constructor
  · intro h
    have hne : ctx.spec.functions ≠ [] := fun hnil => by simp [FirstHasImage, hnil] at hfirst
    obtain ⟨f, hf⟩ : ∃ f, ctx.spec.functions[0]? = some f := ⟨_, getElem?_eq_getElem (length_pos_iff.2 hne)⟩
    have hlabel := h (knativeService ctx 0 f) (.inl ⟨0, f, hf, by rw [if_pos rfl]⟩)
    simpa [owner_knativeService] using hlabel
  · rintro hsafe m (⟨i, f, _, hfn⟩ | ⟨_, hodgm⟩)
    · rw [if_pos rfl] at hfn
      rw [hfn, owner_knativeService, hsafe]
    · exact (owner_odgm ctx hodgm).1

end Owner

def CleansUp (ctx : RenderContext) (includeKnative : Bool) (env : Option EnvironmentContext) : Prop :=
  ∀ manifests, renderWorkload ctx includeKnative env = .ok manifests →
    FindsEverything ctx.name includeKnative manifests

/-- **Cleanup finds everything** that is rendered, except for the Services of the Knative template under a name that
starts with a digit or has more than 63 characters. -/
theorem cleanup_finds_everything_iff (ctx : RenderContext) (includeKnative : Bool) (env : Option EnvironmentContext)
    (id : String) (hname : ctx.name = sanitizeName id) :
    CleansUp ctx includeKnative env ↔
      (template ctx includeKnative env = .knative → (∀ f ∈ ctx.spec.functions, Imageless f = false) → FirstHasImage ctx →
        ctx.name.length ≤ 63 ∧ ∃ c ∈ ctx.name.toList.head?, c.isLower = true) := by
  have hsafe : dns1035Safe ctx.name = ctx.name ↔
      ctx.name.length ≤ 63 ∧ ∃ c ∈ ctx.name.toList.head?, c.isLower = true := by
    rw [hname]
    exact dns1035Safe_eq_self_iff id
  rw [← hsafe]
  unfold CleansUp
  rcases renderWorkload_total ctx includeKnative env with
    ⟨⟨f, hf, himageless⟩, herr⟩ | ⟨_, _, hfirst, msg, hpanic⟩ | ⟨hall, hfirst, manifests, hok, hmem⟩
  · refine iff_of_true (by simp [herr]) fun _ hall => ?_
    simp [hall f hf] at himageless
  · exact iff_of_true (by simp [hpanic]) fun _ _ h => absurd h hfirst
  · have hone : (∀ ms, renderWorkload ctx includeKnative env = .ok ms → FindsEverything ctx.name includeKnative ms) ↔
        FindsEverything ctx.name includeKnative manifests := by simp [hok]
    rw [hone]
    by_cases hkn : template ctx includeKnative env = .knative
    · have hinc : includeKnative = true := by
        by_contra hoff
        rw [Bool.not_eq_true] at hoff
        rw [template, hoff] at hkn
        exact selectTemplate_ne_knative env ctx.profile ctx.spec hkn
      rw [hkn] at hmem
      rw [findsEverything_iff fun _ _ _ => hinc]
      simp only [hmem]
      rw [owner_knative_iff ctx (hfirst hkn)]
      exact ⟨fun h _ _ _ => h, fun h => h hkn hall (hfirst hkn)⟩
    · refine iff_of_true ?_ fun h => absurd h hkn
      rw [findsEverything_iff fun m hm h => absurd h (owner_plain ctx hkn ((hmem m).1 hm)).2]
      exact fun m hm => (owner_plain ctx hkn ((hmem m).1 hm)).1

namespace Digits

def runtime (name : String) : RenderContext := { Mixed.knative [Mixed.container "f"] with name := name }

theorem cleanup_letter : validateName (sanitizeName "Seg.7") = .ok () ∧ CleansUp (runtime "seg-7") true none :=
  ⟨by decide +kernel, (cleanup_finds_everything_iff (runtime "seg-7") true none "Seg.7" (by decide +kernel)).2
    fun _ _ _ => ⟨by decide +kernel, 's', rfl, by decide⟩⟩

/-- Under a name with a digit first the Knative Service survives the runtime. -/
theorem knative_service_left_behind :
    validateName (sanitizeName "7seg") = .ok () ∧ sanitizeName "7seg" = "7seg" ∧
      ∃ m, renderWorkload (runtime "7seg") true none = .ok [m] ∧ m.labels.get "oaas.io/owner" = some "a7seg" ∧
        observeChildren (fun _ => true) "7seg" true (applyWorkload [m] []) = [] ∧
        deleteChildren "7seg" true true (applyWorkload [m] []) = [m] :=
  ⟨by decide +kernel, by decide +kernel, knativeService (runtime "7seg") 0 (Mixed.container "f"), by decide +kernel⟩

end Digits

end Rendering

end Crm
