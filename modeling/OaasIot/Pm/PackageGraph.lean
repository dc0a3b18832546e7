import OaasIot.Lib.Program
import OaasIot.Lib.Rewiring
import OaasIot.CpStorage.Storages
import OaasIot.Pm.Workflow

/-!
# The dependencies between packages (`oprc-pm/src/services/package.rs`)

A call checks first and writes last, and the dependencies of a new package are stored before it. But nothing keeps a
package from being deleted while others depend on it, nor an update from closing a cycle.
-/

namespace Pm

open CpStorage Rewiring Relation OrdMap

variable {F : Type}

/-! ## The service -/

def World.deploymentStorage (w : World F) : MemoryDeploymentStorage F := ⟨w.records, w.mappings⟩

structure PmState (F : Type) where
  packages : MemoryPackageStorage F
  world : World F

structure DeletePolicy (F : Type) where
  packageDeleteCascade : Bool
  answers : Nat → Answers F

def validateDependencies (st : MemoryPackageStorage F) (dependencies : List String) : Except PackageError Unit :=
  match dependencies.find? fun dep => !st.packageExists dep with
  | some dep => .error (.dependencyNotFound dep)
  | none => .ok ()

def OPackage.stripped (p : OPackage F) : OPackage F := { p with deployments := [] }

def storeChecked (p : OPackage F) (refusal : Option PackageError) (s : PmState F) : Except PackageError (PmState F) := do
  PackageValidator.validate p
  match refusal with
  | some e => .error e
  | none =>
    validateDependencies s.packages p.dependencies
    pure { s with packages := s.packages.storePackage p.stripped }

def createPackage (p : OPackage F) (s : PmState F) : Except PackageError (PmState F) :=
  storeChecked p (if s.packages.packageExists p.name then some (.alreadyExists p.name) else none) s

def updatePackage (p : OPackage F) (s : PmState F) : Except PackageError (PmState F) :=
  storeChecked p (if s.packages.packageExists p.name then none else some (.notFound p.name)) s

def cascadeDelete (policy : DeletePolicy F) (name : String) (w : World F) : World F :=
  if policy.packageDeleteCascade then
    (w.deploymentStorage.listDeployments ⟨some name, none, none⟩).zipIdx.foldl
      (fun w x => (deleteDeployment (policy.answers x.2) x.1.key w).2) w
  else w

def deletePackage (policy : DeletePolicy F) (name : String) (s : PmState F) : Except PackageError (PmState F) :=
  if !s.packages.packageExists name then .error (.notFound name)
  else .ok ⟨s.packages.deletePackage name, cascadeDelete policy name s.world⟩

inductive PackageCall (F : Type)
  | create (p : OPackage F)
  | update (p : OPackage F)
  | delete (name : String) (policy : DeletePolicy F)

def PmState.call (s : PmState F) : PackageCall F → Except PackageError (PmState F)
  | .create p => createPackage p s
  | .update p => updatePackage p s
  | .delete name policy => deletePackage policy name s

def Succeeds (s : PmState F) (call : PackageCall F) : Prop := (s.call call).isOk = true
instance (s : PmState F) (call : PackageCall F) : Decidable (Succeeds s call) := inferInstanceAs (Decidable (_ = _))
def PmState.after (s : PmState F) (call : PackageCall F) : PmState F := (s.call call).toOption.getD s

/-! ## The graph -/

def DependsOn (st : MemoryPackageStorage F) (a b : String) : Prop :=
  ∃ p, st.store.get a = some p ∧ b ∈ p.dependencies

structure GraphSound (st : MemoryPackageStorage F) : Prop where
  closed : ∀ a b, DependsOn st a b → st.store.get b ≠ none
  acyclic : Acyclic (DependsOn st)

/-- **A call that keeps the graph sound.** No new dependency of an updated package depends on it in the end, and nothing
but itself depends on a deleted package. -/
def KeepsGraph (s : PmState F) : PackageCall F → Prop
  | .create _ => True
  | .update p => ∀ dep ∈ p.dependencies, ¬ ReflTransGen (DependsOn s.packages) dep p.name
  | .delete name _ => ∀ other, DependsOn s.packages other name → other = name

section
variable {st : MemoryPackageStorage F} {p : OPackage F} {a b : String}

theorem validateDependencies_ok_iff {dependencies : List String} :
    validateDependencies st dependencies = .ok () ↔ ∀ dep ∈ dependencies, st.store.get dep ≠ none := by
  have hnone : dependencies.find? (fun dep => !st.packageExists dep) = none ↔
      ∀ dep ∈ dependencies, st.store.get dep ≠ none := by
    simp [List.find?_eq_none, MemoryPackageStorage.packageExists]
  rw [← hnone, validateDependencies]
  split
  · rename_i dep hdep
    simp [hdep]
  · rename_i hdep
    simp [hdep]

theorem get_storePackage (a : String) :
    (st.storePackage p.stripped).store.get a = if p.name = a then some p.stripped else st.store.get a :=
  get_insert _ _ _ _

theorem dependsOn_store_self : DependsOn (st.storePackage p.stripped) p.name b ↔ b ∈ p.dependencies := by
  unfold DependsOn
  rw [get_storePackage, if_pos rfl]
  constructor
  · rintro ⟨_, hq, hb⟩
    cases hq
    exact hb
  · exact fun hb => ⟨_, rfl, hb⟩

theorem agreeOff_store (st : MemoryPackageStorage F) (p : OPackage F) :
    AgreeOff p.name (DependsOn st) (DependsOn (st.storePackage p.stripped)) := by
  intro a b ha
  unfold DependsOn
  rw [get_storePackage, if_neg (Ne.symm ha)]

theorem get_store_ne_none (h : st.store.get a ≠ none) : (st.storePackage p.stripped).store.get a ≠ none := by
  rw [get_storePackage]
  split
  · exact Option.some_ne_none _
  · exact h

theorem closed_store (hclosed : ∀ a b, DependsOn st a b → st.store.get b ≠ none)
    (hdeps : ∀ dep ∈ p.dependencies, st.store.get dep ≠ none) (a b : String)
    (hab : DependsOn (st.storePackage p.stripped) a b) : (st.storePackage p.stripped).store.get b ≠ none := by
  refine get_store_ne_none ?_
  by_cases ha : a = p.name
  · rw [ha, dependsOn_store_self] at hab
    exact hdeps b hab
  · exact hclosed a b ((agreeOff_store st p a b ha).2 hab)

variable (hst : GraphSound st)
include hst

theorem graphSound_store_iff (hdeps : ∀ dep ∈ p.dependencies, st.store.get dep ≠ none) :
    GraphSound (st.storePackage p.stripped) ↔ ∀ dep ∈ p.dependencies, ¬ ReflTransGen (DependsOn st) dep p.name := by
  have hacyclic := acyclic_rewired_iff (agreeOff_store st p) hst.acyclic
  simp only [dependsOn_store_self] at hacyclic
  rw [← hacyclic]
  exact ⟨GraphSound.acyclic, fun h => ⟨closed_store hst.closed hdeps, h⟩⟩

theorem eq_of_reaches_missing (hb : st.store.get b = none) (h : ReflTransGen (DependsOn st) a b) : a = b := by
  rcases ReflTransGen.cases_tail h with rfl | ⟨c, _, hcb⟩
  · rfl
  · exact absurd hb (hst.closed c b hcb)

theorem graphSound_create (hnew : st.store.get p.name = none)
    (hdeps : ∀ dep ∈ p.dependencies, st.store.get dep ≠ none) : GraphSound (st.storePackage p.stripped) := by
  rw [graphSound_store_iff hst hdeps]
  intro dep hdep hreach
  exact hdeps dep hdep (eq_of_reaches_missing hst hnew hreach ▸ hnew)

omit hst in
theorem dependsOn_delete_iff {name : String} : DependsOn (st.deletePackage name) a b ↔ a ≠ name ∧ DependsOn st a b := by
  unfold DependsOn MemoryPackageStorage.deletePackage
  simp only [get_erase]
  by_cases ha : a = name
  · simp [ha]
  · simp [ha]

theorem graphSound_delete_iff (name : String) :
    GraphSound (st.deletePackage name) ↔ ∀ other, DependsOn st other name → other = name := by
  have hgone : (st.deletePackage name).store.get name = none := (get_erase _ _ _).trans (if_pos rfl)
  constructor
  · intro hsound other hother
    by_contra hne
    exact hsound.closed other name (dependsOn_delete_iff.2 ⟨hne, hother⟩) hgone
  · intro hfree
    refine ⟨fun a b hab => ?_, hst.acyclic.mono fun a b hab => (dependsOn_delete_iff.1 hab).2⟩
    obtain ⟨ha, hab⟩ := dependsOn_delete_iff.1 hab
    have hb : b ≠ name := fun hb => ha (hfree a (hb ▸ hab))
    have hkept : (st.deletePackage name).store.get b = st.store.get b := (get_erase _ _ _).trans (if_neg hb)
    rw [hkept]
    exact hst.closed a b hab

end

/-! ## Steps and runs -/

section
variable {s s' : PmState F} {p : OPackage F} {name : String} {policy : DeletePolicy F}

theorem storeChecked_ok_iff {refusal : Option PackageError} : storeChecked p refusal s = .ok s' ↔
    p.Valid ∧ refusal = none ∧ (∀ dep ∈ p.dependencies, s.packages.store.get dep ≠ none) ∧
      s' = { s with packages := s.packages.storePackage p.stripped } := by
  rw [← validate_ok_iff, ← validateDependencies_ok_iff]
  unfold storeChecked
  cases PackageValidator.validate p with
  | error e => simp [bind, Except.bind]
  | ok _ =>
    cases refusal with
    | some e => simp [bind, Except.bind]
    | none =>
      cases validateDependencies s.packages p.dependencies with
      | error e => simp [bind, Except.bind]
      | ok _ => simp [bind, Except.bind, pure, Except.pure, eq_comm]

theorem packageExists_iff {st : MemoryPackageStorage F} : st.packageExists name = true ↔ st.store.get name ≠ none := by
  rw [MemoryPackageStorage.packageExists, Option.isSome_iff_ne_none]

theorem deletePackage_ok (h : deletePackage policy name s = .ok s') :
    s'.packages = s.packages.deletePackage name := by
  unfold deletePackage at h
  split at h
  · cases h
  · cases h
    rfl

theorem after_of_ok {call : PackageCall F} (h : s.call call = .ok s') : s.after call = s' := by
  rw [PmState.after, h]
  rfl

theorem graphSound_after_iff (hs : GraphSound s.packages) {call : PackageCall F} (hok : Succeeds s call) :
    GraphSound (s.after call).packages ↔ KeepsGraph s call := by
  cases hcall : s.call call with
  | error e =>
    rw [Succeeds, hcall] at hok
    cases hok
  | ok s' =>
    rw [after_of_ok hcall]
    cases call with
    | create p =>
      obtain ⟨_, hrefusal, hdeps, rfl⟩ := storeChecked_ok_iff.1 hcall
      have hnew : s.packages.store.get p.name = none := by
        by_contra hstored
        rw [if_pos (packageExists_iff.2 hstored)] at hrefusal
        cases hrefusal
      exact iff_of_true (graphSound_create hs hnew hdeps) trivial
    | update p =>
      obtain ⟨_, _, hdeps, rfl⟩ := storeChecked_ok_iff.1 hcall
      exact graphSound_store_iff hs hdeps
    | delete name policy =>
      rw [deletePackage_ok hcall]
      exact graphSound_delete_iff hs name

theorem graphSound_new : GraphSound (MemoryPackageStorage.new : MemoryPackageStorage F) where
  closed a b h := by
    obtain ⟨p, hp, _⟩ := h
    cases hp
  acyclic a h := by
    obtain ⟨b, ⟨p, hp, _⟩, _⟩ := TransGen.head'_iff.1 h
    cases hp

end

/-- **The package graph** stays sound if no update closes a cycle and nothing depends on a deleted package. -/
theorem package_graph_iff (w : World F) (calls : List (PackageCall F))
    (hok : AlongRun PmState.after Succeeds (⟨.new, w⟩ : PmState F) calls) :
    AlongRun PmState.after (fun s call => GraphSound (s.after call).packages) (⟨.new, w⟩ : PmState F) calls ↔
      AlongRun PmState.after KeepsGraph (⟨.new, w⟩ : PmState F) calls := by
  refine alongRun_iff (fun s => GraphSound s.packages) (fun s call hs hsucc => ?_) graphSound_new hok
  exact ⟨graphSound_after_iff hs hsucc, (graphSound_after_iff hs hsucc).2⟩

namespace Shop

def world : World Nat := ⟨.empty, .empty, ∅⟩
def package (name : String) (dependencies : List String) : OPackage Nat := ⟨name, {}, [], [], dependencies, []⟩

def policy : DeletePolicy Nat := ⟨false, fun _ => ⟨[], fun _ => .error "", fun _ => .error "", fun _ => 0,
  fun _ => "", 0, fun _ _ => true, fun _ => true⟩⟩

def stored : List (PackageCall Nat) := [.create (package "base" []), .create (package "shop" ["base"])]
def baseDeleted : List (PackageCall Nat) := stored ++ [.delete "base" policy]
def baseUpdated : List (PackageCall Nat) := stored ++ [.update (package "base" ["shop"])]

theorem dependsOn_of_get {st : MemoryPackageStorage Nat} {a b : String} {p : OPackage Nat} (h : st.store.get a = some p)
    (hb : b ∈ p.dependencies) : DependsOn st a b := ⟨p, h, hb⟩

/-- `base` is deleted, or updated to depend on `shop`, which depends on it. -/
theorem graph_broken :
    (AlongRun PmState.after Succeeds (⟨.new, world⟩ : PmState Nat) baseDeleted ∧
      ¬ GraphSound (baseDeleted.foldl PmState.after ⟨.new, world⟩).packages) ∧
    (AlongRun PmState.after Succeeds (⟨.new, world⟩ : PmState Nat) baseUpdated ∧
      ¬ GraphSound (baseUpdated.foldl PmState.after ⟨.new, world⟩).packages) := by
  refine ⟨⟨⟨by decide +kernel, by decide +kernel, by decide +kernel, trivial⟩, fun hsound => ?_⟩,
    ⟨⟨by decide +kernel, by decide +kernel, by decide +kernel, trivial⟩, fun hsound => ?_⟩⟩
  · refine hsound.closed "shop" "base" (dependsOn_of_get (p := package "shop" ["base"]) ?_ (by decide)) ?_
    · decide +kernel
    · decide +kernel
  · refine hsound.acyclic "shop" (.tail (.single (dependsOn_of_get (p := package "shop" ["base"]) (b := "base") ?_ ?_))
      (dependsOn_of_get (p := package "base" ["shop"]) ?_ ?_))
    · decide +kernel
    · decide
    · decide +kernel
    · decide

theorem graph_stored :
    AlongRun PmState.after Succeeds (⟨.new, world⟩ : PmState Nat) stored ∧
    AlongRun PmState.after (fun s call => GraphSound (s.after call).packages) (⟨.new, world⟩ : PmState Nat) stored := by
  have hok : AlongRun PmState.after Succeeds (⟨.new, world⟩ : PmState Nat) stored :=
    ⟨by decide +kernel, by decide +kernel, trivial⟩
  exact ⟨hok, (package_graph_iff world stored hok).2 ⟨trivial, trivial, trivial⟩⟩

end Shop

end Pm
