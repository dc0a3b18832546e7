import OaasIot.Pm.Workflow

/-!
# What a failed deployment leaves behind

`deployClass` stores the record of the deployment **before** it sends the first unit. If it then fails, the record
stays: it lists a deployment that does not exist. A rollback also clears the mappings of the key, those of an earlier
deployment included.
-/

open Grpc

namespace Pm

open List

variable {F : Type}

def Unchanged (key : String) (w w' : World F) : Prop :=
  w'.records.get key = w.records.get key ∧ w'.mappingsOf key = w.mappingsOf key

def GetsThrough (policy : DeploymentPolicyConfig) (ans : Answers F) (i : Nat) : Prop :=
  accepted (ans.accepts i) policy.maxRetries 1 = true

instance (policy : DeploymentPolicyConfig) (ans : Answers F) (i : Nat) : Decidable (GetsThrough policy ans i) :=
  inferInstanceAs (Decidable (_ = true))

def ClustersFail (policy : DeploymentPolicyConfig) (ans : Answers F) (n : Nat) : Prop :=
  (∀ i < n, ¬ GetsThrough policy ans i) ∨ (policy.rollbackOnPartial = true ∧ ∃ i < n, ¬ GetsThrough policy ans i)

/-! ## Accepted units -/

section Accepted

variable {policy : DeploymentPolicyConfig} {ans : Answers F} {units : List DeploymentUnit}

theorem forall_zipIdx {P : Nat → Prop} : (∀ x ∈ units.zipIdx, P x.2) ↔ ∀ i < units.length, P i := by
  constructor
  · intro h i hi
    exact h (units[i], i) (mem_zipIdx_iff_getElem?.2 (getElem?_eq_getElem hi))
  · rintro h ⟨u, i⟩ hu
    exact h i (List.getElem?_eq_some_iff.1 (mem_zipIdx_iff_getElem?.1 hu)).1

theorem acceptedFrom_eq_nil : acceptedFrom policy ans 0 units = [] ↔ ∀ i < units.length, ¬ GetsThrough policy ans i := by
  rw [acceptedFrom, map_eq_nil_iff, filter_eq_nil_iff]
  exact forall_zipIdx (P := fun i => ¬ GetsThrough policy ans i)

theorem length_acceptedFrom (policy : DeploymentPolicyConfig) (ans : Answers F) (units : List DeploymentUnit) :
    (acceptedFrom policy ans 0 units).length = units.length ↔ ∀ i < units.length, GetsThrough policy ans i := by
  have hlen : units.length = units.zipIdx.length := length_zipIdx.symm
  rw [acceptedFrom, length_map]
  conv_lhs => rw [hlen]
  rw [length_filter_eq_length_iff]
  exact forall_zipIdx (P := GetsThrough policy ans)

end Accepted

/-! ## Failed calls -/

section Failed

variable {fl : FloatOps F} {cls : OClass} {d : OClassDeployment F} {ans : Answers F} {plan : Plan F}

theorem length_units (h : planDeployment fl cls d ans = .ok plan) : plan.units.length = plan.selected.length := by
  simpa using congrArg length (units_ok h)

theorem deployClass_planned (policy : DeploymentPolicyConfig) (w : World F) (h : planDeployment fl cls d ans = .ok plan) :
    deployClass fl policy cls d ans w = finalizeDispatch policy ans plan.units.length d.key
      (acceptedFrom policy ans 0 plan.units,
        (w.storeDeployment plan.effective).acceptAll d.key (acceptedFrom policy ans 0 plan.units)) := by
  rw [deployClass, h]
  dsimp only
  rw [dispatchUnits_eq, (effective_ok h).2.1, length_units h]

variable {policy : DeploymentPolicyConfig}

theorem deployClass_error {e : DeploymentError} (policy : DeploymentPolicyConfig) (w : World F)
    (h : planDeployment fl cls d ans = .error e) : deployClass fl policy cls d ans w = (.error e, w) := by
  rw [deployClass, h]

theorem finalizeDispatch_ok {total : Nat} {key : String} {x : String × String} {more : List (String × String)}
    (w : World F) (h : more.length + 1 = total ∨ policy.rollbackOnPartial = false) :
    finalizeDispatch policy ans total key (x :: more, w) = (.ok x.2, w) := by
  unfold finalizeDispatch
  dsimp only
  rcases h with h | h
  · rw [if_pos h]
  · rw [h, if_neg Bool.false_ne_true, ite_self]

theorem finalizeDispatch_rollback {total : Nat} {key : String} {x : String × String} {more : List (String × String)}
    (w : World F) (hlen : more.length + 1 ≠ total) (hroll : policy.rollbackOnPartial = true) :
    finalizeDispatch policy ans total key (x :: more, w) =
      (.error (.invalid "Deployment rolled back due to partial failure"), rollback ans.deletes (x :: more) key w) := by
  unfold finalizeDispatch
  dsimp only
  rw [if_neg hlen, if_pos hroll]

theorem clustersFail_iff_of_some {n : Nat} (h : ∃ i < n, GetsThrough policy ans i) :
    ClustersFail policy ans n ↔ policy.rollbackOnPartial = true ∧ ¬ ∀ i < n, GetsThrough policy ans i := by
  obtain ⟨i, hi, hget⟩ := h
  unfold ClustersFail
  rw [or_iff_right fun hnone => hnone i hi hget]
  push Not
  rfl

theorem deployClass_failed (policy : DeploymentPolicyConfig) (w : World F) (h : planDeployment fl cls d ans = .ok plan) :
    ((∃ e, (deployClass fl policy cls d ans w).1 = .error e) ↔ ClustersFail policy ans plan.selected.length) ∧
    (ClustersFail policy ans plan.selected.length →
      (deployClass fl policy cls d ans w).2.records.get d.key = some plan.effective ∧
      (deployClass fl policy cls d ans w).2.mappingsOf d.key =
        if ∃ i < plan.selected.length, GetsThrough policy ans i then .empty else w.mappingsOf d.key) := by
  rw [deployClass_planned policy w h, ← length_units h]
  have hrecord : ∀ sent, ((w.storeDeployment plan.effective).acceptAll d.key sent).records.get d.key =
      some plan.effective := by
    intro sent
    rw [World.records_acceptAll, World.records_storeDeployment, if_pos (effective_ok h).1.symm]
  cases hsent : acceptedFrom policy ans 0 plan.units with
  | nil =>
    have hnone := acceptedFrom_eq_nil.1 hsent
    refine ⟨iff_of_true ⟨_, rfl⟩ (.inl hnone), fun _ => ⟨hrecord [], ?_⟩⟩
    rw [if_neg (by rintro ⟨i, hi, hget⟩; exact hnone i hi hget)]
    rfl
  | cons x more =>
    have hsome : ∃ i < plan.units.length, GetsThrough policy ans i := by
      by_contra hnone
      have hnil := acceptedFrom_eq_nil.2 fun i hi hget => hnone ⟨i, hi, hget⟩
      rw [hnil] at hsent
      cases hsent
    have hall := length_acceptedFrom policy ans plan.units
    rw [hsent, length_cons] at hall
    rw [clustersFail_iff_of_some hsome, ← hall, if_pos hsome]
    by_cases hok : more.length + 1 = plan.units.length ∨ policy.rollbackOnPartial = false
    · have hnot : ¬ (policy.rollbackOnPartial = true ∧ ¬ more.length + 1 = plan.units.length) := by
        rintro ⟨htrue, hlen⟩
        rcases hok with hok | hok
        · exact hlen hok
        · rw [htrue] at hok
          cases hok
      rw [finalizeDispatch_ok _ hok]
      exact ⟨iff_of_false (by simp) hnot, fun hfail => absurd hfail hnot⟩
    · obtain ⟨hlen, hroll⟩ := not_or.1 hok
      rw [Bool.not_eq_false] at hroll
      have hback := rollback_eq ans.deletes (x :: more) d.key
        ((w.storeDeployment plan.effective).acceptAll d.key (x :: more))
      rw [finalizeDispatch_rollback _ hlen hroll]
      exact ⟨iff_of_true ⟨_, rfl⟩ ⟨hroll, hlen⟩, fun _ => ⟨by rw [hback.1]; exact hrecord _, hback.2⟩⟩

theorem deployClass_ok_iff (fl : FloatOps F) (policy : DeploymentPolicyConfig) (cls : OClass) (d : OClassDeployment F)
    (ans : Answers F) (w : World F) :
    (∃ id, (deployClass fl policy cls d ans w).1 = .ok id) ↔
      ∃ plan, planDeployment fl cls d ans = .ok plan ∧ ¬ ClustersFail policy ans plan.selected.length := by
  cases hplan : planDeployment fl cls d ans with
  | error e =>
    rw [deployClass_error policy w hplan]
    refine iff_of_false ?_ ?_
    · rintro ⟨id, hid⟩
      cases hid
    · rintro ⟨plan, hplan', _⟩
      cases hplan'
  | ok plan =>
    have hfails := (deployClass_failed policy w hplan).1
    have hplans : (∃ plan', (Except.ok plan : Except DeploymentError (Plan F)) = .ok plan' ∧
        ¬ ClustersFail policy ans plan'.selected.length) ↔ ¬ ClustersFail policy ans plan.selected.length := by simp
    rw [hplans, ← hfails]
    cases (deployClass fl policy cls d ans w).1 with
    | error e | ok id => simp

end Failed

/-- **A failed deployment leaves no trace** if the same record was there, and no mappings where a unit got through. -/
theorem failed_deployment_iff (fl : FloatOps F) (policy : DeploymentPolicyConfig) (cls : OClass) (d : OClassDeployment F)
    (ans : Answers F) (w : World F) :
    (∀ e, (deployClass fl policy cls d ans w).1 = .error e → Unchanged d.key w (deployClass fl policy cls d ans w).2) ↔
      ∀ plan, planDeployment fl cls d ans = .ok plan → ClustersFail policy ans plan.selected.length →
        w.records.get d.key = some plan.effective ∧
          ((∃ i < plan.selected.length, GetsThrough policy ans i) → w.mappingsOf d.key = .empty) := by
  cases hplan : planDeployment fl cls d ans with
  | error e =>
    rw [deployClass_error policy w hplan]
    exact iff_of_true (fun _ _ => ⟨rfl, rfl⟩) fun plan h => by cases h
  | ok plan =>
    obtain ⟨hfails, hafter⟩ := deployClass_failed policy w hplan
    constructor
    · intro h plan' hplan' hclusters
      obtain rfl := Except.ok.inj hplan'
      obtain ⟨e, he⟩ := hfails.2 hclusters
      obtain ⟨hrecord, hmappings⟩ := h e he
      obtain ⟨hrecord', hmappings'⟩ := hafter hclusters
      refine ⟨hrecord.symm.trans hrecord', fun hthrough => ?_⟩
      rw [if_pos hthrough] at hmappings'
      exact hmappings.symm.trans hmappings'
    · intro h e he
      have hclusters := hfails.1 ⟨e, he⟩
      obtain ⟨hrecord, hmappings⟩ := h plan rfl hclusters
      obtain ⟨hrecord', hmappings'⟩ := hafter hclusters
      refine ⟨hrecord'.trans hrecord.symm, hmappings'.trans ?_⟩
      split
      · rename_i hthrough
        exact (hmappings hthrough).symm
      · rfl

/-! ## A cluster that refuses -/

namespace Refused

def flat : FloatOps Unit :=
  ⟨(), (), (), (), fun _ _ => (), fun _ _ => (), fun _ _ => (), fun _ _ => (), fun _ _ => some .eq⟩

def counter : OClass := ⟨"Counter", none, [], .empty⟩

def deployment (envs : List String) : OClassDeployment Unit :=
  ⟨"pkg.Counter", "pkg", "Counter", envs, [], none, .empty, [], none, none, none⟩

def answers (accepts : Nat → Bool) (ids : Nat → String) : Answers Unit :=
  ⟨["edge", "cloud"], fun _ => .ok ⟨some (), none, none⟩, fun _ => .ok ⟨some (), none, none⟩, fun i => .ofNat i, ids, 0,
    fun i _ => accepts i, fun _ => true⟩

def noWorld : World Unit := ⟨.empty, .empty, ∅⟩

/-- The only cluster refuses: an error is returned, and the record is there. -/
theorem refused_deployment_recorded :
    (deployClass flat ⟨2, true⟩ counter (deployment ["edge"]) (answers (fun _ => false) fun _ => "counter-1") noWorld).1 =
        .error (.invalid "Deployment failed in all clusters") ∧
      ¬ Unchanged "pkg.Counter" noWorld
        (deployClass flat ⟨2, true⟩ counter (deployment ["edge"]) (answers (fun _ => false) fun _ => "counter-1")
          noWorld).2 := by
  refine ⟨by decide +kernel, fun h => ?_⟩
  have hrecord := h.1
  revert hrecord
  decide +kernel

end Refused

end Pm
