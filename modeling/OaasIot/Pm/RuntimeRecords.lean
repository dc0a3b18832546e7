import OaasIot.Lib.Program
import OaasIot.Pm.FailedDeployment

/-!
# Do the recorded mappings say what runs?

There is one runtime id per deployment key and cluster. One is lost if a key is deployed again to a cluster, if the
environments name a cluster twice, or if a key is deployed to other clusters and then deleted: `deleteDeployment` goes
through the environments of the **last record**. `History` adds what was ever dispatched.
-/

open Grpc

namespace Pm

open List OrdMap

variable {F : Type}

inductive Call (F : Type)
  | deploy (cls : OClass) (d : OClassDeployment F) (ans : Answers F)
  | delete (key : String) (ans : Answers F)

structure History (F : Type) where
  world : World F
  dispatched : List (String × String × String)

def History.start : History F := ⟨⟨.empty, .empty, ∅⟩, []⟩
def RecordedRuntime (w : World F) (x : String × String) : Prop := ∃ key, (w.mappingsOf key).get x.1 = some x.2

section Step

variable (fl : FloatOps F) (policy : DeploymentPolicyConfig)

def dispatchedBy (cls : OClass) (d : OClassDeployment F) (ans : Answers F) : List (String × String × String) :=
  match planDeployment fl cls d ans with
  | .error _ => []
  | .ok plan => plan.units.map fun u => (d.key, u.targetEnv, u.id)

def History.step (h : History F) : Call F → History F
  | .deploy cls d ans => ⟨(deployClass fl policy cls d ans h.world).2, h.dispatched ++ dispatchedBy fl cls d ans⟩
  | .delete key ans => ⟨(deleteDeployment ans key h.world).2, h.dispatched⟩

def Smooth (h : History F) : Call F → Prop
  | .deploy cls d ans => (∀ i attempt, ans.accepts i attempt = true) ∧
      ((dispatchedBy fl cls d ans).map (·.2.2)).Nodup ∧
      ∀ x ∈ dispatchedBy fl cls d ans, ∀ y ∈ h.dispatched, x.2.2 ≠ y.2.2
  | .delete _ ans => ∀ i, ans.deletes i = true

def Agrees (h : History F) (call : Call F) : Prop :=
  (∀ x, x ∈ (h.step fl policy call).world.runtimes ↔ RecordedRuntime (h.step fl policy call).world x) ∧
  match call with
  | .deploy _ _ _ => True
  | .delete key ans => (deleteDeployment ans key h.world).1 = .ok () →
      ∀ cluster id, (key, cluster, id) ∈ h.dispatched → (cluster, id) ∉ (h.step fl policy call).world.runtimes

/-- **A call that loses no runtime.** A deployment goes to distinct environments, in none of which its key is mapped;
and a key is deleted only if each cluster it is mapped in is an environment of its record. -/
def Careful (h : History F) : Call F → Prop
  | .deploy cls d ans => ∀ plan, planDeployment fl cls d ans = .ok plan →
      plan.selected.Nodup ∧ ∀ env ∈ plan.selected, (h.world.mappingsOf d.key).get env = none
  | .delete key _ => ∀ d, h.world.records.get key = some d →
      ∀ cluster, (h.world.mappingsOf key).get cluster ≠ none → cluster ∈ recordedEnvs d

end Step

structure Tidy (h : History F) : Prop where
  agree : ∀ x, x ∈ h.world.runtimes ↔ RecordedRuntime h.world x
  logged : ∀ key cluster id, (h.world.mappingsOf key).get cluster = some id → (key, cluster, id) ∈ h.dispatched
  unique : ∀ x ∈ h.dispatched, ∀ y ∈ h.dispatched, x.2.2 = y.2.2 → x = y
  mapped : ∀ key d, h.world.records.get key = some d →
    d.key = key ∧ ∀ env ∈ recordedEnvs d, (h.world.mappingsOf key).get env ≠ none

theorem tidy_start : Tidy (History.start : History F) where
  agree x := by simp [History.start, RecordedRuntime, World.mappingsOf]
  logged key cluster id h := by simp [History.start, World.mappingsOf] at h
  unique x hx := by cases hx
  mapped key d h := by simp [History.start] at h

theorem map_zipIdx_fst {α β : Type} (f : α → β) (l : List α) : (l.zipIdx.map fun x => f x.1) = l.map f := by
  have h := congrArg (map f) (zipIdx_map_fst 0 l)
  rwa [map_map] at h

/-! ## Deploying -/

section Deploy

variable {fl : FloatOps F} {policy : DeploymentPolicyConfig} {cls : OClass} {d : OClassDeployment F} {ans : Answers F}
  {plan : Plan F} {h : History F}

theorem dispatchedBy_ok (hplan : planDeployment fl cls d ans = .ok plan) :
    dispatchedBy fl cls d ans = plan.units.map fun u => (d.key, u.targetEnv, u.id) := by
  rw [dispatchedBy, hplan]

def sentUnits (plan : Plan F) : List (String × String) := plan.units.map fun u => (u.targetEnv, u.id)

theorem accepted_of_accepts {accepts : Nat → Bool} (h : ∀ attempt, accepts attempt = true) (retries attempt : Nat) :
    accepted accepts retries attempt = true := by
  cases retries with
  | zero => exact h attempt
  | succ retries => simp [accepted, h attempt]

theorem deploy_smooth (hplan : planDeployment fl cls d ans = .ok plan)
    (haccepts : ∀ i attempt, ans.accepts i attempt = true) (w : World F) : (deployClass fl policy cls d ans w).2 =
      (w.storeDeployment plan.effective).acceptAll d.key (sentUnits plan) := by
  have hsent : acceptedFrom policy ans 0 plan.units = sentUnits plan := by
    have hall : (plan.units.zipIdx.filter fun x => accepted (ans.accepts x.2) policy.maxRetries 1) = plan.units.zipIdx :=
      filter_eq_self.2 fun x _ => accepted_of_accepts (haccepts x.2) _ _
    rw [acceptedFrom, hall]
    exact map_zipIdx_fst (fun u : DeploymentUnit => (u.targetEnv, u.id)) plan.units
  rw [deployClass_planned policy w hplan, hsent]
  cases hunits : sentUnits plan with
  | nil => rfl
  | cons x more =>
    have hlen : more.length + 1 = plan.units.length := by
      have := congrArg length hunits
      rw [sentUnits, length_map] at this
      exact this.symm
    rw [finalizeDispatch_ok _ (.inl hlen)]

structure Sent (key : String) (plan : Plan F) (h h' : History F) : Prop where
  mappings : ∀ k, h'.world.mappingsOf k =
    if k = key then (h.world.mappingsOf key).insertMany (sentUnits plan) else h.world.mappingsOf k
  runtimes : ∀ x, x ∈ h'.world.runtimes ↔ x ∈ h.world.runtimes ∨ x ∈ sentUnits plan
  records : ∀ k, h'.world.records.get k = if k = key then some plan.effective else h.world.records.get k
  dispatched : h'.dispatched = h.dispatched ++ (sentUnits plan).map fun x => (key, x.1, x.2)
  envs : (sentUnits plan).map Prod.fst = plan.selected
  ids : ((sentUnits plan).map Prod.snd).Nodup
  fresh : ∀ x ∈ sentUnits plan, ∀ y ∈ h.dispatched, x.2 ≠ y.2.2

theorem sent_of_smooth (policy : DeploymentPolicyConfig) (hplan : planDeployment fl cls d ans = .ok plan)
    (hsmooth : Smooth fl h (.deploy cls d ans)) :
    Sent d.key plan h (h.step fl policy (.deploy cls d ans)) := by
  obtain ⟨haccepts, hids, hfresh⟩ := hsmooth
  have hworld : (h.step fl policy (.deploy cls d ans)).world =
      (h.world.storeDeployment plan.effective).acceptAll d.key (sentUnits plan) := deploy_smooth hplan haccepts h.world
  have hby : dispatchedBy fl cls d ans = (sentUnits plan).map fun x => (d.key, x.1, x.2) := by
    rw [dispatchedBy_ok hplan, sentUnits, map_map]
    rfl
  rw [hby] at hids hfresh
  refine ⟨fun k => ?_, fun x => ?_, fun k => ?_, ?_, ?_, ?_, fun x hx y hy => ?_⟩
  · rw [hworld, World.mappingsOf_acceptAll]
    rfl
  · rw [hworld, World.mem_runtimes_acceptAll]
    rfl
  · rw [hworld, World.records_acceptAll, World.records_storeDeployment, (effective_ok hplan).1]
  · rw [← hby]
    rfl
  · rw [sentUnits, units_ok hplan, map_map]
    exact zipIdx_map_fst 0 _
  · rwa [map_map] at hids
  · exact hfresh _ (mem_map_of_mem hx) y hy

namespace Sent

variable {key : String} {h' : History F}

variable (hs : Sent key plan h h')
include hs

theorem get_of_recorded (ht : Tidy h) {x : String × String} (hx : x ∈ sentUnits plan)
    (hrec : RecordedRuntime h'.world x) : ((h.world.mappingsOf key).insertMany (sentUnits plan)).get x.1 = some x.2 := by
  obtain ⟨k, hk⟩ := hrec
  rw [hs.mappings] at hk
  split at hk
  · exact hk
  · exact absurd rfl (hs.fresh x hx _ (ht.logged k x.1 x.2 hk))

theorem careful_of_agree (ht : Tidy h) (hagree : ∀ x, x ∈ h'.world.runtimes ↔ RecordedRuntime h'.world x) :
    plan.selected.Nodup ∧ ∀ env ∈ plan.selected, (h.world.mappingsOf key).get env = none := by
  have hget : ∀ x ∈ sentUnits plan, ((h.world.mappingsOf key).insertMany (sentUnits plan)).get x.1 = some x.2 :=
    fun x hx => hs.get_of_recorded ht hx ((hagree x).1 ((hs.runtimes x).2 (.inr hx)))
  rw [← hs.envs]
  constructor
  · refine List.Nodup.map_on (fun x hx y hy he => ?_) (List.Nodup.of_map _ hs.ids)
    have hid : some x.2 = some y.2 := by rw [← hget x hx, ← hget y hy, he]
    exact Prod.ext he (Option.some.inj hid)
  · intro env henv
    obtain ⟨x, hx, rfl⟩ := mem_map.1 henv
    cases hold : (h.world.mappingsOf key).get x.1 with
    | none => rfl
    | some id =>
      -- the old runtime still runs, so it is recorded, but under no key
      have hlogged := ht.logged key x.1 id hold
      obtain ⟨k, hk⟩ := (hagree (x.1, id)).1 ((hs.runtimes _).2 (.inl ((ht.agree _).2 ⟨key, hold⟩)))
      rw [hs.mappings] at hk
      split at hk
      · have hid : some id = some x.2 := by rw [← hget x hx]; exact hk.symm
        exact absurd (Option.some.inj hid).symm (hs.fresh x hx _ hlogged)
      · rename_i hne
        have := ht.unique _ (ht.logged k x.1 id hk) _ hlogged rfl
        exact absurd (congrArg Prod.fst this) hne

theorem agree_of_careful (ht : Tidy h) (hnodup : plan.selected.Nodup)
    (hnew : ∀ env ∈ plan.selected, (h.world.mappingsOf key).get env = none) (x : String × String) :
    x ∈ h'.world.runtimes ↔ RecordedRuntime h'.world x := by
  rw [← hs.envs] at hnodup hnew
  rw [hs.runtimes, ht.agree]
  constructor
  · rintro (⟨k, hk⟩ | hx)
    · refine ⟨k, ?_⟩
      rw [hs.mappings]
      split
      · rename_i hkey
        rw [hkey] at hk
        rw [get_insertMany_of_notMem _ fun hmem => by rw [hnew _ hmem] at hk; cases hk]
        exact hk
      · exact hk
    · refine ⟨key, ?_⟩
      rw [hs.mappings, if_pos rfl]
      exact get_insertMany_of_mem _ hnodup hx
  · rintro ⟨k, hk⟩
    rw [hs.mappings] at hk
    split at hk
    · rcases get_insertMany_eq_some _ hk with hx | hold
      · exact .inr hx
      · exact .inl ⟨key, hold⟩
    · exact .inl ⟨k, hk⟩

theorem tidy (ht : Tidy h) (hkey : plan.effective.key = key)
    (hrecorded : recordedEnvs plan.effective = plan.selected) (hnodup : plan.selected.Nodup)
    (hnew : ∀ env ∈ plan.selected, (h.world.mappingsOf key).get env = none) : Tidy h' where
  agree := hs.agree_of_careful ht hnodup hnew
  logged k cluster id hk := by
    rw [hs.dispatched, mem_append]
    rw [hs.mappings] at hk
    split at hk
    · rename_i hkk
      rcases get_insertMany_eq_some _ hk with hx | hold
      · exact .inr (mem_map.2 ⟨(cluster, id), hx, by rw [hkk]⟩)
      · exact .inl (hkk ▸ ht.logged key cluster id hold)
    · exact .inl (ht.logged k cluster id hk)
  unique := by
    have hnewer : ∀ x ∈ sentUnits plan, ∀ y ∈ sentUnits plan, x.2 = y.2 → x = y := fun x hx y hy =>
      inj_on_of_nodup_map hs.ids hx hy
    intro x hx y hy hid
    rw [hs.dispatched, mem_append] at hx hy
    rcases hx with hx | hx <;> rcases hy with hy | hy
    · exact ht.unique x hx y hy hid
    · obtain ⟨y', hy', rfl⟩ := mem_map.1 hy
      exact absurd hid.symm (hs.fresh y' hy' x hx)
    · obtain ⟨x', hx', rfl⟩ := mem_map.1 hx
      exact absurd hid (hs.fresh x' hx' y hy)
    · obtain ⟨x', hx', rfl⟩ := mem_map.1 hx
      obtain ⟨y', hy', rfl⟩ := mem_map.1 hy
      rw [hnewer x' hx' y' hy' hid]
  mapped k r hr := by
    rw [hs.records] at hr
    rw [hs.mappings]
    split at hr
    · rename_i hkk
      obtain rfl := Option.some.inj hr
      refine ⟨hkey.trans hkk.symm, fun env henv hnone => ?_⟩
      rw [if_pos hkk] at hnone
      rw [hrecorded, ← hs.envs] at henv
      exact (get_insertMany_eq_none.1 hnone).1 henv
    · rename_i hkk
      rw [if_neg hkk]
      exact ht.mapped k r hr

end Sent

theorem agrees_deploy_iff (ht : Tidy h) (hsmooth : Smooth fl h (.deploy cls d ans)) :
    (Agrees fl policy h (.deploy cls d ans) ↔ Careful fl h (.deploy cls d ans)) ∧
      (Careful fl h (.deploy cls d ans) → Tidy (h.step fl policy (.deploy cls d ans))) := by
  cases hplan : planDeployment fl cls d ans with
  | error e =>
    have hsame : h.step fl policy (.deploy cls d ans) = h := by
      simp [History.step, deployClass, dispatchedBy, hplan]
    rw [Agrees, hsame]
    refine ⟨iff_of_true ⟨ht.agree, trivial⟩ fun plan hp => ?_, fun _ => ht⟩
    rw [hplan] at hp
    cases hp
  | ok plan =>
    have hs := sent_of_smooth policy hplan hsmooth
    have hcareful : Careful fl h (.deploy cls d ans) ↔
        plan.selected.Nodup ∧ ∀ env ∈ plan.selected, (h.world.mappingsOf d.key).get env = none := by
      simp only [Careful, hplan, Except.ok.injEq, forall_eq']
    rw [hcareful, Agrees]
    refine ⟨⟨fun hag => hs.careful_of_agree ht hag.1, fun hc => ⟨hs.agree_of_careful ht hc.1 hc.2, trivial⟩⟩, fun hc => ?_⟩
    exact hs.tidy ht (effective_ok hplan).1 (effective_ok hplan).2.2 hc.1 hc.2

end Deploy

/-! ## Deleting -/

section Delete

variable {fl : FloatOps F} {policy : DeploymentPolicyConfig} {key : String} {ans : Answers F} {d : OClassDeployment F}
  {h h' : History F}

structure Deleted (key : String) (d : OClassDeployment F) (h h' : History F) : Prop where
  mappings : ∀ k, h'.world.mappingsOf k = if k = key then .empty else h.world.mappingsOf k
  runtimes : ∀ x, x ∈ h'.world.runtimes ↔
    x ∈ h.world.runtimes ∧ ¬ (x.1 ∈ recordedEnvs d ∧ (h.world.mappingsOf key).get x.1 = some x.2)
  records : ∀ k, h'.world.records.get k = if k = key then none else h.world.records.get k
  dispatched : h'.dispatched = h.dispatched

theorem mem_deletedRuntimes {envs : List String} {ids : OrdMap String String} (hmapped : ∀ env ∈ envs, ids.get env ≠ none)
    (x : String × String) :
    x ∈ envs.map (fun env => (env, (ids.get env).getD key)) ↔ x.1 ∈ envs ∧ ids.get x.1 = some x.2 := by
  rw [mem_map]
  constructor
  · rintro ⟨env, henv, rfl⟩
    obtain ⟨id, hid⟩ := Option.ne_none_iff_exists'.1 (hmapped env henv)
    exact ⟨henv, by rw [hid]; rfl⟩
  · rintro ⟨henv, hid⟩
    exact ⟨x.1, henv, by rw [hid]; rfl⟩

theorem deleted_of_smooth (fl : FloatOps F) (policy : DeploymentPolicyConfig) (ht : Tidy h)
    (hd : h.world.records.get key = some d) (hdeletes : ∀ i, ans.deletes i = true) :
    Deleted key d h (h.step fl policy (.delete key ans)) := by
  obtain ⟨hkey, hmapped⟩ := ht.mapped key d hd
  have hworld : (h.step fl policy (.delete key ans)).world =
      (⟨h.world.records.erase key, h.world.mappings,
        h.world.runtimes \ ((recordedEnvs d).map fun env =>
          (env, ((h.world.mappingsOf key).get env).getD key)).toFinset⟩ : World F).removeClusterMappings key := by
    have hall : ((recordedEnvs d).zipIdx.filter fun x => ans.deletes x.2) = (recordedEnvs d).zipIdx :=
      filter_eq_self.2 fun x _ => hdeletes x.2
    have hfold := World.foldl_deleteRuntime ans.deletes
      (fun env => (env, ((h.world.mappingsOf key).get env).getD key)) (recordedEnvs d).zipIdx h.world
    rw [hall, map_zipIdx_fst fun env => (env, ((h.world.mappingsOf key).get env).getD key)] at hfold
    simp only [History.step, deleteDeployment, hd, hkey]
    rw [hfold]
  refine ⟨fun k => ?_, fun x => ?_, fun k => ?_, rfl⟩
  · rw [hworld, World.mappingsOf_removeClusterMappings]
    rfl
  · rw [hworld, ← mem_deletedRuntimes hmapped]
    exact Finset.mem_sdiff.trans (and_congr_right' (not_congr mem_toFinset))
  · rw [hworld]
    exact get_erase _ _ _

namespace Deleted

variable (hs : Deleted key d h h')
include hs

theorem mapping_ne {k cluster id : String} (hk : (h'.world.mappingsOf k).get cluster = some id) :
    k ≠ key ∧ (h.world.mappingsOf k).get cluster = some id := by
  rw [hs.mappings] at hk
  split at hk
  · cases hk
  · rename_i hne
    exact ⟨hne, hk⟩

theorem not_recorded (ht : Tidy h) {x : String × String} (hx : (key, x.1, x.2) ∈ h.dispatched) :
    ¬ RecordedRuntime h'.world x := by
  rintro ⟨k, hk⟩
  obtain ⟨hne, hold⟩ := hs.mapping_ne hk
  have hsame := ht.unique _ (ht.logged k x.1 x.2 hold) _ hx rfl
  exact hne (congrArg Prod.fst hsame)

theorem careful_of_agree (ht : Tidy h)
    (hagree : ∀ x, x ∈ h'.world.runtimes ↔ RecordedRuntime h'.world x) {cluster : String}
    (hcluster : (h.world.mappingsOf key).get cluster ≠ none) : cluster ∈ recordedEnvs d := by
  obtain ⟨id, hid⟩ := Option.ne_none_iff_exists'.1 hcluster
  by_contra hnot
  -- the runtime is not deleted, and its mapping is
  have hruns := (hs.runtimes (cluster, id)).2 ⟨(ht.agree _).2 ⟨key, hid⟩, fun hmem => hnot hmem.1⟩
  exact hs.not_recorded ht (ht.logged key cluster id hid) ((hagree _).1 hruns)

theorem agree_of_careful (ht : Tidy h)
    (hcareful : ∀ cluster, (h.world.mappingsOf key).get cluster ≠ none → cluster ∈ recordedEnvs d) (x : String × String) :
    x ∈ h'.world.runtimes ↔ RecordedRuntime h'.world x := by
  rw [hs.runtimes, ht.agree]
  constructor
  · rintro ⟨⟨k, hk⟩, hkept⟩
    refine ⟨k, ?_⟩
    rw [hs.mappings]
    split
    · rename_i hkk
      rw [hkk] at hk
      exact absurd ⟨hcareful _ (Option.ne_none_iff_exists'.2 ⟨_, hk⟩), hk⟩ hkept
    · exact hk
  · intro hrec
    refine ⟨hrec.imp fun k hk => (hs.mapping_ne hk).2, fun hmem => ?_⟩
    exact hs.not_recorded ht (ht.logged key x.1 x.2 hmem.2) hrec

theorem tidy (ht : Tidy h)
    (hcareful : ∀ cluster, (h.world.mappingsOf key).get cluster ≠ none → cluster ∈ recordedEnvs d) : Tidy h' where
  agree := hs.agree_of_careful ht hcareful
  logged k cluster id hk := by
    rw [hs.dispatched]
    exact ht.logged k cluster id (hs.mapping_ne hk).2
  unique := by
    rw [hs.dispatched]
    exact ht.unique
  mapped k r hr := by
    rw [hs.records] at hr
    split at hr
    · cases hr
    · rename_i hne
      rw [hs.mappings, if_neg hne]
      exact ht.mapped k r hr

end Deleted

theorem agrees_delete_iff (ht : Tidy h) (hsmooth : Smooth fl h (.delete key ans)) :
    (Agrees fl policy h (.delete key ans) ↔ Careful fl h (.delete key ans)) ∧
      (Careful fl h (.delete key ans) → Tidy (h.step fl policy (.delete key ans))) := by
  cases hd : h.world.records.get key with
  | none =>
    have hsame : h.step fl policy (.delete key ans) = h := by simp [History.step, deleteDeployment, hd]
    have hresult : (deleteDeployment ans key h.world).1 = .error (.notFound key) := by simp [deleteDeployment, hd]
    rw [Agrees, hsame]
    refine ⟨iff_of_true ⟨ht.agree, fun hok => ?_⟩ fun d hd' => ?_, fun _ => ht⟩
    · rw [hresult] at hok
      cases hok
    · rw [hd] at hd'
      cases hd'
  | some d =>
    have hs := deleted_of_smooth fl policy ht hd hsmooth
    have hcareful : Careful fl h (.delete key ans) ↔
        ∀ cluster, (h.world.mappingsOf key).get cluster ≠ none → cluster ∈ recordedEnvs d := by
      simp only [Careful, hd, Option.some.injEq, forall_eq']
    rw [hcareful]
    refine ⟨⟨fun hag cluster => hs.careful_of_agree ht hag.1, fun hc => ⟨hs.agree_of_careful ht hc, ?_⟩⟩, hs.tidy ht⟩
    intro _ cluster id hmem hruns
    exact hs.not_recorded ht hmem ((hs.agree_of_careful ht hc (cluster, id)).1 hruns)

end Delete

/-! ## Whole runs -/

/-- **Runtimes and records** agree along a run if every call is careful. -/
theorem runtimes_agree_iff (fl : FloatOps F) (policy : DeploymentPolicyConfig) (calls : List (Call F))
    (hsmooth : AlongRun (History.step fl policy) (Smooth fl) .start calls) :
    AlongRun (History.step fl policy) (Agrees fl policy) .start calls ↔
      AlongRun (History.step fl policy) (Careful fl) .start calls := by
  refine alongRun_iff Tidy (fun h call ht hcall => ?_) tidy_start hsmooth
  cases call with
  | deploy cls d ans => exact agrees_deploy_iff ht hcall
  | delete key ans => exact agrees_delete_iff ht hcall

namespace Redeployed

open Refused

def deploy (id : String) : Call Unit := .deploy counter (deployment ["edge"]) (answers (fun _ => true) fun _ => id)
def delete : Call Unit := .delete "pkg.Counter" (answers (fun _ => true) fun _ => "")

theorem runtimes_agree_once :
    AlongRun (History.step flat ⟨2, true⟩) (Agrees flat ⟨2, true⟩) .start [deploy "counter-1", delete] := by
  have hsmooth : AlongRun (History.step flat ⟨2, true⟩) (Smooth flat) .start [deploy "counter-1", delete] :=
    ⟨⟨fun _ _ => rfl, by decide +kernel, fun _ _ _ hy => by cases hy⟩, fun _ => rfl, trivial⟩
  refine (runtimes_agree_iff flat ⟨2, true⟩ _ hsmooth).2 ⟨fun plan hplan => ?_, fun d hd cluster hcluster => ?_, trivial⟩
  · have hselected : (planDeployment flat counter (deployment ["edge"]) (answers (fun _ => true) fun _ => "counter-1")).map
        Plan.selected = .ok ["edge"] := by decide +kernel
    rw [hplan] at hselected
    rw [Except.ok.inj hselected]
    exact ⟨by decide, fun _ _ => rfl⟩
  · have hmapped : (History.start.step flat ⟨2, true⟩ (deploy "counter-1")).world.mappingsOf "pkg.Counter" =
        empty.insert "edge" "counter-1" := by decide +kernel
    have hrecord : ((History.start.step flat ⟨2, true⟩ (deploy "counter-1")).world.records.get "pkg.Counter").map
        recordedEnvs = some ["edge"] := by decide +kernel
    rw [hd] at hrecord
    rw [hmapped, get_insert] at hcluster
    rw [Option.some.inj hrecord]
    split at hcluster
    · rename_i hedge
      rw [← hedge]
      decide
    · exact absurd rfl hcluster

/-- Deployed twice to one cluster and deleted: the first runtime is never deleted. -/
theorem first_runtime_lost :
    AlongRun (History.step flat ⟨2, true⟩) (Smooth flat) .start [deploy "counter-1", deploy "counter-2", delete] ∧
      ¬ AlongRun (History.step flat ⟨2, true⟩) (Agrees flat ⟨2, true⟩) .start
        [deploy "counter-1", deploy "counter-2", delete] ∧
      ("edge", "counter-1") ∈ ([deploy "counter-1", deploy "counter-2", delete].foldl (History.step flat ⟨2, true⟩)
        .start).world.runtimes := by
  refine ⟨⟨⟨fun _ _ => rfl, by decide +kernel, fun _ _ _ hy => by cases hy⟩,
    ⟨fun _ _ => rfl, by decide +kernel, by decide +kernel⟩, fun _ => rfl, trivial⟩, fun hagree => ?_, by decide +kernel⟩
  obtain ⟨-, ⟨hsecond, -⟩, -⟩ := hagree
  have hmappings : ((History.start.step flat ⟨2, true⟩ (deploy "counter-1")).step flat ⟨2, true⟩
      (deploy "counter-2")).world.mappings = empty.insert "pkg.Counter" (empty.insert "edge" "counter-2") := by
    decide +kernel
  obtain ⟨key, hkey⟩ := (hsecond ("edge", "counter-1")).1 (by decide +kernel)
  rw [World.mappingsOf, hmappings, get_insert] at hkey
  split at hkey
  · revert hkey
    decide +kernel
  · cases hkey

end Redeployed

end Pm
