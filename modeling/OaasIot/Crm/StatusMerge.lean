import OaasIot.Crm.Generations

/-!
# Merging a status twice (`controller/status_reducer.rs`)

Conditions are matched by type and functions by key, each with the **first** that has it. So a second merge of the same
status changes nothing where it has one condition of a type and one function of a key; a second function of a key would
take over what the first one reports.
-/

namespace Crm

open List

variable {J : Type}

def withoutTimes (s : ClassRuntimeStatus J) : ClassRuntimeStatus J :=
  { s with lastUpdated := none, conditions := s.conditions.map (·.map (·.withoutTime)) }

structure Preserves (c d merged : ClassRuntimeStatus J) : Prop where
  nfrRecommendations : d.nfrRecommendations = none → merged.nfrRecommendations = c.nfrRecommendations
  lastApplied : d.lastAppliedRecommendations = none → merged.lastAppliedRecommendations = c.lastAppliedRecommendations
  lastAppliedAt : d.lastAppliedAt = none → merged.lastAppliedAt = c.lastAppliedAt
  routers : d.routers = none → merged.routers = c.routers
  resourceRefs : d.resourceRefs = none → merged.resourceRefs = c.resourceRefs
  conditions : ∀ x ∈ storedConditions (some c), ∃ y ∈ storedConditions (some merged), y.type = x.type

/-! ## Conditions -/

theorem mem_types_upsertAll {cs : List Condition} {t : ConditionType} (h : t ∈ cs.map (·.type)) (ds : List Condition) :
    t ∈ (Keyed.upsertAll Condition.type cs ds).map (·.type) := by
  induction ds generalizing cs with
  | nil => exact h
  | cons d ds ih =>
    refine ih ?_
    rw [Keyed.keys_upsert]
    split
    · exact h
    · exact mem_append_left _ h

theorem find?_sorted (cs : List Condition) (t : ConditionType) :
    (cs.insertionSort fun a b => condRank a.type ≤ condRank b.type).find? (·.type = t) = cs.find? (·.type = t) := by
  have hsub : cs.filter (·.type = t) <+ cs.insertionSort fun a b => condRank a.type ≤ condRank b.type := by
    refine sublist_insertionSort (pairwise_of_forall_mem_list fun a ha b hb => ?_) filter_sublist
    simp only [mem_filter, decide_eq_true_eq] at ha hb
    rw [ha.2, hb.2]
  have hlen : (cs.filter (·.type = t)).length =
      ((cs.insertionSort fun a b => condRank a.type ≤ condRank b.type).filter (·.type = t)).length :=
    ((perm_insertionSort _ cs).filter _).length_eq.symm
  have hfilter := hsub.filter (·.type = t)
  rw [filter_filter] at hfilter
  simp only [Bool.and_self] at hfilter
  rw [← head?_filter, ← head?_filter, hfilter.eq_of_length hlen]

theorem upsertConditions_again {ε : Type} {proj : Condition → ε} {type' : ε → ConditionType}
    (htype : ∀ c, type' (proj c) = c.type) {ds ds' : List Condition} (hnd : (ds.map (·.type)).Nodup)
    (hsame : ds'.map proj = ds.map proj) (cs : List Condition) :
    (upsertConditions (upsertConditions cs ds) ds').map proj = (upsertConditions cs ds).map proj := by
  refine map_upsertConditions htype (pairwise_insertionSort _ _) fun c' hc' => ?_
  obtain ⟨c, hc, hproj⟩ := mem_map.1 (hsame ▸ mem_map_of_mem hc')
  have hfind : (upsertConditions cs ds).find? (·.type = c.type) = some c :=
    (find?_sorted _ _).trans (Keyed.find?_upsertAll_self hnd hc)
  rw [← hproj, ← htype c', ← hproj, htype, find?_map, Function.comp_def]
  simp only [htype, hfind, Option.map_some]

/-! ## Functions -/

theorem mergeFunction_again (d c : FunctionStatus) : mergeFunction d (mergeFunction d c) = mergeFunction d c := by
  simp [mergeFunction, ← Option.or_assoc]

theorem mergeFunctions_again {ds : Option (List FunctionStatus)} (hnd : ((ds.getD []).map (·.functionKey)).Nodup)
    (cs : Option (List FunctionStatus)) : mergeFunctions (mergeFunctions cs ds) ds = mergeFunctions cs ds := by
  have hlist : ∀ (ds : List FunctionStatus) (g : FunctionStatus → FunctionStatus),
      (ds.map (·.functionKey)).Nodup → (∀ d, (g d).functionKey = d.functionKey) → (∀ d, mergeFunction d (g d) = g d) →
      mergeFunctions (some (ds.map g)) (some ds) = some (ds.map g) := by
    intro ds g hnd hkey hg
    simp only [mergeFunctions, Option.some.injEq]
    refine map_congr_left fun d hd => ?_
    have hfind : (ds.map g).find? (·.functionKey = d.functionKey) = some (g d) :=
      Keyed.find?_map_of_nodup hkey hnd (mem_map_of_mem hd)
    simp only [Bool.beq_eq_decide_eq, hfind, hg]
  cases ds with
  | none => cases cs <;> rfl
  | some ds =>
    cases cs with
    | none => simpa [mergeFunctions] using hlist ds id hnd (fun _ => rfl) fun d => by simp [mergeFunction]
    | some cs =>
      refine hlist ds _ hnd (fun d => ?_) fun d => ?_ <;> split
      · rfl
      · rfl
      · exact mergeFunction_again _ _
      · simp [mergeFunction]

/-! ## The status -/

theorem mergeStatus_preserves (c d : ClassRuntimeStatus J) : Preserves c d (mergeStatus (some c) d) := by
  refine ⟨?_, ?_, ?_, ?_, ?_, fun x hx => ?_⟩
  case refine_6 =>
    obtain ⟨y, hy, ht⟩ := mem_map.1 (mem_types_upsertAll (mem_map_of_mem hx) (d.conditions.getD []))
    exact ⟨y, mem_upsertConditions.2 hy, ht⟩
  all_goals
    intro h
    simp [mergeStatus, h]

theorem normalizeStatus_again {c d d' : ClassRuntimeStatus J} (htimes : withoutTimes d' = withoutTimes d)
    (hconds : ((d.conditions.getD []).map (·.type)).Nodup) (hkeys : ((d.functions.getD []).map (·.functionKey)).Nodup) :
    normalizeStatus (mergeStatus (some (mergeStatus (some c) d)) d') = normalizeStatus (mergeStatus (some c) d) := by
  simp only [withoutTimes, ClassRuntimeStatus.mk.injEq] at htimes
  obtain ⟨hphase, hmessage, -, -, hcs, hrefs, hnfr, happlied, hat, hrouters, hfuns⟩ := htimes
  have hcs' : (d'.conditions.getD []).map (·.withoutTime) = (d.conditions.getD []).map (·.withoutTime) := by
    have := congrArg (·.getD []) hcs
    cases h : d.conditions <;> cases h' : d'.conditions <;> simp_all
  have htype : ∀ x : Condition, x.withoutTime.type = x.type := fun _ => rfl
  have hagain := upsertConditions_again htype hconds hcs'
  simp only [mergeStatus, normalizeStatus, hphase, hmessage, hrefs, hnfr, happlied, hat, hrouters, hfuns,
    ← Option.or_assoc, Option.or_self, mergeFunctions_again hkeys, Option.getD_some, Option.map_some, hagain]

theorem merge_settles [DecidableEq J] (c d : ClassRuntimeStatus J) (hconds : ((d.conditions.getD []).map (·.type)).Nodup)
    (hkeys : ((d.functions.getD []).map (·.functionKey)).Nodup) :
    mergeStatus (some (mergeStatus (some c) d)) d = mergeStatus (some c) d ∧
      Preserves c d (mergeStatus (some c) d) ∧
      ∀ d', withoutTimes d' = withoutTimes d →
        shouldPatchStatus (some (mergeStatus (some c) d)) (mergeStatus (some (mergeStatus (some c) d)) d') = false := by
  refine ⟨?_, mergeStatus_preserves c d, fun d' htimes => ?_⟩
  · have htype : ∀ x : Condition, (id x).type = x.type := fun _ => rfl
    have hagain := upsertConditions_again htype hconds rfl (c.conditions.getD [])
    simp only [map_id] at hagain
    simp only [mergeStatus, ← Option.or_assoc, Option.or_self, mergeFunctions_again hkeys, Option.getD_some, hagain]
  · simp [shouldPatchStatus, normalizeStatus_again htimes hconds hkeys]

def sameKey (readies : List (Option Bool)) : ClassRuntimeStatus Unit :=
  ⟨none, none, none, none, none, none, none, none, none, none,
    some (readies.map fun r => ⟨"f", "svc", 80, "http://svc/", none, "dev", r, none, none, none⟩)⟩

theorem merge_settles_one_function :
    mergeStatus (some (mergeStatus (some (sameKey [none])) (sameKey [some true]))) (sameKey [some true]) =
      mergeStatus (some (sameKey [none])) (sameKey [some true]) :=
  (merge_settles (sameKey [none]) (sameKey [some true]) (by decide) (by decide)).1

/-- The second function of a key takes over the readiness of the first, one merge later. -/
theorem second_function_unsettled :
    (((sameKey [some true, none]).conditions.getD []).map (·.type)).Nodup ∧
      mergeStatus (some (mergeStatus (some (sameKey [])) (sameKey [some true, none]))) (sameKey [some true, none]) ≠
        mergeStatus (some (sameKey [])) (sameKey [some true, none]) := by
  decide

end Crm
