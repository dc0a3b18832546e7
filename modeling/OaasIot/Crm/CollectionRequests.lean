import OaasIot.Crm.ClassRuntime

/-!
# Requests for the collections of a runtime (`oprc-crm/src/collections.rs`, `templates/odgm.rs`)

The runtime hands its collections to the data grid as a list of `CreateCollectionRequest`s. The plan of a collection
goes along only if it **passes the checks** of `validate_assignments`.
-/

open Grpc

namespace Crm

open List

/-! ## URLs -/

def trimEndSlash (cs : List Char) : List Char := cs.rdropWhile (· == '/')

def stripPort80 (cs : List Char) : List Char :=
  if ":80".toList.isSuffixOf cs then cs.take (cs.length - 3) else cs

/-- A short in-cluster URL gets its fully qualified form; one with a dot is left alone. -/
def normalizeUrl (ns url : String) : String :=
  if "http://".toList.isPrefixOf url.toList then
    let stripped := url.toList.drop 7
    if stripped.contains '.' then url
    else
      let svc := if stripped.contains '/' then stripped.takeWhile (· ≠ '/') else trimEndSlash stripped
      let rest := if stripped.contains '/' then stripped.dropWhile (· ≠ '/') else ['/']
      let core := stripPort80 (trimEndSlash svc)
      let norm := "http://".toList ++ core ++ ['.'] ++ ns.toList ++ ".svc.cluster.local".toList ++ rest
      String.ofList (if norm.getLast? = some '/' then norm else norm ++ ['/'])
  else url

def routeToProto (ns : String) (_ : String) (r : FunctionRoute) : FuncInvokeRoute :=
  { url := normalizeUrl ns r.url, stateless := r.stateless.getD true, standby := r.standby.getD false
    activeGroup := r.activeGroup, wasmModuleUrl := r.wasmModuleUrl, wasmFuel := r.wasmFuel }

/-! ## Plans -/

def insertFresh : List UInt64 → List UInt64 → Option (List UInt64)
  | seen, [] => some seen
  | seen, id :: ids => if id ∈ seen then none else insertFresh (id :: seen) ids

def validateEach (replicas : Nat) : List UInt64 → List ShardAssignment → Bool
  | _, [] => true
  | seen, a :: as =>
    a.replica.length == replicas && a.shardIds.length == replicas && a.primary.all (· ∈ a.shardIds) &&
      match insertFresh seen a.shardIds with
      | none => false
      | some seen' => validateEach replicas seen' as

def validateAssignments (list : List ShardAssignment) (partitionCount replicaCount : Int32) : Bool :=
  if partitionCount ≤ 0 ∨ replicaCount ≤ 0 then false
  else if list.length ≠ partitionCount.toNatClampNeg then false
  else validateEach replicaCount.toNatClampNeg [] list

/-! ## Requests -/

def buildCollectionRequest (name ns : String) (partitionCount replicaCount : Int32) (shardType : String)
    (invocations : Option InvocationsSpec) (options : Option (OrdMap String String))
    (assignments : Option (List ShardAssignment)) : CreateCollectionRequest :=
  { name, partitionCount, replicaCount, shardType
    options := options.getD .empty
    invocations := invocations.map fun inv => ⟨inv.fnRoutes.mapWithKey (routeToProto ns), inv.disabledFn⟩
    shardAssignments := (assignments.filter fun list => validateAssignments list partitionCount replicaCount).getD [] }

def collectionNames (spec : ClassRuntimeSpec) : Option (List String) :=
  (spec.odgmConfig.bind (·.collections)).filter (!·.isEmpty)

def buildRequests (spec : ClassRuntimeSpec) (ns : String) (names : List String)
    (mergedInvocations : Option InvocationsSpec) : List CreateCollectionRequest :=
  let partitionCount := (spec.odgmConfig.bind (·.partitionCount)).getD 1
  let replicaCount := (spec.odgmConfig.bind (·.replicaCount)).getD 1
  let shardType := (spec.odgmConfig.bind (·.shardType)).getD "none"
  let invocations := mergedInvocations.or (spec.odgmConfig.bind (·.invocations))
  let options := spec.odgmConfig.bind (·.options)
  names.map fun n =>
    buildCollectionRequest n ns partitionCount replicaCount shardType invocations options
      (spec.odgmConfig.bind fun c => c.collectionAssignments.get n)

/-! ## Which plans pass -/

theorem insertFresh_eq {seen : List UInt64} (hseen : seen.Nodup) (ids : List UInt64) :
    insertFresh seen ids = if (ids ++ seen).Nodup then some (ids.reverse ++ seen) else none := by
  induction ids generalizing seen with
  | nil => simp [insertFresh, hseen]
  | cons id ids ih =>
    have hperm : (ids ++ id :: seen).Perm (id :: ids ++ seen) := perm_middle
    by_cases hid : id ∈ seen
    · simp [insertFresh, hid]
    · rw [insertFresh, if_neg hid, ih (nodup_cons.2 ⟨hid, hseen⟩)]
      simp only [hperm.nodup_iff, reverse_cons, append_assoc, singleton_append]

def WellShaped (replicas : Nat) (a : ShardAssignment) : Prop :=
  a.replica.length = replicas ∧ a.shardIds.length = replicas ∧ ∀ p ∈ a.primary, p ∈ a.shardIds

variable {list : List ShardAssignment}

theorem validateEach_iff {replicas : Nat} {seen : List UInt64} (hseen : seen.Nodup) :
    validateEach replicas seen list = true ↔
      (∀ a ∈ list, WellShaped replicas a) ∧ (list.flatMap (·.shardIds) ++ seen).Nodup := by
  induction list generalizing seen with
  | nil => simp [validateEach, hseen]
  | cons a as ih =>
    have hshape : (a.replica.length == replicas && a.shardIds.length == replicas &&
        a.primary.all (· ∈ a.shardIds)) = true ↔ WellShaped replicas a := by
      cases hp : a.primary <;> simp [WellShaped, hp, and_assoc]
    -- the ids of `a` move behind those of the other partitions, as the set of seen ids has them
    have hperm : (as.flatMap (·.shardIds) ++ (a.shardIds.reverse ++ seen)).Perm
        ((a :: as).flatMap (·.shardIds) ++ seen) := by
      rw [flatMap_cons, append_assoc]
      exact (perm_append_comm_assoc _ _ _).trans ((reverse_perm _).append_right _)
    rw [validateEach, Bool.and_eq_true, hshape, insertFresh_eq hseen, forall_mem_cons, and_assoc]
    refine and_congr_right fun _ => ?_
    split
    · rename_i hnone
      have hdup : ¬(a.shardIds ++ seen).Nodup := by simpa using hnone
      refine iff_of_false (by simp) fun h => hdup (h.2.sublist ?_)
      rw [flatMap_cons, append_assoc]
      exact (List.Sublist.refl _).append (sublist_append_right _ _)
    · rename_i seen' hsome
      obtain ⟨hfresh, rfl⟩ : (a.shardIds ++ seen).Nodup ∧ a.shardIds.reverse ++ seen = seen' := by simpa using hsome
      have hnodup : (a.shardIds.reverse ++ seen).Nodup :=
        ((reverse_perm a.shardIds).append_right seen).nodup_iff.2 hfresh
      rw [ih hnodup, hperm.nodup_iff]

/-- **What a plan must satisfy** for the counts it is sent with. -/
structure ValidPlan (list : List ShardAssignment) (partitionCount replicaCount : Int32) : Prop where
  partitions_pos : 0 < partitionCount
  replicas_pos : 0 < replicaCount
  length : list.length = partitionCount.toNatClampNeg
  shape : ∀ a ∈ list, WellShaped replicaCount.toNatClampNeg a
  ids : (list.flatMap (·.shardIds)).Nodup

theorem validateAssignments_iff {partitions replicas : Int32} :
    validateAssignments list partitions replicas = true ↔ ValidPlan list partitions replicas := by
  unfold validateAssignments
  split
  · rename_i hcounts
    refine iff_of_false (by simp) fun h => hcounts.elim ?_ ?_
    · exact Int32.not_le.2 h.partitions_pos
    · exact Int32.not_le.2 h.replicas_pos
  · rename_i hcounts
    rw [not_or, Int32.not_le, Int32.not_le] at hcounts
    split
    · rename_i hlen
      exact iff_of_false (by simp) fun h => hlen h.length
    · rename_i hlen
      rw [validateEach_iff nodup_nil, append_nil]
      exact ⟨fun h => ⟨hcounts.1, hcounts.2, not_not.1 hlen, h.1, h.2⟩, fun h => ⟨h.shape, h.ids⟩⟩

end Crm
