import OaasIot.Crm.Status

/-!
# Listing runtimes (`oprc-pm/src/crm/manager.rs`, `client.rs`, `oprc-crm/src/grpc/deployment.rs`)

Every cluster is asked for **its own** slice, and the answers are joined. The server of a cluster reads the status of
the request, but neither its package nor its class.
-/

open Crm

namespace Pm

open List

variable {J : Type}

structure RuntimeResource (J : Type) where
  name : String
  deploymentId : Option String
  packageClassKey : Option String
  ns : Option String
  status : Option (ClassRuntimeStatus J)

structure RuntimeSummary where
  id : String
  packageName : String
  classKey : String
  clusterName : Option String
  deriving DecidableEq

def packageOf (key : String) : String := String.ofList (key.toList.reverse.dropWhile (· ≠ '.')).tail.reverse

def mapCrdToSummary (r : RuntimeResource J) : RuntimeSummary :=
  let packageClassKey := r.packageClassKey.getD r.name
  { id := r.deploymentId.getD r.name, packageName := packageOf packageClassKey, classKey := packageClassKey,
    clusterName := r.ns }

structure ClassRuntimeFilter where
  packageName : Option String := none
  classKey : Option String := none
  status : Option String := none
  limit : Option Nat := none
  offset : Option Nat := none

structure ListClassRuntimesRequest where
  packageName : Option String
  classKey : Option String
  status : Option String
  limit : Option UInt32
  offset : Option UInt32

variable (clusters : List (String × List (RuntimeResource J))) (f : ClassRuntimeFilter)

def ClassRuntimeFilter.request : ListClassRuntimesRequest where
  packageName := f.packageName
  classKey := f.classKey
  status := f.status
  limit := f.limit.map UInt32.ofNat
  offset := f.offset.map UInt32.ofNat

def hasStatus (want : Option String) (r : RuntimeResource J) : Bool :=
  match want with
  | some want => r.status.any (summarizeStatus · = want)
  | none => true

def listClassRuntimes (items : List (RuntimeResource J)) (req : ListClassRuntimesRequest) : List RuntimeSummary :=
  let deployments := (items.filter (hasStatus req.status)).map mapCrdToSummary
  let offset := (req.offset.getD 0).toNat
  let limit := (req.limit.getD 4294967295).toNat
  if deployments.length ≤ offset then []
  else (deployments.take (min (offset + limit) deployments.length)).drop offset

def clientListClassRuntimes (c : String × List (RuntimeResource J)) : List RuntimeSummary :=
  (listClassRuntimes c.2 f.request).map fun s => { s with clusterName := s.clusterName.or (some c.1) }

def getAllClassRuntimes : List RuntimeSummary :=
  let all := clusters.flatMap fun c =>
    (clientListClassRuntimes f c).map fun s => { s with clusterName := some c.1 }
  f.limit.elim all all.take

def getClassRuntime (id : String) : Option RuntimeSummary :=
  (getAllClassRuntimes clusters { limit := some 1 }).find? (·.id = id)

/-! ## What a listing is for -/

def joined (p : RuntimeResource J → Bool) : List RuntimeSummary :=
  clusters.flatMap fun c => (c.2.filter p).map fun r => { mapCrdToSummary r with clusterName := some c.1 }

def slice (l : List RuntimeSummary) : List RuntimeSummary :=
  f.limit.elim (l.drop (f.offset.getD 0)) (l.drop (f.offset.getD 0)).take

def sentOffset : Nat := f.offset.getD 0 % 2 ^ 32
def sentLimit : Nat := f.limit.elim (2 ^ 32 - 1) (· % 2 ^ 32)

theorem take_flatMap_take {α β : Type} (g : α → List β) {m n : Nat} (h : m ≤ n) (l : List α) :
    (l.flatMap fun a => (g a).take n).take m = (l.flatMap g).take m := by
  induction l generalizing m with
  | nil => rfl
  | cons a l ih =>
    simp only [flatMap_cons, take_append, take_take, length_take, Nat.min_eq_left h]
    congr 1
    rcases Nat.le_total n (g a).length with hn | hn
    · simp [show m - min n (g a).length = 0 by omega, show m - (g a).length = 0 by omega]
    · rw [Nat.min_eq_right hn]
      exact ih (by omega)

section

variable (f : ClassRuntimeFilter) (clusters : List (String × List (RuntimeResource J)))

theorem toNat_request :
    (f.request.offset.getD 0).toNat = sentOffset f ∧ (f.request.limit.getD 4294967295).toNat = sentLimit f := by
  rcases f with ⟨_, _, _, _ | l, _ | o⟩ <;> simp [ClassRuntimeFilter.request, sentOffset, sentLimit]

theorem getAllClassRuntimes_eq :
    getAllClassRuntimes clusters f =
      let all := clusters.flatMap fun c =>
        ((joined [c] (hasStatus f.status)).drop (sentOffset f)).take (sentLimit f)
      f.limit.elim all all.take := by
  have hone : ∀ c : String × List (RuntimeResource J),
      (clientListClassRuntimes f c).map (fun s => { s with clusterName := some c.1 }) =
        ((joined [c] (hasStatus f.status)).drop (sentOffset f)).take (sentLimit f) := by
    intro c
    have hstatus : f.request.status = f.status := rfl
    simp only [clientListClassRuntimes, listClassRuntimes, hstatus, (toNat_request f).1, (toNat_request f).2]
    split
    · rename_i h
      have hlen : (joined [c] (hasStatus f.status)).length ≤ sentOffset f := by simpa [joined] using h
      simp [drop_eq_nil_of_le hlen]
    · simp only [drop_take, joined, flatMap_cons, flatMap_nil, append_nil, map_take, map_drop, map_map]
      -- The end of the slice is the end of the list where the limit reaches past it.
      simp only [← map_drop, ← map_take, Function.comp_def]
      congr 1
      rw [take_eq_take_iff]
      simp only [length_drop, length_map]
      omega
  simp only [getAllClassRuntimes, hone]

theorem joined_eq (p : RuntimeResource J → Bool) : joined clusters p = clusters.flatMap fun c => joined [c] p := by
  simp [joined]

theorem getAllClassRuntimes_of_limit {l : Nat} (hl : f.limit = some l) (hlt : l < 2 ^ 32) (ho : f.offset.getD 0 = 0) :
    getAllClassRuntimes clusters f = (joined clusters (hasStatus f.status)).take l := by
  rw [getAllClassRuntimes_eq, joined_eq]
  simp only [sentOffset, sentLimit, hl, ho, Option.elim_some, Nat.mod_eq_of_lt hlt, Nat.zero_mod, drop_zero]
  exact take_flatMap_take _ le_rfl clusters

/-! ## Clusters that tell a wrong slice -/

def runtimeOf (J : Type) (want : Option String) (key : String) : RuntimeResource J where
  name := key
  deploymentId := none
  packageClassKey := some key
  ns := none
  status := want.map fun w => ⟨some w, none, none, none, none, none, none, none, none, none, none⟩

def cut (limit : Option Nat) (n : Nat) : Nat := limit.elim n (min · n)

end

theorem getClassRuntime_eq_none (clusters : List (String × List (RuntimeResource J))) (id : String) :
    getClassRuntime clusters id = none ↔ ∀ r ∈ (clusters.flatMap (·.2)).head?, (mapCrdToSummary r).id ≠ id := by
  have hall : hasStatus (J := J) none = fun _ => true := rfl
  have hids : (joined clusters (hasStatus none)).head?.map (·.id) =
      (clusters.flatMap (·.2)).head?.map fun r => (mapCrdToSummary r).id := by
    simp [← head?_map, joined, hall, map_flatMap, Function.comp_def]
  rw [getClassRuntime, getAllClassRuntimes_of_limit _ clusters rfl (by decide) rfl, take_one]
  cases hj : (joined clusters (hasStatus none)).head? <;> cases hr : (clusters.flatMap (·.2)).head? <;>
    simp_all

theorem lookup_finds_iff (clusters : List (String × List (RuntimeResource J))) (id : String) :
    (((∃ c ∈ clusters, ∃ r ∈ c.2, (mapCrdToSummary r).id = id) → ∃ s, getClassRuntime clusters id = some s ∧ s.id = id) ∧
        (getClassRuntime clusters id = none → ∀ c ∈ clusters, ∀ r ∈ c.2, (mapCrdToSummary r).id ≠ id)) ↔
      ((∃ c ∈ clusters, ∃ r ∈ c.2, (mapCrdToSummary r).id = id) →
        ∃ r ∈ (clusters.flatMap (·.2)).head?, (mapCrdToSummary r).id = id) := by
  have hnone := getClassRuntime_eq_none clusters id
  constructor
  · rintro ⟨hfound, -⟩ hex
    obtain ⟨s, hs, -⟩ := hfound hex
    by_contra hno
    exact absurd (hs.symm.trans (hnone.2 fun r hr hid => hno ⟨r, hr, hid⟩)) (by simp)
  · intro h
    refine ⟨fun hex => ?_, fun hn c hc r hr hid => ?_⟩
    · obtain ⟨r, hr, hid⟩ := h hex
      obtain ⟨s, hs⟩ := Option.ne_none_iff_exists'.1 fun hn => hnone.1 hn r hr hid
      exact ⟨s, hs, by simpa using find?_some hs⟩
    · obtain ⟨r', hr', hid'⟩ := h ⟨c, hc, r, hr, hid⟩
      exact hnone.1 hn r' hr' hid'

theorem second_runtime_not_found :
    getClassRuntime (J := Unit) [("a", [runtimeOf Unit none "p.x", runtimeOf Unit none "p.y"])] "p.y" = none ∧
      (mapCrdToSummary (runtimeOf Unit none "p.y")).id = "p.y" := by
  decide

end Pm
