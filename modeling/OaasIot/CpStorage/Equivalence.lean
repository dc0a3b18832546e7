import OaasIot.Lib.Paths
import OaasIot.Lib.Program
import OaasIot.CpStorage.Storages

/-!
# Is etcd the storage the tests run with?

`list_packages` in etcd does not read its filter; `list_deployments` skips deployments with a `/` in their key; and a
deployment `k/clusters/c` has the key of the mapping of `k` in cluster `c`. Keys that are *separate* (`SeparateKey`) do
not run into each other.
-/

namespace CpStorage

open Pm List OrdMap

variable {F : Type}

/-! ## Agreement -/

def SameAnswer : StorageAnswer F → Except StorageError (StorageAnswer F) → Prop
  | .packages ps, .ok (.packages qs) => ∀ p, p ∈ ps ↔ p ∈ qs
  | .deployments ds, .ok (.deployments es) => ∀ d, d ∈ ds ↔ d ∈ es
  | a, b => b = .ok a

def bothAfter (e : EtcdStorage F) (s : MemoryStorage F × Kv) (call : StorageCall F) : MemoryStorage F × Kv :=
  (s.1.after call, e.after s.2 call)

def AnswersAgree (e : EtcdStorage F) (s : MemoryStorage F × Kv) (call : StorageCall F) : Prop :=
  SameAnswer (s.1.answer call) (e.answer s.2 call)

def clusters : Separator Char := ⟨'/', "clusters".toList, by decide⟩

def SeparateKey (key : String) : Prop := clusters.Clear key.toList

instance (key : String) : Decidable (SeparateKey key) := inferInstanceAs (Decidable (¬ _))

def StorageCall.Separate : StorageCall F → Prop
  | .storeDeployment d => SeparateKey d.key
  | .getDeployment key | .deleteDeployment key | .deploymentExists key | .saveClusterMapping key _ _
  | .getClusterMappings key | .removeClusterMappings key => SeparateKey key
  | _ => True

def ListsComplete (s : MemoryStorage F × Kv) : StorageCall F → Prop
  | .listPackages filter => ∀ name p, s.1.packages.store.get name = some p → filter.passes p = true
  | .listDeployments filter => ∀ key d, s.1.deployments.store.get key = some d → filter.passes d = true →
      '/' ∉ d.key.toList
  | _ => True

/-! ## Addresses -/

inductive Address
  | package (name : String)
  | deployment (key : String)
  | mapping (key cluster : String)
  deriving DecidableEq

namespace Address

def Separate : Address → Prop
  | .package _ => True
  | .deployment key | .mapping key _ => SeparateKey key

variable (e : EtcdStorage F)

def key : Address → String
  | .package name => e.packageKey name
  | .deployment key => e.deploymentKey key
  | .mapping key cluster => e.clusterMappingPrefix key ++ cluster

def path : Address → List Char
  | .package name => "/packages/".toList ++ name.toList
  | .deployment key => "/deployments/".toList ++ key.toList
  | .mapping key cluster => "/deployments/".toList ++ (key.toList ++ clusters.word ++ cluster.toList)

theorem toList_clusters : "/clusters/".toList = clusters.word := by decide

theorem toList_key (a : Address) : (a.key e).toList = e.keyPrefix.toList ++ a.path := by
  cases a with
  | package name =>
    change (e.keyPrefix ++ "/packages/" ++ name).toList = _ ++ ("/packages/".toList ++ name.toList)
    rw [String.toList_append, String.toList_append, append_assoc]
  | deployment key =>
    change (e.keyPrefix ++ "/deployments/" ++ key).toList = _ ++ ("/deployments/".toList ++ key.toList)
    rw [String.toList_append, String.toList_append, append_assoc]
  | mapping key cluster =>
    change (e.keyPrefix ++ "/deployments/" ++ key ++ "/clusters/" ++ cluster).toList =
      _ ++ ("/deployments/".toList ++ (key.toList ++ clusters.word ++ cluster.toList))
    simp only [String.toList_append, toList_clusters, append_assoc]

theorem packages_ne_deployments (x y : List Char) : "/packages/".toList ++ x ≠ "/deployments/".toList ++ y := by
  intro h
  have hsecond := congrArg (fun l => l[1]?) h
  rw [getElem?_append_left (by decide), getElem?_append_left (by decide)] at hsecond
  exact absurd hsecond (by decide)

theorem path_inj {a b : Address} (ha : a.Separate) (hb : b.Separate) (h : a.path = b.path) : a = b := by
  cases a with
  | package name =>
    cases b with
    | package name' => exact congrArg package (String.toList_inj.1 (append_cancel_left h))
    | deployment key | mapping key cluster => exact absurd h (packages_ne_deployments _ _)
  | deployment key =>
    cases b with
    | package name => exact absurd h.symm (packages_ne_deployments _ _)
    | deployment key' => exact congrArg deployment (String.toList_inj.1 (append_cancel_left h))
    | mapping key' cluster =>
      have hkey : key.toList = key'.toList ++ clusters.word ++ cluster.toList := append_cancel_left h
      exact absurd ha (clusters.not_clear_of_prefix ⟨cluster.toList, hkey.symm⟩)
  | mapping key cluster =>
    cases b with
    | package name => exact absurd h.symm (packages_ne_deployments _ _)
    | deployment key' =>
      have hkey : key.toList ++ clusters.word ++ cluster.toList = key'.toList := append_cancel_left h
      exact absurd hb (clusters.not_clear_of_prefix ⟨cluster.toList, hkey⟩)
    | mapping key' cluster' =>
      have hkeys := append_cancel_left h
      obtain ⟨hkey, hcluster⟩ := clusters.append_inj ha hb hkeys
      rw [String.toList_inj.1 hkey, String.toList_inj.1 hcluster]

theorem key_inj {a b : Address} (ha : a.Separate) (hb : b.Separate) (h : a.key e = b.key e) : a = b := by
  have hlist := congrArg String.toList h
  rw [toList_key, toList_key, append_cancel_left_eq] at hlist
  exact path_inj ha hb hlist

theorem startsWith_iff {p k : String} : startsWith p k = true ↔ p.toList <+: k.toList := isPrefixOf_iff_prefix

theorem startsWith_packages_iff (a : Address) :
    startsWith (e.keyPrefix ++ "/packages/") (a.key e) = true ↔ ∃ name, a = .package name := by
  rw [startsWith_iff, toList_key, String.toList_append, prefix_append_right_inj]
  cases a with
  | package name => exact iff_of_true ⟨_, rfl⟩ ⟨name, rfl⟩
  | deployment key | mapping key cluster => exact iff_of_false (fun ⟨_, h⟩ => packages_ne_deployments _ _ h) nofun

theorem startsWith_deployments_iff (a : Address) :
    startsWith (e.keyPrefix ++ "/deployments/") (a.key e) = true ↔ ∀ name, a ≠ .package name := by
  rw [startsWith_iff, toList_key, String.toList_append, prefix_append_right_inj]
  cases a with
  | package name => exact iff_of_false (fun ⟨_, h⟩ => packages_ne_deployments _ _ h.symm) fun h => h name rfl
  | deployment key | mapping key cluster => exact iff_of_true ⟨_, rfl⟩ nofun

theorem startsWith_mapping_iff {key : String} (hkey : SeparateKey key) {a : Address} (ha : a.Separate) :
    startsWith (e.clusterMappingPrefix key) (a.key e) = true ↔ ∃ cluster, a = .mapping key cluster := by
  have hprefix : (e.clusterMappingPrefix key).toList =
      e.keyPrefix.toList ++ ("/deployments/".toList ++ (key.toList ++ clusters.word)) := by
    simp only [EtcdStorage.clusterMappingPrefix, String.toList_append, toList_clusters, append_assoc]
  rw [startsWith_iff, toList_key, hprefix, prefix_append_right_inj]
  cases a with
  | package name =>
    refine iff_of_false ?_ nofun
    rintro ⟨rest, h⟩
    rw [append_assoc] at h
    exact packages_ne_deployments _ _ h.symm
  | deployment key' =>
    refine iff_of_false (fun h => ?_) nofun
    exact clusters.not_clear_of_prefix ((prefix_append_right_inj _).1 h) ha
  | mapping key' cluster =>
    have hmapping : key.toList ++ clusters.word <+: key'.toList ++ clusters.word ++ cluster.toList ↔
        key.toList = key'.toList := clusters.prefix_append_iff hkey ha
    refine (prefix_append_right_inj _).trans (hmapping.trans ?_)
    rw [String.toList_inj]
    constructor
    · rintro rfl
      exact ⟨cluster, rfl⟩
    · rintro ⟨_, h⟩
      cases h
      rfl

end Address

theorem stripPrefix_append (p s : String) : stripPrefix p (p ++ s) = some s := by
  have hstarts : startsWith p (p ++ s) = true := by
    rw [Address.startsWith_iff, String.toList_append]
    exact prefix_append _ _
  rw [stripPrefix, if_pos hstarts, String.toList_append, drop_left, String.ofList_toList]

/-! ## What etcd holds -/

def MemoryStorage.at (e : EtcdStorage F) (m : MemoryStorage F) : Address → Option String
  | .package name => (m.packages.store.get name).map e.packageJson.toString
  | .deployment key => (m.deployments.store.get key).map e.deploymentJson.toString
  | .mapping key cluster => (m.deployments.getClusterMappings key).get cluster

/-- **etcd holds what the memory holds**, and nothing else. -/
structure Holds (e : EtcdStorage F) (m : MemoryStorage F) (kv : Kv) : Prop where
  same : ∀ a : Address, a.Separate → kv.get (a.key e) = m.at e a
  known : ∀ k v, kv.get k = some v → ∃ a : Address, a.Separate ∧ k = a.key e
  keyed : ∀ key d, m.deployments.store.get key = some d → d.key = key ∧ SeparateKey key

section
variable {e : EtcdStorage F} {m m' : MemoryStorage F} {kv : Kv}

theorem holds_new (e : EtcdStorage F) : Holds e MemoryStorage.new .empty where
  same a _ := by cases a <;> rfl
  known k v h := by cases h
  keyed key d h := by cases h

theorem Holds.put (h : Holds e m kv) {a : Address} (ha : a.Separate) {v : String}
    (hat : ∀ b, m'.at e b = if a = b then some v else m.at e b)
    (hkeyed : ∀ key d, m'.deployments.store.get key = some d → d.key = key ∧ SeparateKey key) :
    Holds e m' (kv.insert (a.key e) v) where
  same b hb := by
    rw [get_insert, hat, h.same b hb]
    exact if_congr ⟨Address.key_inj e ha hb, fun hab => hab ▸ rfl⟩ rfl rfl
  known k w hk := by
    rw [get_insert] at hk
    split at hk
    · rename_i hka
      exact ⟨a, ha, hka.symm⟩
    · exact h.known k w hk
  keyed := hkeyed

theorem Holds.delete (h : Holds e m kv) {a : Address} (ha : a.Separate)
    (hat : ∀ b, m'.at e b = if b = a then none else m.at e b)
    (hkeyed : ∀ key d, m'.deployments.store.get key = some d → d.key = key ∧ SeparateKey key) :
    Holds e m' (kv.erase (a.key e)) where
  same b hb := by
    rw [get_erase, hat, h.same b hb]
    exact if_congr ⟨Address.key_inj e hb ha, fun hab => hab ▸ rfl⟩ rfl rfl
  known k w hk := by
    rw [get_erase] at hk
    split at hk
    · cases hk
    · exact h.known k w hk
  keyed := hkeyed

theorem getClusterMappings_save (st : MemoryDeploymentStorage F) (key cluster id key' : String) :
    (st.saveClusterMapping key cluster id).getClusterMappings key' =
      if key = key' then (st.getClusterMappings key).insert cluster id else st.getClusterMappings key' := by
  unfold MemoryDeploymentStorage.saveClusterMapping MemoryDeploymentStorage.getClusterMappings
  dsimp only
  rw [get_insert]
  split <;> rfl

theorem getClusterMappings_remove (st : MemoryDeploymentStorage F) (key key' : String) :
    (st.removeClusterMappings key).getClusterMappings key' = if key' = key then .empty else st.getClusterMappings key' := by
  unfold MemoryDeploymentStorage.removeClusterMappings MemoryDeploymentStorage.getClusterMappings
  dsimp only
  rw [get_erase]
  split <;> rfl

theorem Holds.removeMappings (h : Holds e m kv) {key : String} (hkey : SeparateKey key) :
    Holds e (m.after (.removeClusterMappings key)) (e.removeClusterMappings kv key) where
  same a ha := by
    have hget : (e.removeClusterMappings kv key).get (a.key e) =
        if startsWith (e.clusterMappingPrefix key) (a.key e) = true then none else kv.get (a.key e) := by
      rw [EtcdStorage.removeClusterMappings, Kv.deletePrefix, get_filterKeys]
      cases startsWith (e.clusterMappingPrefix key) (a.key e) <;> rfl
    have hstarts := Address.startsWith_mapping_iff e hkey ha
    rw [hget, h.same a ha]
    cases a with
    | package name | deployment key' => exact if_neg fun hs => nomatch hstarts.1 hs
    | mapping key' cluster =>
      have hat : (m.after (.removeClusterMappings key)).at e (.mapping key' cluster) =
          ((m.deployments.removeClusterMappings key).getClusterMappings key').get cluster := rfl
      rw [hat, getClusterMappings_remove]
      by_cases hk : key' = key
      · rw [if_pos hk, if_pos (hstarts.2 ⟨cluster, by rw [hk]⟩), get_empty]
      · rw [if_neg hk]
        refine if_neg fun hs => hk ?_
        obtain ⟨_, heq⟩ := hstarts.1 hs
        cases heq
        rfl
  known k v hk := by
    rw [EtcdStorage.removeClusterMappings, Kv.deletePrefix, get_filterKeys] at hk
    split at hk
    · exact h.known k v hk
    · cases hk
  keyed := h.keyed

/-! What each write changes in memory, address by address. -/

theorem at_storePackage (m : MemoryStorage F) (p : OPackage F) (a : Address) :
    (m.after (.storePackage p)).at e a = if .package p.name = a then some (e.packageJson.toString p) else m.at e a := by
  cases a with
  | package name =>
    simp only [MemoryStorage.at, MemoryStorage.after, MemoryPackageStorage.storePackage, get_insert,
      Address.package.injEq]
    split <;> rfl
  | deployment key | mapping key cluster => exact (if_neg nofun).symm

theorem at_deletePackage (m : MemoryStorage F) (name : String) (a : Address) :
    (m.after (.deletePackage name)).at e a = if a = .package name then none else m.at e a := by
  cases a with
  | package name' =>
    simp only [MemoryStorage.at, MemoryStorage.after, MemoryPackageStorage.deletePackage, get_erase,
      Address.package.injEq]
    split <;> rfl
  | deployment key | mapping key cluster => exact (if_neg nofun).symm

theorem at_storeDeployment (m : MemoryStorage F) (d : OClassDeployment F) (a : Address) :
    (m.after (.storeDeployment d)).at e a =
      if .deployment d.key = a then some (e.deploymentJson.toString d) else m.at e a := by
  cases a with
  | package name => exact (if_neg nofun).symm
  | deployment key =>
    simp only [MemoryStorage.at, MemoryStorage.after, MemoryDeploymentStorage.storeDeployment, get_insert,
      Address.deployment.injEq]
    split <;> rfl
  | mapping key cluster => exact (if_neg nofun).symm

theorem at_deleteDeployment (m : MemoryStorage F) (key : String) (a : Address) :
    (m.after (.deleteDeployment key)).at e a = if a = .deployment key then none else m.at e a := by
  cases a with
  | package name => exact (if_neg nofun).symm
  | deployment key' =>
    simp only [MemoryStorage.at, MemoryStorage.after, MemoryDeploymentStorage.deleteDeployment, get_erase,
      Address.deployment.injEq]
    split <;> rfl
  | mapping key' cluster => exact (if_neg nofun).symm

theorem at_saveClusterMapping (m : MemoryStorage F) (key cluster id : String) (a : Address) :
    (m.after (.saveClusterMapping key cluster id)).at e a = if .mapping key cluster = a then some id else m.at e a := by
  cases a with
  | package name | deployment key' => exact (if_neg nofun).symm
  | mapping key' cluster' =>
    have hat : (m.after (.saveClusterMapping key cluster id)).at e (.mapping key' cluster') =
        ((m.deployments.saveClusterMapping key cluster id).getClusterMappings key').get cluster' := rfl
    rw [hat, getClusterMappings_save]
    by_cases hk : key = key'
    · subst hk
      rw [if_pos rfl, get_insert]
      simp only [Address.mapping.injEq, true_and]
      rfl
    · rw [if_neg hk, if_neg fun heq => hk (Address.mapping.inj heq).1]
      rfl

/-- **Step**: a call on separate keys keeps both storages in step. -/
theorem Holds.after (h : Holds e m kv) {call : StorageCall F} (hcall : call.Separate) :
    Holds e (m.after call) (e.after kv call) := by
  cases call with
  | storePackage p => exact h.put (a := .package p.name) trivial (at_storePackage m p) h.keyed
  | deletePackage name => exact h.delete (a := .package name) trivial (at_deletePackage m name) h.keyed
  | storeDeployment d =>
    refine h.put (a := .deployment d.key) hcall (at_storeDeployment m d) fun key d' hget => ?_
    rw [MemoryStorage.after, MemoryDeploymentStorage.storeDeployment, get_insert] at hget
    split at hget
    · rename_i hkey
      cases hget
      exact ⟨hkey, hkey ▸ hcall⟩
    · exact h.keyed key d' hget
  | deleteDeployment key =>
    refine h.delete (a := .deployment key) hcall (at_deleteDeployment m key) fun key' d hget => ?_
    rw [MemoryStorage.after, MemoryDeploymentStorage.deleteDeployment, get_erase] at hget
    split at hget
    · cases hget
    · exact h.keyed key' d hget
  | saveClusterMapping key cluster id =>
    exact h.put (a := .mapping key cluster) hcall (at_saveClusterMapping m key cluster id) h.keyed
  | removeClusterMappings key => exact h.removeMappings hcall
  | getPackage name | listPackages filter | packageExists name | getDeployment key | listDeployments filter => exact h
  | deploymentExists key | getClusterMappings key => exact h

/-! ## Answers -/

theorem mem_getPrefix {p : String} {x : String × String} :
    x ∈ kv.getPrefix p ↔ kv.get x.1 = some x.2 ∧ startsWith p x.1 = true := by
  rw [Kv.getPrefix, mem_filter, get_eq_some]

theorem decodeAll_ok {α : Type} (json : Json α) {l : List (String × String)}
    (h : ∀ x ∈ l, ∃ a, json.fromSlice x.2 = .ok a) :
    ∃ as, EtcdStorage.decodeAll json l = .ok as ∧ ∀ a, a ∈ as ↔ ∃ x ∈ l, json.fromSlice x.2 = .ok a := by
  induction l with
  | nil => exact ⟨[], rfl, by simp⟩
  | cons x l ih =>
    obtain ⟨a, ha⟩ := h x mem_cons_self
    obtain ⟨as, has, hmem⟩ := ih fun y hy => h y (mem_cons_of_mem _ hy)
    refine ⟨a :: as, ?_, fun b => ?_⟩
    · simp only [EtcdStorage.decodeAll, EtcdStorage.decode, ha, has, bind, Except.bind, pure, Except.pure]
    · rw [mem_cons, hmem, exists_mem_cons_iff, ha, Except.ok.injEq, eq_comm]

theorem Holds.mem_packages (h : Holds e m kv) {x : String × String} :
    x ∈ kv.getPrefix (e.keyPrefix ++ "/packages/") ↔
      ∃ name p, m.packages.store.get name = some p ∧ x = (e.packageKey name, e.packageJson.toString p) := by
  rw [mem_getPrefix]
  constructor
  · rintro ⟨hget, hstarts⟩
    obtain ⟨a, ha, hkey⟩ := h.known _ _ hget
    rw [hkey, Address.startsWith_packages_iff] at hstarts
    obtain ⟨name, rfl⟩ := hstarts
    rw [hkey, h.same _ ha] at hget
    obtain ⟨p, hp, hvalue⟩ := Option.map_eq_some_iff.1 hget
    exact ⟨name, p, hp, Prod.ext hkey hvalue.symm⟩
  · rintro ⟨name, p, hp, rfl⟩
    refine ⟨(h.same (.package name) trivial).trans ?_, (Address.startsWith_packages_iff e (.package name)).2 ⟨name, rfl⟩⟩
    rw [MemoryStorage.at, hp]
    rfl

theorem Holds.listPackages (h : Holds e m kv) (filter : PackageFilter) :
    ∃ ps, e.listPackages kv filter = .ok ps ∧ ∀ p, p ∈ ps ↔ ∃ name, m.packages.store.get name = some p := by
  obtain ⟨ps, hps, hmem⟩ : ∃ ps, e.listPackages kv filter = .ok ps ∧
      ∀ p, p ∈ ps ↔ ∃ x ∈ kv.getPrefix (e.keyPrefix ++ "/packages/"), e.packageJson.fromSlice x.2 = .ok p := by
    refine decodeAll_ok e.packageJson fun x hx => ?_
    obtain ⟨name, p, _, rfl⟩ := h.mem_packages.1 hx
    exact ⟨p, e.packageJson.lossless p⟩
  refine ⟨ps, hps, fun p => (hmem p).trans ?_⟩
  constructor
  · rintro ⟨x, hx, hdec⟩
    obtain ⟨name, q, hq, rfl⟩ := h.mem_packages.1 hx
    rw [e.packageJson.lossless q] at hdec
    cases hdec
    exact ⟨name, hq⟩
  · rintro ⟨name, hp⟩
    exact ⟨_, h.mem_packages.2 ⟨name, p, hp, rfl⟩, e.packageJson.lossless p⟩

theorem listedDeployment_deployment (filter : DeploymentFilter) (key : String) (d : OClassDeployment F) :
    e.listedDeployment filter (e.deploymentKey key, e.deploymentJson.toString d) =
      if '/' ∉ key.toList ∧ filter.passes d = true then some d else none := by
  unfold EtcdStorage.listedDeployment EtcdStorage.deploymentKey
  rw [stripPrefix_append, e.deploymentJson.lossless]
  by_cases hslash : '/' ∈ key.toList
  · simp [hslash]
  · simp [hslash]

theorem listedDeployment_mapping (filter : DeploymentFilter) (key cluster value : String) :
    e.listedDeployment filter (e.clusterMappingPrefix key ++ cluster, value) = none := by
  have hkey : e.clusterMappingPrefix key ++ cluster =
      e.keyPrefix ++ "/deployments/" ++ (key ++ "/clusters/" ++ cluster) := by
    simp only [EtcdStorage.clusterMappingPrefix, String.append_assoc]
  unfold EtcdStorage.listedDeployment
  rw [hkey, stripPrefix_append]
  refine if_pos ?_
  simp

theorem Holds.mem_listDeployments (h : Holds e m kv) (filter : DeploymentFilter) (d : OClassDeployment F) :
    d ∈ e.listDeployments kv filter ↔
      ∃ key, m.deployments.store.get key = some d ∧ '/' ∉ key.toList ∧ filter.passes d = true := by
  rw [EtcdStorage.listDeployments, mem_filterMap]
  constructor
  · rintro ⟨⟨k, v⟩, hx, hlisted⟩
    obtain ⟨hget, hstarts⟩ := mem_getPrefix.1 hx
    obtain ⟨a, ha, rfl⟩ := h.known _ _ hget
    rw [Address.startsWith_deployments_iff] at hstarts
    cases a with
    | package name => exact absurd rfl (hstarts name)
    | mapping key cluster =>
      have hnone := listedDeployment_mapping (e := e) filter key cluster v
      cases hnone.symm.trans hlisted
    | deployment key =>
      rw [h.same _ ha] at hget
      obtain ⟨d', hd', rfl⟩ := Option.map_eq_some_iff.1 hget
      have hentry := listedDeployment_deployment (e := e) filter key d'
      have hsome := hentry.symm.trans hlisted
      split at hsome
      · rename_i hcond
        cases hsome
        exact ⟨key, hd', hcond⟩
      · cases hsome
  · rintro ⟨key, hd, hslash, hpasses⟩
    have hseparate := (h.keyed key d hd).2
    refine ⟨(e.deploymentKey key, e.deploymentJson.toString d), mem_getPrefix.2 ⟨?_, ?_⟩, ?_⟩
    · refine (h.same (.deployment key) hseparate).trans ?_
      rw [MemoryStorage.at, hd]
      rfl
    · exact (Address.startsWith_deployments_iff e (.deployment key)).2 nofun
    · rw [listedDeployment_deployment, if_pos ⟨hslash, hpasses⟩]

theorem Holds.mem_mappings (h : Holds e m kv) {key : String} (hkey : SeparateKey key) {cluster id : String} :
    (cluster, id) ∈ (kv.getPrefix (e.clusterMappingPrefix key)).map (fun x =>
        ((stripPrefix (e.clusterMappingPrefix key) x.1).getD x.1, x.2)) ↔
      (m.deployments.getClusterMappings key).get cluster = some id := by
  have hsame : kv.get (e.clusterMappingPrefix key ++ cluster) = (m.deployments.getClusterMappings key).get cluster :=
    h.same (.mapping key cluster) hkey
  rw [mem_map, ← hsame]
  constructor
  · rintro ⟨⟨k, v⟩, hx, hpair⟩
    obtain ⟨hget, hstarts⟩ := mem_getPrefix.1 hx
    obtain ⟨a, ha, rfl⟩ := h.known _ _ hget
    obtain ⟨cluster', rfl⟩ := (Address.startsWith_mapping_iff e hkey ha).1 hstarts
    rw [Address.key, stripPrefix_append, Option.getD_some, Prod.mk.injEq] at hpair
    obtain ⟨rfl, rfl⟩ := hpair
    exact hget
  · intro hget
    refine ⟨(e.clusterMappingPrefix key ++ cluster, id), mem_getPrefix.2 ⟨hget, ?_⟩, ?_⟩
    · exact (Address.startsWith_mapping_iff e hkey (a := .mapping key cluster) hkey).2 ⟨cluster, rfl⟩
    · rw [stripPrefix_append, Option.getD_some]

theorem Holds.getClusterMappings (h : Holds e m kv) {key : String} (hkey : SeparateKey key) :
    e.getClusterMappings kv key = m.deployments.getClusterMappings key := by
  refine ext_get fun cluster => ?_
  cases hget : (e.getClusterMappings kv key).get cluster with
  | some id =>
    rcases get_insertMany_eq_some _ hget with hmem | hempty
    · exact ((h.mem_mappings hkey).1 hmem).symm
    · cases hempty
  | none =>
    obtain ⟨hnot, _⟩ := get_insertMany_eq_none.1 hget
    cases hmem : (m.deployments.getClusterMappings key).get cluster with
    | none => rfl
    | some id => exact absurd (mem_map.2 ⟨_, (h.mem_mappings hkey).2 hmem, rfl⟩) hnot

theorem mem_listPackages {st : MemoryPackageStorage F} {filter : PackageFilter} {p : OPackage F} :
    p ∈ st.listPackages filter ↔ (∃ name, st.store.get name = some p) ∧ filter.passes p = true := by
  simp only [MemoryPackageStorage.listPackages, mem_filter, mem_map, Prod.exists, exists_eq_right,
    get_eq_some]

theorem mem_listDeployments {st : MemoryDeploymentStorage F} {filter : DeploymentFilter} {d : OClassDeployment F} :
    d ∈ st.listDeployments filter ↔ (∃ key, st.store.get key = some d) ∧ filter.passes d = true := by
  simp only [MemoryDeploymentStorage.listDeployments, mem_filter, mem_map, Prod.exists, exists_eq_right,
    get_eq_some]

theorem Holds.getDecoded {α : Type} (json : Json α) {key : String} {o : Option α}
    (hget : kv.get key = o.map json.toString) : EtcdStorage.getDecoded kv json key = .ok o := by
  unfold EtcdStorage.getDecoded
  rw [hget]
  cases o with
  | none => rfl
  | some a =>
    simp only [Option.map_some, EtcdStorage.decode, json.lossless, bind, Except.bind, pure, Except.pure]

/-- **One call**, on separate keys: only the lists can differ, and they do when they are not complete. -/
theorem answers_same_iff (h : Holds e m kv) (call : StorageCall F) (hcall : call.Separate) :
    AnswersAgree e (m, kv) call ↔ ListsComplete (m, kv) call := by
  cases call with
  | storePackage p | deletePackage name | storeDeployment d | deleteDeployment key => exact iff_of_true rfl trivial
  | saveClusterMapping key cluster id | removeClusterMappings key => exact iff_of_true rfl trivial
  | getPackage name =>
    have hget : e.getPackage kv name = .ok (m.packages.getPackage name) :=
      Holds.getDecoded e.packageJson (h.same (.package name) trivial)
    exact iff_of_true (by simp only [AnswersAgree, EtcdStorage.answer, hget]; rfl) trivial
  | getDeployment key =>
    have hget : e.getDeployment kv key = .ok (m.deployments.getDeployment key) :=
      Holds.getDecoded e.deploymentJson (h.same (.deployment key) hcall)
    exact iff_of_true (by simp only [AnswersAgree, EtcdStorage.answer, hget]; rfl) trivial
  | packageExists name =>
    have hfound : e.packageExists kv name = m.packages.packageExists name :=
      (congrArg Option.isSome (h.same (.package name) trivial)).trans Option.isSome_map
    exact iff_of_true (by simp only [AnswersAgree, EtcdStorage.answer, hfound]; rfl) trivial
  | deploymentExists key =>
    have hfound : e.deploymentExists kv key = m.deployments.deploymentExists key :=
      (congrArg Option.isSome (h.same (.deployment key) hcall)).trans Option.isSome_map
    exact iff_of_true (by simp only [AnswersAgree, EtcdStorage.answer, hfound]; rfl) trivial
  | getClusterMappings key =>
    exact iff_of_true (by simp only [AnswersAgree, EtcdStorage.answer, h.getClusterMappings hcall]; rfl) trivial
  | listPackages filter =>
    obtain ⟨ps, hps, hmem⟩ := h.listPackages filter
    have hagree : AnswersAgree e (m, kv) (.listPackages filter) ↔ ∀ p, p ∈ m.packages.listPackages filter ↔ p ∈ ps := by
      simp only [AnswersAgree, EtcdStorage.answer, hps]
      rfl
    rw [hagree]
    constructor
    · intro hsame name p hp
      exact (mem_listPackages.1 ((hsame p).2 ((hmem p).2 ⟨name, hp⟩))).2
    · intro hall p
      rw [mem_listPackages, hmem]
      exact ⟨And.left, fun ⟨name, hp⟩ => ⟨⟨name, hp⟩, hall name p hp⟩⟩
  | listDeployments filter =>
    have hagree : AnswersAgree e (m, kv) (.listDeployments filter) ↔
        ∀ d, d ∈ m.deployments.listDeployments filter ↔ d ∈ e.listDeployments kv filter := Iff.rfl
    rw [hagree]
    constructor
    · intro hsame key d hd hpasses
      have hmem : d ∈ m.deployments.listDeployments filter := mem_listDeployments.2 ⟨⟨key, hd⟩, hpasses⟩
      obtain ⟨key', hd', hslash, _⟩ := (h.mem_listDeployments filter d).1 ((hsame d).1 hmem)
      rwa [(h.keyed key' d hd').1]
    · intro hall d
      rw [mem_listDeployments, h.mem_listDeployments]
      constructor
      · rintro ⟨⟨key, hd⟩, hpasses⟩
        exact ⟨key, hd, (h.keyed key d hd).1 ▸ hall key d hd hpasses, hpasses⟩
      · rintro ⟨key, hd, _, hpasses⟩
        exact ⟨⟨key, hd⟩, hpasses⟩

end

/-! ## An encoding

Lossless encodings exist: there are as many strings as packages or deployments. -/

section Encoding

open Grpc

instance countableChar : Countable Char := Function.Injective.countable (f := Char.toNat) fun _ _ h => Char.toNat_inj.1 h
instance countableString : Countable String := Function.Injective.countable (f := String.toList) fun _ _ h => String.toList_inj.1 h
instance countableUInt32 : Countable UInt32 := Function.Injective.countable (f := UInt32.toNat) fun _ _ h => UInt32.toNat_inj.1 h
instance countableUInt64 : Countable UInt64 := Function.Injective.countable (f := UInt64.toNat) fun _ _ h => UInt64.toNat_inj.1 h

instance {α β : Type} [LinearOrder α] [Countable α] [Countable β] : Countable (OrdMap α β) :=
  Function.Injective.countable (f := OrdMap.toList) fun _ _ h => OrdMap.ext_toList h

deriving instance Countable for ProvisionConfig
deriving instance Countable for FunctionDeploymentSpec
deriving instance Countable for ConsistencyModel
deriving instance Countable for StateSpecification
deriving instance Countable for FunctionBinding
deriving instance Countable for OClass
deriving instance Countable for OdgmDataSpec
deriving instance Countable for DeploymentStatusSummary
deriving instance Countable for OClassDeployment
deriving instance Countable for OFunction
deriving instance Countable for PackageMetadata
deriving instance Countable for OPackage

theorem exists_injective_string (α : Type) [Countable α] : ∃ f : α → String, Function.Injective f := by
  obtain ⟨f, hf⟩ := Countable.exists_injective_nat α
  refine ⟨fun a => String.ofList (replicate (f a) 'x'), fun a b h => hf ?_⟩
  have hlength := congrArg (fun s => s.toList.length) h
  simpa using hlength

noncomputable def Json.ofCountable (α : Type) [Countable α] : Json α where
  toString := (exists_injective_string α).choose
  fromSlice value :=
    match Function.partialInv (exists_injective_string α).choose value with
    | some a => .ok a
    | none => .error "not an encoding"
  lossless a := by rw [Function.partialInv_left (exists_injective_string α).choose_spec]

end Encoding

/-! ## Runs -/

/-- **When the storages agree** along a run on separate keys: when the lists of every call are complete. -/
theorem storages_agree_iff (e : EtcdStorage F) (calls : List (StorageCall F)) (hkeys : ∀ call ∈ calls, call.Separate) :
    AlongRun (bothAfter e) (AnswersAgree e) (MemoryStorage.new, .empty) calls ↔
      AlongRun (bothAfter e) ListsComplete (MemoryStorage.new, .empty) calls := by
  refine alongRun_iff (fun s => Holds e s.1 s.2) (fun s call hs hcall => ?_) (holds_new e) (alongRun_const.2 hkeys)
  exact ⟨answers_same_iff hs call hcall, fun _ => hs.after hcall⟩

namespace Diverging

noncomputable def etcd : EtcdStorage Nat := ⟨"/oaas", .ofCountable _, .ofCountable _⟩
def package : OPackage Nat := ⟨"shop", {}, [], [], [], []⟩

def deployment : OClassDeployment Nat :=
  ⟨"shop/cart", "shop", "cart", [], [], none, .empty, [], none, none, none⟩

/-- A filter etcd does not read, a deployment it does not list, and a cluster mapping it takes for a deployment. -/
theorem storages_differ :
    ¬ AlongRun (bothAfter etcd) (AnswersAgree etcd) (MemoryStorage.new, .empty)
      [.storePackage package, .listPackages ⟨some "bank", none, []⟩] ∧
    ¬ AlongRun (bothAfter etcd) (AnswersAgree etcd) (MemoryStorage.new, .empty)
      [.storeDeployment deployment, .listDeployments ⟨none, none, none⟩] ∧
    ¬ AlongRun (bothAfter etcd) (AnswersAgree etcd) (MemoryStorage.new, .empty)
      [.saveClusterMapping "shop" "edge" "id", .deploymentExists "shop/clusters/edge"] := by
  refine ⟨?_, ?_, ?_⟩
  · rintro ⟨_, hlist, _⟩
    have hholds : Holds etcd (MemoryStorage.new.after (.storePackage package))
        (etcd.after .empty (.storePackage package)) := (holds_new etcd).after trivial
    have hall := (answers_same_iff hholds (.listPackages ⟨some "bank", none, []⟩) trivial).1 hlist
    exact absurd (hall "shop" package (get_insert_self _ _ _)) (by decide)
  · rintro ⟨_, hlist, _⟩
    have hseparate : SeparateKey deployment.key := by decide
    have hholds : Holds etcd (MemoryStorage.new.after (.storeDeployment deployment))
        (etcd.after .empty (.storeDeployment deployment)) := (holds_new etcd).after hseparate
    have hall := (answers_same_iff hholds (.listDeployments ⟨none, none, none⟩) trivial).1 hlist
    exact absurd (by decide) (hall "shop/cart" deployment (get_insert_self _ _ _) rfl)
  · rintro ⟨_, hfound, _⟩
    have hkey : etcd.deploymentKey "shop/clusters/edge" = etcd.clusterMappingPrefix "shop" ++ "edge" := by decide
    have htrue : etcd.deploymentExists (etcd.saveClusterMapping .empty "shop" "edge" "id") "shop/clusters/edge" = true := by
      rw [EtcdStorage.deploymentExists, EtcdStorage.saveClusterMapping, hkey, get_insert_self]
      rfl
    have hanswer : Except.ok (StorageAnswer.found (etcd.deploymentExists
        (etcd.saveClusterMapping .empty "shop" "edge" "id") "shop/clusters/edge")) =
        Except.ok (ε := StorageError) (StorageAnswer.found (F := Nat) false) := hfound
    rw [htrue] at hanswer
    cases hanswer

/-- Without filters, and with other keys, the answers are the same. -/
theorem storages_agree_separate :
    AlongRun (bothAfter etcd) (AnswersAgree etcd) (MemoryStorage.new, .empty)
      [.storePackage package, .listPackages ⟨none, none, []⟩, .saveClusterMapping "shop" "edge" "id",
        .getClusterMappings "shop"] := by
  have hshop : SeparateKey "shop" := by decide
  refine (storages_agree_iff etcd _ ?_).2 ⟨trivial, fun name p _ => rfl, trivial, trivial, trivial⟩
  simp [StorageCall.Separate, hshop]

end Diverging

end CpStorage
