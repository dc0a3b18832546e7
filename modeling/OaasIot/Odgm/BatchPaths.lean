import OaasIot.Odgm.BatchRequest
import OaasIot.Odgm.Cas

/-!
# Do the two batch paths agree?

Both paths set and then delete the same entries. Over gRPC every entry that is deleted puts the version up by one, and a
request that only deletes once more; over Zenoh the deletes put it up by one together. `object_api.rs:14` and `:19`
promise one increment for the deletes, and only if a key existed.
-/

namespace Odgm

open List OrdMap

/-! ## Normalized requests -/

section
variable {α β ε : Type} {maxLen : Nat} {key : α → Str} {make : Str → α → β}

def normalized (maxLen : Nat) (key : α → Str) (make : Str → α → β) (x : α) : Option β :=
  match normalizeEntryKey (key x) maxLen with
  | .error _ => none
  | .ok norm => some (make norm x)

theorem normalizeAll_cases (maxLen : Nat) (key : α → Str) (make : Str → α → β)
    (reject : Str → NormalizationError → ε) (xs : List α) :
    (∀ x ∈ xs, normalized maxLen key make x ≠ none) ∧
        normalizeAll maxLen key make reject xs = .ok (xs.filterMap (normalized maxLen key make)) ∨
      (∃ x ∈ xs, normalized maxLen key make x = none) ∧ ∃ e, normalizeAll maxLen key make reject xs = .error e := by
  induction xs with
  | nil => simp [normalizeAll]
  | cons x xs ih =>
    unfold normalizeAll
    cases hx : normalizeEntryKey (key x) maxLen with
    | error e => simp [normalized, hx]
    | ok norm =>
      have hsome : normalized maxLen key make x = some (make norm x) := by simp only [normalized, hx]
      rcases ih with ⟨hall, hok⟩ | ⟨⟨y, hy, hnone⟩, e, herr⟩
      · exact .inl ⟨by simpa [hsome] using hall, by simp [hsome, hok, Except.map]⟩
      · exact .inr ⟨⟨y, mem_cons_of_mem _ hy, hnone⟩, e, by simp [herr, Except.map]⟩

end

namespace BatchSetValuesRequest

def Normalizes (req : BatchSetValuesRequest) (maxLen : Nat) : Prop :=
  (∀ e ∈ req.values, normalized maxLen Prod.fst (fun norm e => (norm, ObjectVal.ofValData e.2)) e ≠ none) ∧
    ∀ key ∈ req.deleteKeys, normalized maxLen (fun key => key) (fun norm _ => norm) key ≠ none

def sets (req : BatchSetValuesRequest) (maxLen : Nat) : List (Str × ObjectVal) :=
  req.values.filterMap (normalized maxLen Prod.fst fun norm e => (norm, .ofValData e.2))

def deletes (req : BatchSetValuesRequest) (maxLen : Nat) : List Str :=
  req.deleteKeys.filterMap (normalized maxLen (fun key => key) fun norm _ => norm)

variable {ε : Type} {req : BatchSetValuesRequest} {maxLen : Nat}

theorem normalizeSets_of_normalizes (h : req.Normalizes maxLen) (reject : Str → NormalizationError → ε) :
    normalizeSets maxLen reject req.values = .ok (req.sets maxLen) :=
  ((normalizeAll_cases _ _ _ reject req.values).resolve_right fun ⟨⟨x, hx, hnone⟩, _⟩ => h.1 x hx hnone).2

theorem normalizeDeletes_of_normalizes (h : req.Normalizes maxLen) (reject : Str → NormalizationError → ε) :
    normalizeDeletes maxLen reject req.deleteKeys = .ok (req.deletes maxLen) :=
  ((normalizeAll_cases _ _ _ reject req.deleteKeys).resolve_right fun ⟨⟨x, hx, hnone⟩, _⟩ => h.2 x hx hnone).2

theorem rejected_of_not_normalizes (h : ¬ req.Normalizes maxLen) (reject reject' : Str → NormalizationError → ε) :
    (∃ e, normalizeSets maxLen reject req.values = .error e) ∨
      (∃ sets, normalizeSets maxLen reject req.values = .ok sets) ∧
        ∃ e, normalizeDeletes maxLen reject' req.deleteKeys = .error e := by
  rcases normalizeAll_cases maxLen Prod.fst (fun norm e => (norm, ObjectVal.ofValData e.2)) reject req.values with
    ⟨hall, hok⟩ | ⟨_, herr⟩
  · rcases normalizeAll_cases maxLen (fun key => key) (fun norm _ => norm) reject' req.deleteKeys with
      ⟨hall', _⟩ | ⟨_, herr⟩
    · exact absurd ⟨hall, hall'⟩ h
    · exact Or.inr ⟨⟨_, hok⟩, herr⟩
  · exact Or.inl herr

/-! ### Other orders of the map -/

structure Reordered (req req' : BatchSetValuesRequest) : Prop where
  values : req'.values.Perm req.values
  deleteKeys : req'.deleteKeys = req.deleteKeys
  expected : req'.expectedObjectVersion = req.expectedObjectVersion

namespace Reordered

variable {req req' : BatchSetValuesRequest}

variable (h : req.Reordered req')
include h

theorem sets_perm (maxLen : Nat) : (req'.sets maxLen).Perm (req.sets maxLen) :=
  h.values.filterMap _

theorem deletes_eq (maxLen : Nat) : req'.deletes maxLen = req.deletes maxLen := by
  unfold deletes
  rw [h.deleteKeys]

theorem normalizes_iff (maxLen : Nat) : req'.Normalizes maxLen ↔ req.Normalizes maxLen := by
  simp only [Normalizes, h.deleteKeys, h.values.mem_iff]

theorem sets_nil_iff (maxLen : Nat) : req'.sets maxLen = [] ↔ req.sets maxLen = [] := by
  rw [← length_eq_zero_iff, (h.sets_perm maxLen).length_eq, length_eq_zero_iff]

end Reordered

end BatchSetValuesRequest

theorem SentTwice.reordered (req : SentTwice) : req.grpc.Reordered req.zenoh :=
  ⟨req.values_perm, req.deleteKeys_eq, req.expected_eq⟩

/-! ## Deletions -/

section
variable {Ev : Type} {c : Codec Ev} {kind : ReplicationKind} {cfg : ShardConfig} {s s' : Store} {id : ObjectId}

theorem toNat_storedVersion_bump {metadata : Option ObjectMetadata} (hm : getMetadata s id = .ok metadata)
    (s' : Store) :
    (storedVersion (bump id metadata s') id).toNat = min ((storedVersion s id).toNat + 1) maxVersion := by
  have henc : (metadata.getD .default).Encodable := encodable_getMetadata hm
  rw [bump, storedVersion_putMetadata henc.incrementVersion, toNat_incrementVersion, storedVersion_eq hm]

theorem mem_map_entryKey {key : Str} {keys : List Str} :
    buildEntryKey id key ∈ keys.map (buildEntryKey id) ↔ key ∈ keys := by
  refine ⟨fun hk => ?_, mem_map_of_mem⟩
  obtain ⟨key', hkey', heq⟩ := mem_map.1 hk
  exact entryKey_inj heq ▸ hkey'

structure Deleted (id : ObjectId) (keys : List Str) (bumps : Nat) (s s' : Store) : Prop where
  get : ∀ k, k ≠ buildMetadataKey id → s'.get k = if k ∈ keys.map (buildEntryKey id) then none else s.get k
  version : (storedVersion s' id).toNat = min ((storedVersion s id).toNat + bumps) maxVersion

namespace Deleted

variable {keys keys' : List Str} {bumps bumps' : Nat} {s₁ : Store}

theorem refl (id : ObjectId) (s : Store) : Deleted id [] 0 s s where
  get _ _ := by simp
  version := (min_eq_left (toNat_le_maxVersion _)).symm

theorem trans (h : Deleted id keys bumps s s₁) (h' : Deleted id keys' bumps' s₁ s') :
    Deleted id (keys ++ keys') (bumps + bumps') s s' where
  get k hk := by
    rw [h'.get k hk, h.get k hk, map_append]
    by_cases hin : k ∈ keys.map (buildEntryKey id) <;> by_cases hin' : k ∈ keys'.map (buildEntryKey id) <;>
      simp only [mem_append, hin, hin', or_self, or_true, true_or, if_true, if_false]
  version := by
    rw [h'.version, h.version]
    omega

theorem bump {metadata : Option ObjectMetadata} (hm : getMetadata s id = .ok metadata) :
    Deleted id [] 1 s (bump id metadata s) where
  get k hk := by
    rw [Odgm.bump, get_insert_of_ne _ _ hk.symm]
    simp
  version := toNat_storedVersion_bump hm s

theorem absent {key : Str} (h : s.get (buildEntryKey id key) = none) : Deleted id [key] 0 s s where
  get k _ := by
    by_cases hk : k = buildEntryKey id key <;> simp [hk, h]
  version := (refl id s).version

theorem erase (key : Str) : Deleted id [key] 0 s (s.erase (buildEntryKey id key)) where
  get k _ := by
    rw [get_erase]
    by_cases hk : k = buildEntryKey id key <;> simp [hk]
  version := by
    have hsame : storedVersion (s.erase (buildEntryKey id key)) id = storedVersion s id := by
      refine storedVersion_congr ?_
      rw [get_erase, if_neg (metaKey_ne_entryKey id key)]
    rw [hsame]
    exact (refl id s).version

theorem get_entry (h : Deleted id keys bumps s s') (key : Str) :
    s'.get (buildEntryKey id key) = if key ∈ keys then none else s.get (buildEntryKey id key) := by
  rw [h.get _ (metaKey_ne_entryKey id key).symm]
  simp only [mem_map_entryKey]

end Deleted

def presentCount (id : Str) (keys : List Str) (s : Store) : Nat :=
  (keys.toFinset.filter fun key => (s.get (buildEntryKey id key)).isSome = true).card

theorem presentCount_cons_absent {key : Str} {keys : List Str} (h : s.get (buildEntryKey id key) = none) :
    presentCount id (key :: keys) s = presentCount id keys s := by
  unfold presentCount
  rw [toFinset_cons, Finset.filter_insert, if_neg (by simp [h])]

theorem presentCount_cons_present {key : Str} {keys : List Str} {bumps : Nat}
    (h : s.get (buildEntryKey id key) ≠ none) (hs' : Deleted id [key] bumps s s') :
    presentCount id (key :: keys) s = presentCount id keys s' + 1 := by
  have hset : (key :: keys).toFinset.filter (fun k => (s.get (buildEntryKey id k)).isSome = true) =
      insert key (keys.toFinset.filter fun k => (s'.get (buildEntryKey id k)).isSome = true) := by
    ext k
    simp only [Finset.mem_filter, mem_toFinset, mem_cons, Finset.mem_insert, hs'.get_entry,
      not_mem_nil, or_false]
    by_cases hk : k = key
    · subst hk
      simp [Option.isSome_iff_ne_none.2 h]
    · simp [hk]
  have hnotMem : key ∉ keys.toFinset.filter fun k => (s'.get (buildEntryKey id k)).isSome = true := by
    simp [hs'.get_entry]
  rw [presentCount, hset, Finset.card_insert_of_notMem hnotMem, presentCount]

theorem presentCount_deleted {keys : List Str} {bumps : Nat} (h : Deleted id keys bumps s s') :
    presentCount id keys s' = 0 := by
  refine Finset.card_eq_zero.2 (Finset.filter_eq_empty_iff.2 ?_)
  intro key hkey
  simp [h.get_entry, mem_toFinset.1 hkey]

/-! ## The gRPC path -/

theorem reads_getEntry (id key : Str) : Reads c kind (Shard.getEntry c id key) (getEntry c · id key) := by
  intro sh
  refine (run_bind_ok (reads_getRaw (buildEntryKey id key) sh)).trans ?_
  dsimp only [getEntry]
  cases sh.node.app.get (buildEntryKey id key) with
  | none => rfl
  | some value =>
    dsimp only
    cases c.decodeVal value <;> rfl

variable {metadata : Option ObjectMetadata} {values : ValueMap} {keys : List Str} {expected : Option UInt64}

theorem runs_currentVersion (hm : getMetadata s id = .ok metadata) :
    Runs c kind (Shard.currentVersion id) s (.ok (storedVersion s id)) s := by
  rw [storedVersion_eq hm]
  exact Runs.bind (runs_metadataOrDefault hm) (Runs.pure _ s)

theorem getEntry_of_present (hs : WellFormed c s) {key : Str} (h : s.get (buildEntryKey id key) ≠ none) :
    ∃ v, getEntry c s id key = .ok (some v) := by
  obtain ⟨value, hvalue⟩ := Option.ne_none_iff_exists'.1 h
  obtain ⟨v, hv⟩ := Option.isSome_iff_exists.1 (hs.of_recordKey id (.entry key) hvalue)
  refine ⟨v, ?_⟩
  unfold getEntry
  rw [hvalue]
  simp only [hv]

variable (kind cfg)

theorem runs_deleteExisting (id : ObjectId) (hs : WellFormed c s) (keys : List Str) :
    ∃ s', Runs c kind (Shard.deleteExisting c cfg id keys) s (.ok (decide (0 < presentCount id keys s))) s' ∧
      Effect c s s' ∧ Deleted id keys (presentCount id keys s) s s' := by
  induction keys generalizing s with
  | nil => exact ⟨s, Runs.pure _ s, .refl, Deleted.refl id s⟩
  | cons key keys ih =>
    have hget : Runs c kind (Shard.getEntry c id key) s (getEntry c s id key) s := (reads_getEntry id key).runs s
    by_cases h : s.get (buildEntryKey id key) = none
    · obtain ⟨s', hrun, heffect, hdel⟩ := ih hs
      have hnone : getEntry c s id key = .ok none := by rw [getEntry, h]
      rw [hnone] at hget
      rw [presentCount_cons_absent h]
      have hall := (Deleted.absent h).trans hdel
      rw [Nat.zero_add] at hall
      exact ⟨s', Runs.bind hget hrun, heffect, hall⟩
    · obtain ⟨v, hv⟩ := getEntry_of_present hs h
      obtain ⟨metadata, hm⟩ := getMetadata_of_wellFormed hs id
      have hm' := (getMetadata_erase_entry s id key).trans hm
      have hone : Deleted id [key] 1 s (bump id metadata (s.erase (buildEntryKey id key))) :=
        (Deleted.erase key).trans (Deleted.bump hm')
      have hstep : Effect c s (bump id metadata (s.erase (buildEntryKey id key))) :=
        (Effect.refl.erase id key).bump (encodable_getMetadata hm)
      obtain ⟨s', hrun, heffect, hdel⟩ := ih (hstep.wellFormed hs)
      rw [hv] at hget
      refine ⟨s', ?_, hstep.trans heffect, ?_⟩
      · have htrue : decide (0 < presentCount id (key :: keys) s) = true := by
          rw [presentCount_cons_present h hone]
          exact decide_eq_true (Nat.succ_pos _)
        rw [htrue]
        exact Runs.bind hget (Runs.bind (runs_deleteEntry hm h) (Runs.bind hrun (Runs.pure _ _)))
      · rw [presentCount_cons_present h hone, Nat.add_comm]
        exact hone.trans hdel

theorem runs_deletesAfter (id : ObjectId) (hs : WellFormed c s) (keys : List Str) {newVersion : UInt64}
    (hpos : 0 < newVersion) :
    ∃ s', Runs c kind (Shard.deletesAfter c cfg id keys newVersion) s (.ok ()) s' ∧ Effect c s s' ∧
      Deleted id keys (presentCount id keys s) s s' := by
  unfold Shard.deletesAfter
  by_cases hkeys : keys = []
  · subst hkeys
    refine ⟨s, ?_, .refl, Deleted.refl id s⟩
    rw [if_neg fun h => h.1 rfl]
    exact Runs.pure _ s
  · obtain ⟨s', hrun, heffect, hdel⟩ := runs_deleteExisting kind cfg id hs keys
    refine ⟨s', ?_, heffect, hdel⟩
    rw [if_pos ⟨hkeys, hpos⟩]
    exact Runs.bind hrun (Runs.pure _ _)

theorem incrementVersion_pos (m : ObjectMetadata) : 0 < m.incrementVersion.objectVersion := by
  rw [UInt64.lt_iff_toNat_lt, toNat_incrementVersion, maxVersion]
  exact lt_min (Nat.succ_pos _) (by decide)

theorem runs_batchMutateEntries_sets (hs : WellFormed c s) (hm : getMetadata s id = .ok metadata)
    (hne : values.toList ≠ []) (keys : List Str) (hv : Shard.versionMatches expected (metadata.getD .default) = .ok ()) :
    ∃ s', Runs c kind (Shard.batchMutateEntries c cfg id values keys expected) s
        (.ok (metadata.getD .default).incrementVersion.objectVersion) s' ∧ Effect c s s' ∧
      Deleted id keys (presentCount id keys (batchWritten c id metadata values.toList s))
        (batchWritten c id metadata values.toList s) s' := by
  have hset : Runs c kind (Shard.batchSetEntries c cfg id values expected) s _ _ := runs_batchSetEntries hm values expected
  rw [batchOutcome, batchStore, if_neg hne, if_neg hne, hv] at hset
  have hwritten : Effect c s (batchWritten c id metadata values.toList s) :=
    Effect.refl.batchWritten (encodable_getMetadata hm) values.toList
  obtain ⟨s', hrun, heffect, hdel⟩ := runs_deletesAfter kind cfg id (hwritten.wellFormed hs) keys
    (incrementVersion_pos (metadata.getD .default))
  refine ⟨s', ?_, hwritten.trans heffect, hdel⟩
  unfold Shard.batchMutateEntries Shard.mutateFirst
  rw [if_neg fun h => hne h.1, if_pos hne]
  exact Runs.bind hset (Runs.bind hrun (Runs.pure _ _))

theorem runs_checkVersion (hm : getMetadata s id = .ok metadata) (expected : Option UInt64) :
    Runs c kind (Shard.checkVersion id expected) s (Shard.versionMatches expected (metadata.getD .default)) s := by
  unfold Shard.checkVersion Shard.versionMatches
  cases expected with
  | none => exact Runs.pure _ s
  | some expected =>
    refine Runs.bind (runs_currentVersion hm) ?_
    rw [storedVersion_eq hm]
    by_cases h : (metadata.getD .default).objectVersion = expected
    · simp only [if_pos h]
      exact Runs.pure _ s
    · simp only [if_neg h]
      exact Runs.throw _ s

def deleteOnlyBumps (found : Nat) : Nat := if found = 0 then 0 else found + 1

theorem runs_deleteOnly (hs : WellFormed c s) (hm : getMetadata s id = .ok metadata) (keys : List Str)
    (hv : Shard.versionMatches expected (metadata.getD .default) = .ok ()) :
    ∃ s', Runs c kind (Shard.deleteOnly c cfg id keys expected) s (.ok (storedVersion s' id)) s' ∧ Effect c s s' ∧
      Deleted id keys (deleteOnlyBumps (presentCount id keys s)) s s' := by
  have hcheck := runs_checkVersion (c := c) kind hm expected
  rw [hv] at hcheck
  obtain ⟨s₁, hrun, heffect, hdel⟩ := runs_deleteExisting kind cfg id hs keys
  obtain ⟨metadata₁, hm₁⟩ := getMetadata_of_wellFormed (heffect.wellFormed hs) id
  unfold deleteOnlyBumps
  by_cases hfound : presentCount id keys s = 0
  · rw [hfound] at hrun hdel ⊢
    exact ⟨s₁, Runs.bind hcheck (Runs.bind hrun (runs_currentVersion hm₁)), heffect, hdel⟩
  · have htrue : decide (0 < presentCount id keys s) = true := decide_eq_true (Nat.pos_of_ne_zero hfound)
    rw [htrue] at hrun
    rw [if_neg hfound]
    have hall := hdel.trans (Deleted.bump hm₁)
    rw [append_nil] at hall
    have henc : (metadata₁.getD .default).Encodable := encodable_getMetadata hm₁
    refine ⟨bump id metadata₁ s₁, ?_, heffect.bump henc, hall⟩
    rw [bump, storedVersion_putMetadata henc.incrementVersion]
    exact Runs.bind hcheck (Runs.bind hrun (Runs.bind (runs_bumpVersion hm₁) (Runs.pure _ _)))

theorem runs_batchMutateEntries_deletes (hs : WellFormed c s) (hm : getMetadata s id = .ok metadata)
    (hnil : values.toList = []) (hkeys : keys ≠ [])
    (hv : Shard.versionMatches expected (metadata.getD .default) = .ok ()) :
    ∃ s', Runs c kind (Shard.batchMutateEntries c cfg id values keys expected) s (.ok (storedVersion s' id)) s' ∧
      Effect c s s' ∧ Deleted id keys (deleteOnlyBumps (presentCount id keys s)) s s' := by
  obtain ⟨s₁, hfirst, heffect, hdel⟩ := runs_deleteOnly kind cfg hs hm keys hv
  have hprog : Runs c kind (Shard.mutateFirst c cfg id values keys expected) s (.ok (storedVersion s₁ id)) s₁ := by
    rw [Shard.mutateFirst, if_neg (not_not.2 hnil)]
    exact hfirst
  unfold Shard.batchMutateEntries
  rw [if_neg fun h => hkeys h.2]
  by_cases hpos : 0 < storedVersion s₁ id
  · obtain ⟨s', hrun, heffect', hdel'⟩ := runs_deletesAfter kind cfg id (heffect.wellFormed hs) keys hpos
    rw [presentCount_deleted hdel] at hdel'
    have hsame : storedVersion s' id = storedVersion s₁ id := by
      rw [← UInt64.toNat_inj, hdel'.version]
      exact min_eq_left (toNat_le_maxVersion _)
    have hall := hdel.trans hdel'
    refine ⟨s', ?_, heffect.trans heffect', fun k hk => by simpa using hall.get k hk, hall.version⟩
    rw [hsame]
    exact Runs.bind hprog (Runs.bind hrun (Runs.pure _ _))
  · have hskip : Runs c kind (Shard.deletesAfter c cfg id keys (storedVersion s₁ id)) s₁ (.ok ()) s₁ := by
      rw [Shard.deletesAfter, if_neg fun h => hpos h.2]
      exact Runs.pure _ _
    exact ⟨s₁, Runs.bind hprog (Runs.bind hskip (Runs.pure _ _)), heffect, hdel⟩

theorem runs_batchMutateEntries_empty (hm : getMetadata s id = .ok metadata) (hnil : values.toList = [])
    (expected : Option UInt64) :
    Runs c kind (Shard.batchMutateEntries c cfg id values [] expected) s (.ok (storedVersion s id)) s := by
  unfold Shard.batchMutateEntries
  rw [if_pos ⟨hnil, rfl⟩]
  exact runs_currentVersion hm

theorem runs_batchMutateEntries_mismatch (hm : getMetadata s id = .ok metadata)
    (hne : ¬ (values.toList = [] ∧ keys = [])) {e : Fault}
    (hv : Shard.versionMatches expected (metadata.getD .default) = .error e) :
    Runs c kind (Shard.batchMutateEntries c cfg id values keys expected) s (.error e) s := by
  unfold Shard.batchMutateEntries
  rw [if_neg hne]
  refine Runs.bind_error ?_
  unfold Shard.mutateFirst
  by_cases hnil : values.toList = []
  · rw [if_neg (not_not.2 hnil)]
    have hcheck := runs_checkVersion (c := c) kind hm expected
    rw [hv] at hcheck
    exact Runs.bind_error hcheck
  · rw [if_pos hnil]
    have hset : Runs c kind (Shard.batchSetEntries c cfg id values expected) s _ _ := runs_batchSetEntries hm values expected
    rwa [batchOutcome, batchStore, if_neg hnil, if_neg hnil, hv] at hset

/-! ## The Zenoh path -/

variable {kind cfg}

def Replaced (c : Codec Ev) (id : ObjectId) (values : List (Str × ObjectVal)) (keys : List Str) (s s' : Store) : Prop :=
  ∀ k, k ≠ buildMetadataKey id → s'.get k =
    if k ∈ keys.map (buildEntryKey id) then none else (s.insertMany (entryRecords c id values)).get k

structure Mutated (c : Codec Ev) (id : ObjectId) (values : List (Str × ObjectVal)) (keys : List Str) (bumps : Nat)
    (s s' : Store) : Prop where
  get : Replaced c id values keys s s'
  version : (storedVersion s' id).toNat = min ((storedVersion s id).toNat + bumps) maxVersion

theorem Mutated.refl (c : Codec Ev) (id : ObjectId) (s : Store) : Mutated c id [] [] 0 s s where
  get _ _ := by simp [entryRecords]
  version := (Deleted.refl id s).version

namespace BatchSetHandler

variable {sets : List (Str × ObjectVal)} {n : Node}

theorem operations_plain (id : Str) (sets : List (Str × ObjectVal)) (keys : List Str) (m : ObjectMetadata) :
    ∀ op ∈ operations c id sets keys m, op.Plain := by
  intro op hop
  simp only [operations, mem_append, mem_map] at hop
  rcases hop with (⟨e, _, rfl⟩ | ⟨key, _, rfl⟩) | hop
  · exact trivial
  · exact trivial
  · obtain ⟨_, rfl⟩ : _ ∧ op = _ := by simpa using hop
    exact trivial

theorem onStoreAll_writes (sets : List (Str × ObjectVal)) (s : Store) :
    Operation.onStoreAll (sets.map fun e => .write (buildEntryKey id e.1) (c.encodeVal e.2) false) s =
      s.insertMany (entryRecords c id sets) := by
  simp only [Operation.onStoreAll, insertMany, entryRecords, foldl_map]
  rfl

theorem deleted_onStoreAll (keys : List Str) (s : Store) :
    Deleted id keys 0 s (Operation.onStoreAll (keys.map fun key => .delete (buildEntryKey id key)) s) := by
  induction keys generalizing s with
  | nil => exact Deleted.refl id s
  | cons key keys ih => exact (Deleted.erase key).trans (ih (s.erase (buildEntryKey id key)))

def bumps (sets : List (Str × ObjectVal)) (keys : List Str) : Nat :=
  (if sets ≠ [] then 1 else 0) + if keys ≠ [] then 1 else 0

theorem encodable_bumped (sets : List (Str × ObjectVal)) (keys : List Str) {m : ObjectMetadata} (hm : m.Encodable) :
    (bumped sets keys m).Encodable := by
  unfold bumped
  split <;> split
  · exact hm.incrementVersion.incrementVersion
  · exact hm.incrementVersion
  · exact hm.incrementVersion
  · exact hm

theorem toNat_bumped (sets : List (Str × ObjectVal)) (keys : List Str) (m : ObjectMetadata) :
    (bumped sets keys m).objectVersion.toNat = min (m.objectVersion.toNat + bumps sets keys) maxVersion := by
  have hle := toNat_le_maxVersion m.objectVersion
  unfold bumped bumps
  split <;> split <;> simp only [toNat_incrementVersion] <;> omega

theorem replicateReadValue_eq (kind : ReplicationKind) (key : Bytes) (n : Node) :
    replicateReadValue kind key n = (.ok (n.app.get key), n) := by
  rw [replicateReadValue, replicateRead_read]
  rfl

theorem decodeMetadata_eq (hm : getMetadata s id = .ok metadata) :
    decodeMetadata (s.get (buildMetadataKey id)) = .ok (metadata.getD .default) := by
  unfold getMetadata at hm
  unfold decodeMetadata
  cases hraw : s.get (buildMetadataKey id) with
  | none =>
    rw [hraw] at hm
    cases hm
    rfl
  | some value =>
    rw [hraw] at hm
    dsimp only at hm ⊢
    cases hdec : ObjectMetadata.fromBytes value with
    | none =>
      rw [hdec] at hm
      cases hm
    | some m =>
      rw [hdec] at hm
      cases hm
      rfl

theorem checkVersion_true (expected : Option UInt64) (m : ObjectMetadata) :
    ((∃ version ∈ expected, m.objectVersion ≠ version) ∧
        (∃ e, checkVersion true expected m = .error e) ∧ ∃ f, Shard.versionMatches expected m = .error f) ∨
      ((∀ version ∈ expected, m.objectVersion = version) ∧
        checkVersion true expected m = .ok () ∧ Shard.versionMatches expected m = .ok ()) := by
  unfold checkVersion Shard.versionMatches
  cases expected with
  | none => simp
  | some expected => by_cases h : m.objectVersion = expected <;> simp [h]

theorem mutate_empty (hm : getMetadata n.app id = .ok metadata) (expected : Option UInt64) :
    mutate c kind id [] [] expected n = (.ok (), n) := by
  rw [mutate, replicateReadValue_eq]
  simp only [decodeMetadata_eq hm]
  rfl

theorem mutate_mismatch (hm : getMetadata n.app id = .ok metadata) (hne : sets ≠ [] ∨ keys ≠ []) {e : Bytes}
    (hv : checkVersion true expected (metadata.getD .default) = .error e) :
    mutate c kind id sets keys expected n = (.error e, n) := by
  rw [mutate, replicateReadValue_eq]
  simp only [decodeMetadata_eq hm, decide_eq_true hne, hv]

theorem mutate_spec (hf : n.faults = []) (hm : getMetadata n.app id = .ok metadata) (hne : sets ≠ [] ∨ keys ≠ [])
    (hv : checkVersion true expected (metadata.getD .default) = .ok ()) :
    ∃ n', mutate c kind id sets keys expected n = (.ok (), n') ∧
      Mutated c id sets keys (bumps sets keys) n.app n'.app := by
  obtain ⟨n', hrun, happ, _⟩ :=
    replicateWrite_batch_plain kind (operations_plain (c := c) id sets keys (metadata.getD .default)) hf
  have hdel : Deleted id keys 0 (n.app.insertMany (entryRecords c id sets)) _ := deleted_onStoreAll keys _
  have hstore : n'.app =
      (Operation.onStoreAll (keys.map fun key => .delete (buildEntryKey id key))
        (n.app.insertMany (entryRecords c id sets))).insert (buildMetadataKey id)
          (bumped sets keys (metadata.getD .default)).toBytes := by
    rw [happ, operations, if_pos hne, Operation.onStoreAll, foldl_append, foldl_append,
      ← onStoreAll_writes]
    rfl
  refine ⟨n', ?_, fun k hk => ?_, ?_⟩
  · have hops : operations c id sets keys (metadata.getD .default) ≠ [] := by
      rw [operations, if_pos hne]
      exact append_ne_nil_of_right_ne_nil _ (cons_ne_nil _ _)
    rw [mutate, replicateReadValue_eq]
    simp only [decodeMetadata_eq hm, decide_eq_true hne, hv, if_neg hops, replicateWriteOperation, hrun]
    rfl
  · rw [hstore, get_insert_of_ne _ _ hk.symm]
    exact hdel.get k hk
  · rw [hstore, storedVersion_putMetadata (encodable_bumped sets keys (encodable_getMetadata hm)), toNat_bumped,
      storedVersion_eq hm]

end BatchSetHandler

/-! ## Agreement -/

def SameObject (id : ObjectId) (s s' : Store) : Prop :=
  (∀ (id' : ObjectId) (key : Str), s.get (buildEntryKey id' key) = s'.get (buildEntryKey id' key)) ∧
    storedVersion s id = storedVersion s' id

/-- Both paths fail without changing storage, or both succeed and leave the same object. -/
def PathsAgree (c : Codec Ev) (kind : ReplicationKind) (cfg : ShardConfig) (hash : HashMaps) (maxLen : Nat)
    (id : ObjectId) (req : SentTwice) (sh : Shard Ev) : Prop :=
  let grpc := grpcBatchSetValues c kind cfg hash maxLen id req.grpc sh
  let zenoh := BatchSetHandler.handle c kind maxLen id req.zenoh sh.node
  (∃ e e', grpc.1 = .error e ∧ zenoh.1 = .error e' ∧ grpc.2.node.app = sh.node.app ∧ zenoh.2.app = sh.node.app) ∨
    (grpc.1 = .ok () ∧ zenoh.1 = .ok () ∧ SameObject id grpc.2.node.app zenoh.2.app)

/-- The two versions come out the same: no deletes; entries to set and exactly one entry to delete; or the
version is so high that the additions saturate. `found` counts the entries there are to delete. -/
def SameVersion (sets : List (Str × ObjectVal)) (deletes : List Str) (version found : Nat) : Prop :=
  deletes = [] ∨
    (sets ≠ [] ∧ (found = 1 ∨ maxVersion ≤ version + 1 ∨ (maxVersion = version + 2 ∧ 1 ≤ found))) ∨
    (sets = [] ∧ (version = maxVersion ∨ (version + 1 = maxVersion ∧ 1 ≤ found)))

def foundCount (id : Str) (sets : List (Str × ObjectVal)) (deletes : List Str) (s : Store) : Nat :=
  (deletes.toFinset.filter fun key =>
    key ∈ sets.map Prod.fst ∨ (s.get (buildEntryKey id key)).isSome = true).card

def SameValues (sets sets' : List (Str × ObjectVal)) (deletes : List Str) : Prop :=
  ∀ key ∉ deletes, (OrdMap.empty.insertMany sets).get key = (OrdMap.empty.insertMany sets').get key

def Agreeing (maxLen : Nat) (id : ObjectId) (req : SentTwice) (s : Store) : Prop :=
  ¬ req.grpc.Normalizes maxLen ∨
    (req.grpc.sets maxLen = [] ∧ req.grpc.deletes maxLen = []) ∨
    (∃ expected ∈ req.grpc.expectedObjectVersion, storedVersion s id ≠ expected) ∨
    (SameValues (req.grpc.sets maxLen) (req.zenoh.sets maxLen) (req.grpc.deletes maxLen) ∧
      SameVersion (req.grpc.sets maxLen) (req.grpc.deletes maxLen) (storedVersion s id).toNat
        (foundCount id (req.grpc.sets maxLen) (req.grpc.deletes maxLen) s))

def Accepted (maxLen : Nat) (id : ObjectId) (req : BatchSetValuesRequest) (s : Store) : Prop :=
  req.Normalizes maxLen ∧
    ((req.sets maxLen = [] ∧ req.deletes maxLen = []) ∨
      ∀ expected ∈ req.expectedObjectVersion, storedVersion s id = expected)

/-! ### Entries -/

variable (sets : List (Str × ObjectVal))

theorem get_insertMany_entryRecords (s : Store) (m : OrdMap Str ObjectVal) (s₀ : Store) (key : Str)
    (h : s.get (buildEntryKey id key) = ((m.get key).map c.encodeVal).or (s₀.get (buildEntryKey id key))) :
    (s.insertMany (entryRecords c id sets)).get (buildEntryKey id key) =
      (((m.insertMany sets).get key).map c.encodeVal).or (s₀.get (buildEntryKey id key)) := by
  induction sets generalizing s m with
  | nil => exact h
  | cons e sets ih =>
    refine ih (s.insert (buildEntryKey id e.1) (c.encodeVal e.2)) (m.insert e.1 e.2) ?_
    rw [get_insert, get_insert]
    by_cases hk : e.1 = key
    · simp [hk]
    · rw [if_neg hk, if_neg fun heq => hk (entryKey_inj heq)]
      exact h

theorem get_entry_after_sets (s : Store) (key : Str) :
    (s.insertMany (entryRecords c id sets)).get (buildEntryKey id key) =
      (((empty.insertMany sets).get key).map c.encodeVal).or (s.get (buildEntryKey id key)) :=
  get_insertMany_entryRecords sets s empty s key (by simp)

theorem get_other_after_sets (s : Store) {k : Bytes} (h : ∀ key, k ≠ buildEntryKey id key) :
    (s.insertMany (entryRecords c id sets)).get k = s.get k := by
  refine get_insertMany_of_notMem s fun hmem => ?_
  obtain ⟨e, _, he⟩ : ∃ e ∈ sets, buildEntryKey id e.1 = k := by simpa [entryRecords] using hmem
  exact h e.1 he.symm

end

section
variable {β : Type}

theorem get_insertMany_ne_none_iff (l : List (Str × β)) (key : Str) :
    (empty.insertMany l).get key ≠ none ↔ key ∈ l.map Prod.fst := by
  rw [ne_eq, get_insertMany_eq_none]
  simp

theorem get_insertMany_of_nodup {l : List (Str × β)} (h : (l.map Prod.fst).Nodup) {key : Str} {v : β} :
    (empty.insertMany l).get key = some v ↔ (key, v) ∈ l :=
  ⟨fun hget => (get_insertMany_eq_some _ hget).resolve_right (by simp), get_insertMany_of_mem _ h⟩

end

theorem HashMaps.get_collect (hash : HashMaps) (pairs : List (Str × ObjectVal)) (key : Str) :
    (empty.insertMany (hash.collect pairs).toList).get key = (empty.insertMany pairs).get key := by
  refine Option.ext fun v => ?_
  rw [get_insertMany_of_nodup (hash.collect pairs).nodupKeys, (hash.collect_perm pairs).mem_iff, ← get_eq_some]

theorem HashMaps.collect_eq_nil_iff (hash : HashMaps) (pairs : List (Str × ObjectVal)) :
    (hash.collect pairs).toList = [] ↔ pairs = [] := by
  constructor
  · intro hnil
    cases pairs with
    | nil => rfl
    | cons e pairs =>
      have hne := (get_insertMany_ne_none_iff (e :: pairs) e.1).2 (by simp)
      rw [← hash.get_collect, hnil] at hne
      exact absurd rfl hne
  · rintro rfl
    exact perm_nil.1 (hash.collect_perm [])

section
variable {Ev : Type} {c : Codec Ev} {kind : ReplicationKind} {cfg : ShardConfig} {s : Store} {id : ObjectId}

theorem codec_encodeVal_inj {v w : ObjectVal} (h : c.encodeVal v = c.encodeVal w) : v = w :=
  Option.some.inj (by rw [← c.decodeVal_encodeVal v, h, c.decodeVal_encodeVal])

theorem sameEntries_iff_sameValues {values values' : List (Str × ObjectVal)} {deletes : List Str} {gs zs : Store}
    (hkeys : ∀ key, key ∈ values.map Prod.fst ↔ key ∈ values'.map Prod.fst)
    (hg : Replaced c id values deletes s gs) (hz : Replaced c id values' deletes s zs) :
    (∀ (id' : ObjectId) (key : Str), gs.get (buildEntryKey id' key) = zs.get (buildEntryKey id' key)) ↔
      SameValues values values' deletes := by
  constructor
  · intro hsame key hkey
    have hnotMem : buildEntryKey id key ∉ deletes.map (buildEntryKey id) := by rwa [mem_map_entryKey]
    have heq := hsame id key
    rw [hg _ (metaKey_ne_entryKey id key).symm, hz _ (metaKey_ne_entryKey id key).symm, if_neg hnotMem,
      if_neg hnotMem, get_entry_after_sets, get_entry_after_sets] at heq
    have hboth : (empty.insertMany values).get key ≠ none ↔ (empty.insertMany values').get key ≠ none := by
      rw [get_insertMany_ne_none_iff, get_insertMany_ne_none_iff, hkeys]
    cases hv : (empty.insertMany values).get key with
    | none => exact (not_ne_iff.1 (mt hboth.2 (not_ne_iff.2 hv))).symm
    | some v =>
      obtain ⟨w, hw⟩ := Option.ne_none_iff_exists'.1 (hboth.1 (hv ▸ Option.some_ne_none v))
      rw [hv, hw] at heq
      rw [hw, codec_encodeVal_inj (Option.some.inj heq)]
  · intro hsame id' key
    have hne : buildEntryKey id' key ≠ buildMetadataKey id := entryKey_ne_metaKey id id' key
    rw [hg _ hne, hz _ hne]
    by_cases hmem : buildEntryKey id' key ∈ deletes.map (buildEntryKey id)
    · rw [if_pos hmem, if_pos hmem]
    · rw [if_neg hmem, if_neg hmem]
      by_cases hown : ∃ key', buildEntryKey id' key = buildEntryKey id key'
      · obtain ⟨key', heq⟩ := hown
        have hkey' : key' ∉ deletes := fun hin => hmem (heq ▸ mem_map_of_mem hin)
        rw [heq, get_entry_after_sets, get_entry_after_sets, hsame key' hkey']
      · rw [get_other_after_sets _ _ fun key' heq => hown ⟨key', heq⟩,
          get_other_after_sets _ _ fun key' heq => hown ⟨key', heq⟩]

theorem presentCount_batchWritten {sets values : List (Str × ObjectVal)}
    (hvalues : ∀ key, (empty.insertMany values).get key = (empty.insertMany sets).get key)
    (metadata : Option ObjectMetadata) (deletes : List Str) :
    presentCount id deletes (batchWritten c id metadata values s) = foundCount id sets deletes s := by
  unfold presentCount foundCount
  congr 1
  refine Finset.filter_congr fun key _ => ?_
  rw [get_entry_batchWritten, get_entry_after_sets, hvalues, ← get_insertMany_ne_none_iff]
  cases (empty.insertMany sets).get key <;> simp

theorem foundCount_nil (deletes : List Str) : foundCount id [] deletes s = presentCount id deletes s := by
  unfold foundCount presentCount
  simp

variable {metadata : Option ObjectMetadata} {sets : List (Str × ObjectVal)} {deletes : List Str}
  {expected : Option UInt64}

def grpcBumps (sets : List (Str × ObjectVal)) (found : Nat) : Nat :=
  if sets ≠ [] then 1 + found else deleteOnlyBumps found

theorem runs_batchMutateEntries (kind : ReplicationKind) (cfg : ShardConfig) (hash : HashMaps) (hs : WellFormed c s)
    (hm : getMetadata s id = .ok metadata) (hne : ¬ (sets = [] ∧ deletes = []))
    (hv : Shard.versionMatches expected (metadata.getD .default) = .ok ()) :
    ∃ version s', Runs c kind (Shard.batchMutateEntries c cfg id (hash.collect sets) deletes expected) s
        (.ok version) s' ∧
      Mutated c id (hash.collect sets).toList deletes (grpcBumps sets (foundCount id sets deletes s)) s s' := by
  by_cases hsets : sets = []
  · have hnil := (hash.collect_eq_nil_iff sets).2 hsets
    obtain ⟨s', hrun, _, hdel⟩ := runs_batchMutateEntries_deletes kind cfg hs hm hnil (fun h => hne ⟨hsets, h⟩) hv
    refine ⟨_, s', hrun, fun k hk => ?_, ?_⟩
    · rw [hnil]
      exact hdel.get k hk
    · rw [hdel.version, grpcBumps, if_neg (not_not.2 hsets), hsets, foundCount_nil]
  · obtain ⟨s', hrun, _, hdel⟩ :=
      runs_batchMutateEntries_sets kind cfg hs hm (mt (hash.collect_eq_nil_iff sets).1 hsets) deletes hv
    have henc : (metadata.getD .default).Encodable := encodable_getMetadata hm
    refine ⟨_, s', hrun, fun k hk => ?_, ?_⟩
    · rw [hdel.get k hk, batchWritten, Shard.batchRecords, insertMany_append, insertMany_cons,
        insertMany_nil, get_insert_of_ne _ _ hk.symm]
      rfl
    · have hwritten : (storedVersion (batchWritten c id metadata (hash.collect sets).toList s) id).toNat =
          min ((storedVersion s id).toNat + 1) maxVersion := by
        rw [storedVersion_eq (getMetadata_batchWritten henc _), Option.getD_some, toNat_incrementVersion,
          storedVersion_eq hm]
      rw [hdel.version, presentCount_batchWritten (hash.get_collect sets), hwritten, grpcBumps, if_pos hsets]
      omega

theorem sameVersion_iff {version found : Nat} (hle : version ≤ maxVersion) (hfound : deletes = [] → found = 0) :
    min (version + grpcBumps sets found) maxVersion =
        min (version + BatchSetHandler.bumps sets deletes) maxVersion ↔
      SameVersion sets deletes version found := by
  unfold grpcBumps BatchSetHandler.bumps SameVersion deleteOnlyBumps
  by_cases hdeletes : deletes = []
  · by_cases hsets : sets = [] <;> simp [hdeletes, hfound hdeletes, hsets]
  · by_cases hsets : sets = []
    · simp only [hsets, hdeletes, ne_eq, not_true_eq_false, not_false_eq_true, if_true, if_false, false_or, false_and,
        true_and]
      split <;> omega
    · simp only [hsets, hdeletes, ne_eq, not_false_eq_true, if_true, false_or, false_and, true_and, or_false]
      omega

/-! ### The paths of a request -/

section
variable {hash : HashMaps} {maxLen : Nat} {sh : Shard Ev} {req : BatchSetValuesRequest} {n : Node}

theorem grpcBatchSetValues_of_runs (hnorm : req.Normalizes maxLen) (hf : sh.node.faults = []) {out : Result UInt64}
    {s' : Store} (hrun : Runs c kind (Shard.batchMutateEntries c cfg id (hash.collect (req.sets maxLen))
      (req.deletes maxLen) req.expectedObjectVersion) sh.node.app out s') :
    ∃ sh', sh'.node.app = s' ∧ grpcBatchSetValues c kind cfg hash maxLen id req sh =
      ((out.map fun _ => ()).mapError GrpcError.shard, sh') := by
  obtain ⟨sh', hsh, happ, _⟩ := hrun sh rfl hf
  refine ⟨sh', happ, ?_⟩
  rw [grpcBatchSetValues, req.normalizeSets_of_normalizes hnorm, req.normalizeDeletes_of_normalizes hnorm]
  simp only [hsh]
  cases out <;> rfl

theorem grpcBatchSetValues_of_not_normalizes (h : ¬ req.Normalizes maxLen) :
    ∃ e, grpcBatchSetValues c kind cfg hash maxLen id req sh = (.error e, sh) := by
  unfold grpcBatchSetValues
  rcases req.rejected_of_not_normalizes h (fun _ e => mapNormalizationError e)
    (fun _ e => mapNormalizationError e) with ⟨e, he⟩ | ⟨⟨sets, hsets⟩, e, he⟩
  · exact ⟨e, by rw [he]⟩
  · exact ⟨e, by rw [hsets, he]⟩

theorem handle_of_not_normalizes (h : ¬ req.Normalizes maxLen) (n : Node) :
    ∃ e, BatchSetHandler.handle c kind maxLen id req n = (.error e, n) := by
  unfold BatchSetHandler.handle
  rcases req.rejected_of_not_normalizes h BatchSetHandler.rejectEntryKey BatchSetHandler.rejectDeleteKey with
    ⟨e, he⟩ | ⟨⟨sets, hsets⟩, e, he⟩
  · exact ⟨e, by rw [he]⟩
  · exact ⟨e, by rw [hsets, he]⟩

theorem accepted_iff_version (hm : getMetadata s id = .ok metadata) (hnorm : req.Normalizes maxLen)
    (hne : ¬ (req.sets maxLen = [] ∧ req.deletes maxLen = [])) : Accepted maxLen id req s ↔
      ∀ expected ∈ req.expectedObjectVersion, (metadata.getD .default).objectVersion = expected := by
  simp only [Accepted, hnorm, hne, true_and, false_or, storedVersion_eq hm]

theorem grpcBatchSetValues_cases (kind : ReplicationKind) (cfg : ShardConfig) (maxLen : Nat) (id : ObjectId)
    (hsh : sh.Sound c) (hash : HashMaps) (req : BatchSetValuesRequest) :
    (Accepted maxLen id req sh.node.app ∧ ∃ sh', grpcBatchSetValues c kind cfg hash maxLen id req sh = (.ok (), sh') ∧
        Mutated c id (hash.collect (req.sets maxLen)).toList (req.deletes maxLen)
          (grpcBumps (req.sets maxLen) (foundCount id (req.sets maxLen) (req.deletes maxLen) sh.node.app))
          sh.node.app sh'.node.app) ∨
      (¬ Accepted maxLen id req sh.node.app ∧ ∃ e sh',
        grpcBatchSetValues c kind cfg hash maxLen id req sh = (.error e, sh') ∧ sh'.node.app = sh.node.app) := by
  obtain ⟨metadata, hm⟩ := getMetadata_of_wellFormed hsh.wf id
  by_cases hnorm : req.Normalizes maxLen
  swap
  · obtain ⟨e, he⟩ : ∃ e, grpcBatchSetValues c kind cfg hash maxLen id req sh = (.error e, sh) :=
      grpcBatchSetValues_of_not_normalizes hnorm
    exact .inr ⟨fun hacc => hnorm hacc.1, e, sh, he, rfl⟩
  by_cases hempty : req.sets maxLen = [] ∧ req.deletes maxLen = []
  · have hnil := (hash.collect_eq_nil_iff (req.sets maxLen)).2 hempty.1
    have hrun := runs_batchMutateEntries_empty (c := c) kind cfg hm hnil req.expectedObjectVersion
    rw [← hempty.2] at hrun
    obtain ⟨sh', happ, hcall⟩ := grpcBatchSetValues_of_runs hnorm hsh.healthy hrun
    refine .inl ⟨⟨hnorm, .inl hempty⟩, sh', hcall, ?_⟩
    rw [happ, hnil, hempty.1, hempty.2]
    exact .refl c id sh.node.app
  rw [accepted_iff_version hm hnorm hempty]
  rcases BatchSetHandler.checkVersion_true req.expectedObjectVersion (metadata.getD .default) with
    ⟨hmismatch, _, f, hf⟩ | ⟨hmatch, _, hv⟩
  · have hrun := runs_batchMutateEntries_mismatch (c := c) kind cfg hm
      (fun h => hempty ⟨(hash.collect_eq_nil_iff _).1 h.1, h.2⟩) hf
    obtain ⟨sh', happ, hcall⟩ := grpcBatchSetValues_of_runs hnorm hsh.healthy hrun
    exact .inr ⟨by simpa using hmismatch, _, sh', hcall, happ⟩
  · obtain ⟨version, s', hrun, hmutated⟩ := runs_batchMutateEntries kind cfg hash hsh.wf hm hempty hv
    obtain ⟨sh', rfl, hcall⟩ := grpcBatchSetValues_of_runs hnorm hsh.healthy hrun
    exact .inl ⟨hmatch, sh', hcall, hmutated⟩

theorem handle_cases (kind : ReplicationKind) (maxLen : Nat) (id : ObjectId) (hwf : WellFormed c n.app)
    (hf : n.faults = []) (req : BatchSetValuesRequest) :
    (Accepted maxLen id req n.app ∧ ∃ n', BatchSetHandler.handle c kind maxLen id req n = (.ok (), n') ∧
        Mutated c id (req.sets maxLen) (req.deletes maxLen)
          (BatchSetHandler.bumps (req.sets maxLen) (req.deletes maxLen)) n.app n'.app) ∨
      (¬ Accepted maxLen id req n.app ∧ ∃ e, BatchSetHandler.handle c kind maxLen id req n = (.error e, n)) := by
  obtain ⟨metadata, hm⟩ := getMetadata_of_wellFormed hwf id
  by_cases hnorm : req.Normalizes maxLen
  swap
  · exact .inr ⟨fun hacc => hnorm hacc.1, handle_of_not_normalizes hnorm n⟩
  rw [BatchSetHandler.handle, req.normalizeSets_of_normalizes hnorm, req.normalizeDeletes_of_normalizes hnorm]
  by_cases hempty : req.sets maxLen = [] ∧ req.deletes maxLen = []
  · refine .inl ⟨⟨hnorm, .inl hempty⟩, n, ?_⟩
    rw [hempty.1, hempty.2]
    exact ⟨BatchSetHandler.mutate_empty hm _, .refl c id n.app⟩
  have hne : req.sets maxLen ≠ [] ∨ req.deletes maxLen ≠ [] := not_and_or.1 hempty
  rw [accepted_iff_version hm hnorm hempty]
  rcases BatchSetHandler.checkVersion_true req.expectedObjectVersion (metadata.getD .default) with
    ⟨hmismatch, ⟨e, he⟩, _⟩ | ⟨hmatch, hv, _⟩
  · exact .inr ⟨by simpa using hmismatch, e, BatchSetHandler.mutate_mismatch hm hne he⟩
  · obtain ⟨n', hmut, hmutated⟩ := BatchSetHandler.mutate_spec hf hm hne hv
    exact .inl ⟨hmatch, n', hmut, hmutated⟩

theorem accepted_iff {req' : BatchSetValuesRequest} (h : req.Reordered req') :
    Accepted maxLen id req' s ↔ Accepted maxLen id req s := by
  unfold Accepted
  rw [h.normalizes_iff, h.sets_nil_iff, h.deletes_eq, h.expected]

theorem foundCount_no_deletes (sets : List (Str × ObjectVal)) (s : Store) {deletes : List Str} (h : deletes = []) :
    foundCount id sets deletes s = 0 := by
  subst h
  rfl

end

def SameOutcome (maxLen : Nat) (id : ObjectId) (req : SentTwice) (s : Store) : Prop :=
  SameValues (req.grpc.sets maxLen) (req.zenoh.sets maxLen) (req.grpc.deletes maxLen) ∧
    SameVersion (req.grpc.sets maxLen) (req.grpc.deletes maxLen) (storedVersion s id).toNat
      (foundCount id (req.grpc.sets maxLen) (req.grpc.deletes maxLen) s)

theorem sameObject_iff {req : SentTwice} {hash : HashMaps} {maxLen : Nat} {gs zs : Store}
    (hg : Mutated c id (hash.collect (req.grpc.sets maxLen)).toList (req.grpc.deletes maxLen)
      (grpcBumps (req.grpc.sets maxLen) (foundCount id (req.grpc.sets maxLen) (req.grpc.deletes maxLen) s)) s gs)
    (hz : Mutated c id (req.zenoh.sets maxLen) (req.zenoh.deletes maxLen)
      (BatchSetHandler.bumps (req.zenoh.sets maxLen) (req.zenoh.deletes maxLen)) s zs) :
    SameObject id gs zs ↔ SameOutcome maxLen id req s := by
  have hdeletes := req.reordered.deletes_eq maxLen
  have hkeys : ∀ key, key ∈ (hash.collect (req.grpc.sets maxLen)).toList.map Prod.fst ↔
      key ∈ (req.zenoh.sets maxLen).map Prod.fst := by
    intro key
    rw [← get_insertMany_ne_none_iff, hash.get_collect, get_insertMany_ne_none_iff,
      ((req.reordered.sets_perm maxLen).map Prod.fst).mem_iff]
  have hbumps : BatchSetHandler.bumps (req.zenoh.sets maxLen) (req.grpc.deletes maxLen) =
      BatchSetHandler.bumps (req.grpc.sets maxLen) (req.grpc.deletes maxLen) := by
    simp only [BatchSetHandler.bumps, ne_eq, req.reordered.sets_nil_iff]
  rw [hdeletes] at hz
  rw [SameObject, sameEntries_iff_sameValues hkeys hg.get hz.get, ← UInt64.toNat_inj, hg.version, hz.version, hbumps,
    sameVersion_iff (toNat_le_maxVersion _) (foundCount_no_deletes _ _)]
  simp only [SameOutcome, SameValues, hash.get_collect]

theorem agreeing_iff {req : SentTwice} {maxLen : Nat} :
    Agreeing maxLen id req s ↔ (Accepted maxLen id req.grpc s → SameOutcome maxLen id req s) := by
  have hempty : req.grpc.sets maxLen = [] → req.grpc.deletes maxLen = [] → SameOutcome maxLen id req s := by
    intro hsets hdeletes
    rw [SameOutcome, hsets, (req.reordered.sets_nil_iff maxLen).2 hsets]
    exact ⟨fun _ _ => rfl, .inl hdeletes⟩
  have hmismatch : (∃ expected ∈ req.grpc.expectedObjectVersion, storedVersion s id ≠ expected) ↔
      ¬ ∀ expected ∈ req.grpc.expectedObjectVersion, storedVersion s id = expected := by simp
  unfold Agreeing Accepted
  rw [hmismatch, ← SameOutcome]
  tauto

/-- **The two batch paths** agree under `Agreeing`, in every order of iteration. -/
theorem batch_paths_agree_iff (c : Codec Ev) (kind : ReplicationKind) (cfg : ShardConfig) (hash : HashMaps)
    (maxLen : Nat) (id : ObjectId) (req : SentTwice) (sh : Shard Ev) (hsh : sh.Sound c) :
    PathsAgree c kind cfg hash maxLen id req sh ↔ Agreeing maxLen id req sh.node.app := by
  rw [agreeing_iff, PathsAgree]
  rcases grpcBatchSetValues_cases kind cfg maxLen id hsh hash req.grpc with
    ⟨hacc, sh', hgrpc, hg⟩ | ⟨hacc, e, sh', hgrpc, happ⟩
  · rcases handle_cases kind maxLen id hsh.wf hsh.healthy req.zenoh with ⟨_, n', hzenoh, hz⟩ | ⟨hrefused, _⟩
    · simp [hgrpc, hzenoh, hacc, sameObject_iff hg hz]
    · exact absurd ((accepted_iff req.reordered).2 hacc) hrefused
  · rcases handle_cases kind maxLen id hsh.wf hsh.healthy req.zenoh with ⟨hacc', _⟩ | ⟨_, e', hzenoh⟩
    · exact absurd ((accepted_iff req.reordered).1 hacc') hacc
    · simp [hgrpc, hzenoh, hacc, happ]

end

/-! ## A request that deletes one entry -/

namespace OneDelete

open Recreated

def request : BatchSetValuesRequest := ⟨[], [⟨[75], Str.valid_K, Str.short_K⟩], none, List.nodup_nil⟩
def sent : SentTwice := ⟨request, request, .refl _, rfl, rfl⟩
def stored : Shard Unit := Shard.afterAll Postcard.codec .none config [.setObject id input]

/-- Over gRPC the version goes to 3, over Zenoh to 2. -/
theorem batch_paths_disagree :
    storedVersion (grpcBatchSetValues Postcard.codec .none config HashMaps.sorted 160 id request stored).2.node.app id
      = 3 ∧
    storedVersion (BatchSetHandler.handle Postcard.codec .none 160 id request stored.node).2.app id = 2 ∧
    ¬ PathsAgree Postcard.codec .none config HashMaps.sorted 160 id sent stored := by
  have hok : (grpcBatchSetValues Postcard.codec .none config HashMaps.sorted 160 id request stored).1.isOk = true := by
    decide +kernel
  have hgrpc : storedVersion
      (grpcBatchSetValues Postcard.codec .none config HashMaps.sorted 160 id request stored).2.node.app id = 3 := by
    decide +kernel
  have hzenoh : storedVersion (BatchSetHandler.handle Postcard.codec .none 160 id request stored.node).2.app id = 2 := by
    decide +kernel
  refine ⟨hgrpc, hzenoh, ?_⟩
  rintro (⟨e, e', he, _⟩ | ⟨_, _, _, hversion⟩)
  · cases he ▸ hok
  · exact absurd (hgrpc.symm.trans (hversion.trans hzenoh)) (by decide)

theorem batch_paths_agree_iff_sent :
    PathsAgree Postcard.codec .none config HashMaps.sorted 160 id sent stored ↔
      Agreeing 160 id sent stored.node.app :=
  batch_paths_agree_iff Postcard.codec .none config HashMaps.sorted 160 id sent stored
    (afterAll_sound Postcard.codec .none config [.setObject id input])

end OneDelete

end Odgm
