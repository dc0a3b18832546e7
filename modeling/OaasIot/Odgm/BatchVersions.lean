import OaasIot.Odgm.BatchPaths

/-!
# Versions after a batch (`object_api.rs:109-185`)

"Increments once for sets and once for deletes if both occur", and for delete-only batches "only if at least one key
existed and was deleted" (`object_api.rs:14`, `:19`). The deletes go through `delete_entry`, which puts the version up
for each entry it finds.
-/

namespace Odgm

section
variable {Ev : Type} {c : Codec Ev} {kind : ReplicationKind} {cfg : ShardConfig} {s : Store} {sh : Shard Ev}
  {id : ObjectId} {values : ValueMap} {keys : List Str} {expected : Option UInt64}

def ruleBumps (values : ValueMap) (found : Nat) : Nat :=
  (if values.toList = [] then 0 else 1) + if found = 0 then 0 else 1

/-- **The rule** of the module for a batch that returned `version`. -/
structure Accounted (id : Str) (values : ValueMap) (keys : List Str) (s s' : Store) (version : UInt64) : Prop where
  returned : version = storedVersion s' id
  stored : (storedVersion s' id).toNat = (storedVersion s id).toNat + ruleBumps values (foundCount id values.toList keys s)

def KeepsRule (id : Str) (values : ValueMap) (keys : List Str) (expected : Option UInt64) (s : Store) : Prop :=
  ((values.toList ≠ [] ∨ keys ≠ []) ∧ ∃ e ∈ expected, storedVersion s id ≠ e) ∨
    (values.toList ≠ [] ∧ foundCount id values.toList keys s = 0 ∧ (storedVersion s id).toNat < maxVersion) ∨
    (values.toList = [] ∧ (foundCount id values.toList keys s = 0 ∨ (storedVersion s id).toNat + 1 = maxVersion))

theorem accounted_sets_iff {s' : Store} {metadata : Option ObjectMetadata} (hm : getMetadata s id = .ok metadata)
    (hne : values.toList ≠ [])
    (hdel : Deleted id keys (presentCount id keys (batchWritten c id metadata values.toList s))
      (batchWritten c id metadata values.toList s) s') :
    Accounted id values keys s s' (metadata.getD .default).incrementVersion.objectVersion ↔
      foundCount id values.toList keys s = 0 ∧ (storedVersion s id).toNat < maxVersion := by
  have henc : (metadata.getD .default).Encodable := encodable_getMetadata hm
  have hfound : presentCount id keys (batchWritten c id metadata values.toList s) = foundCount id values.toList keys s :=
    presentCount_batchWritten (fun _ => rfl) metadata keys
  have hreturned : (metadata.getD .default).incrementVersion.objectVersion.toNat =
      min ((storedVersion s id).toNat + 1) maxVersion := by
    rw [toNat_incrementVersion, storedVersion_eq hm]
  have hstored : (storedVersion s' id).toNat =
      min ((storedVersion s id).toNat + 1 + foundCount id values.toList keys s) maxVersion := by
    rw [hdel.version, hfound, storedVersion_eq (getMetadata_batchWritten henc _), Option.getD_some, hreturned]
    omega
  have hle := toNat_le_maxVersion (storedVersion s id)
  constructor
  · rintro ⟨hret, hrule⟩
    rw [← UInt64.toNat_inj, hreturned] at hret
    unfold ruleBumps at hrule
    rw [if_neg hne] at hrule
    split at hrule <;> omega
  · rintro ⟨hzero, hlt⟩
    refine ⟨?_, ?_⟩
    · rw [← UInt64.toNat_inj, hreturned, hstored, hzero, Nat.add_zero]
    · rw [hstored, ruleBumps, if_neg hne, hzero, if_pos rfl]
      omega

theorem accounted_deletes_iff {s' : Store} (hnil : values.toList = [])
    (hdel : Deleted id keys (deleteOnlyBumps (presentCount id keys s)) s s') :
    Accounted id values keys s s' (storedVersion s' id) ↔
      foundCount id values.toList keys s = 0 ∨ (storedVersion s id).toNat + 1 = maxVersion := by
  have hstored := hdel.version
  rw [← foundCount_nil, ← hnil] at hstored
  have hle := toNat_le_maxVersion (storedVersion s id)
  unfold deleteOnlyBumps at hstored
  constructor
  · rintro ⟨_, hrule⟩
    rw [ruleBumps, if_pos hnil] at hrule
    split at hrule <;> split at hstored <;> omega
  · intro h
    refine ⟨rfl, ?_⟩
    rw [ruleBumps, if_pos hnil, hstored]
    split <;> omega

/-- **Batch version accounting**: right if no entry that is found is deleted, or saturation hides the extra
increments. -/
theorem batch_version_iff (c : Codec Ev) (kind : ReplicationKind) (cfg : ShardConfig) (sh : Shard Ev)
    (hsh : sh.Sound c) (id : ObjectId) (values : ValueMap) (keys : List Str) (expected : Option UInt64) :
    (∀ version sh', Shard.run c kind (Shard.batchMutateEntries c cfg id values keys expected) sh = (.ok version, sh') →
      Accounted id values keys sh.node.app sh'.node.app version) ↔
      KeepsRule id values keys expected sh.node.app := by
  obtain ⟨metadata, hm⟩ := getMetadata_of_wellFormed hsh.wf id
  -- Every run of the batch ends: what it returns decides.
  have hends : ∀ {version : UInt64} {s' : Store},
      Runs c kind (Shard.batchMutateEntries c cfg id values keys expected) sh.node.app (.ok version) s' →
      ((∀ version sh', Shard.run c kind (Shard.batchMutateEntries c cfg id values keys expected) sh = (.ok version, sh') →
        Accounted id values keys sh.node.app sh'.node.app version) ↔
        Accounted id values keys sh.node.app s' version) := by
    intro version s' hrun
    obtain ⟨sh', hsh', happ, _⟩ := hrun sh rfl hsh.healthy
    rw [hsh', ← happ]
    constructor
    · exact fun h => h version sh' rfl
    · rintro h _ _ ⟨⟩
      exact h
  by_cases hempty : values.toList = [] ∧ keys = []
  · obtain ⟨hnil, rfl⟩ := hempty
    have hzero : foundCount id values.toList [] sh.node.app = 0 := foundCount_no_deletes _ _ rfl
    rw [hends (runs_batchMutateEntries_empty kind cfg hm hnil expected)]
    refine iff_of_true ⟨rfl, ?_⟩ (Or.inr (Or.inr ⟨hnil, Or.inl hzero⟩))
    rw [ruleBumps, if_pos hnil, if_pos hzero]
    rfl
  · have hnonempty : values.toList ≠ [] ∨ keys ≠ [] := by
      by_contra h
      push Not at h
      exact hempty h
    rcases BatchSetHandler.checkVersion_true expected (metadata.getD .default) with
      ⟨hmismatch, _, e, he⟩ | ⟨hmatch, _, hv⟩
    · obtain ⟨sh', hrun, _⟩ := runs_batchMutateEntries_mismatch kind cfg hm hempty he sh rfl hsh.healthy
      refine iff_of_true ?_ (Or.inl ⟨hnonempty, ?_⟩)
      · intro version sh'' hok
        rw [hrun] at hok
        cases hok
      · rw [storedVersion_eq hm]
        exact hmismatch
    · have hpass : ¬ ∃ e ∈ expected, storedVersion sh.node.app id ≠ e := by
        rw [storedVersion_eq hm]
        rintro ⟨e, he, hne⟩
        exact hne (hmatch e he)
      by_cases hnil : values.toList = []
      · obtain ⟨s', hrun, _, hdel⟩ :=
          runs_batchMutateEntries_deletes kind cfg hsh.wf hm hnil (hnonempty.resolve_left (not_not.2 hnil)) hv
        rw [hends hrun, accounted_deletes_iff hnil hdel]
        constructor
        · exact fun h => Or.inr (Or.inr ⟨hnil, h⟩)
        · rintro (⟨_, h⟩ | ⟨h, _⟩ | ⟨_, h⟩)
          · exact absurd h hpass
          · exact absurd hnil h
          · exact h
      · obtain ⟨s', hrun, _, hdel⟩ := runs_batchMutateEntries_sets kind cfg hsh.wf hm hnil keys hv
        rw [hends hrun, accounted_sets_iff hm hnil hdel]
        constructor
        · exact fun h => Or.inr (Or.inl ⟨hnil, h⟩)
        · rintro (⟨_, h⟩ | ⟨_, h⟩ | ⟨h, _⟩)
          · exact absurd h hpass
          · exact h
          · exact absurd h hnil

end

namespace OneDelete

open Recreated

def otherValue : ValueMap := ⟨[(⟨[108], Str.valid_l, Str.short_l⟩, value)], by simp⟩

/-- A deletion alone puts the version up by two; with another entry set, 2 is returned and 3 stored. -/
theorem batch_versions_off :
    storedVersion stored.node.app id = 1 ∧
      (Shard.run Postcard.codec .none (Shard.batchMutateEntries Postcard.codec config id ⟨[], by simp⟩ [key] none)
        stored).1 = .ok 3 ∧
      (Shard.run Postcard.codec .none (Shard.batchMutateEntries Postcard.codec config id otherValue [key] none)
        stored).1 = .ok 2 ∧
      storedVersion (Shard.run Postcard.codec .none
        (Shard.batchMutateEntries Postcard.codec config id otherValue [key] none) stored).2.node.app id = 3 := by
  refine ⟨?_, ?_, ?_, ?_⟩ <;> decide +kernel

theorem batch_version_iff_stored :
    (∀ version sh', Shard.run Postcard.codec .none
        (Shard.batchMutateEntries Postcard.codec config id ⟨[], by simp⟩ [key] none) stored = (.ok version, sh') →
      Accounted id ⟨[], by simp⟩ [key] stored.node.app sh'.node.app version) ↔
      KeepsRule id ⟨[], by simp⟩ [key] none stored.node.app :=
  batch_version_iff Postcard.codec .none config stored
    (afterAll_sound Postcard.codec .none config [.setObject id input]) id ⟨[], by simp⟩ [key] none

end OneDelete

end Odgm
