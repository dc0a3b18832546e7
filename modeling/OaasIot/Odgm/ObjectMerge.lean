import OaasIot.Lib.KeyedMerge
import OaasIot.Lib.Words
import OaasIot.Odgm.Listing

/-!
# Merging objects (`odgm/src/shard/basic.rs:162-304`)

`ObjectData::merge` takes another object in. Bytes go by the time of the whole object, two documents are merged by the
CRDT library, and a key that only the other side has is dropped unless that side is newer: the outcome depends on the
side the call is made on. Of the library the laws in `CrdtLibrary.Lawful` are known.
-/

namespace Odgm

open List OrdMap

/-! ## The library -/

/-- A CRDT library: documents are loaded from bytes, merged and saved. -/
structure CrdtLibrary where
  Doc : Type
  Error : Type
  load : Bytes → Except Error Doc
  merge : Doc → Doc → Except Error Doc
  save : Doc → Bytes
  save_lt : ∀ d, (save d).length < 2 ^ 62

/-- Merging is commutative, associative and idempotent. -/
structure CrdtLibrary.Lawful (lib : CrdtLibrary) : Prop where
  comm : ∀ {d e x}, lib.merge d e = .ok x → lib.merge e d = .ok x
  assoc : ∀ {d e f x y z}, lib.merge d e = .ok x → lib.merge x f = .ok z → lib.merge e f = .ok y → lib.merge d y = .ok z
  idem : ∀ d, lib.merge d d = .ok d

inductive ObjectError (E : Type)
  | crdtError (e : E)

/-! ## Values -/

def CrdtLibrary.mergeBytes (lib : CrdtLibrary) (x y : Bytes) : Except (ObjectError lib.Error) lib.Doc :=
  match lib.load x with
  | .error e => .error (.crdtError e)
  | .ok d₁ =>
    match lib.load y with
    | .error e => .error (.crdtError e)
    | .ok d₂ =>
      match lib.merge d₁ d₂ with
      | .error e => .error (.crdtError e)
      | .ok d => .ok d

/-- The value `v1` afterwards. It is assigned to last, so that a call that fails leaves it as it was. -/
def mergeData (lib : CrdtLibrary) (v1 v2 : ObjectVal) (v2Older : Bool) : Except (ObjectError lib.Error) ObjectVal :=
  match v1.type with
  | .byte => .ok (if v2Older then v2 else v1)
  | .crdtMap =>
    match v2.type with
    | .byte => .ok (if v2Older then v2 else v1)
    | .crdtMap =>
      match lib.mergeBytes v1.data v2.data with
      | .error e => .error e
      | .ok d => .ok ⟨lib.save d, .crdtMap, lib.save_lt d⟩

def mergeAt (lib : CrdtLibrary) (otherIsNewer : Bool) :
    Option ObjectVal → ObjectVal → Except (ObjectError lib.Error) (Option ObjectVal)
  | some v1, v2 =>
    match mergeData lib v1 v2 otherIsNewer with
    | .error e => .error e
    | .ok v => .ok (some v)
  | none, v2 => .ok (if otherIsNewer then some v2 else none)

namespace ObjectData

variable {Ev : Type}

def otherIsNewer (a b : ObjectData Ev) : Bool := decide (a.lastUpdated < b.lastUpdated)

def merge (lib : CrdtLibrary) (a b : ObjectData Ev) : Except (ObjectError lib.Error) Unit × ObjectData Ev :=
  match OrdMap.mergeFrom (mergeAt lib (otherIsNewer a b)) b.entries.toList a.entries with
  | (.error e, entries) => (.error e, { a with entries })
  | (.ok (), entries) =>
    (.ok (), { lastUpdated := if otherIsNewer a b then b.lastUpdated else a.lastUpdated
               entries
               event := if otherIsNewer a b || (a.event.isNone && b.event.isSome) then b.event else a.event })

end ObjectData

section
variable {lib : CrdtLibrary} {Ev : Type} {v w : ObjectVal} {newer : Bool} {a b : ObjectData Ev}

/-! ## Two values -/

def ObjectVal.IsDoc (v : ObjectVal) : Prop := v.type = .crdtMap
instance (v : ObjectVal) : Decidable v.IsDoc := inferInstanceAs (Decidable (_ = _))

def Mergeable (lib : CrdtLibrary) (v w : ObjectVal) : Prop :=
  v.IsDoc → w.IsDoc → ∃ d, lib.mergeBytes v.data w.data = .ok d

theorem mergeData_docs (hv : v.IsDoc) (hw : w.IsDoc) {d : lib.Doc} (hd : lib.mergeBytes v.data w.data = .ok d) :
    mergeData lib v w newer = .ok ⟨lib.save d, .crdtMap, lib.save_lt d⟩ := by
  unfold ObjectVal.IsDoc at hv hw
  simp only [mergeData, hv, hw, hd]

theorem mergeData_bytes (h : ¬ (v.IsDoc ∧ w.IsDoc)) : mergeData lib v w newer = .ok (if newer then w else v) := by
  unfold ObjectVal.IsDoc at h
  unfold mergeData
  cases hv : v.type with
  | byte => rfl
  | crdtMap =>
    cases hw : w.type with
    | byte => rfl
    | crdtMap => exact absurd ⟨hv, hw⟩ h

theorem mergeData_ok_iff (newer : Bool) : (∃ u, mergeData lib v w newer = .ok u) ↔ Mergeable lib v w := by
  by_cases h : v.IsDoc ∧ w.IsDoc
  · obtain ⟨hv, hw⟩ := h
    cases hd : lib.mergeBytes v.data w.data with
    | error e =>
      have herror : mergeData lib v w newer = .error e := by
        unfold ObjectVal.IsDoc at hv hw
        simp only [mergeData, hv, hw, hd]
      simp [Mergeable, herror, hd, hv, hw]
    | ok d =>
      rw [mergeData_docs hv hw hd]
      exact ⟨fun _ _ _ => ⟨d, hd⟩, fun _ => ⟨_, rfl⟩⟩
  · rw [mergeData_bytes h]
    exact ⟨fun _ hv hw => absurd ⟨hv, hw⟩ h, fun _ => ⟨_, rfl⟩⟩

theorem CrdtLibrary.Lawful.mergeBytes_comm (hlib : lib.Lawful) {x y : Bytes} {d : lib.Doc}
    (h : lib.mergeBytes x y = .ok d) : lib.mergeBytes y x = .ok d := by
  unfold CrdtLibrary.mergeBytes at h ⊢
  cases hx : lib.load x with
  | error e => simp [hx] at h
  | ok d₁ =>
    cases hy : lib.load y with
    | error e => simp [hx, hy] at h
    | ok d₂ =>
      cases hm : lib.merge d₁ d₂ with
      | error e => simp [hx, hy, hm] at h
      | ok z =>
        simp only [hx, hy, hm] at h
        cases h
        simp only [hlib.comm hm]

theorem CrdtLibrary.Lawful.mergeable_comm (hlib : lib.Lawful) (h : Mergeable lib v w) : Mergeable lib w v := by
  intro hw hv
  obtain ⟨d, hd⟩ := h hv hw
  exact ⟨d, hlib.mergeBytes_comm hd⟩

/-! ## The loop over the entries -/

theorem mergeAt_ok_iff {v? : Option ObjectVal} :
    (∃ u, mergeAt lib newer v? w = .ok u) ↔ ∀ v, v? = some v → Mergeable lib v w := by
  cases v? with
  | none => simp [mergeAt]
  | some v =>
    simp only [Option.some.injEq, forall_eq']
    rw [← mergeData_ok_iff newer]
    cases h : mergeData lib v w newer with
    | error e | ok u => simp [mergeAt, h]

def MergeablePair (lib : CrdtLibrary) (a b : ObjectData Ev) : Prop :=
  ∀ k v w, a.entries.get k = some v → b.entries.get k = some w → Mergeable lib v w

theorem mergeFrom_entries_ok_iff (newer : Bool) :
    (mergeFrom (mergeAt lib newer) b.entries.toList a.entries).1 = .ok () ↔ MergeablePair lib a b := by
  rw [mergeFrom_ok_iff b.entries.nodup_keys]
  simp only [mergeAt_ok_iff, Prod.forall, ← get_eq_some]
  constructor
  · intro h k v w hv hw
    exact h k w hw v hv
  · intro h k w hw v hv
    exact h k v w hv hw

theorem merge_ok_iff : (a.merge lib b).1 = .ok () ↔ MergeablePair lib a b := by
  rw [← mergeFrom_entries_ok_iff (a.otherIsNewer b)]
  unfold ObjectData.merge
  rcases mergeFrom (mergeAt lib (a.otherIsNewer b)) b.entries.toList a.entries with ⟨_ | ⟨⟨⟩⟩, entries⟩
  · simp
  · simp

def mergedEntry (lib : CrdtLibrary) (newer : Bool) : Option ObjectVal → Option ObjectVal → Option ObjectVal
  | v?, none => v?
  | none, some w => if newer then some w else none
  | some v, some w =>
    match mergeData lib v w newer with
    | .error _ => some v
    | .ok u => some u

theorem merge_eq (h : MergeablePair lib a b) :
    ∃ entries, (∀ k, entries.get k = mergedEntry lib (a.otherIsNewer b) (a.entries.get k) (b.entries.get k)) ∧
      a.merge lib b = (.ok (), ⟨if a.otherIsNewer b then b.lastUpdated else a.lastUpdated, entries,
        if a.otherIsNewer b || (a.event.isNone && b.event.isSome) then b.event else a.event⟩) := by
  have hok := (mergeFrom_entries_ok_iff (a.otherIsNewer b)).2 h
  have hget : ∀ k, (mergeFrom (mergeAt lib (a.otherIsNewer b)) b.entries.toList a.entries).2.get k =
      mergedEntry lib (a.otherIsNewer b) (a.entries.get k) (b.entries.get k) := by
    intro k
    cases hb : b.entries.get k with
    | none =>
      have hnot : k ∉ b.entries.toList.map Prod.fst := by
        intro hmem
        obtain ⟨⟨_, w⟩, hw, rfl⟩ := mem_map.1 hmem
        rw [get_eq_some.2 hw] at hb
        cases hb
      rw [get_mergeFrom_of_notMem hnot]
      cases a.entries.get k <;> rfl
    | some w =>
      obtain ⟨u, hu, hmerged⟩ := get_mergeFrom b.entries.nodup_keys hok (get_eq_some.1 hb)
      rw [hmerged]
      cases ha : a.entries.get k with
      | none =>
        rw [ha] at hu
        cases hu
        simp [mergedEntry]
      | some v =>
        rw [ha] at hu
        cases hd : mergeData lib v w (a.otherIsNewer b) with
        | error e => simp [mergeAt, hd] at hu
        | ok x =>
          simp only [mergeAt, hd] at hu
          cases hu
          simp [mergedEntry, hd]
  refine ⟨_, hget, ?_⟩
  unfold ObjectData.merge
  rcases hrun : mergeFrom (mergeAt lib (a.otherIsNewer b)) b.entries.toList a.entries with ⟨_ | ⟨⟨⟩⟩, entries⟩
  · rw [hrun] at hok
    cases hok
  · rfl

/-! ## Two sides -/

/-- Both calls come through or neither does. If they do, both objects have the same entries, event and time, and every
key that either had. -/
def MergesAlike (lib : CrdtLibrary) (a b : ObjectData Ev) : Prop :=
  ((a.merge lib b).1 = .ok () ↔ (b.merge lib a).1 = .ok ()) ∧
    ((a.merge lib b).1 = .ok () →
      (a.merge lib b).2.entries = (b.merge lib a).2.entries ∧ (a.merge lib b).2.event = (b.merge lib a).2.event ∧
        (a.merge lib b).2.lastUpdated = (b.merge lib a).2.lastUpdated ∧
        ∀ k, a.entries.get k ≠ none ∨ b.entries.get k ≠ none → (a.merge lib b).2.entries.get k ≠ none)

/-- The older object brings no key and no event of its own; two of the same time differ in documents only. -/
structure Agreeable (a b : ObjectData Ev) : Prop where
  keys : ∀ k, a.entries.get k ≠ none → b.lastUpdated < a.lastUpdated ∨ b.entries.get k ≠ none
  keys' : ∀ k, b.entries.get k ≠ none → a.lastUpdated < b.lastUpdated ∨ a.entries.get k ≠ none
  values : a.lastUpdated = b.lastUpdated →
    ∀ k v w, a.entries.get k = some v → b.entries.get k = some w → v.IsDoc ∧ w.IsDoc ∨ v = w
  event : a.lastUpdated < b.lastUpdated → b.event = none → a.event = none
  event' : b.lastUpdated < a.lastUpdated → a.event = none → b.event = none
  events : a.lastUpdated = b.lastUpdated → a.event = b.event ∨ a.event = none ∨ b.event = none

theorem mergedEntry_comm_iff (hlib : lib.Lawful) (hmerge : Mergeable lib v w) :
    mergedEntry lib (a.otherIsNewer b) (some v) (some w) = mergedEntry lib (b.otherIsNewer a) (some w) (some v) ↔
      (a.lastUpdated = b.lastUpdated → v.IsDoc ∧ w.IsDoc ∨ v = w) := by
  by_cases hdocs : v.IsDoc ∧ w.IsDoc
  · obtain ⟨d, hd⟩ := hmerge hdocs.1 hdocs.2
    simp only [mergedEntry, mergeData_docs hdocs.1 hdocs.2 hd, mergeData_docs hdocs.2 hdocs.1 (hlib.mergeBytes_comm hd),
      hdocs, and_self, true_or, implies_true]
  · have hdocs' : ¬ (w.IsDoc ∧ v.IsDoc) := fun h => hdocs h.symm
    simp only [mergedEntry, mergeData_bytes hdocs, mergeData_bytes hdocs', ObjectData.otherIsNewer, hdocs, false_or,
      Option.some.injEq, decide_eq_true_eq]
    rcases lt_trichotomy a.lastUpdated b.lastUpdated with hlt | heq | hgt
    · simp [hlt, hlt.not_gt, hlt.ne]
    · simp [heq]
    · simp [hgt, hgt.not_gt, hgt.ne']

theorem mergedEntries_comm_iff (hlib : lib.Lawful) (hmerge : MergeablePair lib a b) :
    (∀ k, mergedEntry lib (a.otherIsNewer b) (a.entries.get k) (b.entries.get k) =
        mergedEntry lib (b.otherIsNewer a) (b.entries.get k) (a.entries.get k)) ↔
      (∀ k, a.entries.get k ≠ none → b.lastUpdated < a.lastUpdated ∨ b.entries.get k ≠ none) ∧
      (∀ k, b.entries.get k ≠ none → a.lastUpdated < b.lastUpdated ∨ a.entries.get k ≠ none) ∧
      (a.lastUpdated = b.lastUpdated →
        ∀ k v w, a.entries.get k = some v → b.entries.get k = some w → v.IsDoc ∧ w.IsDoc ∨ v = w) := by
  have hkey : ∀ k, mergedEntry lib (a.otherIsNewer b) (a.entries.get k) (b.entries.get k) =
        mergedEntry lib (b.otherIsNewer a) (b.entries.get k) (a.entries.get k) ↔
      (a.entries.get k ≠ none → b.lastUpdated < a.lastUpdated ∨ b.entries.get k ≠ none) ∧
      (b.entries.get k ≠ none → a.lastUpdated < b.lastUpdated ∨ a.entries.get k ≠ none) ∧
      (a.lastUpdated = b.lastUpdated →
        ∀ v w, a.entries.get k = some v → b.entries.get k = some w → v.IsDoc ∧ w.IsDoc ∨ v = w) := by
    intro k
    cases ha : a.entries.get k with
    | none =>
      cases hb : b.entries.get k with
      | none => simp [mergedEntry]
      | some w => simp [mergedEntry, ObjectData.otherIsNewer]
    | some v =>
      cases hb : b.entries.get k with
      | none => simp [mergedEntry, ObjectData.otherIsNewer, eq_comm]
      | some w =>
        rw [mergedEntry_comm_iff hlib (hmerge k v w ha hb)]
        simp
  rw [forall_congr' hkey]
  constructor
  · intro h
    exact ⟨fun k => (h k).1, fun k => (h k).2.1, fun heq k => (h k).2.2 heq⟩
  · rintro ⟨h₁, h₂, h₃⟩ k
    exact ⟨h₁ k, h₂ k, fun heq => h₃ heq k⟩

theorem mergedEvent_comm_iff :
    (if a.otherIsNewer b || (a.event.isNone && b.event.isSome) then b.event else a.event) =
        (if b.otherIsNewer a || (b.event.isNone && a.event.isSome) then a.event else b.event) ↔
      (a.lastUpdated < b.lastUpdated → b.event = none → a.event = none) ∧
      (b.lastUpdated < a.lastUpdated → a.event = none → b.event = none) ∧
      (a.lastUpdated = b.lastUpdated → a.event = b.event ∨ a.event = none ∨ b.event = none) := by
  unfold ObjectData.otherIsNewer
  rcases lt_trichotomy a.lastUpdated b.lastUpdated with hlt | heq | hgt
  · cases ha : a.event <;> cases hb : b.event <;> simp [hlt, hlt.not_gt, hlt.ne]
  · cases ha : a.event <;> cases hb : b.event <;> simp [heq]
  · cases ha : a.event <;> cases hb : b.event <;> simp [hgt, hgt.not_gt, hgt.ne']

theorem mergedTime_comm :
    (if a.otherIsNewer b then b.lastUpdated else a.lastUpdated) =
      if b.otherIsNewer a then a.lastUpdated else b.lastUpdated := by
  unfold ObjectData.otherIsNewer
  rcases lt_trichotomy a.lastUpdated b.lastUpdated with hlt | heq | hgt
  · simp [hlt, hlt.not_gt]
  · simp [heq]
  · simp [hgt, hgt.not_gt]

theorem mergesAlike_iff (hlib : lib.Lawful) (a b : ObjectData Ev) :
    MergesAlike lib a b ↔ (MergeablePair lib a b → Agreeable a b) := by
  have hsym : MergeablePair lib a b ↔ MergeablePair lib b a := by
    constructor
    · intro h k w v hw hv
      exact hlib.mergeable_comm (h k v w hv hw)
    · intro h k v w hv hw
      exact hlib.mergeable_comm (h k w v hw hv)
  unfold MergesAlike
  rw [merge_ok_iff, merge_ok_iff, ← hsym, and_iff_right Iff.rfl]
  refine imp_congr_right fun hmerge => ?_
  obtain ⟨left, hleft, hab⟩ := merge_eq hmerge
  obtain ⟨right, hright, hba⟩ := merge_eq (hsym.1 hmerge)
  have hentries : left = right ↔ ∀ k, mergedEntry lib (a.otherIsNewer b) (a.entries.get k) (b.entries.get k) =
      mergedEntry lib (b.otherIsNewer a) (b.entries.get k) (a.entries.get k) := by
    simp only [← hleft, ← hright]
    exact ⟨fun h k => by rw [h], ext_get⟩
  rw [hab, hba]
  simp only
  rw [hentries, mergedEntries_comm_iff hlib hmerge, mergedEvent_comm_iff]
  constructor
  · rintro ⟨⟨h₁, h₂, h₃⟩, ⟨h₄, h₅, h₆⟩, _, _⟩
    exact ⟨h₁, h₂, h₃, h₄, h₅, h₆⟩
  · rintro ⟨h₁, h₂, h₃, h₄, h₅, h₆⟩
    refine ⟨⟨h₁, h₂, h₃⟩, ⟨h₄, h₅, h₆⟩, mergedTime_comm, ?_⟩
    intro k hk
    rw [hleft]
    cases ha : a.entries.get k with
    | none =>
      obtain ⟨w, hw⟩ := Option.ne_none_iff_exists'.1 (hk.resolve_left (not_not_intro ha))
      have hnewer : a.lastUpdated < b.lastUpdated :=
        (h₂ k (by simp [hw])).resolve_right (not_not_intro ha)
      simp [hw, mergedEntry, ObjectData.otherIsNewer, hnewer]
    | some v =>
      cases b.entries.get k with
      | none => simp [mergedEntry]
      | some w =>
        simp only [mergedEntry]
        cases mergeData lib v w (a.otherIsNewer b) <;> simp

/-! ## What a merge leaves unchanged -/

def Keeps (lib : CrdtLibrary) (newer : Bool) (v? : Option ObjectVal) (w : ObjectVal) : Prop :=
  match v? with
  | none => newer = false
  | some v => mergeData lib v w newer = .ok v

def mergedInto (lib : CrdtLibrary) (a b : ObjectData Ev) : List (Str × ObjectVal) :=
  OrdMap.mergedPart (mergeAt lib (a.otherIsNewer b)) b.entries.toList a.entries

theorem entries_unchanged_iff :
    (mergeFrom (mergeAt lib (a.otherIsNewer b)) b.entries.toList a.entries).2 = a.entries ↔
      ∀ e ∈ mergedInto lib a b, Keeps lib (a.otherIsNewer b) (a.entries.get e.1) e.2 := by
  rw [mergeFrom_unchanged_iff b.entries.nodup_keys]
  refine forall₂_congr fun e he => ?_
  have hok := mem_takeWhile_imp he
  cases ha : a.entries.get e.1 with
  | none =>
    cases a.otherIsNewer b <;> simp [mergeAt, Keeps]
  | some v =>
    rw [ha] at hok
    cases hd : mergeData lib v e.2 (a.otherIsNewer b) with
    | error err => simp [mergeAt, hd, Except.isOk, Except.toBool] at hok
    | ok u => simp [mergeAt, Keeps, hd]

def UnchangedBySelf (lib : CrdtLibrary) (a : ObjectData Ev) : Prop := (a.merge lib a).2 = a
def Saved (lib : CrdtLibrary) (v : ObjectVal) : Prop := v.IsDoc → ∀ d, lib.load v.data = .ok d → lib.save d = v.data

theorem keeps_self_iff (hlib : lib.Lawful) (hmerge : Mergeable lib v v) :
    Keeps lib false (some v) v ↔ Saved lib v := by
  change mergeData lib v v false = .ok v ↔ _
  unfold Saved
  by_cases hdoc : v.IsDoc
  · obtain ⟨d, hd⟩ := hmerge hdoc hdoc
    have hload : lib.load v.data = .ok d := by
      unfold CrdtLibrary.mergeBytes at hd
      cases hl : lib.load v.data with
      | error e => simp [hl] at hd
      | ok d' =>
        simp only [hl, hlib.idem d'] at hd
        rw [Except.ok.inj hd]
    rw [mergeData_docs hdoc hdoc hd]
    simp only [hdoc, hload, Except.ok.injEq, forall_eq', forall_const]
    obtain ⟨data, type, hlen⟩ := v
    obtain rfl : type = .crdtMap := hdoc
    simp
  · rw [mergeData_bytes fun h => hdoc h.1]
    simp [hdoc]

theorem unchangedBySelf_iff (hlib : lib.Lawful) (a : ObjectData Ev) :
    UnchangedBySelf lib a ↔ ∀ e ∈ mergedInto lib a a, Saved lib e.2 := by
  have hnewer : a.otherIsNewer a = false := by simp [ObjectData.otherIsNewer]
  have hkeeps : (∀ e ∈ mergedInto lib a a, Keeps lib (a.otherIsNewer a) (a.entries.get e.1) e.2) ↔
      ∀ e ∈ mergedInto lib a a, Saved lib e.2 := by
    refine forall₂_congr fun e he => ?_
    have hmem : a.entries.get e.1 = some e.2 := get_eq_some.2 ((takeWhile_sublist _).mem he)
    have hmerge : Mergeable lib e.2 e.2 := by
      have hok := mem_takeWhile_imp he
      rw [hmem] at hok
      refine (mergeData_ok_iff (a.otherIsNewer a)).1 ?_
      cases hd : mergeData lib e.2 e.2 (a.otherIsNewer a) with
      | error err => simp [mergeAt, hd, Except.isOk, Except.toBool] at hok
      | ok u => exact ⟨u, rfl⟩
    rw [hmem, hnewer, keeps_self_iff hlib hmerge]
  rw [← hkeeps, ← entries_unchanged_iff]
  unfold UnchangedBySelf ObjectData.merge
  obtain ⟨time, entries, event⟩ := a
  rcases mergeFrom (mergeAt lib (ObjectData.otherIsNewer ⟨time, entries, event⟩ ⟨time, entries, event⟩))
    entries.toList entries with ⟨_ | ⟨⟨⟩⟩, entries'⟩
  · simp
  · simp [hnewer]

/-- **Merging converges** for agreeable objects whose documents are stored as the library saves them. -/
theorem merge_converges_iff (lib : CrdtLibrary) (hlib : lib.Lawful) (a b : ObjectData Ev) :
    MergesAlike lib a b ∧ UnchangedBySelf lib a ↔
      (MergeablePair lib a b → Agreeable a b) ∧ ∀ e ∈ mergedInto lib a a, Saved lib e.2 := by
  rw [mergesAlike_iff hlib, unchangedBySelf_iff hlib]

/-! ## Failures -/

def FailsCleanly (lib : CrdtLibrary) (a b : ObjectData Ev) : Prop :=
  ∀ e a', a.merge lib b = (.error e, a') → a' = a

/-- **A merge fails cleanly** if all entries in front of the bad document leave theirs as they are. -/
theorem merge_fails_cleanly_iff (lib : CrdtLibrary) (a b : ObjectData Ev) :
    FailsCleanly lib a b ↔
      (¬ MergeablePair lib a b →
        ∀ e ∈ mergedInto lib a b, Keeps lib (a.otherIsNewer b) (a.entries.get e.1) e.2) := by
  unfold FailsCleanly
  rw [← merge_ok_iff, ← entries_unchanged_iff]
  unfold ObjectData.merge
  rcases mergeFrom (mergeAt lib (a.otherIsNewer b)) b.entries.toList a.entries with ⟨e | ⟨⟨⟩⟩, entries⟩
  · simp only [reduceCtorEq, not_false_eq_true, forall_const, Prod.mk.injEq, Except.error.injEq, and_imp]
    constructor
    · intro h
      exact congrArg ObjectData.entries (h e _ rfl rfl)
    · rintro rfl _ _ _ rfl
      rfl
  · simp

end

/-! ## Documents of eight bits -/

namespace TwoSides

def bits : CrdtLibrary where
  Doc := UInt8
  Error := Unit
  load
    | [b] => .ok b
    | _ => .error ()
  merge d e := .ok (d ||| e)
  save d := [d]
  save_lt _ := by simp

theorem bits_lawful : bits.Lawful where
  comm := by
    rintro d e x h
    rw [← Except.ok.inj h]
    exact congrArg _ (UInt8.or_comm e d)
  assoc := by
    rintro d e f x y z hx hz hy
    rw [← Except.ok.inj hz, ← Except.ok.inj hx, ← Except.ok.inj hy]
    exact congrArg _ (UInt8.or_assoc d e f).symm
  idem := fun _ => congrArg _ UInt8.or_self

def first : Str := ⟨[97], by decide, by decide⟩
def second : Str := ⟨[98], by decide, by decide⟩

def raw (data : UInt8) : ObjectVal := ⟨[data], .byte, by simp⟩
def doc (data : UInt8) : ObjectVal := ⟨[data], .crdtMap, by simp⟩

def object (time : UInt64) (entries : List (Str × ObjectVal)) : ObjectData Unit :=
  ⟨time, .insertMany .empty entries, none⟩

theorem get_object (time : UInt64) (v w : ObjectVal) (k : Str) :
    (object time [(first, v), (second, w)]).entries.get k =
      if second = k then some w else if first = k then some v else none := by
  simp only [object, insertMany_cons, insertMany_nil, get_insert]
  rfl

theorem merge_converges_test :
    MergesAlike bits (object 1 [(first, raw 1), (second, doc 1)]) (object 2 [(first, raw 2), (second, doc 2)]) ∧
      UnchangedBySelf bits (object 1 [(first, raw 1), (second, doc 1)]) := by
  refine (merge_converges_iff bits bits_lawful _ _).2 ⟨?_, ?_⟩
  · intro _
    refine ⟨?_, ?_, ?_, ?_, ?_, ?_⟩
    · intro k hk
      right
      rw [get_object] at hk ⊢
      by_cases hsecond : second = k
      · simp [hsecond]
      · by_cases hfirst : first = k
        · simp [hsecond, hfirst]
        · simp [hsecond, hfirst] at hk
    · intro k _
      exact .inl (by decide)
    · intro heq
      exact absurd heq (by decide)
    · intro _ _
      rfl
    · intro _ _
      rfl
    · intro _
      exact .inl rfl
  · intro e he hdoc d hd
    have hmem : e ∈ [(first, raw 1), (second, doc 1)] := (takeWhile_sublist _).mem he
    rcases mem_cons.1 hmem with rfl | hmem
    · cases hdoc
    · obtain rfl := mem_singleton.1 hmem
      obtain rfl := Except.ok.inj hd
      rfl

/-- Merged into the newer object, the key of the older one is gone. -/
theorem merge_drops_older_key :
    ((object 1 [(first, raw 1)]).merge bits (object 2 [(second, raw 2)])).2.entries.get first = some (raw 1) ∧
      ((object 2 [(second, raw 2)]).merge bits (object 1 [(first, raw 1)])).2.entries.get first = none ∧
      ¬ MergesAlike bits (object 1 [(first, raw 1)]) (object 2 [(second, raw 2)]) := by
  have hkept : ((object 1 [(first, raw 1)]).merge bits (object 2 [(second, raw 2)])).2.entries.get first =
      some (raw 1) := rfl
  have hgone : ((object 2 [(second, raw 2)]).merge bits (object 1 [(first, raw 1)])).2.entries.get first = none := rfl
  refine ⟨hkept, hgone, ?_⟩
  rintro ⟨_, halike⟩
  rw [(halike rfl).1, hgone] at hkept
  cases hkept

/-- When the second document fails, the first entry has its new value. -/
theorem merge_fails_halfway :
    ((object 1 [(first, raw 1), (second, doc 1)]).merge bits
        (object 2 [(first, raw 2), (second, ⟨[], .crdtMap, by decide⟩)])).1 = .error (.crdtError ()) ∧
      ((object 1 [(first, raw 1), (second, doc 1)]).merge bits
        (object 2 [(first, raw 2), (second, ⟨[], .crdtMap, by decide⟩)])).2.entries.get first = some (raw 2) ∧
      ¬ FailsCleanly bits (object 1 [(first, raw 1), (second, doc 1)])
        (object 2 [(first, raw 2), (second, ⟨[], .crdtMap, by decide⟩)]) := by
  refine ⟨rfl, rfl, fun h => ?_⟩
  have hsame := congrArg (fun o => o.entries.get first) (h (.crdtError ()) _ rfl)
  exact absurd hsame (by decide)

end TwoSides

end Odgm
