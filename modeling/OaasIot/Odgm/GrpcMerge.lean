import OaasIot.Odgm.GrpcObjects
import OaasIot.Odgm.ObjectMerge

/-!
# `merge` and `get` of the data service (`grpc_service/data.rs:146-190`, `:328-379`)

`merge` merges the request into the object, stores the outcome and answers it from memory. But an event configuration is
only ever written: a request without one that is newer takes it away from the answer, and leaves it in the store.
-/

namespace Odgm

open OrdMap

/-! ## The calls -/

structure ObjectResponse (Ev : Type) where
  objectId : Str
  entries : OrdMap Str ValData
  event : Option Ev

/-- As `set` fails, with `NotFound`, or with `CRDT merge failed: ` and the error. -/
inductive ObjectAnswerError (E : Type)
  | call (e : ObjectCallError)
  | notFound (message : String)
  | mergeFailed (e : ObjectError E)

section
variable {Ev : Type}

def ObjectData.toResponse (object : ObjectData Ev) (id : Str) : ObjectResponse Ev :=
  ⟨id, object.entries.mapWithKey fun _ value => value.intoVal, object.event⟩

def mergedObject (lib : CrdtLibrary) (found : Option (ObjectData Ev)) (new : ObjectData Ev) :
    Except (ObjectError lib.Error) (ObjectData Ev) :=
  match found with
  | none => .ok new
  | some existing =>
    match existing.merge lib new with
    | (.error e, _) => .error e
    | (.ok (), merged) => .ok merged

namespace DataService

variable (svc : DataService) (c : Codec Ev) (kind : ReplicationKind) (cfg : ShardConfig)

def merge (lib : CrdtLibrary) (hash : HashMaps) (now : UInt64) (req : SetObjectRequest Ev) (sh : Shard Ev) :
    Except (ObjectAnswerError lib.Error) (ObjectResponse Ev) × Shard Ev :=
  match svc.buildIdentityFromString (req.objectId.getD Str.empty) with
  | .error e => (.error (.call e), sh)
  | .ok id =>
    match req.object with
    | none => (.error (.call (.status (.invalidArgument "object must not be none"))), sh)
    | some raw =>
      if !svc.enableStringEntryKeys ∧ raw.entries ≠ [] then
        (.error (.call (.unimplemented "string entry keys feature disabled")), sh)
      else
        match Shard.run c kind (Shard.getObject cfg id) sh with
        | (.error f, sh₁) => (.error (.call (.status (.shard f))), sh₁)
        | (.ok found, sh₁) =>
          match mergedObject lib found (.ofObjData now raw) with
          | .error e => (.error (.mergeFailed e), sh₁)
          | .ok merged =>
            match Shard.run c kind (Shard.internalSetObject c cfg id (hash.input merged)) sh₁ with
            | (.error f, sh₂) => (.error (.call (.status (.shard f))), sh₂)
            | (.ok (), sh₂) => (.ok (merged.toResponse id), sh₂)

def readObject (prefetchLimit : Nat) (id : Str) : ShardM Ev (Option (ObjectData Ev)) := do
  match ← Shard.reconstructCall id prefetchLimit with
  | .ok object => pure object
  | .error e => throw e

def get (E : Type) (prefetchLimit : Nat) (objectId : Option Str) (sh : Shard Ev) :
    Except (ObjectAnswerError E) (ObjectResponse Ev) × Shard Ev :=
  match svc.buildIdentityFromString (objectId.getD Str.empty) with
  | .error e => (.error (.call e), sh)
  | .ok id =>
    match Shard.run c kind (readObject prefetchLimit id) sh with
    | (.error f, sh₁) => (.error (.call (.status (.shard f))), sh₁)
    | (.ok none, sh₁) => (.error (.notFound "object not found"), sh₁)
    | (.ok (some object), sh₁) => (.ok (object.toResponse id), sh₁)

end DataService

end

section
variable {Ev : Type} {c : Codec Ev} {kind : ReplicationKind} {cfg : ShardConfig} {s : Store} {sh sh' : Shard Ev}
  {svc : DataService} {lib : CrdtLibrary} {E : Type}

/-! ## Reading -/

theorem run_readObject (limit : Nat) (id : Str) (sh : Shard Ev) :
    Shard.run c kind (DataService.readObject limit id) sh =
      (reconstructObjectFromEntries c sh.node.app id limit, sh) :=
  run_reconstruct _ _ _

theorem intoVal_injective : Function.Injective ObjectVal.intoVal := by
  intro v w h
  have hv := (intoVal_eq_iff.1 h).2
  have hw := (intoVal_eq_iff.1 (rfl : w.intoVal = w.intoVal)).2
  exact hv.trans hw.symm

variable {id : Str}

theorem toResponse_entries_eq_iff {a b : ObjectData Ev} {id' : Str} :
    (a.toResponse id).entries = (b.toResponse id').entries ↔ a.entries = b.entries := by
  constructor
  · intro h
    apply ext_get
    intro k
    have hk := congrArg (get · k) h
    simp only [ObjectData.toResponse, get_mapWithKey] at hk
    exact Option.map_injective intoVal_injective hk
  · intro h
    rw [ObjectData.toResponse, ObjectData.toResponse, h]

variable {id : ObjectId}

theorem get_eq_iff {objectId : Option Str} (hid : svc.buildIdentityFromString (objectId.getD Str.empty) = .ok id.str)
    (limit : Nat) (object : ObjectData Ev) :
    (∃ read, (svc.get c kind E limit objectId sh).1 = .ok read ∧ read.entries = (object.toResponse id).entries ∧
        read.event = (object.toResponse id).event) ↔
      ∃ read, reconstructObjectFromEntries c sh.node.app id limit = .ok (some read) ∧ read.entries = object.entries ∧
        read.event = object.event := by
  simp only [DataService.get, hid, run_readObject]
  rcases reconstructObjectFromEntries c sh.node.app id limit with f | (_ | found)
  · simp
  · simp
  · simp only [Except.ok.injEq, Option.some.injEq, exists_eq_left', toResponse_entries_eq_iff]
    exact Iff.rfl

/-! ## The outcome in memory -/

variable {merged new : ObjectData Ev}

theorem mergedObject_some {existing : ObjectData Ev} (h : mergedObject lib (some existing) new = .ok merged) :
    (∀ k, merged.entries.get k =
        mergedEntry lib (existing.otherIsNewer new) (existing.entries.get k) (new.entries.get k)) ∧
      merged.event = if existing.otherIsNewer new || (existing.event.isNone && new.event.isSome) then new.event
        else existing.event := by
  unfold mergedObject at h
  by_cases hok : MergeablePair lib existing new
  · obtain ⟨entries, hget, hmerge⟩ := merge_eq hok
    simp only [hmerge] at h
    cases h
    exact ⟨hget, rfl⟩
  · rw [← merge_ok_iff] at hok
    rcases hmerge : existing.merge lib new with ⟨_ | ⟨⟨⟩⟩, merged'⟩
    · simp [hmerge] at h
    · exact absurd (by rw [hmerge]) hok

theorem mergedObject_covers {existing : ObjectData Ev} (h : mergedObject lib (some existing) new = .ok merged)
    {k : Str} (hk : existing.entries.get k ≠ none) : merged.entries.get k ≠ none := by
  rw [(mergedObject_some h).1 k]
  obtain ⟨v, hv⟩ := Option.ne_none_iff_exists'.1 hk
  rw [hv]
  cases new.entries.get k with
  | none => simp [mergedEntry]
  | some w =>
    simp only [mergedEntry]
    cases mergeData lib v w (existing.otherIsNewer new) <;> simp

/-- The configuration stored before stays what is answered: there is none, the request brings one, or the object that was
read is not older than the request. -/
def EventAnswered (c : Codec Ev) (s : Store) (id : Str) (found : Option (ObjectData Ev)) (new : ObjectData Ev) : Prop :=
  getEventConfig c s id = none ∨ new.event ≠ none ∨
    ∃ existing, found = some existing ∧ ¬ existing.lastUpdated < new.lastUpdated

variable {found : Option (ObjectData Ev)}

theorem event_answered_iff {id : Str} (hfound : ∀ existing, found = some existing → existing.event = getEventConfig c s id)
    (h : mergedObject lib found new = .ok merged) :
    merged.event.or (getEventConfig c s id) = merged.event ↔ EventAnswered c s id found new := by
  unfold EventAnswered
  have hor : merged.event.or (getEventConfig c s id) = merged.event ↔
      getEventConfig c s id = none ∨ merged.event ≠ none := by
    cases merged.event <;> cases getEventConfig c s id <;> simp
  rw [hor]
  cases hf : found with
  | none =>
    rw [hf] at h
    cases h
    simp
  | some existing =>
    rw [hf] at h
    have hevent := (mergedObject_some h).2
    rw [hfound existing hf] at hevent
    simp only [Option.some.injEq, exists_eq_left', hevent, ObjectData.otherIsNewer]
    by_cases hlt : existing.lastUpdated < new.lastUpdated
    · simp [hlt]
    · cases getEventConfig c s id <;> cases new.event <;> simp [hlt]

/-! ## What is read back -/

theorem reconstruct_eq_iff (hs : WellFormed c s) (id : ObjectId) (limit : Nat) (object : ObjectData Ev) :
    (∃ read, reconstructObjectFromEntries c s id limit = .ok (some read) ∧ read.entries = object.entries ∧
        read.event = object.event) ↔
      (limit ≠ 0 ∧ object.entries.toList.length ≤ maxPages * pageSize limit) ∧ NotTombstoned s id ∧
        (getMetadata s id ≠ .ok none ∨ object.entries.toList ≠ []) ∧ entryMap c s id = object.entries ∧
        getEventConfig c s id = object.event := by
  obtain ⟨metadata, hm⟩ := getMetadata_of_wellFormed hs id
  rw [notTombstoned_iff hm, hm, ne_eq (Except.ok metadata), Except.ok.injEq]
  constructor
  · rintro ⟨read, hread, hentries, hevent⟩
    obtain ⟨hlimit, hle, hfound⟩ := reconstructObject_ok hs id hread hm
    obtain ⟨hsame, hkept⟩ := reconstructed_eq_some hfound.symm
    have hlive : reconstructed metadata (entryMap c s id) (getEventConfig c s id) ≠ none := by simp [← hfound]
    obtain ⟨htomb, hsome⟩ := reconstructed_ne_none_iff.1 hlive
    rw [← length_entryMap hs, ← hsame, hentries] at hle
    rw [← hsame, hentries] at hsome
    exact ⟨⟨hlimit, hle⟩, htomb, hsome, hsame.symm.trans hentries, hkept.symm.trans hevent⟩
  · rintro ⟨⟨hlimit, hle⟩, htomb, hsome, hentries, hevent⟩
    rw [← hentries] at hle hsome
    have hlive : reconstructed metadata (entryMap c s id) (getEventConfig c s id) ≠ none :=
      reconstructed_ne_none_iff.2 ⟨htomb, hsome⟩
    obtain ⟨read, hread⟩ := Option.ne_none_iff_exists'.1 hlive
    obtain ⟨hsame, hkept⟩ := reconstructed_eq_some hread
    rw [length_entryMap hs id] at hle
    refine ⟨read, ?_, hsame.trans hentries, hkept.trans hevent⟩
    rw [reconstructObject_eq hs id hlimit hle hm, hread]

/-! ## Reading what was merged -/

theorem DataService.merge_ok {id : Str} {hash : HashMaps} {now : UInt64} {req : SetObjectRequest Ev} {raw : ObjData Ev}
    (hobj : req.object = some raw) (hid : svc.buildIdentityFromString (req.objectId.getD Str.empty) = .ok id)
    {response : ObjectResponse Ev} (h : svc.merge c kind cfg lib hash now req sh = (.ok response, sh')) :
    ∃ found merged, reconstructObjectFromEntries c sh.node.app id cfg.granularPrefetchLimit = .ok found ∧
      mergedObject lib found (.ofObjData now raw) = .ok merged ∧ response = merged.toResponse id ∧
      Returned c kind (Shard.internalSetObject c cfg id (hash.input merged)) sh () sh' := by
  simp only [DataService.merge, hid, hobj, run_getObject] at h
  split at h
  · cases h
  · split at h
    · cases h
    · rename_i found sh₁ hfound
      obtain ⟨hfound, hsh⟩ := Prod.mk.inj hfound
      rw [← hsh] at h
      split at h
      · cases h
      · rename_i merged hmerged
        split at h
        · cases h
        · rename_i sh₂ hset
          cases h
          exact ⟨found, merged, hfound, hmerged, rfl, hset⟩

/-- When a `get` behind a `merge` answers the same; `found` was read, `merged` is the outcome in memory. -/
structure StoredAsAnswered (c : Codec Ev) (s : Store) (id : Str) (faults : List (Option StorageError))
    (hash : HashMaps) (limit : Nat) (found : Option (ObjectData Ev)) (new merged : ObjectData Ev) : Prop where
  /-- The limit of the service allows for the pages. -/
  pages : limit ≠ 0 ∧ merged.entries.toList.length ≤ maxPages * pageSize limit
  /-- The object was not deleted before. -/
  live : NotTombstoned s id
  /-- There was an object, or the request brings an entry. -/
  given : found ≠ none ∨ new.entries.toList ≠ []
  event : EventAnswered c s id found new
  /-- What a failed put of a Raft batch left out was stored already. -/
  puts : ∀ e ∈ (hash.input merged).kv.toList.drop
      (landedCount (batchFaults merged.event faults) (hash.input merged).kv.toList),
    getEntry c s id e.1 = .ok (some e.2)

theorem stored_covered (hs : WellFormed c s) (hlive : NotTombstoned s id) {limit : Nat}
    (hfound : reconstructObjectFromEntries c s id limit = .ok found)
    (hmerged : mergedObject lib found new = .ok merged) (key : Str) (hkey : Stored s id key) :
    merged.entries.get key ≠ none := by
  obtain ⟨metadata, hm⟩ := getMetadata_of_wellFormed hs id
  have hrec := (reconstructObject_ok hs id hfound hm).2.2
  rw [stored_iff_entryMap hs] at hkey
  cases hf : found with
  | none =>
    -- Only an object without entries is not found.
    have hne : (entryMap c s id).toList ≠ [] := by
      obtain ⟨v, hv⟩ := Option.ne_none_iff_exists'.1 hkey
      exact List.ne_nil_of_mem (get_eq_some.1 hv)
    have hsome : found ≠ none := by
      rw [hrec, reconstructed_ne_none_iff]
      exact ⟨(notTombstoned_iff hm).1 hlive, .inr hne⟩
    exact absurd hf hsome
  | some existing =>
    rw [hf] at hmerged hrec
    rw [← (reconstructed_eq_some hrec.symm).1] at hkey
    exact mergedObject_covers hmerged hkey

theorem object_given_iff {s' : Store} (hs : WellFormed c s) (hlive : NotTombstoned s id) {limit : Nat}
    (hfound : reconstructObjectFromEntries c s id limit = .ok found)
    (hmerged : mergedObject lib found new = .ok merged) {hash : HashMaps} {faults : List (Option StorageError)}
    (hstored : ObjectStored c id (hash.input merged) faults s s') :
    (getMetadata s' id ≠ .ok none ∨ merged.entries.toList ≠ []) ↔ found ≠ none ∨ new.entries.toList ≠ [] := by
  obtain ⟨metadata, hm⟩ := getMetadata_of_wellFormed hs id
  have hrec := (reconstructObject_ok hs id hfound hm).2.2
  have hcovers : ∀ key, Stored s id key → merged.entries.get key ≠ none := stored_covered hs hlive hfound hmerged
  have hsome : found ≠ none ↔ metadata ≠ none ∨ (entryMap c s id).toList ≠ [] := by
    rw [hrec, reconstructed_ne_none_iff]
    exact and_iff_right ((notTombstoned_iff hm).1 hlive)
  by_cases hf : found = none
  · have hnone : metadata = none := by_contra fun h => hsome.2 (.inl h) hf
    rw [hf] at hmerged
    obtain rfl : new = merged := Except.ok.inj hmerged
    rw [hnone] at hm
    constructor
    · rintro (hmeta | hne)
      · refine .inr fun hnil => hstored.fresh hm hmeta ?_
        have hperm : (hash.input new).kv.toList.Perm new.entries.toList := (hash.input new).collected
        rw [hnil] at hperm
        rw [ObjectInput.landed, hperm.eq_nil, List.take_nil]
      · exact .inr hne
    · rintro (hne | hne)
      · exact absurd hf hne
      · exact .inr hne
  · refine iff_of_true ?_ (.inl hf)
    rcases hsome.1 hf with hmeta | hne
    · refine .inl (hstored.kept ?_)
      rw [hm]
      exact fun h => hmeta (Except.ok.inj h)
    · refine .inr ?_
      obtain ⟨e, he⟩ := List.exists_mem_of_ne_nil _ hne
      have hkey : Stored s id e.1 := by
        rw [stored_iff_entryMap hs, get_eq_some.2 he]
        simp
      obtain ⟨v, hv⟩ := Option.ne_none_iff_exists'.1 (hcovers e.1 hkey)
      exact List.ne_nil_of_mem (get_eq_some.1 hv)

/-- **`merge` answers what it stored** if the object was live or new, fits the pages, no put was lost, and no stored
event configuration is taken away. -/
theorem merge_answers_stored_iff (c : Codec Ev) (kind : ReplicationKind) (cfg : ShardConfig) (svc : DataService)
    (lib : CrdtLibrary) (hash : HashMaps) (now : UInt64) (req : SetObjectRequest Ev) (sh : Shard Ev)
    (hs : WellFormed c sh.node.app) {response : ObjectResponse Ev} {sh' : Shard Ev}
    (hok : svc.merge c kind cfg lib hash now req sh = (.ok response, sh'))
    {raw : ObjData Ev} (hobj : req.object = some raw) {id : Str}
    (hid : svc.buildIdentityFromString (req.objectId.getD Str.empty) = .ok id)
    {objectId : Option Str} (hsame : svc.buildIdentityFromString (objectId.getD Str.empty) = .ok id) (limit : Nat) :
    (∃ read, (svc.get c kind lib.Error limit objectId sh').1 = .ok read ∧ read.entries = response.entries ∧
        read.event = response.event) ↔
      ∃ found merged, reconstructObjectFromEntries c sh.node.app id cfg.granularPrefetchLimit = .ok found ∧
        mergedObject lib found (.ofObjData now raw) = .ok merged ∧
        StoredAsAnswered c sh.node.app id sh.node.faults hash limit found (.ofObjData now raw) merged := by
  obtain ⟨id, rfl⟩ := DataService.exists_objectId hid
  obtain ⟨found, merged, hfound, hmerged, rfl, hset⟩ := DataService.merge_ok hobj hid hok
  have hstored := returned_internalSetObject hs hset
  obtain ⟨metadata, hm⟩ := getMetadata_of_wellFormed hs id
  have hrec := (reconstructObject_ok hs id hfound hm).2.2
  have hevent : merged.event.or (getEventConfig c sh.node.app id) = merged.event ↔
      EventAnswered c sh.node.app id found (.ofObjData now raw) := by
    refine event_answered_iff (fun existing hsome => ?_) hmerged
    exact (reconstructed_eq_some (hrec.symm.trans hsome)).2
  have hentries : (entryMap c sh.node.app id).insertMany _ = merged.entries ↔ _ :=
    insertMany_landed_eq_iff hs (hash.input merged) sh.node.faults
  rw [get_eq_iff hsame, reconstruct_eq_iff hstored.wf, hstored.entries, hstored.event, hstored.tombstone]
  constructor
  · rintro ⟨hpages, hlive, hgiven, hsame, hkept⟩
    exact ⟨found, merged, hfound, hmerged, hpages, hlive, (object_given_iff hs hlive hfound hmerged hstored).1 hgiven,
      hevent.1 hkept, (hentries.1 hsame).2⟩
  · rintro ⟨found', merged', hfound', hmerged', hanswered⟩
    obtain rfl : found = found' := Except.ok.inj (hfound.symm.trans hfound')
    obtain rfl : merged = merged' := Except.ok.inj (hmerged.symm.trans hmerged')
    have hcovers : ∀ key, Stored sh.node.app id key → merged.entries.get key ≠ none :=
      stored_covered hs hanswered.live hfound hmerged
    exact ⟨hanswered.pages, hanswered.live,
      (object_given_iff hs hanswered.live hfound hmerged hstored).2 hanswered.given,
      hentries.2 ⟨hcovers, hanswered.puts⟩, hevent.2 hanswered.event⟩

end

/-! ## An event configuration that a merge takes away -/

namespace EventTaken

open Recreated (config key)
open CapitalKey (service objectId value identity_objectId)

def input (event : Option Unit) : ObjectInput Unit := { Recreated.input with
  entry := { Recreated.input.entry with event := event } }

def stored (event : Option Unit) : Shard Unit :=
  Shard.afterAll Postcard.codec .none config [.setObject Recreated.id (input event)]

def request : SetObjectRequest Unit := ⟨some objectId, some ⟨[(key, value)], none, by simp⟩⟩

def answer (event : Option Unit) : Except (ObjectAnswerError TwoSides.bits.Error) (ObjectResponse Unit) × Shard Unit :=
  service.merge Postcard.codec .none config TwoSides.bits .sorted 100 request (stored event)

def read (event : Option Unit) : Except (ObjectAnswerError TwoSides.bits.Error) (ObjectResponse Unit) :=
  (service.get Postcard.codec .none _ 256 (some objectId) (answer event).2).1

/-- The `merge` answers no event configuration, the `get` behind it the old one. -/
theorem merge_hides_event :
    (answer (some ())).1.map ObjectResponse.event = .ok none ∧
      (read (some ())).map ObjectResponse.event = .ok (some ()) :=
  ⟨rfl, rfl⟩

theorem merge_answers_stored_test :
    ∃ response, (answer none).1 = .ok response ∧ ∃ found, read none = .ok found ∧ found.entries = response.entries ∧
      found.event = response.event := by
  refine ⟨_, rfl, ?_⟩
  refine (merge_answers_stored_iff Postcard.codec .none config service TwoSides.bits .sorted 100 request (stored none)
    (afterAll_sound Postcard.codec .none config _).1 rfl rfl identity_objectId identity_objectId 256).2 ?_
  refine ⟨_, _, rfl, rfl, ⟨by decide, by decide⟩, ?_, .inl (by simp), .inl rfl, ?_⟩
  · intro m hm
    cases hm
    rfl
  · intro e he
    cases he

end EventTaken

end Odgm
