import OaasIot.Odgm.BatchPaths

/-!
# Does the order of a request's map matter?

Both handlers iterate the values of a `BatchSetValuesRequest`, a hash map, and normalize its keys one by one
(`grpc_service/data.rs:482-486`, `network/batch_setter.rs:134-148`). Of keys that differ only in case the value that
comes last is kept, in an order nobody chose.
-/

namespace Odgm

open List OrdMap

/-! ## Orders of a request -/

def CollisionsAgree (sets : List (Str × ObjectVal)) (deletes : List Str) : Prop :=
  ∀ key ∉ deletes, ∀ v w, (key, v) ∈ sets → (key, w) ∈ sets → v = w

namespace BatchSetValuesRequest

variable {req req' : BatchSetValuesRequest} {maxLen : Nat}

theorem perm_movedLast {α : Type} (before after : List α) (e : α) :
    (before ++ after ++ [e]).Perm (before ++ e :: after) := by
  rw [append_assoc]
  exact (perm_append_singleton e after).append_left before

def endingWith (req : BatchSetValuesRequest) (before after : List (Str × ValData)) (e : Str × ValData)
    (h : req.values = before ++ e :: after) : BatchSetValuesRequest where
  values := before ++ after ++ [e]
  deleteKeys := req.deleteKeys
  expectedObjectVersion := req.expectedObjectVersion
  nodupKeys := by
    have hperm := (perm_movedLast before after e).map Prod.fst
    rw [← h] at hperm
    exact hperm.nodup_iff.2 req.nodupKeys

theorem reordered_endingWith {before after : List (Str × ValData)} {e : Str × ValData}
    (h : req.values = before ++ e :: after) : req.Reordered (req.endingWith before after e h) where
  values := h ▸ perm_movedLast before after e
  deleteKeys := rfl
  expected := rfl

theorem exists_reordered_last {key : Str} {v : ObjectVal} (h : (key, v) ∈ req.sets maxLen) :
    ∃ req', req.Reordered req' ∧ (empty.insertMany (req'.sets maxLen)).get key = some v := by
  obtain ⟨e, he, hnorm⟩ := mem_filterMap.1 h
  obtain ⟨before, after, hsplit⟩ := append_of_mem he
  refine ⟨req.endingWith before after e hsplit, reordered_endingWith hsplit, ?_⟩
  have hsets : (req.endingWith before after e hsplit).sets maxLen =
      (before ++ after).filterMap (normalized maxLen Prod.fst fun norm e => (norm, .ofValData e.2)) ++ [(key, v)] := by
    simp only [sets, endingWith, filterMap_append, filterMap_cons, filterMap_nil, hnorm]
  rw [hsets, insertMany_append]
  exact get_insert_self _ _ _

end BatchSetValuesRequest

theorem sameValues_of_perm {sets first second : List (Str × ObjectVal)} {deletes : List Str}
    (hagree : CollisionsAgree sets deletes) (hfirst : first.Perm sets) (hsecond : second.Perm sets) :
    SameValues first second deletes := by
  intro key hkey
  have hsame : key ∈ first.map Prod.fst ↔ key ∈ second.map Prod.fst :=
    ((hfirst.trans hsecond.symm).map Prod.fst).mem_iff
  rw [← get_insertMany_ne_none_iff, ← get_insertMany_ne_none_iff] at hsame
  cases hv : (empty.insertMany first).get key with
  | none => exact (not_ne_iff.1 (mt hsame.2 (not_ne_iff.2 hv))).symm
  | some v =>
    obtain ⟨w, hw⟩ := Option.ne_none_iff_exists'.1 (hsame.1 (hv ▸ Option.some_ne_none v))
    have hmem := (get_insertMany_eq_some _ hv).resolve_right (by simp)
    have hmem' := (get_insertMany_eq_some _ hw).resolve_right (by simp)
    rw [hw, hagree key hkey v w (hfirst.mem_iff.1 hmem) (hsecond.mem_iff.1 hmem')]

section
variable {Ev : Type} {c : Codec Ev} {kind : ReplicationKind} {cfg : ShardConfig} {maxLen : Nat} {id : ObjectId}
  {s : Store} {sh : Shard Ev} {req : BatchSetValuesRequest}

/-! ## What a call leaves -/

def SameEntries (s s' : Store) : Prop :=
  ∀ (id' : ObjectId) (key : Str), s.get (buildEntryKey id' key) = s'.get (buildEntryKey id' key)

def Written (c : Codec Ev) (maxLen : Nat) (id : ObjectId) (req : BatchSetValuesRequest) (s s' : Store) : Prop :=
  ∃ values : List (Str × ObjectVal),
    (∀ key, (OrdMap.empty.insertMany values).get key = (OrdMap.empty.insertMany (req.sets maxLen)).get key) ∧
    ∀ k, k ≠ buildMetadataKey id → s'.get k =
      if k ∈ (req.deletes maxLen).map (buildEntryKey id) then none
      else (s.insertMany (entryRecords c id values)).get k

/-- The stores in which a call may end well: where the request is accepted, with its entries written. -/
structure Applies (c : Codec Ev) (maxLen : Nat) (id : ObjectId) (s : Store)
    (leaves : BatchSetValuesRequest → Store → Prop) : Prop where
  succeeds : ∀ req, Accepted maxLen id req s → ∃ s', leaves req s'
  written : ∀ req s', leaves req s' → Accepted maxLen id req s ∧ Written c maxLen id req s s'

def OrderIndependent (req : BatchSetValuesRequest) (leaves : BatchSetValuesRequest → Store → Prop) : Prop :=
  ∀ first second, req.Reordered first → req.Reordered second →
    ∀ s₁ s₂, leaves first s₁ → leaves second s₂ → SameEntries s₁ s₂

theorem sameEntries_iff_of_written {first second : BatchSetValuesRequest} (hfirst : req.Reordered first)
    (hsecond : req.Reordered second) {s₁ s₂ : Store} (hw₁ : Written c maxLen id first s s₁)
    (hw₂ : Written c maxLen id second s s₂) :
    SameEntries s₁ s₂ ↔ SameValues (first.sets maxLen) (second.sets maxLen) (req.deletes maxLen) := by
  obtain ⟨values₁, hvalues₁, hget₁⟩ := hw₁
  obtain ⟨values₂, hvalues₂, hget₂⟩ := hw₂
  rw [hfirst.deletes_eq] at hget₁
  rw [hsecond.deletes_eq] at hget₂
  have hkeys : ∀ key, key ∈ values₁.map Prod.fst ↔ key ∈ values₂.map Prod.fst := by
    intro key
    have hperm := ((hfirst.sets_perm maxLen).trans (hsecond.sets_perm maxLen).symm).map Prod.fst
    rw [← get_insertMany_ne_none_iff, ← get_insertMany_ne_none_iff, hvalues₁, hvalues₂, get_insertMany_ne_none_iff,
      get_insertMany_ne_none_iff, hperm.mem_iff]
  unfold SameEntries
  rw [sameEntries_iff_sameValues hkeys hget₁ hget₂]
  simp only [SameValues, hvalues₁, hvalues₂]

/-- Any call that writes the sets of an accepted request depends on their order just where they collide. -/
theorem orderIndependent_iff {leaves : BatchSetValuesRequest → Store → Prop} (h : Applies c maxLen id s leaves) :
    OrderIndependent req leaves ↔
      ¬ Accepted maxLen id req s ∨ CollisionsAgree (req.sets maxLen) (req.deletes maxLen) := by
  constructor
  · intro hindep
    by_cases hacc : Accepted maxLen id req s
    · right
      intro key hkey v w hv hw
      obtain ⟨first, hfirst, hlast⟩ := BatchSetValuesRequest.exists_reordered_last hv
      obtain ⟨second, hsecond, hlast'⟩ := BatchSetValuesRequest.exists_reordered_last hw
      obtain ⟨s₁, hs₁⟩ := h.succeeds first ((accepted_iff hfirst).2 hacc)
      obtain ⟨s₂, hs₂⟩ := h.succeeds second ((accepted_iff hsecond).2 hacc)
      have hsame := hindep first second hfirst hsecond s₁ s₂ hs₁ hs₂
      rw [sameEntries_iff_of_written hfirst hsecond (h.written _ _ hs₁).2 (h.written _ _ hs₂).2] at hsame
      have heq := hsame key hkey
      rw [hlast, hlast'] at heq
      exact Option.some.inj heq
    · exact .inl hacc
  · intro hcond first second hfirst hsecond s₁ s₂ hs₁ hs₂
    obtain ⟨hacc, hw₁⟩ := h.written _ _ hs₁
    obtain ⟨_, hw₂⟩ := h.written _ _ hs₂
    have hagree := hcond.resolve_left (not_not.2 ((accepted_iff hfirst).1 hacc))
    rw [sameEntries_iff_of_written hfirst hsecond hw₁ hw₂]
    exact sameValues_of_perm hagree (hfirst.sets_perm maxLen) (hsecond.sets_perm maxLen)

/-! ## The two calls -/

def grpcLeaves (c : Codec Ev) (kind : ReplicationKind) (cfg : ShardConfig) (maxLen : Nat) (id : ObjectId)
    (sh : Shard Ev) (req : BatchSetValuesRequest) (s' : Store) : Prop :=
  ∃ hash sh', grpcBatchSetValues c kind cfg hash maxLen id req sh = (.ok (), sh') ∧ sh'.node.app = s'

def zenohLeaves (c : Codec Ev) (kind : ReplicationKind) (maxLen : Nat) (id : ObjectId) (n : Node)
    (req : BatchSetValuesRequest) (s' : Store) : Prop :=
  ∃ n', BatchSetHandler.handle c kind maxLen id req n = (.ok (), n') ∧ n'.app = s'

theorem applies_grpc (hsh : sh.Sound c) : Applies c maxLen id sh.node.app (grpcLeaves c kind cfg maxLen id sh) where
  succeeds := by
    intro req hacc
    rcases grpcBatchSetValues_cases kind cfg maxLen id hsh .sorted req with ⟨_, sh', hok, _⟩ | ⟨hrefused, _⟩
    · exact ⟨_, .sorted, sh', hok, rfl⟩
    · exact absurd hacc hrefused
  written := by
    rintro req _ ⟨hash, sh', hok, rfl⟩
    rcases grpcBatchSetValues_cases kind cfg maxLen id hsh hash req with ⟨hacc, sh₁, hok₁, hmutated⟩ | ⟨_, e, sh₁, herr, _⟩
    · cases hok.symm.trans hok₁
      exact ⟨hacc, _, hash.get_collect (req.sets maxLen), hmutated.get⟩
    · cases hok.symm.trans herr

theorem applies_zenoh {n : Node} (hwf : WellFormed c n.app) (hf : n.faults = []) :
    Applies c maxLen id n.app (zenohLeaves c kind maxLen id n) where
  succeeds := by
    intro req hacc
    rcases handle_cases kind maxLen id hwf hf req with ⟨_, n', hok, _⟩ | ⟨hrefused, _⟩
    · exact ⟨_, n', hok, rfl⟩
    · exact absurd hacc hrefused
  written := by
    rintro req _ ⟨n', hok, rfl⟩
    rcases handle_cases kind maxLen id hwf hf req with ⟨hacc, n₁, hok₁, hmutated⟩ | ⟨_, e, herr⟩
    · cases hok.symm.trans hok₁
      exact ⟨hacc, _, fun _ => rfl, hmutated.get⟩
    · cases hok.symm.trans herr

/-- **Order of iteration**: it does not matter if the request is refused, or all values of a key that stays are equal.
-/
theorem batch_order_independent_iff (c : Codec Ev) (kind : ReplicationKind) (cfg : ShardConfig) (maxLen : Nat)
    (id : ObjectId) (req : BatchSetValuesRequest) (sh : Shard Ev) (hsh : sh.Sound c) :
    (OrderIndependent req (grpcLeaves c kind cfg maxLen id sh) ↔
        ¬ Accepted maxLen id req sh.node.app ∨ CollisionsAgree (req.sets maxLen) (req.deletes maxLen)) ∧
      (OrderIndependent req (zenohLeaves c kind maxLen id sh.node) ↔
        ¬ Accepted maxLen id req sh.node.app ∨ CollisionsAgree (req.sets maxLen) (req.deletes maxLen)) := by
  constructor
  · exact orderIndependent_iff (applies_grpc hsh)
  · exact orderIndependent_iff (applies_zenoh hsh.wf hsh.healthy)

end

/-! ## Keys that differ in case -/

namespace TwoCases

open Recreated (config id)

def lower : Str := ⟨[97], Str.valid_a, Str.short_a⟩
def upper : Str := ⟨[65], by decide, by decide⟩
def one : ValData := ⟨[1], 0, short_1⟩
def two : ValData := ⟨[2], 0, short_2⟩

def upperFirst : BatchSetValuesRequest := ⟨[(upper, one), (lower, two)], [], none, by decide⟩
def lowerFirst : BatchSetValuesRequest := ⟨[(lower, two), (upper, one)], [], none, by decide⟩

theorem reordered : upperFirst.Reordered lowerFirst := ⟨.swap _ _ _, rfl, rfl⟩

def empty : Shard Unit := Shard.afterAll Postcard.codec .none config []

/-- The entry `a` is 2 in the one order and 1 in the other, over gRPC and over Zenoh. -/
theorem last_value_wins :
    upperFirst.Reordered lowerFirst ∧
    ((grpcBatchSetValues Postcard.codec .none config .sorted 160 id upperFirst empty).1.isOk = true ∧
      (grpcBatchSetValues Postcard.codec .none config .sorted 160 id lowerFirst empty).1.isOk = true ∧
      getEntry Postcard.codec (grpcBatchSetValues Postcard.codec .none config .sorted 160 id upperFirst empty).2.node.app
        id lower = .ok (some (.ofValData two)) ∧
      getEntry Postcard.codec (grpcBatchSetValues Postcard.codec .none config .sorted 160 id lowerFirst empty).2.node.app
        id lower = .ok (some (.ofValData one))) ∧
    (BatchSetHandler.handle Postcard.codec .none 160 id upperFirst empty.node).1 = .ok () ∧
      (BatchSetHandler.handle Postcard.codec .none 160 id lowerFirst empty.node).1 = .ok () ∧
      getEntry Postcard.codec (BatchSetHandler.handle Postcard.codec .none 160 id upperFirst empty.node).2.app
        id lower = .ok (some (.ofValData two)) ∧
      getEntry Postcard.codec (BatchSetHandler.handle Postcard.codec .none 160 id lowerFirst empty.node).2.app
        id lower = .ok (some (.ofValData one)) := by
  refine ⟨reordered, ⟨?_, ?_, ?_, ?_⟩, ?_, ?_, ?_, ?_⟩ <;> decide +kernel

theorem batch_order_two_cases :
    (OrderIndependent upperFirst (grpcLeaves Postcard.codec .none config 160 id empty) ↔
        ¬ Accepted 160 id upperFirst empty.node.app ∨
          CollisionsAgree (upperFirst.sets 160) (upperFirst.deletes 160)) ∧
      (OrderIndependent upperFirst (zenohLeaves Postcard.codec .none 160 id empty.node) ↔
        ¬ Accepted 160 id upperFirst empty.node.app ∨
          CollisionsAgree (upperFirst.sets 160) (upperFirst.deletes 160)) :=
  batch_order_independent_iff Postcard.codec .none config 160 id upperFirst empty
    (afterAll_sound Postcard.codec .none config [])

end TwoCases

end Odgm
