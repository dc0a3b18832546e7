import OaasIot.Lib.Points
import OaasIot.Storage.Backends

/-!
# Compare-and-swap and increment under concurrent calls (`any_storage.rs`, `fjall/backend.rs`)

`compare_and_swap` and the "Atomic increment operation" (`traits/application_storage.rs:53`) of `AnyStorage` and Fjall
read the value in one call of the store and write the new one in another, with an `await` between. Only the memory
backend holds a lock over both (`memory.rs:779`, `:818`).
-/

namespace DpStorage

open Odgm List

/-! ## Programs -/

inductive StoreCall
  | get (key : Bytes)
  | put (key value : Bytes)
  | delete (key : Bytes)

def StoreCall.Reply : StoreCall → Type
  | .get _ => Option Bytes
  | .put _ _ => Unit
  | .delete _ => Unit

def storeInterface : Interface := ⟨StoreCall, StoreCall.Reply⟩

def handleStore : Handler storeInterface Store
  | .get key, m => (m.get key, m)
  | .put key value, m => ((), m.insert key value)
  | .delete key, m => ((), m.erase key)

inductive AtomicsApi
  | any (overflowChecks : Bool)
  | fjall

namespace AtomicsApi

def notAnInt : AtomicsApi → String
  | .any _ => "Value is not an i64"
  | .fjall => "Key does not contain i64 value"

def panics : AtomicsApi → Int64 → Int64 → Bool
  | .any overflowChecks => fun a b => overflowChecks && decide (Overflows a b)
  | .fjall => fun _ _ => false

end AtomicsApi

def writeSum (key : Bytes) (delta current : Int64) : Prog storeInterface Answer :=
  .call (.put key (int64Bytes (current + delta))) fun _ => .done (.integer (current + delta))

def addTo (api : AtomicsApi) (key : Bytes) (delta : Int64) : Option Int64 → Prog storeInterface Answer
  | none => .done (.failed (.serialization api.notAnInt))
  | some current =>
    if api.panics current delta then .done (.panicked "attempt to add with overflow") else writeSum key delta current

def increment (api : AtomicsApi) (key : Bytes) (delta : Int64) : Prog storeInterface Answer :=
  .call (.get key) fun raw => addTo api key delta (currentInt raw)

def writeNew (key : Bytes) : Option Bytes → Prog storeInterface Answer
  | some value => .call (.put key value) fun _ => .done (.flag true)
  | none => .call (.delete key) fun _ => .done (.flag true)

def compareAndSwap (key : Bytes) (expected new : Option Bytes) : Prog storeInterface Answer :=
  .call (.get key) fun (current : Option Bytes) =>
    if current = expected then writeNew key new else .done (.flag false)

variable (api : AtomicsApi)

theorem increment_run (key : Bytes) (delta : Int64) (m : Store) :
    (increment api key delta).run handleStore m = incrementMap api.notAnInt api.panics key delta m := by
  change (addTo api key delta (currentInt (m.get key))).run handleStore m = _
  rw [incrementMap]
  cases currentInt (m.get key) with
  | none => rfl
  | some current =>
    dsimp only [addTo]
    split <;> rfl

/-! ## Increments -/

inductive IncrementPoint
  | called (delta : Int64)
  | read (delta current : Int64)
  | returned (delta : Int64) (answer : Answer)

namespace IncrementPoint

def prog (api : AtomicsApi) (key : Bytes) : IncrementPoint → Prog storeInterface Answer
  | .called delta => increment api key delta
  | .read delta current => writeSum key delta current
  | .returned _ answer => .done answer

def next (api : AtomicsApi) (key : Bytes) (pt : IncrementPoint) (m : Store) : IncrementPoint × Store :=
  match pt with
  | .called delta =>
    match currentInt (m.get key) with
    | none => (.returned delta (.failed (.serialization api.notAnInt)), m)
    | some current =>
      if api.panics current delta then (.returned delta (.panicked "attempt to add with overflow"), m)
      else (.read delta current, m)
  | .read delta current =>
    (.returned delta (.integer (current + delta)), m.insert key (int64Bytes (current + delta)))
  | .returned delta answer => (.returned delta answer, m)

theorem follows (api : AtomicsApi) (key : Bytes) : Standing.Follows (prog api key) handleStore (next api key) := by
  intro pt m
  cases pt with
  | read delta current | returned delta answer => rfl
  | called delta =>
    change (addTo api key delta (currentInt (m.get key)), m) = _
    rw [next]
    cases currentInt (m.get key) with
    | none => rfl
    | some current =>
      dsimp only [addTo]
      split <;> rfl

def delta : IncrementPoint → Int64
  | .called delta => delta
  | .read delta _ => delta
  | .returned delta _ => delta

def contribution : IncrementPoint → Option Int64
  | .returned delta _ => some delta
  | _ => none

end IncrementPoint

def incrementing (deltas : List Int64) (m : Store) : Standing IncrementPoint Store := ⟨deltas.map .called, m⟩
def sumFrom (first : Int64) (deltas : List Int64) : Int64 := deltas.foldl (· + ·) first

def CounterExact (key : Bytes) (first : Int64) (st : Standing IncrementPoint Store) : Prop :=
  currentInt (st.state.get key) = some (sumFrom first (st.points.filterMap IncrementPoint.contribution))

def IncrementUndisturbed (api : AtomicsApi) (key : Bytes) (st : Standing IncrementPoint Store) (i : Nat) : Prop :=
  match st.points[i]? with
  | some (.called delta) => ∀ current, currentInt (st.state.get key) = some current → api.panics current delta = false
  | some (.read _ current) => currentInt (st.state.get key) = some current
  | _ => True

theorem currentInt_int64Bytes (i : Int64) : currentInt (some (int64Bytes i)) = some i := by
  have hlen : (int64Bytes i).length = 8 := length_leBytes 8 _
  have hlt : i.toUInt64.toNat < 256 ^ 8 := i.toUInt64.toNat_lt
  rw [currentInt, if_pos hlen, int64OfBytes, int64Bytes, leNat_leBytes, Nat.mod_eq_of_lt hlt, UInt64.ofNat_toNat,
    Int64.toInt64_toUInt64]

instance int64AddRightCommutative : RightCommutative (fun a b : Int64 => a + b) where
  right_comm a b c := by
    rw [Int64.add_assoc, Int64.add_comm b c, ← Int64.add_assoc]

theorem ne_zero_of_panics {api : AtomicsApi} {a b : Int64} (h : api.panics a b = true) : b ≠ 0 := by
  cases api with
  | fjall => cases h
  | any overflowChecks =>
    rw [AtomicsApi.panics, Bool.and_eq_true, decide_eq_true_eq] at h
    rintro rfl
    have hlo := a.le_toInt
    have hhi := a.toInt_lt
    have hover := h.2
    rw [Overflows, Int64.toInt_zero] at hover
    omega

variable {answers : List Answer} {i : Nat} {m : Store}

section
variable {api : AtomicsApi} {key : Bytes} {first : Int64} {st : Standing IncrementPoint Store}

theorem sumFrom_returned {points : List IncrementPoint} {pt : IncrementPoint} (hget : points[i]? = some pt)
    (hpt : pt.contribution = none) (first delta : Int64) (answer : Answer) :
    sumFrom first ((points.set i (.returned delta answer)).filterMap IncrementPoint.contribution) =
      sumFrom first (points.filterMap IncrementPoint.contribution) + delta :=
  foldl_filterMap_set (fun a b : Int64 => a + b) hget hpt rfl first

theorem not_exact_of_panic (h : CounterExact key first st) {delta current : Int64}
    (hget : st.points[i]? = some (.called delta)) (hcurrent : currentInt (st.state.get key) = some current)
    (hpanic : api.panics current delta = true) :
    ¬ CounterExact key first (st.turn (IncrementPoint.next api key) i) := by
  have hnext : IncrementPoint.next api key (.called delta) st.state =
      (.returned delta (.panicked "attempt to add with overflow"), st.state) := by
    simp only [IncrementPoint.next, hcurrent, hpanic, if_true]
  intro hexact
  rw [CounterExact, Standing.turn_of_get hget, hnext, sumFrom_returned hget rfl] at hexact
  have hsame := Option.some.inj (h.symm.trans hexact)
  refine ne_zero_of_panics hpanic ?_
  refine (Int64.add_right_inj (sumFrom first (st.points.filterMap IncrementPoint.contribution))).1 ?_
  rw [← hsame, Int64.add_zero]

theorem counted_turn_iff (h : CounterExact key first st) (i : Nat) :
    CounterExact key first (st.turn (IncrementPoint.next api key) i) ↔ IncrementUndisturbed api key st i := by
  unfold IncrementUndisturbed
  cases hget : st.points[i]? with
  | none =>
    rw [Standing.turn_of_none hget]
    exact iff_of_true h trivial
  | some pt =>
    cases pt with
    | returned delta answer =>
      have hfixed : st.turn (IncrementPoint.next api key) i = st := Standing.turn_of_fixed hget rfl
      rw [hfixed]
      exact iff_of_true h trivial
    | called delta =>
      obtain ⟨current, hcurrent⟩ : ∃ current, currentInt (st.state.get key) = some current := ⟨_, h⟩
      simp only [hcurrent, Option.some.injEq, forall_eq']
      cases hpanic : api.panics current delta with
      | true => exact iff_of_false (not_exact_of_panic h hget hcurrent hpanic) (by simp)
      | false =>
        refine iff_of_true ?_ rfl
        have hnext : IncrementPoint.next api key (.called delta) st.state = (.read delta current, st.state) := by
          simp only [IncrementPoint.next, hcurrent, hpanic, Bool.false_eq_true, if_false]
        rw [CounterExact, Standing.turn_of_get hget, hnext, filterMap_set_of_eq (b := .read delta current) hget rfl]
        exact h
    | read delta current =>
      have hstored : currentInt (st.state.get key) = some _ := h
      dsimp only
      rw [CounterExact, Standing.turn_of_get hget, IncrementPoint.next, sumFrom_returned hget rfl, OrdMap.get_insert_self,
        currentInt_int64Bytes, hstored, Option.some.injEq, Option.some.injEq, Int64.add_left_inj]
      exact eq_comm

theorem delta_next (api : AtomicsApi) (key : Bytes) (pt : IncrementPoint) (m : Store) :
    (IncrementPoint.next api key pt m).1.delta = pt.delta := by
  cases pt with
  | read delta current | returned delta answer => rfl
  | called delta =>
    rw [IncrementPoint.next]
    cases currentInt (m.get key) with
    | none => rfl
    | some current =>
      dsimp only
      split <;> rfl

theorem counterExact_start (hfirst : currentInt (m.get key) = some first) (deltas : List Int64) :
    CounterExact key first (incrementing deltas m) := by
  have hnone : (incrementing deltas m).points.filterMap IncrementPoint.contribution = [] :=
    filterMap_map_of_none (fun _ => rfl) deltas
  rw [CounterExact, hnone]
  exact hfirst

theorem contribution_of_results {st : Standing IncrementPoint Store}
    (h : (st.pool (IncrementPoint.prog api key)).results = answers.map some) :
    st.points.filterMap IncrementPoint.contribution = st.points.map IncrementPoint.delta := by
  refine filterMap_of_forall fun pt hpt => ?_
  obtain ⟨answer, _, hdone⟩ := Standing.done_of_results h hpt
  cases pt with
  | called delta | read delta current => cases hdone
  | returned delta answer' => rfl

end

/-! ## Swaps -/

inductive SwapPoint
  | called (new : Option Bytes)
  | matched (new : Option Bytes)
  | returned (new : Option Bytes) (success : Bool)
  deriving DecidableEq

def storeNew (key : Bytes) (m : Store) : Option Bytes → Store
  | some value => m.insert key value
  | none => m.erase key

theorem get_storeNew (key : Bytes) (m : Store) (new : Option Bytes) : (storeNew key m new).get key = new := by
  cases new with
  | some value => exact OrdMap.get_insert_self m key value
  | none => exact (OrdMap.get_erase m key key).trans (if_pos rfl)

namespace SwapPoint

def prog (key : Bytes) (expected : Option Bytes) : SwapPoint → Prog storeInterface Answer
  | .called new => compareAndSwap key expected new
  | .matched new => writeNew key new
  | .returned _ success => .done (.flag success)

def next (key : Bytes) (expected : Option Bytes) (pt : SwapPoint) (m : Store) : SwapPoint × Store :=
  match pt with
  | .called new => if m.get key = expected then (.matched new, m) else (.returned new false, m)
  | .matched new => (.returned new true, storeNew key m new)
  | .returned new success => (.returned new success, m)

theorem follows (key : Bytes) (expected : Option Bytes) :
    Standing.Follows (prog key expected) handleStore (next key expected) := by
  intro pt m
  cases pt with
  | returned new success => rfl
  | matched new => cases new <;> rfl
  | called new =>
    change (if m.get key = expected then writeNew key new else .done (.flag false), m) = _
    rw [next]
    by_cases h : m.get key = expected
    · rw [if_pos h, if_pos h]
      rfl
    · rw [if_neg h, if_neg h]
      rfl

def winner : SwapPoint → Option (Option Bytes)
  | .matched new => some new
  | .returned new true => some new
  | _ => none

end SwapPoint

def swapping (news : List (Option Bytes)) (m : Store) : Standing SwapPoint Store := ⟨news.map .called, m⟩
def winners (st : Standing SwapPoint Store) : List (Option Bytes) := st.points.filterMap SwapPoint.winner

def SwapUndisturbed (expected : Option Bytes) (st : Standing SwapPoint Store) (i : Nat) : Prop :=
  match st.points[i]? with
  | some (.called _) =>
    (∀ new, SwapPoint.matched new ∉ st.points) ∧ ∀ new, SwapPoint.returned new true ∈ st.points → new ≠ expected
  | _ => True

section
variable {key : Bytes} {expected : Option Bytes} {st : Standing SwapPoint Store}

structure OneSwap (key : Bytes) (expected : Option Bytes) (st : Standing SwapPoint Store) : Prop where
  one : (winners st).length ≤ 1
  before : ∀ new, SwapPoint.matched new ∈ st.points → st.state.get key = expected
  after : ∀ new, SwapPoint.returned new true ∈ st.points → st.state.get key = new

theorem winners_set_of_eq {pt : SwapPoint} (hget : st.points[i]? = some pt) (pt' : SwapPoint)
    (h : pt'.winner = pt.winner) (m : Store) :
    winners ⟨st.points.set i pt', m⟩ = winners st := filterMap_set_of_eq hget h

variable {new : Option Bytes}

theorem length_winners_matched (hget : st.points[i]? = some (.called new)) (m : Store) :
    (winners ⟨st.points.set i (.matched new), m⟩).length = (winners st).length + 1 := by
  refine (perm_filterMap_set (x := new) hget rfl rfl).length_eq.trans ?_
  rw [length_append]
  rfl

theorem mem_winners {points : List SwapPoint} (h : points.filterMap SwapPoint.winner = []) (new : Option Bytes) :
    SwapPoint.matched new ∉ points ∧ SwapPoint.returned new true ∉ points := by
  rw [filterMap_eq_nil_iff] at h
  exact ⟨fun hmem => absurd (h _ hmem) (by simp [SwapPoint.winner]),
    fun hmem => absurd (h _ hmem) (by simp [SwapPoint.winner])⟩

theorem undisturbed_iff_no_winner (h : OneSwap key expected st) (hget : st.points[i]? = some (.called new))
    (hfound : st.state.get key = expected) : SwapUndisturbed expected st i ↔ winners st = [] := by
  rw [SwapUndisturbed, hget]
  constructor
  · rintro ⟨hmatched, hreturned⟩
    refine filterMap_eq_nil_iff.2 fun pt hpt => ?_
    cases pt with
    | called new' => rfl
    | matched new' => exact absurd hpt (hmatched new')
    | returned new' success =>
      cases success with
      | false => rfl
      | true => exact absurd ((h.after new' hpt).symm.trans hfound) (hreturned new' hpt)
  · intro hnone
    exact ⟨fun new' => (mem_winners hnone new').1, fun new' hmem => absurd hmem (mem_winners hnone new').2⟩

theorem swap_turn_cases (key : Bytes) (expected : Option Bytes) (st : Standing SwapPoint Store) (i : Nat) :
    (st.turn (SwapPoint.next key expected) i = st ∧ ∀ new, st.points[i]? ≠ some (.called new)) ∨
      (∃ new, st.points[i]? = some (.called new) ∧ st.state.get key = expected ∧
        st.turn (SwapPoint.next key expected) i = ⟨st.points.set i (.matched new), st.state⟩) ∨
      (∃ new, st.points[i]? = some (.called new) ∧ st.state.get key ≠ expected ∧
        st.turn (SwapPoint.next key expected) i = ⟨st.points.set i (.returned new false), st.state⟩) ∨
      ∃ new, st.points[i]? = some (.matched new) ∧
        st.turn (SwapPoint.next key expected) i = ⟨st.points.set i (.returned new true), storeNew key st.state new⟩ := by
  cases hget : st.points[i]? with
  | none => exact .inl ⟨Standing.turn_of_none hget, by simp⟩
  | some pt =>
    cases pt with
    | returned new success => exact .inl ⟨Standing.turn_of_fixed hget rfl, by simp⟩
    | matched new => exact .inr (.inr (.inr ⟨new, rfl, Standing.turn_of_get hget⟩))
    | called new =>
      by_cases hfound : st.state.get key = expected
      · refine .inr (.inl ⟨new, rfl, hfound, ?_⟩)
        rw [Standing.turn_of_get hget, SwapPoint.next, if_pos hfound]
      · refine .inr (.inr (.inl ⟨new, rfl, hfound, ?_⟩))
        rw [Standing.turn_of_get hget, SwapPoint.next, if_neg hfound]

theorem undisturbed_of_not_called (h : ∀ new, st.points[i]? ≠ some (.called new)) : SwapUndisturbed expected st i := by
  unfold SwapUndisturbed
  split
  · rename_i new hget
    exact absurd hget (h new)
  · trivial

theorem OneSwap.write (h : OneSwap key expected st) (hget : st.points[i]? = some (.matched new)) :
    OneSwap key expected ⟨st.points.set i (.returned new true), storeNew key st.state new⟩ := by
  have hothers : ∀ pt ∈ st.points.set i (.returned new true), pt = .returned new true ∨ pt.winner = none :=
    filterMap_of_length_le_one h.one hget (by simp [SwapPoint.winner])
  refine ⟨?_, ?_, ?_⟩
  · rw [winners_set_of_eq hget (.returned new true) rfl]
    exact h.one
  · intro new' hmem
    rcases hothers _ hmem with heq | hnone
    · cases heq
    · cases hnone
  · intro new' hmem
    rcases hothers _ hmem with heq | hnone
    · cases heq
      exact get_storeNew key st.state new
    · cases hnone

theorem OneSwap.refuse (h : OneSwap key expected st) (hget : st.points[i]? = some (.called new)) :
    OneSwap key expected ⟨st.points.set i (.returned new false), st.state⟩ := by
  refine ⟨?_, ?_, ?_⟩
  · rw [winners_set_of_eq hget (.returned new false) rfl]
    exact h.one
  · intro new' hmem
    rcases mem_or_eq_of_mem_set hmem with hmem | heq
    · exact h.before new' hmem
    · cases heq
  · intro new' hmem
    rcases mem_or_eq_of_mem_set hmem with hmem | heq
    · exact h.after new' hmem
    · cases heq

theorem OneSwap.found (hnone : winners st = []) (hget : st.points[i]? = some (.called new))
    (hfound : st.state.get key = expected) : OneSwap key expected ⟨st.points.set i (.matched new), st.state⟩ := by
  refine ⟨?_, fun _ _ => hfound, ?_⟩
  · rw [length_winners_matched hget, hnone]
    rfl
  · intro new' hmem
    rcases mem_or_eq_of_mem_set hmem with hmem | heq
    · exact absurd hmem (mem_winners hnone new').2
    · cases heq

theorem oneSwap_turn_iff (h : OneSwap key expected st) (i : Nat) :
    ((winners (st.turn (SwapPoint.next key expected) i)).length ≤ 1 ↔ SwapUndisturbed expected st i) ∧
      (SwapUndisturbed expected st i → OneSwap key expected (st.turn (SwapPoint.next key expected) i)) := by
  rcases swap_turn_cases key expected st i with ⟨hturn, hget⟩ | ⟨new, hget, hfound, hturn⟩ | ⟨new, hget, hfound, hturn⟩ |
    ⟨new, hget, hturn⟩
  · rw [hturn]
    exact ⟨iff_of_true h.one (undisturbed_of_not_called hget), fun _ => h⟩
  · rw [hturn, undisturbed_iff_no_winner h hget hfound, length_winners_matched hget, ← length_eq_zero_iff]
    refine ⟨by omega, fun hzero => OneSwap.found (length_eq_zero_iff.1 hzero) hget hfound⟩
  · have hund : SwapUndisturbed expected st i := by
      rw [SwapUndisturbed, hget]
      exact ⟨fun new' hmem => hfound (h.before new' hmem), fun new' hmem heq => hfound ((h.after new' hmem).trans heq)⟩
    rw [hturn]
    exact ⟨iff_of_true (h.refuse hget).one hund, fun _ => h.refuse hget⟩
  · rw [hturn]
    exact ⟨iff_of_true (h.write hget).one (undisturbed_of_not_called (by simp [hget])), fun _ => h.write hget⟩

theorem length_winners_turn (key : Bytes) (expected : Option Bytes) (st : Standing SwapPoint Store) (i : Nat) :
    (winners st).length ≤ (winners (st.turn (SwapPoint.next key expected) i)).length := by
  rcases swap_turn_cases key expected st i with ⟨hturn, _⟩ | ⟨new, hget, _, hturn⟩ | ⟨new, hget, _, hturn⟩ |
    ⟨new, hget, hturn⟩
  · rw [hturn]
  · rw [hturn, length_winners_matched hget]
    exact Nat.le_succ _
  · rw [hturn, winners_set_of_eq hget (.returned new false) rfl]
  · rw [hturn, winners_set_of_eq hget (.returned new true) rfl]

theorem length_winners_run (key : Bytes) (expected : Option Bytes) (st : Standing SwapPoint Store) (schedule : List Nat) :
    (winners st).length ≤ (winners (st.run (SwapPoint.next key expected) schedule)).length := by
  induction schedule generalizing st with
  | nil => exact le_refl _
  | cons i schedule ih => exact (length_winners_turn key expected st i).trans (ih _)

theorem winners_run_iff (h : OneSwap key expected st) (schedule : List Nat) :
    (winners (st.run (SwapPoint.next key expected) schedule)).length ≤ 1 ↔
      AlongRun (Standing.turn (SwapPoint.next key expected)) (SwapUndisturbed expected) st schedule := by
  induction schedule generalizing st with
  | nil => exact iff_of_true h.one trivial
  | cons i schedule ih =>
    obtain ⟨hone, hkeep⟩ := oneSwap_turn_iff h i
    rw [AlongRun]
    constructor
    · intro hend
      have hund := hone.1 ((length_winners_run key expected _ schedule).trans hend)
      exact ⟨hund, (ih (hkeep hund)).1 hend⟩
    · rintro ⟨hund, hrest⟩
      exact (ih (hkeep hund)).2 hrest

def succeeded : Answer → Bool
  | .flag b => b
  | _ => false

theorem countP_succeeded {points : List SwapPoint}
    (h : (Standing.pool (SwapPoint.prog key expected) ⟨points, m⟩).results = answers.map some) :
    answers.countP succeeded = (points.filterMap SwapPoint.winner).length := by
  induction points generalizing answers with
  | nil =>
    cases answers with
    | nil => rfl
    | cons answer answers => cases h
  | cons pt points ih =>
    cases answers with
    | nil => cases h
    | cons answer answers =>
      obtain ⟨hpt, hrest⟩ := cons.inj h
      cases pt with
      | called new => cases hpt
      | matched new => cases new <;> cases hpt
      | returned new success =>
        obtain rfl : Answer.flag success = answer := Option.some.inj hpt
        have hcount := ih hrest
        cases success with
        | true =>
          have hwinner : (SwapPoint.returned new true).winner = some new := rfl
          rw [countP_cons_of_pos rfl, filterMap_cons_some hwinner, length_cons, hcount]
        | false =>
          have hwinner : (SwapPoint.returned new false).winner = none := rfl
          rw [countP_cons_of_neg (by decide), filterMap_cons_none hwinner, hcount]

end

/-! ## Atomicity -/

def swapCalls (key : Bytes) (expected : Option Bytes) (news : List (Option Bytes)) (m : Store) :
    Prog.Pool storeInterface Store Answer :=
  ⟨news.map (compareAndSwap key expected), m⟩

def incrementCalls (api : AtomicsApi) (key : Bytes) (deltas : List Int64) (m : Store) :
    Prog.Pool storeInterface Store Answer :=
  ⟨deltas.map (increment api key), m⟩

variable {key : Bytes}

theorem swaps_iff {expected : Option Bytes} {news : List (Option Bytes)} {schedule : List Nat}
    (h : ((swapCalls key expected news m).schedule handleStore schedule).results = answers.map some) :
    answers.countP succeeded ≤ 1 ↔
      AlongRun (Standing.turn (SwapPoint.next key expected)) (SwapUndisturbed expected) (swapping news m) schedule := by
  have hstart : (swapping news m).pool (SwapPoint.prog key expected) = swapCalls key expected news m :=
    Standing.pool_map (fun _ => rfl) news m
  have hnone : winners (swapping news m) = [] := filterMap_map_of_none (fun _ => rfl) news
  have hinit : OneSwap key expected (swapping news m) :=
    ⟨by rw [hnone]; exact Nat.zero_le 1, fun new hmem => absurd hmem (mem_winners hnone new).1,
      fun new hmem => absurd hmem (mem_winners hnone new).2⟩
  rw [← hstart, ← (SwapPoint.follows key expected).pool_run] at h
  rw [countP_succeeded h]
  exact winners_run_iff hinit schedule

theorem increments_iff {first : Int64} (hfirst : currentInt (m.get key) = some first) (deltas : List Int64)
    (schedule : List Nat) :
    AlongRun (Standing.turn (IncrementPoint.next api key))
        (fun st i => CounterExact key first (st.turn (IncrementPoint.next api key) i)) (incrementing deltas m) schedule ↔
      AlongRun (Standing.turn (IncrementPoint.next api key)) (IncrementUndisturbed api key)
        (incrementing deltas m) schedule := by
  refine alongRun_iff_of_step (CounterExact key first) ?_ (counterExact_start hfirst deltas) schedule
  intro st i hst
  exact ⟨counted_turn_iff hst i, (counted_turn_iff hst i).2⟩

theorem increments_final {first : Int64} (hfirst : currentInt (m.get key) = some first) {deltas : List Int64}
    {schedule : List Nat}
    (h : ((incrementCalls api key deltas m).schedule handleStore schedule).results = answers.map some)
    (hrun : AlongRun (Standing.turn (IncrementPoint.next api key)) (IncrementUndisturbed api key) (incrementing deltas m) schedule) :
    currentInt (((incrementCalls api key deltas m).schedule handleStore schedule).state.get key) =
      some (sumFrom first deltas) := by
  have hstart : (incrementing deltas m).pool (IncrementPoint.prog api key) = incrementCalls api key deltas m :=
    Standing.pool_map (fun _ => rfl) deltas m
  rw [← hstart, ← (IncrementPoint.follows api key).pool_run] at h ⊢
  have hexact : CounterExact key first ((incrementing deltas m).run (IncrementPoint.next api key) schedule) :=
    hrun.invariant (CounterExact key first) (fun st i hst => (counted_turn_iff hst i).2) (counterExact_start hfirst deltas)
  have hdeltas : ((incrementing deltas m).run (IncrementPoint.next api key) schedule).points.filterMap
      IncrementPoint.contribution = deltas := by
    rw [contribution_of_results h, Standing.map_run (delta_next api key), incrementing, map_map]
    exact map_id deltas
  rw [CounterExact, hdeltas] at hexact
  exact hexact

/-- **Atomicity** at every step: no other swap is between its read and its write at a read, and every write of an
increment finds the value its call has read. -/
theorem atomics_iff (api : AtomicsApi) (key : Bytes) (m : Store) :
    (∀ (expected : Option Bytes) (news : List (Option Bytes)) (schedule : List Nat) (answers : List Answer),
      ((swapCalls key expected news m).schedule handleStore schedule).results = answers.map some →
        (answers.countP succeeded ≤ 1 ↔
          AlongRun (Standing.turn (SwapPoint.next key expected)) (SwapUndisturbed expected)
            (swapping news m) schedule)) ∧
    ∀ (first : Int64) (deltas : List Int64) (schedule : List Nat), currentInt (m.get key) = some first →
      (AlongRun (Standing.turn (IncrementPoint.next api key))
          (fun st i => CounterExact key first (st.turn (IncrementPoint.next api key) i))
          (incrementing deltas m) schedule ↔
        AlongRun (Standing.turn (IncrementPoint.next api key)) (IncrementUndisturbed api key)
          (incrementing deltas m) schedule) ∧
      ∀ answers : List Answer,
        ((incrementCalls api key deltas m).schedule handleStore schedule).results = answers.map some →
        AlongRun (Standing.turn (IncrementPoint.next api key)) (IncrementUndisturbed api key)
          (incrementing deltas m) schedule →
        currentInt (((incrementCalls api key deltas m).schedule handleStore schedule).state.get key) =
          some (sumFrom first deltas) :=
  ⟨fun _ _ _ _ h => swaps_iff h,
    fun _ deltas schedule hfirst =>
      ⟨increments_iff api hfirst deltas schedule, fun _ h hrun => increments_final api hfirst h hrun⟩⟩

theorem atomics_one_after_the_other :
    ([.flag true, .flag false] : List Answer).countP succeeded ≤ 1 ∧
      currentInt (((incrementCalls .fjall [107] [1, 2] .empty).schedule handleStore [0, 0, 1, 1]).state.get [107]) =
        some 3 := by
  refine ⟨?_, ?_⟩
  · refine ((atomics_iff .fjall [107] .empty).1 none [some [1], some [2]] [0, 0, 1] _ rfl).2 ?_
    refine ⟨?_, trivial, ?_, trivial⟩ <;> simp [SwapUndisturbed, swapping, Standing.turn, SwapPoint.next, storeNew]
  · refine ((atomics_iff .fjall [107] .empty).2 0 [1, 2] [0, 0, 1, 1] rfl).2 [.integer 1, .integer 3] (by decide) ?_
    exact ⟨fun _ _ => rfl, show currentInt _ = some 0 from rfl, fun _ _ => rfl,
      show currentInt _ = some 1 from rfl, trivial⟩

/-- Both calls read before either writes: both swaps succeed, and one increment is lost. -/
theorem atomics_interleaved :
    ((swapCalls [107] none [some [1], some [2]] .empty).schedule handleStore [0, 1, 0, 1]).results =
        [some (.flag true), some (.flag true)] ∧
      ((incrementCalls (.any true) [107] [1, 1] .empty).schedule handleStore [0, 1, 0, 1]).results =
        [some (.integer 1), some (.integer 1)] ∧
      currentInt (((incrementCalls (.any true) [107] [1, 1] .empty).schedule handleStore [0, 1, 0, 1]).state.get [107]) =
        some 1 ∧
      currentInt (((incrementCalls .fjall [107] [1, 1] .empty).schedule handleStore [0, 1, 0, 1]).state.get [107]) =
        some 1 := by
  decide

end DpStorage
