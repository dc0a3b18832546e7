import OaasIot.Crm.Status

/-!
# Enforcing a recommendation (`controller/enforcer.rs`, `controller/analyzer.rs`)

A target is applied once it has been asked for over the stability period, and not again before the cooldown is over. A
clock that steps back makes the time waited negative, and **`as u64` makes that a very long time**. Instants are
nanoseconds.
-/

namespace Crm

open List

/-! ## Waiting -/

inductive EnforceDecision
  | skipCooldown
  | skipStability
  | apply
  deriving DecidableEq

structure StabilityState where
  lastTarget : Option UInt32
  since : Option Int
  cooldownUntil : Option Int

/-- The periods in seconds, and where chrono panics for the end of a cooldown. -/
structure Enforcement where
  stability : UInt64
  cooldown : UInt64
  overflows : Int → Bool

structure EnforceCall where
  target : UInt32
  now : Int

def secondNs : Int := 1000000000

def secondsAsU64 (d : Int) : Nat := (d.tdiv secondNs % 2 ^ 64).toNat

def secondsAsI64 (n : UInt64) : Int := if n.toNat < 2 ^ 63 then n.toNat else n.toNat - 2 ^ 64

namespace Enforcement

variable (e : Enforcement)

def evalEnforce (st : StabilityState) (c : EnforceCall) : Option EnforceDecision × StabilityState :=
  if st.cooldownUntil.any (c.now < ·) then (some .skipCooldown, st)
  else if st.lastTarget = some c.target then
    match st.since with
    | none => (some .skipStability, { st with since := some c.now })
    | some since =>
      if e.stability.toNat ≤ secondsAsU64 (c.now - since) then
        if e.overflows c.now then (none, { st with since := none })
        else (some .apply, { st with since := none, cooldownUntil := some (c.now + secondsAsI64 e.cooldown * secondNs) })
      else (some .skipStability, st)
  else (some .skipStability, { st with lastTarget := some c.target, since := some c.now })

def stateAfter : List EnforceCall → StabilityState
  | [] => ⟨none, none, none⟩
  | c :: past => (e.evalEnforce (stateAfter past) c).2

def decision (past : List EnforceCall) (c : EnforceCall) : Option EnforceDecision :=
  (e.evalEnforce (e.stateAfter past) c).1

def lastApply : List EnforceCall → Option Int
  | [] => none
  | c :: past => if e.decision past c = some .apply then some c.now else lastApply past

/-- If a call is answered with `Apply`, its target was that of all calls since one that is the stability period back, and
the previous `Apply` is the cooldown back. -/
def ApplyWaits (past : List EnforceCall) (c : EnforceCall) : Prop :=
  e.decision past c = some .apply →
    (∃ first ∈ past.takeWhile (·.target = c.target), e.stability.toNat * secondNs ≤ c.now - first.now) ∧
      ∀ t ∈ e.lastApply past, e.cooldown.toNat * secondNs ≤ c.now - t

variable {e} {past : List EnforceCall} {c : EnforceCall} {st : StabilityState}

/-- **Inversion**: a call leaves the state alone, in a cooldown or in a wait; or begins or gives up a wait; or applies. -/
theorem evalEnforce_cases (e : Enforcement) (st : StabilityState) (c : EnforceCall) :
    (∃ out ≠ some EnforceDecision.apply, e.evalEnforce st c = (out, st) ∧
        ((∃ u ∈ st.cooldownUntil, c.now < u) ∨ st.lastTarget = some c.target)) ∨
      (∀ u ∈ st.cooldownUntil, u ≤ c.now) ∧
        ((∃ out ≠ some EnforceDecision.apply, ∃ since, (∀ s ∈ since, s = c.now) ∧
            e.evalEnforce st c = (out, ⟨some c.target, since, st.cooldownUntil⟩)) ∨
          st.lastTarget = some c.target ∧ (∃ s ∈ st.since, e.stability.toNat ≤ secondsAsU64 (c.now - s)) ∧
            e.overflows c.now = false ∧
            e.evalEnforce st c = (some .apply, ⟨some c.target, none, some (c.now + secondsAsI64 e.cooldown * secondNs)⟩)) := by
  obtain ⟨last, since, cooldownUntil⟩ := st
  unfold evalEnforce
  split
  · rename_i h
    exact .inl ⟨_, by simp, rfl, .inl (by simpa [Option.any_eq_true] using h)⟩
  · rename_i h
    have hfree : ∀ u ∈ cooldownUntil, u ≤ c.now := by simpa [Option.any_eq_true] using h
    split
    · rename_i htarget
      obtain rfl : last = some c.target := htarget
      cases since with
      | none => exact .inr ⟨hfree, .inl ⟨_, by simp, some c.now, by simp, rfl⟩⟩
      | some s => dsimp only; split <;> [split; skip] <;> simp_all
    · exact .inr ⟨hfree, .inl ⟨_, by simp, some c.now, by simp, rfl⟩⟩

/-- The state as the history tells it: a wait began with a call for the target, after the cooldown. -/
structure Tells (e : Enforcement) (past : List EnforceCall) (st : StabilityState) : Prop where
  cooldown : st.cooldownUntil = (e.lastApply past).map (· + e.cooldown.toNat * secondNs)
  run : ∀ s ∈ st.since, ∃ first ∈ past.takeWhile (fun c => st.lastTarget = some c.target), first.now = s
  later : ∀ s ∈ st.since, ∀ u ∈ st.cooldownUntil, u ≤ s

section
variable (hcd : e.cooldown.toNat < 2 ^ 63)
include hcd

/-- **Step**, for a clock that does not step back. -/
theorem Tells.step (h : e.Tells past (e.stateAfter past))
    (hclock : ∀ d ∈ past, d.now ≤ c.now) : e.Tells (c :: past) (e.stateAfter (c :: past)) := by
  obtain ⟨hcool, hrun, hlater⟩ := h
  rw [stateAfter]
  rcases e.evalEnforce_cases (e.stateAfter past) c with
    ⟨out, hout, heval, hwhy⟩ | ⟨hfree, ⟨out, hout, since, hsince, heval⟩ | ⟨_, _, _, heval⟩⟩
  · refine ⟨by simp [lastApply, decision, heval, hout, hcool], fun s hs => ?_, by simpa [heval] using hlater⟩
    obtain ⟨first, hfirst, rfl⟩ := hrun s (by simpa [heval] using hs)
    rcases hwhy with ⟨u, hu, hlt⟩ | htarget
    · -- The wait began after the cooldown and before this call.
      have := hclock first ((takeWhile_sublist _).mem hfirst)
      have := hlater first.now (by simpa [heval] using hs) u hu
      omega
    · exact ⟨first, by simp [heval, htarget] at hfirst ⊢; exact .inr hfirst, rfl⟩
  · refine ⟨by simp [lastApply, decision, heval, hout, hcool], fun s hs => ?_, fun s hs => ?_⟩
    · exact ⟨c, by simp [heval], (hsince s (by simpa [heval] using hs)).symm⟩
    · simpa [heval, hsince s (by simpa [heval] using hs)] using hfree
  · have hi64 : secondsAsI64 e.cooldown = e.cooldown.toNat := if_pos hcd
    exact ⟨by simp [lastApply, decision, heval, hi64], by simp [heval], by simp [heval]⟩

theorem tells_stateAfter
    (hclock : past.Pairwise fun later earlier => earlier.now ≤ later.now) : e.Tells past (e.stateAfter past) := by
  induction past with
  | nil => exact ⟨rfl, by simp [stateAfter], by simp [stateAfter]⟩
  | cons c past ih => exact (ih (pairwise_cons.1 hclock).2).step hcd (pairwise_cons.1 hclock).1

theorem applyWaits_of_clock
    (hclock : (c :: past).Pairwise fun later earlier => earlier.now ≤ later.now) : e.ApplyWaits past c := by
  intro happly
  obtain ⟨hc, hpast⟩ := pairwise_cons.1 hclock
  obtain ⟨hcool, hrun, _⟩ := tells_stateAfter hcd hpast
  rcases e.evalEnforce_cases (e.stateAfter past) c with
    ⟨out, hout, heval, _⟩ | ⟨hfree, ⟨out, hout, _, _, heval⟩ | ⟨htarget, ⟨s, hs, hstable⟩, _⟩⟩
  · simp [decision, heval, hout] at happly
  · simp [decision, heval, hout] at happly
  · obtain ⟨first, hfirst, rfl⟩ := hrun s hs
    have hback := hc first ((takeWhile_sublist _).mem hfirst)
    refine ⟨⟨first, by simpa [htarget, eq_comm] using hfirst, ?_⟩, fun t ht => ?_⟩
    · rw [secondsAsU64, Int.tdiv_eq_ediv_of_nonneg (by omega)] at hstable
      simp only [secondNs] at hstable ⊢
      omega
    · have := hfree (t + e.cooldown.toNat * secondNs) (by simp [hcool, Option.mem_def.1 ht])
      omega

end

/-- **Enforcement waits** whatever the clock does only where no `Apply` gets through at all; where the clock does not
step back it waits, for every cooldown that is an `i64`. -/
theorem enforcement_waits_iff (e : Enforcement) :
    ((∀ past c, e.ApplyWaits past c) ↔ ∀ now, e.overflows now = true) ∧
      (e.cooldown.toNat < 2 ^ 63 → ∀ past c, (c :: past).Pairwise (fun later earlier => earlier.now ≤ later.now) →
        e.ApplyWaits past c) := by
  refine ⟨⟨fun h now => ?_, fun h past c happly => ?_⟩, fun hcd past c hclock => applyWaits_of_clock hcd hclock⟩
  · -- The target is asked for once, and then again a second earlier.
    by_contra hnow
    have hsub : now - (now + secondNs) = -secondNs := by omega
    have hback : secondsAsU64 (-secondNs) = 2 ^ 64 - 1 := by decide
    have hle : e.stability.toNat ≤ 18446744073709551615 := by have := e.stability.toNat_lt; omega
    obtain ⟨⟨first, hfirst, hlong⟩, _⟩ := h [⟨1, now + secondNs⟩] ⟨1, now⟩
      (by simp [decision, evalEnforce, stateAfter, hsub, hback, hle, hnow])
    obtain rfl : first = ⟨1, now + secondNs⟩ := by simpa using hfirst
    simp only [secondNs] at hlong
    omega
  · rcases e.evalEnforce_cases (e.stateAfter past) c with
      ⟨out, hout, heval, _⟩ | ⟨_, ⟨out, hout, _, _, heval⟩ | ⟨_, _, hoverflow, _⟩⟩
    · simp [decision, heval, hout] at happly
    · simp [decision, heval, hout] at happly
    · simp [h] at hoverflow

/-- The second call comes five seconds before the first, and need not wait for an hour. -/
theorem applied_at_once : ¬ ApplyWaits ⟨3600, 60, fun _ => false⟩ [⟨3, 5 * secondNs⟩] ⟨3, 0⟩ := by
  intro h
  obtain ⟨⟨first, hfirst, hlong⟩, _⟩ := h (by decide)
  obtain rfl : first = ⟨3, 5 * secondNs⟩ := by simpa using hfirst
  simp [secondNs] at hlong

end Enforcement

/-! ## Recommendations -/

inductive F64
  | nan
  | infinite (negative : Bool)
  | finite (x : Rat)
  deriving DecidableEq

namespace F64

def le : F64 → F64 → Bool
  | infinite true, _ | _, infinite false => true
  | finite x, finite y => x ≤ y
  | _, _ => false

def max (a b : F64) : F64 := if a = nan then b else if b = nan then a else if a.le b then b else a

def min (a b : F64) : F64 := if a = nan then b else if b = nan then a else if a.le b then a else b

end F64

inductive JsonNumber
  | posInt (n : UInt64)
  | negInt (n : Int64)
  | float (x : Rat)
  deriving DecidableEq

def JsonNumber.fromF64 : F64 → Option JsonNumber
  | .finite x => some (.float x)
  | _ => none

def JsonNumber.asU64 : JsonNumber → Option UInt64
  | .posInt n => some n
  | _ => none

inductive Json
  | null
  | number (n : JsonNumber)
  | string (s : String)
  | other
  deriving DecidableEq

structure NfrRecommendation where
  dimension : String
  target : F64

def NfrRecommendation.value (r : NfrRecommendation) : Json :=
  if r.dimension = "replicas" then
    .number ((JsonNumber.fromF64 ((r.target.max (.finite 1)).min (.finite 2147483647))).getD (.posInt 1))
  else (JsonNumber.fromF64 r.target).elim .null .number

variable (parseU32 : String → Option UInt32) (maxReplicas : UInt32) (conds : List Condition)

def analyzed (now : String) (recs : List NfrRecommendation)
    (current : Option (ClassRuntimeStatus Json)) : ClassRuntimeStatus Json :=
  let recommendations := some (OrdMap.empty.insertMany (recs.map fun r => (r.dimension, r.value)))
  match current with
  | some s =>
    { s with
      nfrRecommendations := recommendations
      conditions := some conds
      lastUpdated := some now
      lastAppliedRecommendations := none }
  | none => ⟨none, none, none, some now, some conds, none, recommendations, none, none, none, none⟩

def cachedReplicas (status : ClassRuntimeStatus Json) : Option UInt32 :=
  (((status.nfrRecommendations.bind (·.get "replicas")).bind fun
    | .number n => n.asU64.map (·.toUInt32)
    | .string s => parseU32 s
    | _ => none)).map fun r => min (max r 1) maxReplicas

def Reached (target : F64) (replicas : Option UInt32) : Prop :=
  ∃ n ∈ replicas, ∃ x, (target.max (.finite 1)).min (.finite maxReplicas.toNat) = .finite x ∧
    (x - 1 < n.toNat ∧ n.toNat < x + 1)

theorem fromF64_clamped (t : F64) :
    ∃ x, JsonNumber.fromF64 ((t.max (.finite 1)).min (.finite 2147483647)) = some (.float x) := by
  rcases t with _ | (_ | _) | x
  · exact ⟨1, by decide⟩
  · exact ⟨2147483647, by decide⟩
  · exact ⟨1, by decide⟩
  · by_cases h : x ≤ 1
    · have hone : F64.max (.finite x) (.finite 1) = .finite 1 := by simp [F64.max, F64.le, h]
      exact ⟨1, by rw [hone]; decide⟩
    · by_cases h' : x ≤ 2147483647 <;> simp [F64.max, F64.min, F64.le, h, h', JsonNumber.fromF64]

/-- **A float is no `u64`**: the cached path finds nothing. -/
theorem cachedReplicas_analyzed
    (now : String) (recs : List NfrRecommendation) (current : Option (ClassRuntimeStatus Json)) :
    cachedReplicas parseU32 maxReplicas (analyzed conds now recs current) = none := by
  have hrecs : (analyzed conds now recs current).nfrRecommendations =
      some (OrdMap.empty.insertMany (recs.map fun r => (r.dimension, r.value))) := by cases current <;> rfl
  rw [cachedReplicas, hrecs, Option.bind_some]
  cases hget : (OrdMap.empty.insertMany (recs.map fun r => (r.dimension, r.value))).get "replicas" with
  | none => rfl
  | some v =>
    obtain ⟨r, _, hdim, rfl⟩ : ∃ r ∈ recs, r.dimension = "replicas" ∧ r.value = v := by
      simpa using OrdMap.get_insertMany_eq_some _ hget
    obtain ⟨x, hx⟩ := fromF64_clamped r.target
    simp [NfrRecommendation.value, hdim, hx, JsonNumber.asU64]

/-- **Recommendations reach the enforcer** only where there are none. -/
theorem recommendations_reach_iff
    (now : String) (recs : List NfrRecommendation) (current : Option (ClassRuntimeStatus Json)) :
    (∀ r ∈ recs, r.dimension = "replicas" →
        Reached maxReplicas r.target (cachedReplicas parseU32 maxReplicas (analyzed conds now recs current))) ↔
      ∀ r ∈ recs, r.dimension ≠ "replicas" := by
  simp [cachedReplicas_analyzed, Reached]

theorem three_replicas_lost :
    ¬ Reached 10 (.finite 3) (cachedReplicas (fun _ => none) 10 (analyzed [] "" [⟨"replicas", .finite 3⟩] none)) := by
  simp [cachedReplicas_analyzed, Reached]

end Crm
