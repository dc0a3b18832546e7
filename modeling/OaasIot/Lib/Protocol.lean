import OaasIot.Lib.Program

/-!
# Programs that follow a protocol

A protocol keeps a note about a program: which call it may make next depends on the note, and an answered call changes
it. `Follows` is checked on the program alone; `Monitored` is a pool of programs with the note of each.
-/

structure Protocol (I : Interface) (G : Type) where
  allowed : G → I.Call → Prop
  after : G → (c : I.Call) → I.Reply c → G

namespace Protocol

open List

variable {I : Interface} {G σ α β ε : Type} {P : Protocol I G} {g : G}

def Follows (P : Protocol I G) : G → Prog I α → (G → α → Prop) → Prop
  | g, .done a, Q => Q g a
  | g, .call c k, Q => P.allowed g c ∧ ∀ r, P.Follows (P.after g c r) (k r) Q

theorem Follows.mono {p : Prog I α} {Q Q' : G → α → Prop} (h : P.Follows g p Q) (hQ : ∀ g a, Q g a → Q' g a) :
    P.Follows g p Q' := by
  induction p generalizing g with
  | done a => exact hQ g a h
  | call c k ih => exact ⟨h.1, fun r => ih r (h.2 r)⟩

theorem Follows.bind {p : Prog I α} {f : α → Prog I β} {Q : G → β → Prop}
    (h : P.Follows g p fun g a => P.Follows g (f a) Q) : P.Follows g (p >>= f) Q := by
  induction p generalizing g with
  | done a => exact h
  | call c k ih => exact ⟨h.1, fun r => ih r (h.2 r)⟩

def FollowsE (P : Protocol I G) (g : G) (p : ExceptT ε (Prog I) α) (Q : G → α → Prop) : Prop :=
  P.Follows g (ExceptT.run p) fun g r => ∀ a, r = .ok a → Q g a

theorem FollowsE.pure {a : α} {Q : G → α → Prop} (h : Q g a) : P.FollowsE g (Pure.pure a : ExceptT ε (Prog I) α) Q := by
  intro a' ha'
  cases ha'
  exact h

theorem FollowsE.throw {e : ε} {Q : G → α → Prop} :
    P.FollowsE g (MonadExcept.throw e : ExceptT ε (Prog I) α) Q := by
  intro a' ha'
  cases ha'

theorem FollowsE.ask {c : I.Call} {Q : G → I.Reply c → Prop} (hc : P.allowed g c) (h : ∀ r, Q (P.after g c r) r) :
    P.FollowsE g (Prog.ask c : ExceptT ε (Prog I) (I.Reply c)) Q := by
  refine ⟨hc, fun r => ?_⟩
  intro a' ha'
  cases ha'
  exact h r

theorem FollowsE.bind {p : ExceptT ε (Prog I) α} {f : α → ExceptT ε (Prog I) β} {Q : G → β → Prop}
    (h : P.FollowsE g p fun g a => P.FollowsE g (f a) Q) : P.FollowsE g (p >>= f) Q := by
  refine Follows.bind (Follows.mono h ?_)
  intro g' r hr
  cases r with
  | ok a => exact hr a rfl
  | error e =>
    intro b hb
    cases hb

theorem FollowsE.mono {p : ExceptT ε (Prog I) α} {Q Q' : G → α → Prop} (h : P.FollowsE g p Q)
    (hQ : ∀ g a, Q g a → Q' g a) : P.FollowsE g p Q' :=
  Follows.mono h fun g' _ hr a ha => hQ g' a (hr a ha)

/-! ## Pools -/

structure Monitored (I : Interface) (σ α G : Type) where
  pool : Prog.Pool I σ α
  notes : Nat → G

namespace Monitored

def next (m : Monitored I σ α G) (i : Nat) : Option I.Call :=
  match m.pool.progs[i]? with
  | some (.call c _) => some c
  | _ => none

def finished (m : Monitored I σ α G) (i : Nat) : Bool :=
  match m.pool.progs[i]? with
  | some (.done _) => true
  | _ => false

def advance (P : Protocol I G) (H : Handler I σ) (m : Monitored I σ α G) (i : Nat) : Monitored I σ α G where
  pool := m.pool.advance H i
  notes :=
    match m.next i with
    | some c => Function.update m.notes i (P.after (m.notes i) c (H c m.pool.state).1)
    | none => m.notes

def AllFollow (P : Protocol I G) (m : Monitored I σ α G) : Prop :=
  ∀ i p, m.pool.progs[i]? = some p → P.Follows (m.notes i) p fun _ _ => True

theorem advance_cases (P : Protocol I G) (H : Handler I σ) (m : Monitored I σ α G) (i : Nat) :
    (m.next i = none ∧ m.advance P H i = m) ∨
      ∃ c k, m.next i = some c ∧ m.pool.progs[i]? = some (.call c k) ∧
        m.advance P H i = ⟨⟨m.pool.progs.set i (k (H c m.pool.state).1), (H c m.pool.state).2⟩,
          Function.update m.notes i (P.after (m.notes i) c (H c m.pool.state).1)⟩ := by
  cases hp : m.pool.progs[i]? with
  | none =>
    have hnext : m.next i = none := by rw [next, hp]
    refine Or.inl ⟨hnext, ?_⟩
    rw [advance, hnext, Prog.Pool.advance, hp]
  | some p =>
    cases p with
    | done a =>
      have hnext : m.next i = none := by rw [next, hp]
      obtain ⟨hlt, hget⟩ := List.getElem?_eq_some_iff.1 hp
      refine Or.inl ⟨hnext, ?_⟩
      have hset : m.pool.progs.set i (.done a) = m.pool.progs := by rw [← hget, List.set_getElem_self]
      rw [advance, hnext, Prog.Pool.advance_of_get H hp]
      simp only [Prog.step, hset]
    | call c k =>
      have hnext : m.next i = some c := by rw [next, hp]
      refine Or.inr ⟨c, k, hnext, rfl, ?_⟩
      rw [advance, hnext, Prog.Pool.advance_of_get H hp]
      rfl

theorem AllFollow.allowed {m : Monitored I σ α G} (h : m.AllFollow P) {i : Nat} {c : I.Call} (hc : m.next i = some c) :
    P.allowed (m.notes i) c := by
  unfold next at hc
  split at hc
  · rename_i c' k hp
    cases hc
    exact (h i _ hp).1
  · cases hc

theorem AllFollow.advance {m : Monitored I σ α G} (h : m.AllFollow P) (H : Handler I σ) (i : Nat) :
    (m.advance P H i).AllFollow P := by
  rcases m.advance_cases P H i with ⟨_, hsame⟩ | ⟨c, k, _, hp, hstep⟩
  · rw [hsame]
    exact h
  · rw [hstep]
    intro j p hj
    by_cases hij : j = i
    · subst hij
      obtain ⟨hlt, _⟩ := List.getElem?_eq_some_iff.1 hp
      rw [List.getElem?_set_self hlt] at hj
      cases hj
      simp only [Function.update_self]
      exact (h j _ hp).2 _
    · rw [List.getElem?_set_ne (Ne.symm hij)] at hj
      simp only [Function.update_of_ne hij]
      exact h j p hj

end Monitored

end Protocol
