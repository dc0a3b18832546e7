import Mathlib

/-!
# Programs that call an environment

An `Interface` lists the calls a program may make and their answers. A `Prog` is the tree of its calls: it runs to its
end against a handler (`Prog.run`), or one call at a time (`Prog.step`), interleaved with others on one shared state
(`Pool`). Programs that can fail are `ExceptT ε (Prog I)`, run by `exec`.
-/

section
variable {σ ι : Type}

def AlongRun (step : σ → ι → σ) (P : σ → ι → Prop) : σ → List ι → Prop
  | _, [] => True
  | s, i :: is => P s i ∧ AlongRun step P (step s i) is

variable {step : σ → ι → σ} {P Q : σ → ι → Prop} {s : σ} {is : List ι}

/-- Two properties of steps are the same along a run where they are the same of each step that keeps an
invariant, and the second of them keeps it. -/
theorem alongRun_iff {R : σ → ι → Prop} (Inv : σ → Prop)
    (hstep : ∀ s i, Inv s → R s i → ((P s i ↔ Q s i) ∧ (Q s i → Inv (step s i)))) (hs : Inv s)
    (hR : AlongRun step R s is) : AlongRun step P s is ↔ AlongRun step Q s is := by
  induction is generalizing s with
  | nil => exact Iff.rfl
  | cons i is ih =>
    obtain ⟨hiff, hkeep⟩ := hstep s i hs hR.1
    unfold AlongRun
    rw [hiff]
    exact and_congr_right fun hQ => ih (hkeep hQ) hR.2

theorem alongRun_const {P : ι → Prop} : AlongRun step (fun _ i => P i) s is ↔ ∀ i ∈ is, P i := by
  induction is generalizing s with
  | nil => simp [AlongRun]
  | cons i is ih => rw [AlongRun, ih, List.forall_mem_cons]

theorem alongRun_iff_of_step (Inv : σ → Prop)
    (hstep : ∀ s i, Inv s → ((P s i ↔ Q s i) ∧ (Q s i → Inv (step s i)))) (hs : Inv s) (is : List ι) :
    AlongRun step P s is ↔ AlongRun step Q s is :=
  alongRun_iff (R := fun _ _ => True) Inv (fun s i hinv _ => hstep s i hinv) hs (alongRun_const.2 fun _ _ => trivial)

theorem AlongRun.invariant (Inv : σ → Prop) (hstep : ∀ s i, Inv s → P s i → Inv (step s i)) (hs : Inv s)
    (h : AlongRun step P s is) : Inv (is.foldl step s) := by
  induction is generalizing s with
  | nil => exact hs
  | cons i is ih => exact ih (hstep s i hs h.1) h.2

theorem alongRun_of_invariant (Inv : σ → Prop) (hstep : ∀ s i, Inv s → P s i ∧ Inv (step s i)) (hs : Inv s)
    (is : List ι) : AlongRun step P s is := by
  induction is generalizing s with
  | nil => exact trivial
  | cons i is ih => exact ⟨(hstep s i hs).1, ih (hstep s i hs).2⟩

variable {α : Type}

def outputs (step : σ → ι → σ) (out : σ → ι → α) : σ → List ι → List α
  | _, [] => []
  | s, i :: is => out s i :: outputs step out (step s i) is

/-- Two machines that answer alike differ in their states only. With an input `q` whose answer tells the state, they
answer the same along a run and to a `q` at any time of it exactly where they take the same steps. -/
theorem outputs_agree_iff {f g : σ → ι → σ} {out : σ → ι → α} {q : ι}
    (hq : Function.Injective fun s => out s q) (s : σ) (is : List ι) :
    (∀ front, front <+: is → outputs f out s (front ++ [q]) = outputs g out s (front ++ [q])) ↔
      AlongRun g (fun s i => f s i = g s i) s is := by
  induction is generalizing s with
  | nil =>
    refine iff_of_true ?_ trivial
    intro front hfront
    rw [List.prefix_nil.1 hfront]
    rfl
  | cons i is ih =>
    constructor
    · intro h
      have hone := h [i] (by simp)
      have hstep : f s i = g s i := by
        simp only [List.cons_append, List.nil_append, outputs, List.cons.injEq, true_and, and_true] at hone
        exact hq hone
      refine ⟨hstep, (ih (g s i)).1 fun front hfront => ?_⟩
      have hmore := h (i :: front) (List.cons_prefix_cons.2 ⟨rfl, hfront⟩)
      simp only [List.cons_append, outputs, List.cons.injEq, true_and] at hmore
      rwa [hstep] at hmore
    · rintro ⟨hstep, hrest⟩ front hfront
      cases front with
      | nil => rfl
      | cons j front =>
        obtain ⟨rfl, htail⟩ := List.cons_prefix_cons.1 hfront
        simp only [List.cons_append, outputs]
        rw [hstep, (ih (g s j)).2 hrest front htail]

end

structure Interface where
  Call : Type
  Reply : Call → Type

inductive Prog (I : Interface) (α : Type)
  | done (a : α)
  | call (c : I.Call) (k : I.Reply c → Prog I α)

abbrev Handler (I : Interface) (σ : Type) := (c : I.Call) → σ → I.Reply c × σ

namespace Prog

open List

variable {I : Interface} {σ α β ε : Type}

def bind : Prog I α → (α → Prog I β) → Prog I β
  | done a, f => f a
  | call c k, f => call c fun r => (k r).bind f

instance : Monad (Prog I) where
  pure := done
  bind := bind

theorem bind_done (p : Prog I α) : p.bind done = p := by
  induction p with
  | done a => rfl
  | call c k ih => exact congrArg (call c) (funext ih)

theorem bind_bind {γ : Type} (p : Prog I α) (f : α → Prog I β) (g : β → Prog I γ) :
    (p.bind f).bind g = p.bind fun a => (f a).bind g := by
  induction p with
  | done a => rfl
  | call c k ih => exact congrArg (call c) (funext ih)

instance : LawfulMonad (Prog I) :=
  LawfulMonad.mk' (Prog I) bind_done (fun _ _ => rfl) bind_bind

def run (H : Handler I σ) : Prog I α → σ → α × σ
  | done a, s => (a, s)
  | call c k, s => (k (H c s).1).run H (H c s).2

variable (H : Handler I σ)

theorem run_bind (p : Prog I α) (f : α → Prog I β) (s : σ) :
    (p >>= f).run H s = (f (p.run H s).1).run H (p.run H s).2 := by
  induction p generalizing s with
  | done a => rfl
  | call c k ih => exact ih (H c s).1 (H c s).2

/-! ## Programs that fail -/

def ask (c : I.Call) : ExceptT ε (Prog I) (I.Reply c) := ExceptT.lift (call c done)
def exec (H : Handler I σ) (p : ExceptT ε (Prog I) α) (s : σ) : Except ε α × σ := (ExceptT.run p).run H s

@[simp] theorem exec_pure (a : α) (s : σ) :
    exec H (pure a : ExceptT ε (Prog I) α) s = (.ok a, s) := rfl

@[simp] theorem exec_throw (e : ε) (s : σ) :
    exec H (throw e : ExceptT ε (Prog I) α) s = (.error e, s) := rfl

@[simp] theorem exec_ask (c : I.Call) (s : σ) :
    exec H (ask c : ExceptT ε (Prog I) (I.Reply c)) s = (.ok (H c s).1, (H c s).2) := rfl

def afterwards (H : Handler I σ) (f : α → ExceptT ε (Prog I) β) : Except ε α × σ → Except ε β × σ
  | (.ok a, s) => exec H (f a) s
  | (.error e, s) => (.error e, s)

@[simp] theorem afterwards_ok (f : α → ExceptT ε (Prog I) β) (a : α) (s : σ) :
    afterwards H f (.ok a, s) = exec H (f a) s := rfl

@[simp] theorem afterwards_error (f : α → ExceptT ε (Prog I) β) (e : ε) (s : σ) :
    afterwards H f (.error e, s) = (.error e, s) := rfl

@[simp] theorem exec_bind (p : ExceptT ε (Prog I) α) (f : α → ExceptT ε (Prog I) β) (s : σ) :
    exec H (p >>= f) s = afterwards H f (exec H p s) := by
  have h := run_bind H (ExceptT.run p) (ExceptT.bindCont f) s
  refine Eq.trans h ?_
  unfold exec
  generalize (ExceptT.run p).run H s = w
  obtain ⟨r, s'⟩ := w
  cases r <;> rfl

variable {s : σ} {p : ExceptT ε (Prog I) α}

theorem exec_bind_eq_ok {H : Handler I σ} {f : α → ExceptT ε (Prog I) β} {s' : σ} {b : β} :
    exec H (p >>= f) s = (.ok b, s') ↔ ∃ a s₁, exec H p s = (.ok a, s₁) ∧ exec H (f a) s₁ = (.ok b, s') := by
  rw [exec_bind]
  obtain ⟨out, s₁⟩ := exec H p s
  cases out with
  | ok a =>
    refine ⟨fun h => ⟨a, s₁, rfl, h⟩, ?_⟩
    rintro ⟨a', s₁', heq, h⟩
    cases heq
    exact h
  | error e =>
    constructor
    · intro h
      cases h
    · rintro ⟨a, s₁', heq, _⟩
      cases heq

/-! ## Programs that do not make some calls -/

def Avoids (bad : I.Call → Prop) : Prog I α → Prop
  | done _ => True
  | call c k => ¬ bad c ∧ ∀ r, (k r).Avoids bad

variable {bad : I.Call → Prop}

theorem Avoids.bind {p : Prog I α} {f : α → Prog I β} (hp : p.Avoids bad) (hf : ∀ a, (f a).Avoids bad) :
    (p >>= f).Avoids bad := by
  induction p with
  | done a => exact hf a
  | call c k ih => exact ⟨hp.1, fun r => ih r (hp.2 r)⟩

theorem Avoids.run (Inv : σ → Prop) (hcall : ∀ c s, ¬ bad c → Inv s → Inv (H c s).2) {p : Prog I α}
    (hp : p.Avoids bad) (hs : Inv s) : Inv (p.run H s).2 := by
  induction p generalizing s with
  | done a => exact hs
  | call c k ih => exact ih _ (hp.2 _) (hcall c s hp.1 hs)

def AvoidsE (bad : I.Call → Prop) (p : ExceptT ε (Prog I) α) : Prop := (ExceptT.run p).Avoids bad

theorem AvoidsE.pure (a : α) : AvoidsE bad (Pure.pure a : ExceptT ε (Prog I) α) := trivial

theorem AvoidsE.throw (e : ε) : AvoidsE bad (MonadExcept.throw e : ExceptT ε (Prog I) α) :=
  trivial

theorem AvoidsE.ask {c : I.Call} (h : ¬ bad c) : AvoidsE bad (Prog.ask c : ExceptT ε (Prog I) (I.Reply c)) :=
  ⟨h, fun _ => trivial⟩

theorem AvoidsE.bind {f : α → ExceptT ε (Prog I) β} (hp : AvoidsE bad p) (hf : ∀ a, AvoidsE bad (f a)) :
    AvoidsE bad (p >>= f) := by
  refine Avoids.bind hp ?_
  intro r
  cases r with
  | ok a => exact hf a
  | error e => exact trivial

theorem AvoidsE.ite {b : Prop} [Decidable b] {q : ExceptT ε (Prog I) α} (hp : AvoidsE bad p) (hq : AvoidsE bad q) :
    AvoidsE bad (if b then p else q) := by
  by_cases hb : b
  · rw [if_pos hb]
    exact hp
  · rw [if_neg hb]
    exact hq

/-! ## Interleaving -/

def step (H : Handler I σ) : Prog I α → σ → Prog I α × σ
  | done a, s => (done a, s)
  | call c k, s => (k (H c s).1, (H c s).2)

theorem run_step (p : Prog I α) (s : σ) : (p.step H s).1.run H (p.step H s).2 = p.run H s := by
  cases p with
  | done a | call c k => rfl

theorem step_ask_bind (c : I.Call) (f : I.Reply c → ExceptT ε (Prog I) β) (s : σ) :
    (ExceptT.run (ask c >>= f)).step H s = (ExceptT.run (f (H c s).1), (H c s).2) := rfl

structure Pool (I : Interface) (σ α : Type) where
  progs : List (Prog I α)
  state : σ

def Pool.advance (H : Handler I σ) (p : Pool I σ α) (i : Nat) : Pool I σ α :=
  match p.progs[i]? with
  | none => p
  | some q => ⟨p.progs.set i (q.step H p.state).1, (q.step H p.state).2⟩

def Pool.schedule (H : Handler I σ) (p : Pool I σ α) (is : List Nat) : Pool I σ α := is.foldl (Pool.advance H) p

def Pool.results (p : Pool I σ α) : List (Option α) :=
  p.progs.map fun
    | done a => some a
    | call _ _ => none

theorem Pool.schedule_append (p : Pool I σ α) (is js : List Nat) :
    p.schedule H (is ++ js) = (p.schedule H is).schedule H js := foldl_append

variable {p : Pool I σ α}

theorem Pool.advance_of_get {i : Nat} {q : Prog I α} (h : p.progs[i]? = some q) :
    p.advance H i = ⟨p.progs.set i (q.step H p.state).1, (q.step H p.state).2⟩ := by
  rw [Pool.advance, h]

theorem Pool.exists_schedule_run {i : Nat} {q : Prog I α} (h : p.progs[i]? = some q) :
    ∃ is, p.schedule H is = ⟨p.progs.set i (done (q.run H p.state).1), (q.run H p.state).2⟩ := by
  induction q generalizing p with
  | done a =>
    obtain ⟨hlt, hget⟩ := List.getElem?_eq_some_iff.1 h
    refine ⟨[], ?_⟩
    have hset : p.progs.set i (done a) = p.progs := by rw [← hget, List.set_getElem_self]
    exact (congrArg (fun progs => (⟨progs, p.state⟩ : Pool I σ α)) hset).symm
  | call c k ih =>
    obtain ⟨hlt, _⟩ := List.getElem?_eq_some_iff.1 h
    have hadv := Pool.advance_of_get H h
    have hnext : (p.advance H i).progs[i]? = some (k (H c p.state).1) := by
      rw [hadv]
      exact List.getElem?_set_self hlt
    obtain ⟨is, his⟩ := ih (H c p.state).1 hnext
    refine ⟨i :: is, ?_⟩
    have hcons : p.schedule H (i :: is) = (p.advance H i).schedule H is := rfl
    rw [hcons, his, hadv]
    simp only [List.set_set]
    rfl

/-- **Round rule**: programs whose next call leaves the state alone can all make it, one after the other. -/
theorem Pool.exists_schedule_round (progs : List (Prog I α)) (h : ∀ q ∈ progs, (q.step H s).2 = s)
    (before : List (Prog I α)) :
    ∃ is, (⟨before ++ progs, s⟩ : Pool I σ α).schedule H is = ⟨before ++ progs.map fun q => (q.step H s).1, s⟩ := by
  induction progs generalizing before with
  | nil => exact ⟨[], rfl⟩
  | cons q progs ih =>
    obtain ⟨is, his⟩ := ih (fun q' hq' => h q' (mem_cons_of_mem _ hq')) (before ++ [(q.step H s).1])
    refine ⟨before.length :: is, ?_⟩
    have hget : (⟨before ++ q :: progs, s⟩ : Pool I σ α).progs[before.length]? = some q := by simp
    have hcons : (⟨before ++ q :: progs, s⟩ : Pool I σ α).schedule H (before.length :: is) =
        ((⟨before ++ q :: progs, s⟩ : Pool I σ α).advance H before.length).schedule H is := rfl
    have hset : (before ++ q :: progs).set before.length (q.step H s).1 =
        before ++ [(q.step H s).1] ++ progs := by simp
    rw [hcons, Pool.advance_of_get H hget, h q mem_cons_self, hset, his]
    simp

/-- **Completion rule**: programs that all answer with `R`, from any state with `Inv`, can all be run to
their end. -/
theorem Pool.exists_schedule_complete (Inv : σ → Prop) (R : α → Prop) (hs : Inv s) (progs : List (Prog I α))
    (h : ∀ q ∈ progs, ∀ s, Inv s → R (q.run H s).1 ∧ Inv (q.run H s).2) (before : List (Prog I α)) :
    ∃ (is : List Nat) (rs : List α) (s' : σ),
      (⟨before ++ progs, s⟩ : Pool I σ α).schedule H is = ⟨before ++ rs.map done, s'⟩ ∧
      rs.length = progs.length ∧ ∀ r ∈ rs, R r := by
  induction progs generalizing before s with
  | nil => exact ⟨[], [], s, rfl, rfl, by simp⟩
  | cons q progs ih =>
    obtain ⟨hR, hInv⟩ := h q mem_cons_self s hs
    have hget : (⟨before ++ q :: progs, s⟩ : Pool I σ α).progs[before.length]? = some q := by simp
    obtain ⟨is, his⟩ := Pool.exists_schedule_run H hget
    obtain ⟨js, rs, s', hjs, hlen, hall⟩ :=
      ih hInv (fun q' hq' => h q' (mem_cons_of_mem _ hq')) (before ++ [done (q.run H s).1])
    refine ⟨is ++ js, (q.run H s).1 :: rs, s', ?_, by simp [hlen], ?_⟩
    · have hset : (before ++ q :: progs).set before.length (done (q.run H s).1) =
          before ++ [done (q.run H s).1] ++ progs := by simp
      rw [Pool.schedule_append, his, hset, hjs]
      simp
    · intro r hr
      rcases mem_cons.1 hr with rfl | hr
      · exact hR
      · exact hall r hr

/-- **Invariant rule**: what every call of every program keeps holds after every interleaving. -/
theorem Pool.schedule_invariant (Inv : Pool I σ α → Prop) (hstep : ∀ p i, Inv p → Inv (p.advance H i)) (h : Inv p)
    (is : List Nat) : Inv (p.schedule H is) := by
  induction is generalizing p with
  | nil => exact h
  | cons i is ih => exact ih (hstep p i h)

/-- What the programs answer if each is run alone from here. -/
def Pool.answers (H : Handler I σ) (p : Pool I σ α) : List α := p.progs.map fun q => (q.run H p.state).1

theorem Pool.results_map_done (rs : List α) (s : σ) : (⟨rs.map done, s⟩ : Pool I σ α).results = rs.map some := by
  simp [results, Function.comp_def]

theorem Pool.answers_of_results {rs : List α} (h : p.results = rs.map some) : p.answers H = rs := by
  obtain ⟨progs, s⟩ := p
  simp only [results, answers] at h ⊢
  induction progs generalizing rs with
  | nil => simpa using h
  | cons q progs ih =>
    cases rs with
    | nil => cases h
    | cons r rs =>
      obtain ⟨hr, hrest⟩ := cons.inj h
      cases q with
      | done a => rw [map_cons, ih hrest, ← Option.some.inj hr, run]
      | call c k => cases hr

/-- **Answer rule**: answers that no step changes are the results. -/
theorem Pool.results_eq_answers (Inv : Pool I σ α → Prop)
    (hstep : ∀ p i, Inv p → Inv (p.advance H i) ∧ (p.advance H i).answers H = p.answers H) (h : Inv p) (is : List Nat)
    {rs : List α} (hrs : (p.schedule H is).results = rs.map some) : rs = p.answers H := by
  have hkept := schedule_invariant H (fun p' => Inv p' ∧ p'.answers H = p.answers H)
    (fun p' i hp' => ⟨(hstep p' i hp'.1).1, (hstep p' i hp'.1).2.trans hp'.2⟩) ⟨h, rfl⟩ is
  rw [← hkept.2, answers_of_results H hrs]

theorem Pool.results_of_single (h : p.progs.length ≤ 1) (is : List Nat) {rs : List α}
    (hrs : (p.schedule H is).results = rs.map some) : rs = p.answers H := by
  refine results_eq_answers H (fun p => p.progs.length ≤ 1) ?_ h is hrs
  rintro ⟨progs, s⟩ i hlen
  match progs, i, hlen with
  | [], i, hlen => exact ⟨hlen, rfl⟩
  | [q], 0, hlen => exact ⟨hlen, congrArg (fun w : α × σ => [w.1]) (run_step H q s)⟩
  | [q], i + 1, hlen => exact ⟨hlen, rfl⟩

/-- Programs of one call that leaves the state alone. -/
theorem Pool.results_of_one_call {progs : List (Prog I α)} (h : ∀ q ∈ progs, ∃ r, q.step H s = (done r, s))
    (is : List Nat) {rs : List α} (hrs : ((⟨progs, s⟩ : Pool I σ α).schedule H is).results = rs.map some) :
    rs = (⟨progs, s⟩ : Pool I σ α).answers H := by
  refine results_eq_answers H (fun p => p.state = s ∧ ∀ q ∈ p.progs, ∃ r, q.step H s = (done r, s)) ?_ ⟨rfl, h⟩ is hrs
  rintro ⟨progs, s'⟩ i ⟨rfl, hall⟩
  cases hget : progs[i]? with
  | none =>
    rw [advance, hget]
    exact ⟨⟨rfl, hall⟩, rfl⟩
  | some q =>
    obtain ⟨hlt, rfl⟩ := List.getElem?_eq_some_iff.1 hget
    obtain ⟨r, hr⟩ := hall _ (getElem_mem hlt)
    have hrun := congrArg Prod.fst (run_step H progs[i] s')
    rw [advance_of_get H hget, hr]
    rw [hr] at hrun
    refine ⟨⟨rfl, fun q hq => ?_⟩, ?_⟩
    · rcases mem_or_eq_of_mem_set hq with hq | rfl
      · exact hall q hq
      · exact ⟨r, rfl⟩
    · have hself := @set_getElem_self _ (progs.map fun q => (q.run H s').1) i (by simpa using hlt)
      rw [getElem_map, ← hrun] at hself
      rwa [answers, answers, map_set]

end Prog
