import OaasIot.Lib.Points
import OaasIot.Odgm.Shard

/-!
# The order of the event queue (`events/dispatcher.rs`)

`try_send` takes a sequence number and then puts the context into the queue: two steps, so that concurrent producers can
enter the queue in another order than that of their numbers. The counters that `try_send` also keeps are left out, and
the channel does not close.
-/

namespace Odgm

open List

structure QueuedEvent (Ev : Type) where
  seq : UInt64
  ctx : MutationContext Ev

inductive DispatcherCall (Ev : Type)
  | nextSeq
  | enqueue (event : QueuedEvent Ev)

def DispatcherCall.Reply {Ev : Type} : DispatcherCall Ev → Type
  | .nextSeq => UInt64
  | .enqueue _ => Bool

def dispatcherInterface (Ev : Type) : Interface := ⟨DispatcherCall Ev, DispatcherCall.Reply⟩

/-- The dispatcher, with the contexts that have left its queue. -/
structure EventDispatcher (Ev : Type) where
  seq : UInt64
  queue : List (QueuedEvent Ev)
  received : List (QueuedEvent Ev)

namespace EventDispatcher

section
variable {Ev : Type}

def new : EventDispatcher Ev := ⟨1, [], []⟩

variable (queueBound : Nat) (producers : List (List (MutationContext Ev)))

def handle : Handler (dispatcherInterface Ev) (EventDispatcher Ev)
  | .nextSeq, d => (d.seq, { d with seq := d.seq + 1 })
  | .enqueue event, d =>
    if d.queue.length < queueBound then (true, { d with queue := d.queue ++ [event] }) else (false, d)

def nextSeq : Prog (dispatcherInterface Ev) UInt64 := .call .nextSeq .done
def enqueue (event : QueuedEvent Ev) : Prog (dispatcherInterface Ev) Bool := .call (.enqueue event) .done

def trySend (context : MutationContext Ev) : Prog (dispatcherInterface Ev) Bool := do
  let seq ← nextSeq
  enqueue ⟨seq, context⟩

def producer : List (MutationContext Ev) → Prog (dispatcherInterface Ev) Unit
  | [] => pure ()
  | context :: rest => do
    let _ ← trySend context
    producer rest

def receive (d : EventDispatcher Ev) : EventDispatcher Ev :=
  match d.queue with
  | [] => d
  | event :: rest => { d with queue := rest, received := d.received ++ [event] }

inductive Turn
  | producer (i : Nat)
  | consumer

abbrev Producers (Ev : Type) := Prog.Pool (dispatcherInterface Ev) (EventDispatcher Ev) Unit

def turn (p : Producers Ev) : Turn → Producers Ev
  | .producer i => p.advance (handle queueBound) i
  | .consumer => { p with state := p.state.receive }

def start : Producers Ev := ⟨producers.map producer, new⟩

def after (turns : List Turn) : Producers Ev :=
  turns.foldl (turn queueBound) (start producers)

def Ordered (d : EventDispatcher Ev) : Prop := d.received.Pairwise fun a b => a.seq < b.seq

def AlwaysOrdered : Prop :=
  ∀ turns, Ordered (after queueBound producers turns).state

def OneCalls : Prop :=
  ∀ i j : Nat, producers[i]?.getD [] ≠ [] → producers[j]?.getD [] ≠ [] → i = j

/-! ## Producers between their steps -/

def holding (event : QueuedEvent Ev) (rest : List (MutationContext Ev)) : Prog (dispatcherInterface Ev) Unit :=
  .call (.enqueue event) fun _ => producer rest

inductive Point (Ev : Type)
  | idle (contexts : List (MutationContext Ev))
  | holds (event : QueuedEvent Ev) (rest : List (MutationContext Ev))

namespace Point

def prog : Point Ev → Prog (dispatcherInterface Ev) Unit
  | .idle contexts => producer contexts
  | .holds event rest => holding event rest

def remaining : Point Ev → Nat
  | .idle contexts => contexts.length
  | .holds _ rest => rest.length

def Calls : Point Ev → Prop
  | .idle contexts => contexts ≠ []
  | .holds _ _ => True

theorem calls_of_prog {pt : Point Ev} {c : DispatcherCall Ev} {k : c.Reply → Prog (dispatcherInterface Ev) Unit}
    (h : pt.prog = .call c k) : pt.Calls := by
  cases pt with
  | holds event rest => trivial
  | idle contexts =>
    rintro rfl
    cases h

def next (queueBound : Nat) : Point Ev → EventDispatcher Ev → Point Ev × EventDispatcher Ev
  | .idle [], d => (.idle [], d)
  | .idle (context :: rest), d => (.holds ⟨d.seq, context⟩ rest, { d with seq := d.seq + 1 })
  | .holds event rest, d => (.idle rest, (handle queueBound (.enqueue event) d).2)

theorem follows (queueBound : Nat) :
    Standing.Follows (prog : Point Ev → _) (EventDispatcher.handle queueBound) (next queueBound) := by
  rintro ((_ | ⟨context, rest⟩) | ⟨event, rest⟩) d <;> rfl

end Point

def stand (points : List (Point Ev)) (d : EventDispatcher Ev) : Producers Ev := ⟨points.map Point.prog, d⟩

theorem start_eq (producers : List (List (MutationContext Ev))) : start producers = stand (producers.map .idle) new := by
  rw [start, stand, map_map]
  rfl

def NoOverlap (p : Producers Ev) : Turn → Prop
  | .producer i => (∃ k, p.progs[i]? = some (.call .nextSeq k)) →
      ∀ (j : Nat) event k, p.progs[j]? ≠ some (.call (.enqueue event) k)
  | .consumer => True

variable {queueBound : Nat} {points : List (Point Ev)} {d : EventDispatcher Ev} {i : Nat}

theorem handle_enqueue_free (h : d.queue.length < queueBound) (event : QueuedEvent Ev) :
    (handle queueBound (.enqueue event) d).2 = { d with queue := d.queue ++ [event] } := by
  change (if d.queue.length < queueBound then (true, { d with queue := d.queue ++ [event] }) else (false, d)).2 = _
  rw [if_pos h]

theorem handle_enqueue_full (h : ¬ d.queue.length < queueBound) (event : QueuedEvent Ev) :
    (handle queueBound (.enqueue event) d).2 = d := by
  change (if d.queue.length < queueBound then (true, { d with queue := d.queue ++ [event] }) else (false, d)).2 = _
  rw [if_neg h]

variable {context : MutationContext Ev} {rest : List (MutationContext Ev)}

theorem turn_producer (queueBound : Nat) (points : List (Point Ev)) (d : EventDispatcher Ev) (i : Nat) :
    turn queueBound (stand points d) (.producer i) = (Standing.turn (Point.next queueBound) ⟨points, d⟩ i).pool Point.prog :=
  ((Point.follows queueBound).pool_turn ⟨points, d⟩ i).symm

theorem turn_take (h : points[i]? = some (.idle (context :: rest))) :
    turn queueBound (stand points d) (.producer i) =
      stand (points.set i (.holds ⟨d.seq, context⟩ rest)) { d with seq := d.seq + 1 } := by
  rw [turn_producer, Standing.turn_of_get h]
  rfl

variable {event : QueuedEvent Ev}

theorem turn_enqueue (h : points[i]? = some (.holds event rest)) :
    turn queueBound (stand points d) (.producer i) =
      stand (points.set i (.idle rest)) (handle queueBound (.enqueue event) d).2 := by
  rw [turn_producer, Standing.turn_of_get h]
  rfl

theorem turn_cases (queueBound : Nat) (points : List (Point Ev)) (d : EventDispatcher Ev) (t : Turn) :
    turn queueBound (stand points d) t = stand points d ∨
      (t = .consumer ∧ turn queueBound (stand points d) t = stand points d.receive) ∨
      (∃ i context rest, t = .producer i ∧ points[i]? = some (.idle (context :: rest)) ∧
        turn queueBound (stand points d) t =
          stand (points.set i (.holds ⟨d.seq, context⟩ rest)) { d with seq := d.seq + 1 }) ∨
      ∃ i event rest, t = .producer i ∧ points[i]? = some (.holds event rest) ∧
        turn queueBound (stand points d) t =
          stand (points.set i (.idle rest)) (handle queueBound (.enqueue event) d).2 := by
  cases t with
  | consumer => exact Or.inr (Or.inl ⟨rfl, rfl⟩)
  | producer i =>
    cases hget : points[i]? with
    | none =>
      rw [turn_producer, Standing.turn_of_none hget]
      exact Or.inl rfl
    | some pt =>
      rcases pt with (_ | ⟨context, rest⟩) | ⟨event, rest⟩
      · have hfixed : Standing.turn (Point.next queueBound) ⟨points, d⟩ i = ⟨points, d⟩ := Standing.turn_of_fixed hget rfl
        rw [turn_producer, hfixed]
        exact Or.inl rfl
      · exact Or.inr (Or.inr (Or.inl ⟨i, context, rest, rfl, hget, turn_take hget⟩))
      · exact Or.inr (Or.inr (Or.inr ⟨i, event, rest, rfl, hget, turn_enqueue hget⟩))

/-! ## Calls that do not overlap -/

theorem receive_all (d : EventDispatcher Ev) : d.receive.received ++ d.receive.queue = d.received ++ d.queue := by
  unfold receive
  cases hqueue : d.queue with
  | nil => rw [hqueue]
  | cons event rest => simp

theorem receive_seq (d : EventDispatcher Ev) : d.receive.seq = d.seq := by
  unfold receive
  cases d.queue with
  | nil | cons event rest => rfl

def HoldsAt (points : List (Point Ev)) (i : Nat) (event : QueuedEvent Ev) : Prop :=
  ∃ rest, points[i]? = some (.holds event rest)

structure InOrder (total taken : Nat) (points : List (Point Ev)) (d : EventDispatcher Ev) : Prop where
  seq : d.seq = UInt64.ofNat (taken + 1)
  budget : taken + (points.map Point.remaining).sum = total
  sorted : (d.received ++ d.queue).Pairwise fun a b => a.seq < b.seq
  below : ∀ event ∈ d.received ++ d.queue, event.seq.toNat ≤ taken
  held : ∀ i event, HoldsAt points i event →
    event.seq.toNat = taken ∧ ∀ sent ∈ d.received ++ d.queue, sent.seq.toNat < taken
  alone : ∀ i j event event', HoldsAt points i event → HoldsAt points j event' → i = j

theorem sum_map_set {α : Type} (f : α → Nat) {l : List α} {i : Nat} {a : α} (h : l[i]? = some a) (b : α) :
    ((l.set i b).map f).sum + f a = (l.map f).sum + f b := by
  obtain ⟨l₁, l₂, rfl, hset⟩ := exists_split_of_get h b
  simp only [hset, map_append, map_cons, sum_append, sum_cons]
  omega

variable {total taken : Nat}

theorem InOrder.receive (h : InOrder total taken points d) : InOrder total taken points d.receive := by
  refine ⟨?_, h.budget, ?_, ?_, ?_, h.alone⟩
  · rw [receive_seq, h.seq]
  · rw [receive_all]
    exact h.sorted
  · rw [receive_all]
    exact h.below
  · rw [receive_all]
    exact h.held

theorem holdsAt_set {pt : Point Ev} {j : Nat} (h : HoldsAt (points.set i pt) j event) :
    (j = i ∧ ∃ rest, pt = .holds event rest) ∨ (j ≠ i ∧ HoldsAt points j event) := by
  obtain ⟨rest, hj⟩ := h
  rw [getElem?_set] at hj
  split at hj
  · rename_i hij
    exact Or.inl ⟨hij.symm, rest, Option.some.inj (Option.ite_none_right_eq_some.1 hj).2⟩
  · rename_i hij
    exact Or.inr ⟨Ne.symm hij, rest, hj⟩

theorem InOrder.take (h : InOrder total taken points d) (htotal : total < 2 ^ 64)
    (hget : points[i]? = some (.idle (context :: rest))) (hno : ∀ j event, ¬ HoldsAt points j event) :
    InOrder total (taken + 1) (points.set i (.holds ⟨d.seq, context⟩ rest)) { d with seq := d.seq + 1 } := by
  have hsum := sum_map_set Point.remaining hget (.holds ⟨d.seq, context⟩ rest)
  simp only [Point.remaining, length_cons] at hsum
  have hbudget := h.budget
  have hseq : d.seq.toNat = taken + 1 := by
    rw [h.seq]
    exact UInt64.toNat_ofNat_of_lt' (by change taken + 1 < 2 ^ 64; omega)
  have honly : ∀ j event, HoldsAt (points.set i (.holds ⟨d.seq, context⟩ rest)) j event →
      j = i ∧ event = ⟨d.seq, context⟩ := by
    intro j event hj
    rcases holdsAt_set hj with ⟨rfl, rest', hpt⟩ | ⟨_, hj⟩
    · cases hpt
      exact ⟨rfl, rfl⟩
    · exact absurd hj (hno j event)
  refine ⟨?_, by omega, h.sorted, fun event hmem => (h.below event hmem).trans (Nat.le_succ _), ?_, ?_⟩
  · rw [h.seq, UInt64.ofNat_add (taken + 1) 1]
    rfl
  · intro j event hj
    rw [(honly j event hj).2]
    exact ⟨hseq, fun sent hmem => Nat.lt_succ_of_le (h.below sent hmem)⟩
  · intro j k event event' hj hk
    rw [(honly j event hj).1, (honly k event' hk).1]

theorem InOrder.enqueue (h : InOrder total taken points d) (hget : points[i]? = some (.holds event rest)) :
    InOrder total taken (points.set i (.idle rest)) (handle queueBound (.enqueue event) d).2 := by
  obtain ⟨hseq, hlast⟩ := h.held i event ⟨rest, hget⟩
  have hsum := sum_map_set Point.remaining hget (.idle rest)
  simp only [Point.remaining] at hsum
  have hbudget := h.budget
  have hnone : ∀ j event', ¬ HoldsAt (points.set i (.idle rest)) j event' := by
    intro j event' hj
    rcases holdsAt_set hj with ⟨_, rest', hpt⟩ | ⟨hne, hj⟩
    · cases hpt
    · exact hne (h.alone j i event' event hj ⟨rest, hget⟩)
  have hbudget' : taken + ((points.set i (.idle rest)).map Point.remaining).sum = total := by omega
  by_cases hfree : d.queue.length < queueBound
  · rw [handle_enqueue_free hfree]
    have hall : d.received ++ (d.queue ++ [event]) = (d.received ++ d.queue) ++ [event] :=
      (append_assoc _ _ _).symm
    refine ⟨h.seq, hbudget', ?_, ?_, fun j event' hj => absurd hj (hnone j event'),
      fun j _ event' _ hj => absurd hj (hnone j event')⟩
    · rw [hall, pairwise_append]
      refine ⟨h.sorted, pairwise_singleton _ _, fun sent hmem event' hevent => ?_⟩
      rw [mem_singleton.1 hevent, UInt64.lt_iff_toNat_lt, hseq]
      exact hlast sent hmem
    · rw [hall]
      intro sent hmem
      rcases mem_append.1 hmem with hmem | hmem
      · exact h.below sent hmem
      · rw [mem_singleton.1 hmem, hseq]
  · rw [handle_enqueue_full hfree]
    exact ⟨h.seq, hbudget', h.sorted, h.below, fun j event' hj => absurd hj (hnone j event'),
      fun j _ event' _ hj => absurd hj (hnone j event')⟩

theorem inOrder_turn (htotal : total < 2 ^ 64) {p : Producers Ev} {t : Turn}
    (h : ∃ points d taken, p = stand points d ∧ InOrder total taken points d) (hno : NoOverlap p t) :
    ∃ points d taken, turn queueBound p t = stand points d ∧ InOrder total taken points d := by
  obtain ⟨points, d, taken, rfl, h⟩ := h
  rcases turn_cases queueBound points d t with hsame | ⟨_, hturn⟩ | ⟨i, context, rest, rfl, hget, hturn⟩ |
    ⟨i, event, rest, rfl, hget, hturn⟩
  · exact ⟨_, _, _, hsame, h⟩
  · exact ⟨_, _, _, hturn, h.receive⟩
  · have htakes : ∃ k, (stand points d).progs[i]? = some (.call .nextSeq k) := by
      refine ⟨fun seq => holding ⟨seq, context⟩ rest, ?_⟩
      rw [stand, getElem?_map, hget]
      rfl
    refine ⟨_, _, _, hturn, h.take htotal hget fun j event hj => ?_⟩
    obtain ⟨rest', hj⟩ := hj
    refine hno htakes j event (fun _ => producer rest') ?_
    rw [stand, getElem?_map, hj]
    rfl
  · exact ⟨_, _, _, hturn, h.enqueue hget⟩

theorem inOrder_start (producers : List (List (MutationContext Ev))) :
    InOrder (producers.map length).sum 0 (producers.map .idle) new := by
  have hnone : ∀ j event, ¬ HoldsAt (producers.map .idle) j event := by
    rintro j event ⟨rest, hj⟩
    rw [getElem?_map] at hj
    obtain ⟨contexts, _, hpt⟩ := Option.map_eq_some_iff.1 hj
    cases hpt
  refine ⟨rfl, ?_, List.Pairwise.nil, by simp [new], fun j event hj => absurd hj (hnone j event),
    fun j _ event _ hj => absurd hj (hnone j event)⟩
  rw [map_map, Nat.zero_add]
  rfl

theorem ordered_of_serial (queueBound : Nat) (producers : List (List (MutationContext Ev)))
    (htotal : (producers.map length).sum < 2 ^ 64) (turns : List Turn)
    (hserial : AlongRun (turn queueBound) NoOverlap (start producers) turns) :
    Ordered (after queueBound producers turns).state := by
  obtain ⟨points, d, taken, hrun, h⟩ := hserial.invariant
    (fun p => ∃ points d taken, p = stand points d ∧ InOrder (producers.map length).sum taken points d)
    (fun p t hp hno => inOrder_turn htotal hp hno) ⟨_, _, _, start_eq producers, inOrder_start producers⟩
  rw [after, hrun]
  exact h.sorted.sublist (sublist_append_left _ _)

/-! ## One producer -/

def Single (points : List (Point Ev)) : Prop :=
  ∀ (i j : Nat) pt pt', points[i]? = some pt → points[j]? = some pt' → pt.Calls → pt'.Calls → i = j

theorem Single.set (h : Single points) {pt pt' : Point Ev} (hget : points[i]? = some pt) (hcalls : pt.Calls) :
    Single (points.set i pt') := by
  -- Wherever a producer has calls after the step, it had calls before it.
  have hback : ∀ (j : Nat) q, (points.set i pt')[j]? = some q → q.Calls → ∃ q', points[j]? = some q' ∧ q'.Calls := by
    intro j q hj hq
    by_cases hij : i = j
    · exact ⟨pt, hij ▸ hget, hcalls⟩
    · rw [getElem?_set_ne hij] at hj
      exact ⟨q, hj, hq⟩
  intro j k q q' hj hk hq hq'
  obtain ⟨r, hr, hrcalls⟩ := hback j q hj hq
  obtain ⟨r', hr', hrcalls'⟩ := hback k q' hk hq'
  exact h j k r r' hr hr' hrcalls hrcalls'

theorem single_turn {p : Producers Ev} (h : ∃ points d, p = stand points d ∧ Single points) (t : Turn) :
    NoOverlap p t ∧ ∃ points d, turn queueBound p t = stand points d ∧ Single points := by
  obtain ⟨points, d, rfl, h⟩ := h
  constructor
  · cases t with
    | consumer => trivial
    | producer i =>
      rintro ⟨k, htakes⟩ j event k' hholds
      rw [stand, getElem?_map] at htakes hholds
      obtain ⟨pt, hi, hpt⟩ := Option.map_eq_some_iff.1 htakes
      obtain ⟨pt', hj, hpt'⟩ := Option.map_eq_some_iff.1 hholds
      obtain rfl := h i j pt pt' hi hj (Point.calls_of_prog hpt) (Point.calls_of_prog hpt')
      rw [hi] at hj
      cases hj
      rw [hpt] at hpt'
      cases hpt'
  · rcases turn_cases queueBound points d t with hsame | ⟨_, hturn⟩ | ⟨i, context, rest, _, hget, hturn⟩ |
      ⟨i, event, rest, _, hget, hturn⟩
    · exact ⟨_, _, hsame, h⟩
    · exact ⟨_, _, hturn, h⟩
    · exact ⟨_, _, hturn, h.set hget (cons_ne_nil _ _)⟩
    · exact ⟨_, _, hturn, h.set hget trivial⟩

theorem single_start {producers : List (List (MutationContext Ev))} (h : OneCalls producers) :
    Single (producers.map .idle) := by
  have hcalls : ∀ (i : Nat) pt, (producers.map Point.idle)[i]? = some pt → pt.Calls → producers[i]?.getD [] ≠ [] := by
    intro i pt hi hpt
    rw [getElem?_map] at hi
    obtain ⟨contexts, hget, rfl⟩ := Option.map_eq_some_iff.1 hi
    rw [hget]
    exact hpt
  intro i j pt pt' hi hj hpt hpt'
  exact h i j (hcalls i pt hi hpt) (hcalls j pt' hj hpt')

/-! ## Interleavings that exist -/

theorem idle_of_calls {producers : List (List (MutationContext Ev))} (h : producers[i]?.getD [] ≠ []) :
    ∃ context rest, (producers.map Point.idle)[i]? = some (.idle (context :: rest)) := by
  rw [getElem?_map]
  cases hget : producers[i]? with
  | none =>
    rw [hget] at h
    exact absurd rfl h
  | some contexts =>
    rw [hget] at h
    obtain ⟨context, rest, rfl⟩ := exists_cons_of_ne_nil h
    exact ⟨context, rest, rfl⟩

theorem deliver (hbound : 0 < queueBound) (hqueue : d.queue = []) (h : points[i]? = some (.holds event rest)) :
    turn queueBound (turn queueBound (stand points d) (.producer i)) .consumer =
      stand (points.set i (.idle rest)) { d with received := d.received ++ [event] } := by
  have hfree : d.queue.length < queueBound := by
    rw [hqueue]
    exact hbound
  rw [turn_enqueue h, handle_enqueue_free hfree, hqueue]
  rfl

theorem exists_swapped (hbound : 0 < queueBound) {j : Nat} (hij : i ≠ j) {context' : MutationContext Ev}
    {rest' : List (MutationContext Ev)} (hi : points[i]? = some (.idle (context :: rest)))
    (hj : points[j]? = some (.idle (context' :: rest'))) :
    ∃ turns : List Turn, (turns.foldl (turn queueBound) (stand points new)).state.received =
      [⟨2, context'⟩, ⟨1, context⟩] := by
  obtain ⟨hlti, _⟩ := List.getElem?_eq_some_iff.1 hi
  obtain ⟨hltj, _⟩ := List.getElem?_eq_some_iff.1 hj
  have hj₁ : (points.set i (.holds ⟨1, context⟩ rest))[j]? = some (.idle (context' :: rest')) := by
    rw [List.getElem?_set_ne hij, hj]
  have hj₂ : ((points.set i (.holds ⟨1, context⟩ rest)).set j (.holds ⟨2, context'⟩ rest'))[j]? =
      some (.holds ⟨2, context'⟩ rest') := by
    rw [List.getElem?_set_self]
    rwa [List.length_set]
  have hi₃ : (((points.set i (.holds ⟨1, context⟩ rest)).set j (.holds ⟨2, context'⟩ rest')).set j
      (.idle rest'))[i]? = some (.holds ⟨1, context⟩ rest) := by
    rw [List.getElem?_set_ne hij.symm, List.getElem?_set_ne hij.symm, List.getElem?_set_self hlti]
  have hrun₁ : turn queueBound (stand points new) (.producer i) =
      stand (points.set i (.holds ⟨1, context⟩ rest)) ⟨2, [], []⟩ := turn_take hi
  have hrun₂ : turn queueBound (stand (points.set i (.holds ⟨1, context⟩ rest)) ⟨2, [], []⟩) (.producer j) =
      stand ((points.set i (.holds ⟨1, context⟩ rest)).set j (.holds ⟨2, context'⟩ rest')) ⟨3, [], []⟩ := turn_take hj₁
  refine ⟨[.producer i, .producer j, .producer j, .consumer, .producer i, .consumer], ?_⟩
  simp only [List.foldl_cons, List.foldl_nil]
  rw [hrun₁, hrun₂, deliver hbound rfl hj₂, deliver hbound rfl hi₃]
  rfl

def stamped : UInt64 → List (MutationContext Ev) → List (QueuedEvent Ev)
  | _, [] => []
  | seq, context :: rest => ⟨seq, context⟩ :: stamped (seq + 1) rest

theorem exists_drained (hbound : 0 < queueBound) (contexts : List (MutationContext Ev))
    (h : points[i]? = some (.idle contexts)) (hqueue : d.queue = []) :
    ∃ (turns : List Turn) (d' : EventDispatcher Ev),
      turns.foldl (turn queueBound) (stand points d) = stand (points.set i (.idle [])) d' ∧ d'.queue = [] ∧
      ∀ more, d'.received ++ stamped d'.seq more = d.received ++ stamped d.seq (contexts ++ more) := by
  induction contexts generalizing points d with
  | nil =>
    obtain ⟨hlt, hget⟩ := List.getElem?_eq_some_iff.1 h
    refine ⟨[], d, ?_, hqueue, fun more => rfl⟩
    rw [← hget, List.set_getElem_self]
    rfl
  | cons context rest ih =>
    obtain ⟨hlt, _⟩ := List.getElem?_eq_some_iff.1 h
    have hholds : (points.set i (.holds ⟨d.seq, context⟩ rest))[i]? = some (.holds ⟨d.seq, context⟩ rest) :=
      List.getElem?_set_self hlt
    have hidle : (points.set i (.idle rest))[i]? = some (.idle rest) := List.getElem?_set_self hlt
    obtain ⟨turns, d', hrun, hqueue', hmore⟩ :=
      ih hidle (d := { d with seq := d.seq + 1, received := d.received ++ [⟨d.seq, context⟩] }) hqueue
    refine ⟨.producer i :: .producer i :: .consumer :: turns, d', ?_, hqueue', fun more => ?_⟩
    · simp only [List.foldl_cons]
      rw [turn_take h, deliver (d := { d with seq := d.seq + 1 }) hbound hqueue hholds, List.set_set]
      rw [List.set_set] at hrun
      exact hrun
    · rw [hmore, List.append_assoc]
      rfl

theorem exists_drained_all (hbound : 0 < queueBound) (producers : List (List (MutationContext Ev)))
    (before : List (Point Ev)) (hqueue : d.queue = []) :
    ∃ turns : List Turn, (turns.foldl (turn queueBound) (stand (before ++ producers.map .idle) d)).state.received =
      d.received ++ stamped d.seq producers.flatten := by
  induction producers generalizing before d with
  | nil =>
    refine ⟨[], ?_⟩
    simp [stand, stamped]
  | cons contexts producers ih =>
    have hget : (before ++ Point.idle contexts :: producers.map .idle)[before.length]? = some (.idle contexts) := by simp
    obtain ⟨turns, d', hrun, hqueue', hmore⟩ := exists_drained hbound contexts hget hqueue
    obtain ⟨turns', hrun'⟩ := ih (before ++ [.idle []]) hqueue'
    have hset : (before ++ Point.idle contexts :: producers.map .idle).set before.length (.idle []) =
        before ++ [.idle []] ++ producers.map .idle := by simp
    refine ⟨turns ++ turns', ?_⟩
    rw [foldl_append, map_cons, hrun, hset, hrun', hmore, flatten_cons]

theorem length_of_ordered_stamped {seq : UInt64} {contexts : List (MutationContext Ev)}
    (h : (stamped seq contexts).Pairwise fun a b => a.seq < b.seq) : seq.toNat + contexts.length ≤ 2 ^ 64 := by
  induction contexts generalizing seq with
  | nil => exact seq.toNat_lt.le
  | cons context rest ih =>
    obtain ⟨hhead, htail⟩ := pairwise_cons.1 h
    cases rest with
    | nil => exact seq.toNat_lt
    | cons next rest =>
      have hlt : seq < seq + 1 := hhead ⟨seq + 1, next⟩ mem_cons_self
      have hnext : (seq + 1).toNat = seq.toNat + 1 := by
        have hmod : (seq + 1).toNat = (seq.toNat + 1) % 2 ^ 64 := UInt64.toNat_add seq 1
        have hbound := seq.toNat_lt
        rw [UInt64.lt_iff_toNat_lt, hmod] at hlt
        omega
      have hrest := ih htail
      rw [hnext] at hrest
      simp only [length_cons] at hrest ⊢
      omega

end

/-- **Event order** in every interleaving: one producer at most, and fewer than 2^64 calls. -/
theorem event_order_iff {Ev : Type} (queueBound : Nat) (hbound : 0 < queueBound)
    (producers : List (List (MutationContext Ev))) :
    AlwaysOrdered queueBound producers ↔ OneCalls producers ∧ (producers.map List.length).sum < 2 ^ 64 := by
  constructor
  · intro hall
    constructor
    · intro i j hi hj
      by_contra hij
      obtain ⟨context, rest, hi⟩ := idle_of_calls hi
      obtain ⟨context', rest', hj⟩ := idle_of_calls hj
      obtain ⟨turns, hrun⟩ := exists_swapped hbound hij hi hj
      have hordered := hall turns
      rw [Ordered, after, start_eq, hrun] at hordered
      have hlt : (2 : UInt64) < 1 := (pairwise_cons.1 hordered).1 ⟨1, context⟩ mem_cons_self
      exact absurd hlt (by decide)
    · obtain ⟨turns, hrun⟩ := exists_drained_all hbound producers [] (d := new) rfl
      have hordered := hall turns
      rw [nil_append, ← start_eq] at hrun
      rw [Ordered, after, hrun] at hordered
      have hlen := length_of_ordered_stamped hordered
      rw [length_flatten] at hlen
      have hone : (new : EventDispatcher Ev).seq.toNat = 1 := rfl
      omega
  · rintro ⟨hone, htotal⟩ turns
    refine ordered_of_serial queueBound producers htotal turns ?_
    exact alongRun_of_invariant (fun p => ∃ points d, p = stand points d ∧ Single points)
      (fun p t hp => single_turn hp t) ⟨_, _, start_eq producers, single_start hone⟩ turns

/-! ## Two producers -/

namespace TwoProducers

def context : MutationContext Unit := ⟨Str.empty, Str.empty, 0, 0, 1, [], .localWrite, none⟩
def turns : List Turn := [.producer 0, .producer 1, .producer 1, .producer 0, .consumer, .consumer]

/-- Number 2 leaves the queue before number 1. -/
theorem second_overtakes :
    (after 1024 [[context], [context]] turns).state.received.map QueuedEvent.seq = [2, 1] ∧
    ¬ Ordered (after 1024 [[context], [context]] turns).state := by
  refine ⟨rfl, fun h => ?_⟩
  have hlt : (2 : UInt64) < 1 := (pairwise_cons.1 h).1 ⟨1, context⟩ mem_cons_self
  exact absurd hlt (by decide)

theorem event_order_one_producer : AlwaysOrdered 1024 [[context, context], []] := by
  refine (event_order_iff 1024 (by decide) [[context, context], []]).2 ⟨?_, by decide⟩
  have hfirst : ∀ i : Nat, ([[context, context], []] : List (List (MutationContext Unit)))[i]?.getD [] ≠ [] → i = 0 := by
    intro i hi
    rcases i with _ | _ | i
    · rfl
    · exact absurd rfl hi
    · exact absurd rfl hi
  intro i j hi hj
  rw [hfirst i hi, hfirst j hj]

end TwoProducers

end EventDispatcher

end Odgm
