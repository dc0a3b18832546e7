import OaasIot.Wasm.ObjectHost

/-!
# Re-entrant invocations of WASM guests (`object_host.rs:568-617`, `executor.rs:282-352`)

`invoke` counts the calls in progress in the state of the host it runs on. A call through a remote proxy that fails for
want of a Zenoh proxy leaves **between the increment and the decrement**, and a nested invocation runs its guest on a
**new host state**, with the counter at 0.
-/

namespace Wasm

open List

/-! ## `invoke` -/

namespace HostState

section
variable {σ T : Type} (lib : ResourceTable T) (ops : OdgmDataOps σ) (host : HostState σ T)

def enter : HostState σ T := { host with reentrantDepth := host.reentrantDepth + 1 }
def leave : HostState σ T := { host with reentrantDepth := host.reentrantDepth - 1 }

def invoke (handle : Nat) (fnName : Str) (payload : Option ByteVec) (s : σ) :
    Except OdgmError (Option ByteVec) × HostState σ T × σ :=
  match host.getProxy lib handle with
  | .error e => (.error e, host, s)
  | .ok proxy =>
    if host.maxReentrantDepth ≤ host.reentrantDepth then
      (.error (.internal ("max re-entrant depth exceeded (" ++ toString host.maxReentrantDepth.toNat ++ ")")), host, s)
    else if proxy.isLocal then
      let result := mapErr DataOpsError.toOdgm (ops.invokeObj proxy.objectRef fnName payload s)
      (result.1, host.enter.leave, result.2)
    else
      match host.enter.remote with
      -- The early return of `self.remote()?`.
      | .error e => (.error e, host.enter, s)
      | .ok remote =>
        let result := mapErr convertProxyError
          (remote.invokeObjectFn proxy.objectRef fnName (payload.getD ByteVec.empty) s)
        (result.1, host.enter.leave, result.2)

def lacksRemote (handle : Nat) : Bool :=
  match host.getProxy lib handle with
  | .ok proxy => !proxy.isLocal && host.remoteProxy.isNone
  | .error _ => false

def Refuses (handle : Nat) : Prop :=
  (∃ proxy, host.getProxy lib handle = .ok proxy) ∧ host.maxReentrantDepth ≤ host.reentrantDepth

def reaches (handle : Nat) : Option ObjectRef :=
  match host.getProxy lib handle with
  | .ok proxy =>
    if proxy.isLocal ∧ host.reentrantDepth < host.maxReentrantDepth then some proxy.objectRef else none
  | .error _ => none

end

end HostState

section
variable {σ T E : Type} {lib : ResourceTable T} {ops : OdgmDataOps σ} {host : HostState σ T} {handle : Nat}
  {fnName : Str} {payload : Option ByteVec} {s : σ}

theorem enter_leave : host.enter.leave = host := by
  rw [HostState.leave, HostState.enter, UInt32.add_sub_cancel]

@[simp] theorem remoteProxy_enter : host.enter.remoteProxy = host.remoteProxy := rfl

theorem toNat_enter (h : host.reentrantDepth < host.maxReentrantDepth) :
    host.enter.reentrantDepth.toNat = host.reentrantDepth.toNat + 1 := by
  have hlt := UInt32.lt_iff_toNat_lt.1 h
  have hmax := host.maxReentrantDepth.toNat_lt
  change (host.reentrantDepth + 1).toNat = _
  rw [UInt32.toNat_add]
  exact Nat.mod_eq_of_lt (by simpa using lt_of_le_of_lt hlt hmax)

variable {ref : ObjectRef}

theorem invoke_host :
    (host.invoke lib ops handle fnName payload s).2.1 =
      if host.reentrantDepth < host.maxReentrantDepth ∧ host.lacksRemote lib handle then host.enter else host := by
  unfold HostState.invoke HostState.lacksRemote
  cases hproxy : host.getProxy lib handle with
  | error e => simp
  | ok proxy =>
    by_cases hdepth : host.maxReentrantDepth ≤ host.reentrantDepth
    · simp [hdepth, UInt32.not_lt.2 hdepth]
    · have hlt := UInt32.not_le.1 hdepth
      cases hlocal : proxy.isLocal with
      | true => simp [hdepth, hlocal, enter_leave]
      | false =>
        cases hremote : host.remoteProxy with
        | none => simp [hdepth, hlt, hlocal, HostState.remote, hremote]
        | some remote => simp [hdepth, hlocal, HostState.remote, hremote, enter_leave]

/-! ## The calls of one guest -/

structure InvokeCall where
  handle : Nat
  fnName : Str
  payload : Option ByteVec

variable (lib ops)

def invokeStep (st : HostState σ T × σ) (c : InvokeCall) : HostState σ T × σ :=
  (st.1.invoke lib ops c.handle c.fnName c.payload st.2).2

/-- **Re-entrancy accounting**: no call needs a Zenoh proxy that is not there, or the bound is reached from the start.
-/
theorem invoke_balanced_iff (lib : ResourceTable T) (ops : OdgmDataOps σ) (host : HostState σ T) (s : σ)
    (calls : List InvokeCall) :
    AlongRun (invokeStep lib ops) (fun st c => (invokeStep lib ops st c).1.reentrantDepth = st.1.reentrantDepth ∧
        (st.1.Refuses lib c.handle → host.maxReentrantDepth ≤ host.reentrantDepth)) (host, s) calls ↔
      ∀ c ∈ calls, ¬ (host.reentrantDepth < host.maxReentrantDepth ∧ host.lacksRemote lib c.handle) := by
  rw [← alongRun_const]
  refine alongRun_iff_of_step (fun st => st.1 = host) ?_ rfl calls
  rintro st c rfl
  have hstep : (invokeStep lib ops st c).1 = if st.1.reentrantDepth < st.1.maxReentrantDepth ∧
      st.1.lacksRemote lib c.handle then st.1.enter else st.1 := invoke_host
  by_cases hlost : st.1.reentrantDepth < st.1.maxReentrantDepth ∧ st.1.lacksRemote lib c.handle
  · rw [hstep, if_pos hlost]
    refine ⟨iff_of_false ?_ (not_not.2 hlost), fun hkept => absurd hlost hkept⟩
    rintro ⟨hsame, _⟩
    have hmore := toNat_enter hlost.1
    rw [hsame] at hmore
    omega
  · rw [hstep, if_neg hlost]
    exact ⟨iff_of_true ⟨rfl, fun hrefused => hrefused.2⟩ hlost, fun _ => rfl⟩

/-! ## A chain of guests -/

inductive GuestAction
  | object (ref : ObjectRef)
  | drop (handle : Nat)
  | data (handle : Nat) (c : ProxyCall)
  | invoke (c : InvokeCall)

def HostState.act (st : HostState σ T × σ) : GuestAction → HostState σ T × σ
  | .object ref => ((st.1.createProxy lib ref).2, st.2)
  | .drop handle =>
    match lib.delete st.1.table handle with
    | .ok table => ({ st.1 with table := table }, st.2)
    | .error _ => st
  | .data handle c => (st.1, (st.1.call lib ops handle c st.2).2)
  | .invoke c => invokeStep lib ops st c

structure OopContext (σ : Type) where
  remoteProxy : Option (ZenohObjectProxy σ)
  shardClsId : Str
  shardPartitionId : UInt32

def newHost (ctx : Option (OopContext σ)) (ref : ObjectRef) : HostState σ T :=
  match ctx with
  | some c => .new lib c.remoteProxy c.shardClsId c.shardPartitionId
  | none => .new lib none ref.cls ref.partitionId

def invokeOop (ctx : Option (OopContext σ)) (ref : ObjectRef) : Except OdgmError (HostState σ T) :=
  match (newHost lib ctx ref).createProxy lib ref with
  | (.ok _, host) => .ok host
  | (.error e, _) => .error e

structure Link where
  before : List GuestAction
  down : InvokeCall

def Link.atCall (shard : ShardOps σ E) (link : Link) (st : HostState σ T × σ) : HostState σ T × σ :=
  link.before.foldl (HostState.act lib shard.adapter) st

def nestedCalls (lib : ResourceTable T) (ctx : Option (OopContext σ)) (shard : ShardOps σ E) :
    List Link → ObjectRef → σ → Nat
  | [], _, _ => 0
  | link :: rest, ref, s =>
    match invokeOop lib ctx ref with
    | .error _ => 0
    | .ok host =>
      match (link.atCall lib shard (host, s)).1.reaches lib link.down.handle with
      | none => 0
      | some next =>
        1 + nestedCalls lib ctx shard rest (shard.ownRef next) (link.atCall lib shard (host, s)).2

/-! ## The counter of one guest -/

def GuestAction.lacksRemote (host : HostState σ T) : GuestAction → Bool
  | .invoke c => host.lacksRemote lib c.handle
  | _ => false

def HostState.setTable (host : HostState σ T) (table : T) : HostState σ T := { host with table := table }

@[simp] theorem setTable_reentrantDepth (table : T) : (host.setTable table).reentrantDepth = host.reentrantDepth := rfl

@[simp] theorem setTable_maxReentrantDepth (table : T) :
    (host.setTable table).maxReentrantDepth = host.maxReentrantDepth := rfl

theorem createProxy_host (host : HostState σ T) (ref : ObjectRef) :
    ∃ table, (host.createProxy lib ref).2 = host.setTable table := by
  unfold HostState.createProxy
  split
  · exact ⟨_, rfl⟩
  · exact ⟨host.table, rfl⟩

theorem act_host (st : HostState σ T × σ) (a : GuestAction) :
    ∃ table, (HostState.act lib ops st a).1 = (if st.1.reentrantDepth < st.1.maxReentrantDepth ∧
      a.lacksRemote lib st.1 then st.1.enter else st.1).setTable table := by
  cases a with
  | object ref => simpa [HostState.act, GuestAction.lacksRemote] using createProxy_host lib st.1 ref
  | drop handle =>
    simp only [HostState.act, GuestAction.lacksRemote]
    cases lib.delete st.1.table handle with
    | ok table => exact ⟨table, by simp [HostState.setTable]⟩
    | error e => exact ⟨st.1.table, by simp [HostState.setTable]⟩
  | data handle c => exact ⟨st.1.table, by simp [HostState.act, GuestAction.lacksRemote, HostState.setTable]⟩
  | invoke c =>
    have hstep : (HostState.act lib ops st (.invoke c)).1 = _ := invoke_host
    rw [hstep, GuestAction.lacksRemote]
    exact ⟨_, rfl⟩

def lostCalls (lib : ResourceTable T) (ops : OdgmDataOps σ) : HostState σ T × σ → List GuestAction → Nat
  | _, [] => 0
  | st, a :: as => (if a.lacksRemote lib st.1 then 1 else 0) + lostCalls lib ops (HostState.act lib ops st a) as

theorem act_depth {st : HostState σ T × σ} (h : st.1.reentrantDepth.toNat ≤ st.1.maxReentrantDepth.toNat)
    (a : GuestAction) :
    (HostState.act lib ops st a).1.maxReentrantDepth = st.1.maxReentrantDepth ∧
      (HostState.act lib ops st a).1.reentrantDepth.toNat =
        min st.1.maxReentrantDepth.toNat (st.1.reentrantDepth.toNat + if a.lacksRemote lib st.1 then 1 else 0) := by
  obtain ⟨table, hact⟩ := act_host lib ops st a
  rw [hact, setTable_maxReentrantDepth, setTable_reentrantDepth]
  by_cases hlost : st.1.reentrantDepth < st.1.maxReentrantDepth ∧ a.lacksRemote lib st.1
  · have hlt := UInt32.lt_iff_toNat_lt.1 hlost.1
    rw [if_pos hlost, if_pos hlost.2, toNat_enter hlost.1]
    exact ⟨rfl, (min_eq_right hlt).symm⟩
  · rw [if_neg hlost]
    rw [not_and', UInt32.lt_iff_toNat_lt] at hlost
    refine ⟨rfl, ?_⟩
    split
    · rename_i hlacks
      have hge := hlost hlacks
      omega
    · omega

theorem depth_of_acts (as : List GuestAction) {st : HostState σ T × σ}
    (h : st.1.reentrantDepth.toNat ≤ st.1.maxReentrantDepth.toNat) :
    (as.foldl (HostState.act lib ops) st).1.maxReentrantDepth = st.1.maxReentrantDepth ∧
      (as.foldl (HostState.act lib ops) st).1.reentrantDepth.toNat =
        min st.1.maxReentrantDepth.toNat (st.1.reentrantDepth.toNat + lostCalls lib ops st as) := by
  induction as generalizing st with
  | nil => exact ⟨rfl, (min_eq_right h).symm⟩
  | cons a as ih =>
    obtain ⟨hmax, hdepth⟩ := act_depth lib ops h a
    have hle : (HostState.act lib ops st a).1.reentrantDepth.toNat ≤
        (HostState.act lib ops st a).1.maxReentrantDepth.toNat := by
      rw [hmax, hdepth]
      exact min_le_left _ _
    obtain ⟨hmax', hdepth'⟩ := ih hle
    rw [foldl_cons, lostCalls, hmax', hdepth', hmax, hdepth]
    exact ⟨rfl, by omega⟩

/-! ## How far down a chain gets -/

def GoesDown (lib : ResourceTable T) (ctx : Option (OopContext σ)) (shard : ShardOps σ E) :
    List Link → ObjectRef → σ → Prop
  | [], _, _ => True
  | link :: rest, ref, s => ∃ host proxy, invokeOop lib ctx ref = .ok host ∧
    (link.atCall lib shard (host, s)).1.getProxy lib link.down.handle = .ok proxy ∧ proxy.isLocal = true ∧
    GoesDown lib ctx shard rest (shard.ownRef proxy.objectRef) (link.atCall lib shard (host, s)).2

def lostAlong (lib : ResourceTable T) (ctx : Option (OopContext σ)) (shard : ShardOps σ E) :
    List Link → ObjectRef → σ → List Nat
  | [], _, _ => []
  | link :: rest, ref, s =>
    match invokeOop lib ctx ref with
    | .error _ => []
    | .ok host =>
      match (link.atCall lib shard (host, s)).1.getProxy lib link.down.handle with
      | .error _ => []
      | .ok proxy =>
        lostCalls lib shard.adapter (host, s) link.before ::
          lostAlong lib ctx shard rest (shard.ownRef proxy.objectRef) (link.atCall lib shard (host, s)).2

variable {lib}

theorem invokeOop_counter {ctx : Option (OopContext σ)} (h : invokeOop lib ctx ref = .ok host) :
    host.reentrantDepth = 0 ∧ host.maxReentrantDepth = defaultMaxReentrantDepth := by
  obtain ⟨table, hhost⟩ := createProxy_host lib (newHost lib ctx ref) ref
  unfold invokeOop at h
  split at h
  · rename_i heq
    cases h
    rw [heq] at hhost
    obtain rfl : host = _ := hhost
    cases ctx <;> exact ⟨rfl, rfl⟩
  · cases h

theorem reaches_atCall {ctx : Option (OopContext σ)} {shard : ShardOps σ E} {link : Link}
    (hhost : invokeOop lib ctx ref = .ok host) {proxy : ObjectProxyState}
    (hproxy : (link.atCall lib shard (host, s)).1.getProxy lib link.down.handle = .ok proxy)
    (hlocal : proxy.isLocal = true) :
    (link.atCall lib shard (host, s)).1.reaches lib link.down.handle =
      if lostCalls lib shard.adapter (host, s) link.before < defaultMaxReentrantDepth.toNat then some proxy.objectRef
      else none := by
  obtain ⟨hzero, hdefault⟩ := invokeOop_counter hhost
  have hle : host.reentrantDepth.toNat ≤ host.maxReentrantDepth.toNat := by simp [hzero]
  obtain ⟨hmax, hdepth⟩ : (link.atCall lib shard (host, s)).1.maxReentrantDepth = host.maxReentrantDepth ∧ _ :=
    depth_of_acts lib shard.adapter link.before hle
  rw [hdefault] at hmax
  rw [hzero, hdefault, UInt32.toNat_zero, Nat.zero_add] at hdepth
  have hiff : (link.atCall lib shard (host, s)).1.reentrantDepth <
        (link.atCall lib shard (host, s)).1.maxReentrantDepth ↔
      lostCalls lib shard.adapter (host, s) link.before < defaultMaxReentrantDepth.toNat := by
    rw [UInt32.lt_iff_toNat_lt, hmax, Link.atCall, hdepth]
    omega
  simp only [HostState.reaches, hproxy, hlocal, true_and, hiff]

theorem length_takeWhile_le_iff {α : Type} {p : α → Bool} {l : List α} {n : Nat} :
    (l.takeWhile p).length ≤ n ↔ l.length ≤ n ∨ ∃ x ∈ l.take (n + 1), p x = false := by
  induction l generalizing n with
  | nil => simp
  | cons a l ih =>
    cases hp : p a with
    | false => simp [hp]
    | true =>
      rw [takeWhile_cons_of_pos hp, take_succ_cons, length_cons, length_cons]
      cases n with
      | zero => simp [hp]
      | succ n => simp [hp, ih]

theorem nestedCalls_eq (ctx : Option (OopContext σ)) (shard : ShardOps σ E) {links : List Link}
    (h : GoesDown lib ctx shard links ref s) :
    nestedCalls lib ctx shard links ref s =
        ((lostAlong lib ctx shard links ref s).takeWhile (· < defaultMaxReentrantDepth.toNat)).length ∧
      (lostAlong lib ctx shard links ref s).length = links.length := by
  induction links generalizing ref s with
  | nil => exact ⟨rfl, rfl⟩
  | cons link links ih =>
    obtain ⟨host, proxy, hhost, hproxy, hlocal, hrest⟩ := h
    obtain ⟨hcalls, hlength⟩ := ih hrest
    simp only [nestedCalls, lostAlong, hhost, hproxy, reaches_atCall hhost hproxy hlocal, length_cons, hlength,
      and_true]
    by_cases hlt : lostCalls lib shard.adapter (host, s) link.before < defaultMaxReentrantDepth.toNat
    · rw [if_pos hlt, takeWhile_cons_of_pos (by simpa using hlt), length_cons, ← hcalls, Nat.add_comm]
    · rw [if_neg hlt, takeWhile_cons_of_neg (by simpa using hlt), length_nil]

/-- **Re-entrancy bound**: the chain is no longer than the bound, or one of its guests has lost too many calls. -/
theorem reentrancy_bound_iff (lib : ResourceTable T) (ctx : Option (OopContext σ)) (shard : ShardOps σ E)
    (links : List Link) (ref : ObjectRef) (s : σ) (hdown : GoesDown lib ctx shard links ref s) :
    nestedCalls lib ctx shard links ref s ≤ defaultMaxReentrantDepth.toNat ↔
      links.length ≤ defaultMaxReentrantDepth.toNat ∨
        ∃ lost ∈ (lostAlong lib ctx shard links ref s).take (defaultMaxReentrantDepth.toNat + 1),
          defaultMaxReentrantDepth.toNat ≤ lost := by
  obtain ⟨hcalls, hlength⟩ := nestedCalls_eq ctx shard hdown
  rw [hcalls, length_takeWhile_le_iff, hlength]
  simp

end

/-! ## Calls that are lost, and an object that calls itself -/

namespace SelfCall

open OneField (table shard object key)

def self : ObjectRef := ⟨Str.empty, 0, object⟩

def host : HostState (OrdMap Str ByteVec) (List (Option ObjectProxyState)) :=
  (((HostState.new table none Str.empty 0).createProxy table ⟨key, 0, object⟩).2.createProxy table self).2

def call (handle : Nat) : InvokeCall := ⟨handle, key, none⟩

def answer (st : HostState (OrdMap Str ByteVec) (List (Option ObjectProxyState)) × OrdMap Str ByteVec)
    (c : InvokeCall) : Except OdgmError (Option ByteVec) :=
  (st.1.invoke table shard.adapter c.handle c.fnName c.payload st.2).1

/-- Four calls fail for want of a Zenoh proxy, and the next one is refused for its depth. -/
theorem depth_leaks :
    outputs (invokeStep table shard.adapter) answer (host, OrdMap.empty) [call 0, call 0, call 0, call 0, call 1] =
      [.error (.internal "remote proxy not available"), .error (.internal "remote proxy not available"),
        .error (.internal "remote proxy not available"), .error (.internal "remote proxy not available"),
        .error (.internal "max re-entrant depth exceeded (4)")] ∧
    host.reentrantDepth = 0 ∧ host.maxReentrantDepth = 4 ∧
    ([call 0, call 0, call 0, call 0].foldl (invokeStep table shard.adapter)
      (host, OrdMap.empty)).1.reentrantDepth = 4 ∧
    answer (host, OrdMap.empty) (call 1) = .ok none :=
  ⟨rfl, rfl, rfl, rfl, rfl⟩

def context : Option (OopContext (OrdMap Str ByteVec)) := some ⟨none, Str.empty, 0⟩
def link : Link := ⟨[], call 0⟩

theorem goesDown (n : Nat) : GoesDown table context shard (replicate n link) self OrdMap.empty := by
  induction n with
  | zero => exact trivial
  | succ n ih => exact ⟨_, _, rfl, rfl, rfl, ih⟩

/-- Five such guests in a row: all five calls get through. -/
theorem chain_exceeds_bound :
    GoesDown table context shard (List.replicate 5 link) self OrdMap.empty ∧
      nestedCalls table context shard (List.replicate 5 link) self OrdMap.empty = 5 ∧ defaultMaxReentrantDepth = 4 :=
  ⟨goesDown 5, rfl, rfl⟩

theorem reentrancy_bound_test :
    nestedCalls table context shard (List.replicate 4 link) self OrdMap.empty ≤ defaultMaxReentrantDepth.toNat :=
  (reentrancy_bound_iff table context shard (replicate 4 link) self OrdMap.empty (goesDown 4)).2 (.inl le_rfl)

end SelfCall

end Wasm
