import OaasIot.Lib.Program
import OaasIot.Odgm.Types

/-!
# Object proxies of a WASM guest (`oprc-wasm/src/object_host.rs`, `oprc-odgm/src/wasm_bridge.rs`)

A guest reaches the objects of its own shard through an adapter and others through a Zenoh proxy, if the host has one.
The field calls are entry calls of the shard; **`set_all`** hands the bytes of its first entry to `set_object`, which
stores them under `_raw`. wasmtime's `ResourceTable` and the shard are parameters; `σ` is all outside the host.
-/

namespace Wasm

open Odgm (ObjectVal ValType)

/-! ## Values and errors -/

abbrev ByteVec := { data : Bytes // data.length < 2 ^ 62 }
def ByteVec.empty : ByteVec := ⟨[], Str.empty.len_lt⟩
def ByteVec.toVal (b : ByteVec) : ObjectVal := ⟨b.1, .byte, b.2⟩
def ByteVec.ofVal (v : ObjectVal) : ByteVec := ⟨v.data, v.len_lt⟩

theorem ByteVec.ofVal_comp_toVal : ByteVec.ofVal ∘ ByteVec.toVal = id := rfl

structure ObjectRef where
  cls : Str
  partitionId : UInt32
  objectId : Str
  deriving DecidableEq

inductive OdgmError
  | notFound
  | permissionDenied
  | invalidArgument (msg : String)
  | internal (msg : String)
  deriving DecidableEq

inductive DataOpsError
  | notFound
  | permissionDenied
  | invalidArgument (msg : String)
  | internal (msg : String)

def DataOpsError.toOdgm : DataOpsError → OdgmError
  | .notFound => .notFound
  | .permissionDenied => .permissionDenied
  | .invalidArgument msg => .invalidArgument msg
  | .internal msg => .internal msg

inductive ProxyError
  | noQueryable
  | other (text : String)

def convertProxyError : ProxyError → OdgmError
  | .noQueryable => .notFound
  | .other text => .internal text

structure FieldEntry where
  key : Str
  value : ByteVec
  deriving DecidableEq

structure Entry where
  key : Str
  data : ByteVec
  valType : ValType
  deriving DecidableEq

structure ObjData where
  entries : List Entry
  deriving DecidableEq

def ObjData.toBytes (obj : ObjData) : ByteVec := (obj.entries.head?.map Entry.data).getD ByteVec.empty

/-! ## What the host calls -/

structure OdgmDataOps (σ : Type) where
  setObject : ObjectRef → ByteVec → σ → Except DataOpsError Unit × σ
  getValue : ObjectRef → Str → σ → Except DataOpsError (Option ByteVec) × σ
  setValue : ObjectRef → Str → ByteVec → σ → Except DataOpsError Unit × σ
  deleteValue : ObjectRef → Str → σ → Except DataOpsError Unit × σ
  batchSetValues : ObjectRef → List (Str × ByteVec) → σ → Except DataOpsError Unit × σ
  getAllEntries : ObjectRef → σ → Except DataOpsError (Option (List (Str × ByteVec))) × σ
  invokeObj : ObjectRef → Str → Option ByteVec → σ → Except DataOpsError (Option ByteVec) × σ

structure ZenohObjectProxy (σ : Type) where
  getEntry : ObjectRef → Str → σ → Except ProxyError (Option (Option ByteVec)) × σ
  batchSetEntries : ObjectRef → OrdMap Str ByteVec → σ → Except ProxyError Unit × σ
  getObj : ObjectRef → σ → Except ProxyError (Option (List (Str × ByteVec))) × σ
  setObj : ObjectRef → OrdMap Str ByteVec → σ → Except ProxyError Unit × σ
  invokeObjectFn : ObjectRef → Str → ByteVec → σ → Except ProxyError (Option ByteVec) × σ

structure ObjectProxyState where
  objectRef : ObjectRef
  isLocal : Bool
  deriving DecidableEq

structure ResourceTable (T : Type) where
  new : T
  get : T → Nat → Except String ObjectProxyState
  push : T → ObjectProxyState → Except String (Nat × T)
  delete : T → Nat → Except String T

/-! ## The host -/

def defaultMaxReentrantDepth : UInt32 := 4

structure HostState (σ T : Type) where
  remoteProxy : Option (ZenohObjectProxy σ)
  shardClsId : Str
  shardPartitionId : UInt32
  table : T
  reentrantDepth : UInt32
  maxReentrantDepth : UInt32

namespace HostState

section
variable {σ T : Type} (lib : ResourceTable T) (host : HostState σ T)

def new (remoteProxy : Option (ZenohObjectProxy σ)) (shardClsId : Str) (shardPartitionId : UInt32) : HostState σ T :=
  ⟨remoteProxy, shardClsId, shardPartitionId, lib.new, 0, defaultMaxReentrantDepth⟩

def isLocal (ref : ObjectRef) : Bool := ref.cls = host.shardClsId ∧ ref.partitionId = host.shardPartitionId

def getProxy (handle : Nat) : Except OdgmError ObjectProxyState :=
  match lib.get host.table handle with
  | .ok proxy => .ok proxy
  | .error e => .error (.internal ("invalid proxy handle: " ++ e))

def createProxy (ref : ObjectRef) : Except OdgmError Nat × HostState σ T :=
  match lib.push host.table ⟨ref, host.isLocal ref⟩ with
  | .ok (handle, table) => (.ok handle, { host with table := table })
  | .error e => (.error (.internal ("failed to create proxy: " ++ e)), host)

def remote : Except OdgmError (ZenohObjectProxy σ) :=
  match host.remoteProxy with
  | some proxy => .ok proxy
  | none => .error (.internal "remote proxy not available")

def onProxy {α : Type} (handle : Nat) (here : ObjectRef → σ → Except OdgmError α × σ)
    (there : ZenohObjectProxy σ → ObjectRef → σ → Except OdgmError α × σ) (s : σ) : Except OdgmError α × σ :=
  match host.getProxy lib handle with
  | .error e => (.error e, s)
  | .ok proxy =>
    if proxy.isLocal then here proxy.objectRef s
    else
      match host.remote with
      | .error e => (.error e, s)
      | .ok remote => there remote proxy.objectRef s

end

end HostState

def mapErr {ε ε' α σ : Type} (f : ε → ε') (r : Except ε α × σ) : Except ε' α × σ := (r.1.mapError f, r.2)

def getFields {σ : Type} (read : Str → σ → Except OdgmError (Option ByteVec) × σ) :
    List Str → σ → Except OdgmError (List FieldEntry) × σ
  | [], s => (.ok [], s)
  | key :: keys, s =>
    match read key s with
    | (.error e, s') => (.error e, s')
    | (.ok value, s') =>
      match getFields read keys s' with
      | (.error e, s'') => (.error e, s'')
      | (.ok entries, s'') => (.ok ((value.map (FieldEntry.mk key)).toList ++ entries), s'')

def objectAnswer {σ : Type} : Except OdgmError (Option (List (Str × ByteVec))) × σ → Except OdgmError ObjData × σ
  | (.ok (some entries), s) => (.ok ⟨entries.map fun e => ⟨e.1, e.2, .byte⟩⟩, s)
  | (.ok none, s) => (.error .notFound, s)
  | (.error e, s) => (.error e, s)

namespace HostState

section
variable {σ T : Type} (lib : ResourceTable T) (ops : OdgmDataOps σ) (host : HostState σ T) (handle : Nat)

def get (key : Str) : σ → Except OdgmError (Option ByteVec) × σ :=
  host.onProxy lib handle (fun ref s => mapErr DataOpsError.toOdgm (ops.getValue ref key s))
    fun remote ref s =>
      match remote.getEntry ref key s with
      | (.ok (some value), s') => (.ok value, s')
      | (.ok none, s') => (.ok none, s')
      | (.error e, s') => (.error (convertProxyError e), s')

def getMany (keys : List Str) : σ → Except OdgmError (List FieldEntry) × σ :=
  host.onProxy lib handle
    (fun ref => getFields (fun key s => mapErr DataOpsError.toOdgm (ops.getValue ref key s)) keys)
    fun remote ref => getFields (fun key s =>
      match remote.getEntry ref key s with
      | (.ok (some value), s') => (.ok value, s')
      | (.ok none, s') => (.ok none, s')
      | (.error e, s') => (.error (convertProxyError e), s')) keys

def set (key : Str) (value : ByteVec) : σ → Except OdgmError Unit × σ :=
  host.onProxy lib handle (fun ref s => mapErr DataOpsError.toOdgm (ops.setValue ref key value s))
    fun remote ref s => mapErr convertProxyError (remote.batchSetEntries ref (OrdMap.empty.insert key value) s)

def setMany (entries : List FieldEntry) : σ → Except OdgmError Unit × σ :=
  host.onProxy lib handle
    (fun ref s => mapErr DataOpsError.toOdgm (ops.batchSetValues ref (entries.map fun e => (e.key, e.value)) s))
    fun remote ref s => mapErr convertProxyError
      (remote.batchSetEntries ref (OrdMap.empty.insertMany (entries.map fun e => (e.key, e.value))) s)

def delete (key : Str) (s : σ) : Except OdgmError Unit × σ :=
  match host.getProxy lib handle with
  | .error e => (.error e, s)
  | .ok proxy =>
    if proxy.isLocal then mapErr DataOpsError.toOdgm (ops.deleteValue proxy.objectRef key s)
    else (.error (.internal "remote field delete not yet supported; use set with empty value"), s)

def getAll : σ → Except OdgmError ObjData × σ :=
  host.onProxy lib handle (fun ref s => objectAnswer (mapErr DataOpsError.toOdgm (ops.getAllEntries ref s)))
    fun remote ref s => objectAnswer (mapErr convertProxyError (remote.getObj ref s))

def setAll (data : ObjData) : σ → Except OdgmError Unit × σ :=
  host.onProxy lib handle (fun ref s => mapErr DataOpsError.toOdgm (ops.setObject ref data.toBytes s))
    fun remote ref s => mapErr convertProxyError
      (remote.setObj ref (OrdMap.empty.insertMany (data.entries.map fun e => (e.key, e.data))) s)

end

end HostState

inductive ProxyCall
  | get (key : Str)
  | getMany (keys : List Str)
  | set (key : Str) (value : ByteVec)
  | setMany (entries : List FieldEntry)
  | delete (key : Str)
  | setAll (data : ObjData)
  | getAll

inductive Answer
  | value (v : Option ByteVec)
  | fields (entries : List FieldEntry)
  | done
  | object (data : ObjData)
  deriving DecidableEq

def HostState.call {σ T : Type} (lib : ResourceTable T) (ops : OdgmDataOps σ) (host : HostState σ T) (handle : Nat)
    (c : ProxyCall) (s : σ) : Except OdgmError Answer × σ :=
  match c with
  | .get key => (host.get lib ops handle key s).map (Except.map .value) fun s => s
  | .getMany keys => (host.getMany lib ops handle keys s).map (Except.map .fields) fun s => s
  | .set key value => (host.set lib ops handle key value s).map (Except.map fun _ => .done) fun s => s
  | .setMany entries => (host.setMany lib ops handle entries s).map (Except.map fun _ => .done) fun s => s
  | .delete key => (host.delete lib ops handle key s).map (Except.map fun _ => .done) fun s => s
  | .setAll data => (host.setAll lib ops handle data s).map (Except.map fun _ => .done) fun s => s
  | .getAll => (host.getAll lib ops handle s).map (Except.map .object) fun s => s

/-! ## The adapter of the shard -/

structure ShardOps (σ E : Type) where
  describe : E → String
  collection : Str
  getEntryGranular : Str → Str → σ → Except E (Option ObjectVal) × σ
  setEntryGranular : Str → Str → ObjectVal → σ → Except E Unit × σ
  deleteEntryGranular : Str → Str → σ → Except E Unit × σ
  batchSetEntriesGranular : Str → OrdMap Str ObjectVal → Option UInt64 → σ → Except E UInt64 × σ
  ensureMetadataExists : Str → σ → Except E Bool × σ
  reconstructObjectGranular : Str → Nat → σ → Except E (Option (OrdMap Str ObjectVal)) × σ
  invokeObj : ObjectRef → Str → ByteVec → σ → Except E (Option ByteVec) × σ

def rawEntryKey : Str := ⟨[95, 114, 97, 119], by decide, by decide⟩

section
variable {σ E : Type} (shard : ShardOps σ E)

def ShardOps.errToOps (e : E) : DataOpsError := .internal (shard.describe e)

def ShardOps.ownRef (ref : ObjectRef) : ObjectRef := { ref with cls := shard.collection }

def ShardOps.adapter : OdgmDataOps σ where
  setObject ref data s :=
    -- The outcome of `ensure_metadata_exists` is dropped.
    mapErr shard.errToOps
      (shard.setEntryGranular ref.objectId rawEntryKey data.toVal (shard.ensureMetadataExists ref.objectId s).2)
  getValue ref key s :=
    mapErr shard.errToOps ((shard.getEntryGranular ref.objectId key s).map (Except.map (Option.map .ofVal)) fun s => s)
  setValue ref key value s := mapErr shard.errToOps (shard.setEntryGranular ref.objectId key value.toVal s)
  deleteValue ref key s := mapErr shard.errToOps (shard.deleteEntryGranular ref.objectId key s)
  batchSetValues ref entries s :=
    mapErr shard.errToOps ((shard.batchSetEntriesGranular ref.objectId
      (OrdMap.empty.insertMany (entries.map fun e => (e.1, e.2.toVal))) none s).map (Except.map fun _ => ()) fun s => s)
  getAllEntries ref s :=
    mapErr shard.errToOps ((shard.reconstructObjectGranular ref.objectId 1024 s).map
      (Except.map (Option.map fun entries => entries.toList.map fun e => (e.1, .ofVal e.2))) fun s => s)
  invokeObj ref fnId payload s :=
    mapErr (fun e => .internal ("cross-invoke-obj failed: " ++ shard.describe e))
      (shard.invokeObj (shard.ownRef ref) fnId (payload.getD ByteVec.empty) s)

/-- **The entry calls implement a map** for the object `o` while it is live. -/
structure EntryMap (shard : ShardOps σ E) (o : Str) where
  Live : σ → Prop
  content : σ → OrdMap Str ByteVec
  getEntry : ∀ {s}, Live s → ∀ key, ∃ v s', shard.getEntryGranular o key s = (.ok v, s') ∧ Live s' ∧
    content s' = content s ∧ v.map .ofVal = (content s).get key
  setEntry : ∀ {s}, Live s → ∀ key v, ∃ s', shard.setEntryGranular o key v s = (.ok (), s') ∧ Live s' ∧
    content s' = (content s).insert key (.ofVal v)
  deleteEntry : ∀ {s}, Live s → ∀ key, ∃ s', shard.deleteEntryGranular o key s = (.ok (), s') ∧ Live s' ∧
    content s' = (content s).erase key
  batchSetEntries : ∀ {s}, Live s → ∀ values, ∃ version s', shard.batchSetEntriesGranular o values none s =
    (.ok version, s') ∧ Live s' ∧ ∀ key, (content s').get key = ((values.get key).map .ofVal).or ((content s).get key)
  ensureMetadata : ∀ {s}, Live s → Live (shard.ensureMetadataExists o s).2 ∧
    content (shard.ensureMetadataExists o s).2 = content s
  reconstruct : ∀ {s}, Live s → ∃ entries s', shard.reconstructObjectGranular o 1024 s = (.ok (some entries), s') ∧
    Live s' ∧ content s' = content s ∧ entries.toList.map (fun e => (e.1, .ofVal e.2)) = (content s).toList

end

/-! ## A plain map -/

namespace PlainMap

def toObjData (m : OrdMap Str ByteVec) : ObjData := ⟨m.toList.map fun e => ⟨e.1, e.2, .byte⟩⟩

def answer (m : OrdMap Str ByteVec) : ProxyCall → Answer
  | .get key => .value (m.get key)
  | .getMany keys => .fields (keys.filterMap fun key => (m.get key).map (FieldEntry.mk key))
  | .getAll => .object (toObjData m)
  | .set _ _ | .setMany _ | .delete _ | .setAll _ => .done

def ofObjData (data : ObjData) : OrdMap Str ByteVec :=
  OrdMap.empty.insertMany (data.entries.map fun e => (e.key, e.data))

def step (m : OrdMap Str ByteVec) : ProxyCall → OrdMap Str ByteVec
  | .set key value => m.insert key value
  | .setMany entries => m.insertMany (entries.map fun e => (e.key, e.value))
  | .delete key => m.erase key
  | .setAll data => ofObjData data
  | .get _ | .getMany _ | .getAll => m

theorem answer_getAll_injective : Function.Injective fun m => answer m .getAll := by
  intro m n h
  simp only [answer, toObjData, Answer.object.injEq, ObjData.mk.injEq] at h
  refine OrdMap.ext_toList (List.map_injective_iff.2 ?_ h)
  intro a b hab
  obtain ⟨hkey, hdata, _⟩ := Entry.mk.inj hab
  exact Prod.ext hkey hdata

end PlainMap

def storedStep (m : OrdMap Str ByteVec) : ProxyCall → OrdMap Str ByteVec
  | .setAll data => m.insert rawEntryKey data.toBytes
  | c => PlainMap.step m c

section
variable {σ T E : Type} {lib : ResourceTable T} {shard : ShardOps σ E} {o : Str} {host : HostState σ T} {handle : Nat}
  {s : σ}

/-! ## One call -/

def HostState.LocalTo (lib : ResourceTable T) (host : HostState σ T) (o : Str) (handle : Nat) : Prop :=
  ∃ proxy, host.getProxy lib handle = .ok proxy ∧ proxy.isLocal = true ∧ proxy.objectRef.objectId = o

theorem onProxy_local {α : Type} {proxy : ObjectProxyState} (hproxy : host.getProxy lib handle = .ok proxy)
    (hlocal : proxy.isLocal = true) (here : ObjectRef → σ → Except OdgmError α × σ)
    (there : ZenohObjectProxy σ → ObjectRef → σ → Except OdgmError α × σ) :
    host.onProxy lib handle here there s = here proxy.objectRef s := by
  simp only [HostState.onProxy, hproxy, hlocal, if_true]

variable (M : EntryMap shard o)

theorem getFields_spec {ref : ObjectRef} (href : ref.objectId = o) (keys : List Str) (hs : M.Live s) :
    ∃ s', getFields (fun key s => mapErr DataOpsError.toOdgm (shard.adapter.getValue ref key s)) keys s =
        (.ok (keys.filterMap fun key => ((M.content s).get key).map (FieldEntry.mk key)), s') ∧
      M.Live s' ∧ M.content s' = M.content s := by
  induction keys generalizing s with
  | nil => exact ⟨s, rfl, hs, rfl⟩
  | cons key keys ih =>
    obtain ⟨v, s₁, hget, hlive, hsame, hv⟩ := M.getEntry hs key
    obtain ⟨s₂, hrest, hlive₂, hsame₂⟩ := ih hlive
    refine ⟨s₂, ?_, hlive₂, hsame₂.trans hsame⟩
    have hread : mapErr DataOpsError.toOdgm (shard.adapter.getValue ref key s) = (.ok ((M.content s).get key), s₁) := by
      rw [← hv]
      simp only [ShardOps.adapter, href, hget]
      rfl
    simp only [getFields, hread, hrest, hsame]
    cases hk : (M.content s).get key <;> simp [hk]

theorem call_spec (hlocal : host.LocalTo lib o handle) (hs : M.Live s) (c : ProxyCall) :
    ∃ s', host.call lib shard.adapter handle c s = (.ok (PlainMap.answer (M.content s) c), s') ∧
      M.Live s' ∧ M.content s' = storedStep (M.content s) c := by
  obtain ⟨proxy, hproxy, hhere, hid⟩ := hlocal
  cases c with
  | get key =>
    obtain ⟨v, s', hget, hlive, hsame, hv⟩ := M.getEntry hs key
    refine ⟨s', ?_, hlive, hsame⟩
    simp only [HostState.call, HostState.get, onProxy_local hproxy hhere, ShardOps.adapter, hid, hget, PlainMap.answer,
      ← hv]
    rfl
  | getMany keys =>
    obtain ⟨s', hget, hlive, hsame⟩ := getFields_spec M hid keys hs
    refine ⟨s', ?_, hlive, hsame⟩
    simp only [HostState.call, HostState.getMany, onProxy_local hproxy hhere, hget]
    rfl
  | set key value =>
    obtain ⟨s', hset, hlive, hcontent⟩ := M.setEntry hs key value.toVal
    refine ⟨s', ?_, hlive, hcontent⟩
    simp only [HostState.call, HostState.set, onProxy_local hproxy hhere, ShardOps.adapter, hid, hset]
    rfl
  | setMany entries =>
    obtain ⟨version, s', hset, hlive, hcontent⟩ := M.batchSetEntries hs
      (OrdMap.empty.insertMany ((entries.map fun e => (e.key, e.value)).map fun e => (e.1, e.2.toVal)))
    refine ⟨s', ?_, hlive, ?_⟩
    · simp only [HostState.call, HostState.setMany, onProxy_local hproxy hhere, ShardOps.adapter, hid, hset]
      rfl
    · apply OrdMap.ext_get
      intro key
      have hvalues : (OrdMap.empty.insertMany
          ((entries.map fun e => (e.key, e.value)).map fun e => (e.1, e.2.toVal))).get key =
          ((OrdMap.empty.insertMany (entries.map fun e => (e.key, e.value))).get key).map ByteVec.toVal :=
        OrdMap.get_insertMany_map ByteVec.toVal (fun _ => rfl) _ key
      rw [hcontent, hvalues, Option.map_map, ByteVec.ofVal_comp_toVal, Option.map_id]
      exact (OrdMap.get_insertMany_or _ _ key).symm
  | delete key =>
    obtain ⟨s', hdel, hlive, hcontent⟩ := M.deleteEntry hs key
    refine ⟨s', ?_, hlive, hcontent⟩
    simp only [HostState.call, HostState.delete, hproxy, hhere, if_true, ShardOps.adapter, hid, hdel]
    rfl
  | setAll data =>
    obtain ⟨hlive₁, hsame⟩ := M.ensureMetadata hs
    obtain ⟨s', hset, hlive, hcontent⟩ := M.setEntry hlive₁ rawEntryKey data.toBytes.toVal
    refine ⟨s', ?_, hlive, ?_⟩
    · simp only [HostState.call, HostState.setAll, onProxy_local hproxy hhere, ShardOps.adapter, hid, hset]
      rfl
    · rw [hcontent, hsame]
      rfl
  | getAll =>
    obtain ⟨entries, s', hget, hlive, hsame, hentries⟩ := M.reconstruct hs
    refine ⟨s', ?_, hlive, hsame⟩
    simp only [HostState.call, HostState.getAll, onProxy_local hproxy hhere, ShardOps.adapter, hid, hget,
      PlainMap.answer, PlainMap.toObjData, ← hentries]
    rfl

/-! ## A sequence of calls -/

def HostState.answers (lib : ResourceTable T) (ops : OdgmDataOps σ) (host : HostState σ T) (s : σ)
    (calls : List (Nat × ProxyCall)) : List (Except OdgmError Answer) :=
  outputs (fun s c => (host.call lib ops c.1 c.2 s).2) (fun s c => (host.call lib ops c.1 c.2 s).1) s calls

theorem answers_eq {calls : List (Nat × ProxyCall)} (hlocal : ∀ c ∈ calls, host.LocalTo lib o c.1) (hs : M.Live s) :
    host.answers lib shard.adapter s calls =
      (outputs storedStep PlainMap.answer (M.content s) (calls.map Prod.snd)).map .ok := by
  unfold HostState.answers
  induction calls generalizing s with
  | nil => rfl
  | cons c calls ih =>
    obtain ⟨hc, hcalls⟩ := List.forall_mem_cons.1 hlocal
    obtain ⟨s', hcall, hlive, hcontent⟩ := call_spec M hc hs c.2
    simp only [outputs, List.map_cons, hcall, ih hcalls hlive, hcontent]

/-- What a `set_all` stores is what it was given: the entries there are, with the first one given under `_raw`, are the
entries given. -/
def FitsRaw (m : OrdMap Str ByteVec) (c : ProxyCall) : Prop :=
  ∀ data, c = .setAll data → m.insert rawEntryKey data.toBytes = PlainMap.ofObjData data

theorem storedStep_eq_iff {m : OrdMap Str ByteVec} {c : ProxyCall} :
    storedStep m c = PlainMap.step m c ↔ FitsRaw m c := by
  cases c with
  | setAll data =>
    constructor
    · rintro h _ ⟨⟩
      exact h
    · intro h
      exact h data rfl
  | _ => exact iff_of_true rfl (by rintro _ ⟨⟩)

/-- The calls, and a `get_all` through `handle` at any time of the sequence, are answered as by a plain map with the
content `m`. -/
def AnswersAsMap (lib : ResourceTable T) (ops : OdgmDataOps σ) (host : HostState σ T) (m : OrdMap Str ByteVec)
    (calls : List (Nat × ProxyCall)) (handle : Nat) (s : σ) : Prop :=
  ∀ front, front <+: calls → host.answers lib ops s (front ++ [(handle, .getAll)]) =
    (outputs PlainMap.step PlainMap.answer m (front.map Prod.snd ++ [.getAll])).map .ok

/-- **Local object proxies are a map** if every `set_all` gives the entries there are, and `_raw` its first. -/
theorem proxy_is_map_iff (lib : ResourceTable T) (shard : ShardOps σ E) (o : Str) (M : EntryMap shard o)
    (host : HostState σ T) (calls : List (Nat × ProxyCall)) (hlocal : ∀ c ∈ calls, host.LocalTo lib o c.1)
    (handle : Nat) (hhandle : host.LocalTo lib o handle) (s : σ) (hs : M.Live s) :
    AnswersAsMap lib shard.adapter host (M.content s) calls handle s ↔
      AlongRun PlainMap.step FitsRaw (M.content s) (calls.map Prod.snd) := by
  have hanswers : ∀ front, front <+: calls → host.answers lib shard.adapter s (front ++ [(handle, .getAll)]) =
      (outputs storedStep PlainMap.answer (M.content s) (front.map Prod.snd ++ [.getAll])).map .ok := by
    intro front hfront
    rw [answers_eq M ?_ hs, List.map_append]
    · rfl
    · intro c hc
      rcases List.mem_append.1 hc with hc | hc
      · exact hlocal c (hfront.subset hc)
      · obtain rfl := List.mem_singleton.1 hc
        exact hhandle
  have hfits : AlongRun PlainMap.step FitsRaw (M.content s) (calls.map Prod.snd) ↔
      AlongRun PlainMap.step (fun m c => storedStep m c = PlainMap.step m c) (M.content s) (calls.map Prod.snd) := by
    simp only [storedStep_eq_iff]
  rw [hfits, ← outputs_agree_iff PlainMap.answer_getAll_injective]
  constructor
  · intro h front hfront
    obtain ⟨front, hcalls, rfl⟩ := List.prefix_map_iff.1 hfront
    exact List.map_injective_iff.2 (fun _ _ => Except.ok.inj) ((hanswers front hcalls).symm.trans (h front hcalls))
  · intro h front hfront
    rw [hanswers front hfront, h (front.map Prod.snd) (hfront.map _)]

end

/-! ## A field that is replaced -/

namespace OneField

def table : ResourceTable (List (Option ObjectProxyState)) where
  new := []
  get slots handle :=
    match slots[handle]? with
    | some (some proxy) => .ok proxy
    | _ => .error "resource not present"
  push slots proxy := .ok (slots.length, slots ++ [some proxy])
  delete slots handle := .ok (slots.set handle none)

def shard : ShardOps (OrdMap Str ByteVec) String where
  describe e := e
  collection := Str.empty
  getEntryGranular _ key m := (.ok ((m.get key).map ByteVec.toVal), m)
  setEntryGranular _ key v m := (.ok (), m.insert key (.ofVal v))
  deleteEntryGranular _ key m := (.ok (), m.erase key)
  batchSetEntriesGranular _ values _ m := (.ok 0, m.insertMany (values.mapWithKey fun _ v => ByteVec.ofVal v).toList)
  ensureMetadataExists _ m := (.ok false, m)
  reconstructObjectGranular _ _ m := (.ok (some (m.mapWithKey fun _ b => b.toVal)), m)
  invokeObj _ _ _ m := (.ok none, m)

def object : Str := ⟨[111], Str.valid_o, Str.short_o⟩

def entryMap : EntryMap shard object where
  Live _ := True
  content m := m
  getEntry _ key := by
    refine ⟨_, _, rfl, trivial, rfl, ?_⟩
    rw [Option.map_map, ByteVec.ofVal_comp_toVal, Option.map_id, id]
  setEntry _ _ _ := ⟨_, rfl, trivial, rfl⟩
  deleteEntry _ _ := ⟨_, rfl, trivial, rfl⟩
  batchSetEntries _ values := by
    refine ⟨_, _, rfl, trivial, fun key => ?_⟩
    rw [OrdMap.get_insertMany_or, OrdMap.insertMany_toList, OrdMap.get_mapWithKey]
  ensureMetadata _ := ⟨trivial, rfl⟩
  reconstruct _ := by
    refine ⟨_, _, rfl, trivial, rfl, ?_⟩
    rw [OrdMap.mapWithKey, List.map_map]
    exact List.map_id _

def host : HostState (OrdMap Str ByteVec) (List (Option ObjectProxyState)) :=
  ((HostState.new table none Str.empty 0).createProxy table ⟨Str.empty, 0, object⟩).2

def key : Str := ⟨[107], Str.valid_k, Str.short_k⟩

def old : ByteVec := ⟨[1], Odgm.short_1⟩
def new : ByteVec := ⟨[2], Odgm.short_2⟩

/-- `get_all` answers the old value of `k` beside an entry `_raw`. -/
theorem set_all_keeps_fields :
    host.answers table shard.adapter (OrdMap.empty.insert key old) [(0, .setAll ⟨[⟨key, new, .byte⟩]⟩), (0, .getAll)] =
      [.ok .done, .ok (.object ⟨[⟨rawEntryKey, new, .byte⟩, ⟨key, old, .byte⟩]⟩)] ∧
    outputs PlainMap.step PlainMap.answer (OrdMap.empty.insert key old) [.setAll ⟨[⟨key, new, .byte⟩]⟩, .getAll] =
      [.done, .object ⟨[⟨key, new, .byte⟩]⟩] :=
  ⟨rfl, rfl⟩

/-- The one entry `_raw` in an object without others is what `set_all` makes of it. -/
theorem proxy_is_map_test :
    AnswersAsMap table shard.adapter host OrdMap.empty
      [(0, .setAll ⟨[⟨rawEntryKey, old, .byte⟩]⟩), (0, .set rawEntryKey new), (0, .get rawEntryKey)] 0 OrdMap.empty := by
  have hlocal : host.LocalTo table object 0 := ⟨_, rfl, rfl, rfl⟩
  refine (proxy_is_map_iff table shard object entryMap host _ ?_ 0 hlocal OrdMap.empty trivial).2 ?_
  · simp [hlocal]
  · refine ⟨?_, ?_, ?_, trivial⟩
    · rintro _ ⟨⟩
      rfl
    · rintro _ ⟨⟩
    · rintro _ ⟨⟩

end OneField

end Wasm
