import OaasIot.Lib.BigEndian
import OaasIot.Lib.Bounds
import OaasIot.Odgm.Types

/-!
# The Raft log store (`raft_log.rs`)

`OpenraftLogStore` keeps the log entries in one ordered store, under their index as eight bytes, big endian, and the
rest of Raft's state in another. `RaftLog` is the log it stands for: a purge point and the entries after it. `serde_json`
is a parameter (`LogCodec`).
-/

namespace Odgm

open List OrdMap

/-! ## Entries -/

structure LeaderId where
  term : UInt64
  nodeId : UInt64
  deriving DecidableEq

structure LogId where
  leaderId : LeaderId
  index : UInt64
  deriving DecidableEq

structure Entry (P : Type) where
  logId : LogId
  payload : P
  deriving DecidableEq

structure LogCodec (P : Type) where
  encodeEntry : Entry P → Bytes
  decodeEntry : Bytes → Except String (Entry P)
  decodeEntry_encodeEntry : ∀ e, decodeEntry (encodeEntry e) = .ok e
  encodeLogId : LogId → Bytes
  decodeLogId : Bytes → Except String LogId
  decodeLogId_encodeLogId : ∀ i, decodeLogId (encodeLogId i) = .ok i

inductive LogStoreError
  | read (msg : String)
  | readLogs (msg : String)
  deriving DecidableEq

structure LogState where
  lastPurgedLogId : Option LogId
  lastLogId : Option LogId
  deriving DecidableEq

/-! ## The store -/

structure OpenraftLogStore where
  logBackend : Store
  metadataBackend : Store

namespace OpenraftLogStore

variable {P : Type} (c : LogCodec P)

def new : OpenraftLogStore := ⟨.empty, .empty⟩
def logIdToKey (index : UInt64) : Bytes := beBytes 8 index.toNat
def keyToLogId (key : Bytes) : Option UInt64 := if key.length = 8 then some (.ofNat (beNat key)) else none

def lastPurgedKey : Bytes :=
  [108, 97, 115, 116, 95, 112, 117, 114, 103, 101, 100, 95, 108, 111, 103, 95, 105, 100]

variable (s : OpenraftLogStore)

def getLastPurged : Except LogStoreError (Option LogId) :=
  match s.metadataBackend.get lastPurgedKey with
  | none => .ok none
  | some value =>
    match c.decodeLogId value with
    | .ok id => .ok (some id)
    | .error e => .error (.read ("Failed to deserialize data: " ++ e))

def setLastPurged (id : LogId) : OpenraftLogStore :=
  { s with metadataBackend := s.metadataBackend.insert lastPurgedKey (c.encodeLogId id) }

def decodeAll : List Bytes → Except LogStoreError (List (Entry P))
  | [] => .ok []
  | value :: values =>
    match c.decodeEntry value with
    | .ok e => (decodeAll values).map (e :: ·)
    | .error e => .error (.readLogs ("Failed to deserialize log entry: " ++ e))

def startIndex : Bound UInt64 → UInt64
  | .included x => x
  | .excluded x => x + 1
  | .unbounded => 0

def endIndex : Bound UInt64 → UInt64
  | .included x => x + 1
  | .excluded x => x
  | .unbounded => 0xFFFFFFFFFFFFFFFF

def tryGetLogEntries (start stop : Bound UInt64) : Except LogStoreError (List (Entry P)) :=
  let scanned := s.logBackend.range (logIdToKey (startIndex start)) (logIdToKey (endIndex stop))
  decodeAll c (scanned.filterMap fun kv => (keyToLogId kv.1).map fun _ => kv.2)

def lastEntryId : Option LogId :=
  match s.logBackend.toList.getLast? with
  | none => none
  | some (key, value) =>
    (keyToLogId key).bind fun _ =>
      match c.decodeEntry value with
      | .ok e => some e.logId
      | .error _ => none

def getLogState : Except LogStoreError LogState :=
  (s.getLastPurged c).map fun lastPurgedLogId => { lastPurgedLogId, lastLogId := s.lastEntryId c }

def append (entries : List (Entry P)) : OpenraftLogStore :=
  entries.foldl
    (fun s e => { s with logBackend := s.logBackend.insert (logIdToKey e.logId.index) (c.encodeEntry e) }) s

def truncate (id : LogId) : OpenraftLogStore :=
  match s.logBackend.toList.getLast?.bind fun kv => keyToLogId kv.1 with
  | none => s
  | some currentLast =>
    if id.index ≤ currentLast then
      { s with logBackend := s.logBackend.eraseRange (logIdToKey id.index) (logIdToKey (currentLast + 1)) }
    else s

def purge (id : LogId) : OpenraftLogStore :=
  let s := s.setLastPurged c id
  { s with logBackend := s.logBackend.eraseRange (logIdToKey 0) (logIdToKey (id.index + 1)) }

end OpenraftLogStore

inductive LogCall (P : Type)
  | append (entries : List (Entry P))
  | truncate (id : LogId)
  | purge (id : LogId)

def OpenraftLogStore.step {P : Type} (c : LogCodec P) (s : OpenraftLogStore) : LogCall P → OpenraftLogStore
  | .append entries => s.append c entries
  | .truncate id => s.truncate id
  | .purge id => s.purge c id

def OpenraftLogStore.run {P : Type} (c : LogCodec P) (calls : List (LogCall P)) : OpenraftLogStore :=
  calls.foldl (OpenraftLogStore.step c) .new

/-! ## Consecutive numbers -/

section
variable {α : Type} {f : α → Nat} {l : List α} {a : Nat}

variable (h : l.map f = range' a l.length)
include h

theorem consecutive_take (n : Nat) : (l.take n).map f = range' a (l.take n).length := by
  rw [map_take, h]
  refine ext_getElem (by simp) ?_
  intro i h₁ h₂
  simp

theorem consecutive_drop (n : Nat) : (l.drop n).map f = range' (a + n) (l.drop n).length := by
  rw [map_drop, h, drop_range', length_drop, Nat.mul_one]

theorem consecutive_append {l' : List α} (h' : l'.map f = range' (a + l.length) l'.length) :
    (l ++ l').map f = range' a (l ++ l').length := by
  rw [map_append, h, h', length_append, range'_append_1]

theorem mem_of_consecutive {x : α} (hx : x ∈ l) : a ≤ f x ∧ f x < a + l.length := by
  have : f x ∈ range' a l.length := h ▸ mem_map_of_mem hx
  exact mem_range'_1.1 this

theorem split_of_consecutive (b : Nat) : (∀ x ∈ l.take (b - a), f x < b) ∧ ∀ x ∈ l.drop (b - a), b ≤ f x := by
  constructor
  · intro x hx
    have := mem_of_consecutive (consecutive_take h _) hx
    rw [length_take] at this
    omega
  · intro x hx
    have := mem_of_consecutive (consecutive_drop h _) hx
    omega

theorem filter_lt_of_consecutive (b : Nat) : l.filter (fun x => f x < b) = l.take (b - a) := by
  obtain ⟨hbelow, habove⟩ := split_of_consecutive h b
  conv_lhs => rw [← take_append_drop (b - a) l]
  rw [filter_append, filter_eq_self.2 (by simpa using hbelow), filter_eq_nil_iff.2 (by simpa using habove), append_nil]

theorem filter_gt_of_consecutive (b : Nat) : l.filter (fun x => b < f x) = l.drop (b + 1 - a) := by
  obtain ⟨hbelow, habove⟩ := split_of_consecutive h (b + 1)
  conv_lhs => rw [← take_append_drop (b + 1 - a) l]
  rw [filter_append, filter_eq_nil_iff.2 (by simpa [Nat.lt_succ_iff] using hbelow),
    filter_eq_self.2 (by simpa [Nat.succ_le_iff] using habove), nil_append]

end

/-! ## The log it stands for -/

def firstIndex : Option LogId → Nat
  | none => 0
  | some id => id.index.toNat + 1

structure RaftLog (P : Type) where
  purged : Option LogId
  entries : List (Entry P)
  consecutive : entries.map (fun e => e.logId.index.toNat) = List.range' (firstIndex purged) entries.length
  bounded : firstIndex purged + entries.length < 2 ^ 64

namespace RaftLog

variable {P : Type}

def empty : RaftLog P := ⟨none, [], rfl, by simp [firstIndex]⟩
def nextIndex (log : RaftLog P) : Nat := firstIndex log.purged + log.entries.length

def lastLogId (log : RaftLog P) : Option LogId :=
  match log.entries.getLast? with
  | none => log.purged
  | some e => some e.logId

def step (log : RaftLog P) : LogCall P → Option (RaftLog P)
  | .append entries =>
    if h : entries.map (fun e => e.logId.index.toNat) = List.range' log.nextIndex entries.length ∧
        log.nextIndex + entries.length < 2 ^ 64 then
      some
        { purged := log.purged
          entries := log.entries ++ entries
          consecutive := consecutive_append log.consecutive h.1
          bounded := by
            have := h.2
            rw [nextIndex] at this
            rw [List.length_append]
            omega }
    else none
  | .truncate id =>
    some
      { purged := log.purged
        entries := log.entries.filter fun e => e.logId.index.toNat < id.index.toNat
        consecutive := by
          rw [filter_lt_of_consecutive log.consecutive]
          exact consecutive_take log.consecutive _
        bounded := by
          have := log.bounded
          have := List.length_filter_le (fun e : Entry P => decide (e.logId.index.toNat < id.index.toNat)) log.entries
          omega }
  | .purge id =>
    if h : firstIndex log.purged ≤ id.index.toNat + 1 ∧ id.index.toNat < log.nextIndex then
      some
        { purged := some id
          entries := log.entries.filter fun e => id.index.toNat < e.logId.index.toNat
          consecutive := by
            rw [filter_gt_of_consecutive log.consecutive]
            have := consecutive_drop log.consecutive (id.index.toNat + 1 - firstIndex log.purged)
            rwa [Nat.add_sub_cancel' h.1] at this
          bounded := by
            have := log.bounded
            have := h.2
            rw [nextIndex] at this
            rw [filter_gt_of_consecutive log.consecutive, List.length_drop, firstIndex]
            omega }
    else none

def run (calls : List (LogCall P)) : Option (RaftLog P) := calls.foldlM step empty

end RaftLog

/-! ## Refinement -/

namespace OpenraftLogStore

variable {P : Type} {c : LogCodec P}

theorem logIdToKey_lt_iff {i j : UInt64} : logIdToKey i < logIdToKey j ↔ i < j :=
  (beBytes_lt_iff (w := 8) i.toNat_lt j.toNat_lt).trans UInt64.lt_iff_toNat_lt.symm

theorem logIdToKey_le_iff {i j : UInt64} : logIdToKey i ≤ logIdToKey j ↔ i ≤ j :=
  (beBytes_le_iff (w := 8) i.toNat_lt j.toNat_lt).trans UInt64.le_iff_toNat_le.symm

@[simp] theorem keyToLogId_logIdToKey (i : UInt64) : keyToLogId (logIdToKey i) = some i := by
  have hlt : i.toNat < 256 ^ 8 := i.toNat_lt
  rw [keyToLogId, logIdToKey, if_pos (length_beBytes 8 _), beNat_beBytes_of_lt hlt, UInt64.ofNat_toNat]

def record (c : LogCodec P) (e : Entry P) : Bytes × Bytes := (logIdToKey e.logId.index, c.encodeEntry e)

structure Represents (c : LogCodec P) (log : RaftLog P) (s : OpenraftLogStore) : Prop where
  entries_eq : s.logBackend.toList = log.entries.map (record c)
  purged_eq : s.metadataBackend.get lastPurgedKey = log.purged.map c.encodeLogId

theorem represents_new : Represents c RaftLog.empty new := ⟨rfl, rfl⟩

variable {log log' : RaftLog P} {s : OpenraftLogStore}

theorem index_lt_nextIndex {e : Entry P} (he : e ∈ log.entries) :
    firstIndex log.purged ≤ e.logId.index.toNat ∧ e.logId.index.toNat < log.nextIndex :=
  mem_of_consecutive log.consecutive he

theorem index_of_getLast? {e : Entry P} (he : log.entries.getLast? = some e) :
    e.logId.index.toNat + 1 = log.nextIndex := by
  have hlast : (log.entries.map fun e => e.logId.index.toNat).getLast? = some e.logId.index.toNat := by
    rw [getLast?_map, he]
    rfl
  have hlen : log.entries.length ≠ 0 := by
    intro h0
    rw [length_eq_zero_iff.1 h0] at he
    cases he
  rw [log.consecutive, getLast?_range', if_neg hlen] at hlast
  have := Option.some.inj hlast
  rw [RaftLog.nextIndex]
  omega

variable (entries : List (Entry P))

theorem toList_append {s : OpenraftLogStore} {stored : List (Entry P)} {a : Nat}
    (hs : s.logBackend.toList = stored.map (record c))
    (hcons : (stored ++ entries).map (fun e => e.logId.index.toNat) = range' a (stored ++ entries).length) :
    (s.append c entries).logBackend.toList = (stored ++ entries).map (record c) ∧
      (s.append c entries).metadataBackend = s.metadataBackend := by
  induction entries generalizing s stored with
  | nil => exact ⟨by simpa [append] using hs, rfl⟩
  | cons e entries ih =>
    have hsplit : stored ++ e :: entries = (stored ++ [e]) ++ entries := by simp
    have hlt : ∀ x ∈ s.logBackend.toList, x.1 < logIdToKey e.logId.index := by
      intro x hx
      rw [hs] at hx
      obtain ⟨d, hd, rfl⟩ := mem_map.1 hx
      have hpair : ((stored ++ e :: entries).map fun e => e.logId.index.toNat).Pairwise (· < ·) := by
        rw [hcons]
        exact pairwise_lt_range'
      rw [map_append, pairwise_append] at hpair
      exact logIdToKey_lt_iff.2 (UInt64.lt_iff_toNat_lt.2
        (hpair.2.2 _ (mem_map_of_mem hd) _ (by simp)))
    have hinsert := toList_insert_of_lt (v := c.encodeEntry e) hlt
    rw [hsplit] at hcons ⊢
    refine ih (s := { s with logBackend := s.logBackend.insert (logIdToKey e.logId.index) (c.encodeEntry e) }) ?_ hcons
    rw [hinsert, hs, map_append]
    rfl

theorem toList_eraseRange (hs : s.logBackend.toList = log.entries.map (record c)) (i j : UInt64) :
    (s.logBackend.eraseRange (logIdToKey i) (logIdToKey j)).toList =
      (log.entries.filter fun e => ¬ (i ≤ e.logId.index ∧ e.logId.index < j)).map (record c) := by
  rw [eraseRange, toList_filterKeys, hs, filter_map]
  refine congrArg _ (filter_congr fun e _ => ?_)
  simp only [Function.comp_apply, record, logIdToKey_le_iff, logIdToKey_lt_iff]

theorem toNat_add_one {i : UInt64} (h : i.toNat + 1 < 2 ^ 64) : (i + 1).toNat = i.toNat + 1 := by
  rw [UInt64.toNat_add]
  exact Nat.mod_eq_of_lt h

section
variable (h : Represents c log s)
include h

theorem Represents.step {call : LogCall P} (hcall : log.step call = some log') : Represents c log' (s.step c call) := by
  have hbound := log.bounded
  cases call with
  | append entries =>
    rw [RaftLog.step] at hcall
    split at hcall
    case isTrue hvalid =>
      cases hcall
      obtain ⟨hlog, hmeta⟩ := toList_append entries h.entries_eq (consecutive_append log.consecutive hvalid.1)
      exact ⟨hlog, hmeta ▸ h.purged_eq⟩
    case isFalse => cases hcall
  | truncate id =>
    cases hcall
    have hlast : (s.logBackend.toList.getLast?.bind fun kv => keyToLogId kv.1) =
        log.entries.getLast?.map fun e => e.logId.index := by
      rw [h.entries_eq, getLast?_map]
      cases log.entries.getLast? with
      | none => rfl
      | some e => simp [record]
    refine ⟨?_, ?_⟩
    · simp only [OpenraftLogStore.step, truncate, hlast]
      cases hentries : log.entries.getLast? with
      | none =>
        rw [getLast?_eq_none_iff] at hentries
        simp [h.entries_eq, hentries]
      | some last =>
        have hnext := index_of_getLast? hentries
        have hsucc := toNat_add_one (i := last.logId.index) (by rw [hnext]; exact hbound)
        simp only [Option.map_some]
        split
        case isTrue =>
          rw [toList_eraseRange h.entries_eq]
          refine congrArg _ (filter_congr fun e he => ?_)
          have := (index_lt_nextIndex he).2
          simp only [UInt64.le_iff_toNat_le, UInt64.lt_iff_toNat_lt, hsucc, decide_eq_decide]
          omega
        case isFalse habove =>
          rw [h.entries_eq]
          refine congrArg _ (filter_eq_self.2 fun e he => ?_).symm
          have := (index_lt_nextIndex he).2
          rw [UInt64.le_iff_toNat_le] at habove
          exact decide_eq_true (by omega)
    · refine Eq.trans ?_ h.purged_eq
      simp only [OpenraftLogStore.step, truncate]
      split
      · rfl
      · split <;> rfl
  | purge id =>
    rw [RaftLog.step] at hcall
    split at hcall
    case isTrue hvalid =>
      cases hcall
      have hlt := hvalid.2
      rw [RaftLog.nextIndex] at hlt
      have hsucc := toNat_add_one (i := id.index) (by omega)
      refine ⟨?_, ?_⟩
      · refine (toList_eraseRange (s := s.setLastPurged c id) h.entries_eq 0 (id.index + 1)).trans ?_
        refine congrArg _ (filter_congr fun e _ => ?_)
        simp only [UInt64.le_iff_toNat_le, UInt64.lt_iff_toNat_lt, hsucc, decide_eq_decide, UInt64.toNat_zero]
        omega
      · exact get_insert_self _ _ _
    case isFalse => cases hcall

theorem Represents.run {calls : List (LogCall P)}
    (hcalls : calls.foldlM RaftLog.step log = some log') : Represents c log' (calls.foldl (OpenraftLogStore.step c) s) := by
  induction calls generalizing log s with
  | nil =>
    cases hcalls
    exact h
  | cons call calls ih =>
    rw [foldlM_cons] at hcalls
    obtain ⟨mid, hmid, hrest⟩ := Option.bind_eq_some_iff.1 hcalls
    exact ih (h.step hmid) hrest

/-! ## What is read -/

omit h in
theorem decodeAll_map : decodeAll c (entries.map c.encodeEntry) = .ok entries := by
  induction entries with
  | nil => rfl
  | cons e entries ih =>
    rw [map_cons, decodeAll, c.decodeEntry_encodeEntry, ih]
    rfl

omit h in
theorem decodeAll_records :
    decodeAll c ((entries.map (record c)).filterMap fun kv => (keyToLogId kv.1).map fun _ => kv.2) = .ok entries := by
  rw [filterMap_map, filterMap_congr (g := fun e => some (c.encodeEntry e)) (by simp [record]),
    congrFun filterMap_eq_map' entries]
  exact decodeAll_map entries

theorem Represents.tryGetLogEntries (start stop : Bound UInt64) : s.tryGetLogEntries c start stop =
      .ok (log.entries.filter fun e => startIndex start ≤ e.logId.index ∧ e.logId.index < endIndex stop) := by
  have hscan : s.logBackend.range (logIdToKey (startIndex start)) (logIdToKey (endIndex stop)) =
      (log.entries.filter fun e => startIndex start ≤ e.logId.index ∧ e.logId.index < endIndex stop).map (record c) := by
    rw [OrdMap.range, h.entries_eq, filter_map]
    refine congrArg _ (filter_congr fun e _ => ?_)
    simp only [Function.comp_apply, record, logIdToKey_le_iff, logIdToKey_lt_iff]
  rw [OpenraftLogStore.tryGetLogEntries, hscan, decodeAll_records]

theorem Represents.tryGetLogEntries_all : s.tryGetLogEntries c .unbounded .unbounded = .ok log.entries := by
  rw [h.tryGetLogEntries]
  refine congrArg _ (filter_eq_self.2 fun e he => ?_)
  have hlt := (index_lt_nextIndex he).2
  have hbound := log.bounded
  rw [RaftLog.nextIndex] at hlt
  simp only [startIndex, endIndex, UInt64.le_iff_toNat_le, UInt64.lt_iff_toNat_lt, decide_eq_true_eq]
  exact ⟨Nat.zero_le _, by
    show e.logId.index.toNat < 18446744073709551615
    omega⟩

theorem Represents.getLogState : s.getLogState c = .ok ⟨log.purged, log.entries.getLast?.map Entry.logId⟩ := by
  have hpurged : s.getLastPurged c = .ok log.purged := by
    rw [getLastPurged, h.purged_eq]
    cases log.purged with
    | none => rfl
    | some id => simp [c.decodeLogId_encodeLogId]
  have hlast : s.lastEntryId c = log.entries.getLast?.map Entry.logId := by
    rw [lastEntryId, h.entries_eq, getLast?_map]
    cases log.entries.getLast? with
    | none => rfl
    | some e => simp [record, c.decodeEntry_encodeEntry]
  rw [OpenraftLogStore.getLogState, hpurged, hlast]
  rfl

end

theorem lastLogId_eq_iff (log : RaftLog P) :
    log.entries.getLast?.map Entry.logId = log.lastLogId ↔ log.entries ≠ [] ∨ log.purged = none := by
  rw [RaftLog.lastLogId]
  cases hlast : log.entries.getLast? with
  | none =>
    rw [getLast?_eq_none_iff] at hlast
    simp [hlast, eq_comm]
  | some e =>
    have hne : log.entries ≠ [] := by
      intro h
      rw [h] at hlast
      cases hlast
    simp [hne]

/-- **The log store refines the log**; its state is right if an entry remains or nothing was purged. -/
theorem log_state_iff (c : LogCodec P) {calls : List (LogCall P)} {log : RaftLog P}
    (h : RaftLog.run calls = some log) :
    ((OpenraftLogStore.run c calls).logBackend.toList = log.entries.map (record c) ∧
      (OpenraftLogStore.run c calls).tryGetLogEntries c .unbounded .unbounded = .ok log.entries ∧
      (OpenraftLogStore.run c calls).getLogState c = .ok ⟨log.purged, log.lastLogId⟩) ↔
    log.entries ≠ [] ∨ log.purged = none := by
  have hrep : Represents c log (OpenraftLogStore.run c calls) := represents_new.run h
  rw [← lastLogId_eq_iff]
  constructor
  · rintro ⟨_, _, hstate⟩
    rw [hrep.getLogState] at hstate
    exact congrArg LogState.lastLogId (Except.ok.inj hstate)
  · intro hlast
    exact ⟨hrep.entries_eq, hrep.tryGetLogEntries_all, by rw [hrep.getLogState, hlast]⟩

def plainCodec : LogCodec Unit :=
  let encode (id : LogId) : Bytes :=
    beBytes 8 id.leaderId.term.toNat ++ beBytes 8 id.leaderId.nodeId.toNat ++ beBytes 8 id.index.toNat
  let decode (bytes : Bytes) : Except String LogId :=
    let number (i : Nat) : UInt64 := .ofNat (beNat ((bytes.drop i).take 8))
    if bytes.length = 24 then .ok ⟨⟨number 0, number 8⟩, number 16⟩ else .error "wrong length"
  have decode_encode (id : LogId) : decode (encode id) = .ok id := by
    have hlt : ∀ i : UInt64, UInt64.ofNat (beNat (beBytes 8 i.toNat)) = i := by
      intro i
      rw [beNat_beBytes_of_lt (show i.toNat < 256 ^ 8 from i.toNat_lt), UInt64.ofNat_toNat]
    obtain ⟨⟨term, nodeId⟩, index⟩ := id
    simp [encode, decode, hlt, List.drop_append, List.take_of_length_le, List.drop_eq_nil_of_le]
  { encodeEntry := fun e => encode e.logId
    decodeEntry := fun bytes => (decode bytes).map fun id => ⟨id, ()⟩
    decodeEntry_encodeEntry := fun e => by rw [decode_encode]; rfl
    encodeLogId := encode
    decodeLogId := decode
    decodeLogId_encodeLogId := decode_encode }

theorem log_state_after_purge :
    ∃ log, RaftLog.run [.append [⟨⟨⟨1, 1⟩, 0⟩, ()⟩, ⟨⟨⟨1, 1⟩, 1⟩, ()⟩], .purge ⟨⟨1, 1⟩, 0⟩] = some log ∧
      (OpenraftLogStore.run plainCodec
        [.append [⟨⟨⟨1, 1⟩, 0⟩, ()⟩, ⟨⟨⟨1, 1⟩, 1⟩, ()⟩], .purge ⟨⟨1, 1⟩, 0⟩]).getLogState plainCodec =
          .ok ⟨some ⟨⟨1, 1⟩, 0⟩, some ⟨⟨1, 1⟩, 1⟩⟩ := by
  have hrun : ∃ log,
      RaftLog.run [.append [⟨⟨⟨1, 1⟩, 0⟩, ()⟩, ⟨⟨⟨1, 1⟩, 1⟩, ()⟩], .purge ⟨⟨1, 1⟩, 0⟩] = some log ∧
        log.entries ≠ [] ∧ log.purged = some ⟨⟨1, 1⟩, 0⟩ ∧ log.lastLogId = some ⟨⟨1, 1⟩, 1⟩ :=
    ⟨_, rfl, by decide, rfl, rfl⟩
  obtain ⟨log, hlog, hne, hpurged, hlast⟩ := hrun
  refine ⟨log, hlog, ?_⟩
  rw [← hpurged, ← hlast]
  exact ((log_state_iff plainCodec hlog).2 (.inl hne)).2.2

/-- The only entry is purged: the store reports a log that was never written to, with a purge point. -/
theorem log_state_after_full_purge :
    ∃ log, RaftLog.run [.append [⟨⟨⟨1, 1⟩, 0⟩, ()⟩], .purge ⟨⟨1, 1⟩, 0⟩] = some log ∧
      log.lastLogId = some ⟨⟨1, 1⟩, 0⟩ ∧
      (OpenraftLogStore.run plainCodec [.append [⟨⟨⟨1, 1⟩, 0⟩, ()⟩], .purge ⟨⟨1, 1⟩, 0⟩]).getLogState plainCodec =
        .ok ⟨some ⟨⟨1, 1⟩, 0⟩, none⟩ :=
  ⟨_, rfl, rfl, by decide⟩

end OpenraftLogStore

end Odgm
