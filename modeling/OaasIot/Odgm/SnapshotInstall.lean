import OaasIot.Odgm.SnapshotReceive
import OaasIot.Odgm.Types

/-!
# Installing a snapshot (`raft_snapshot.rs`)

`install_raft_snapshot` parses a received buffer back into pairs and replaces the store by them.

The arms run in the order key length, key, value length, value, so a call of `poll_next` goes at
most once through each. The buffer has no source, so its reads do not fail.
-/

namespace Odgm

open List OrdMap

/-! ## The parser -/

inductive ParseState
  | keyLen
  | key (keyLen : Nat)
  | valueLen
  | value (key : Bytes) (valueLen : Nat)
  deriving DecidableEq

structure KvStreamingParser where
  reader : StreamingSnapshotBuffer
  buffer : Bytes
  state : ParseState
  deriving DecidableEq

namespace KvStreamingParser

def new (reader : StreamingSnapshotBuffer) : KvStreamingParser := ⟨reader, [], .keyLen⟩

def readExactly (n : Nat) (state : ParseState) (p : KvStreamingParser)
    (next : Bytes → KvStreamingParser → Poll (Option (Bytes × Bytes)) × KvStreamingParser) :
    Poll (Option (Bytes × Bytes)) × KvStreamingParser :=
  match p.reader.pollRead n with
  | (.ready bytes, reader) =>
    if bytes.length = n then next bytes { p with reader } else (.pending false, { p with reader, state })
  | (.pending woken, reader) => (.pending woken, { p with reader, state })

def pollValue (key : Bytes) (valueLen : Nat) (p : KvStreamingParser) :
    Poll (Option (Bytes × Bytes)) × KvStreamingParser :=
  p.readExactly valueLen (.value key valueLen) fun value p => (.ready (some (key, value)), { p with state := .keyLen })

def pollValueLen (p : KvStreamingParser) : Poll (Option (Bytes × Bytes)) × KvStreamingParser :=
  p.readExactly 4 .valueLen fun bytes p => { p with buffer := [] }.pollValue p.buffer (leNat bytes)

def pollKey (keyLen : Nat) (p : KvStreamingParser) : Poll (Option (Bytes × Bytes)) × KvStreamingParser :=
  p.readExactly keyLen (.key keyLen) fun key p => { p with buffer := key }.pollValueLen

def pollKeyLen (p : KvStreamingParser) : Poll (Option (Bytes × Bytes)) × KvStreamingParser :=
  match p.reader.pollRead 4 with
  | (.ready bytes, reader) =>
    if bytes.length = 4 then
      if leNat bytes = 0 then (.ready none, { p with reader, state := .keyLen })
      else { p with reader }.pollKey (leNat bytes)
    else if bytes = [] then (.ready none, { p with reader, state := .keyLen })
    else (.pending false, { p with reader, state := .keyLen })
  | (.pending woken, reader) => (.pending woken, { p with reader, state := .keyLen })

def pollNext (p : KvStreamingParser) : Poll (Option (Bytes × Bytes)) × KvStreamingParser :=
  match p.state with
  | .keyLen => p.pollKeyLen
  | .key keyLen => p.pollKey keyLen
  | .valueLen => p.pollValueLen
  | .value key valueLen => p.pollValue key valueLen

end KvStreamingParser

/-! ## The store -/

inductive SnapshotStorage
  | memory
  | skipList
  | fjall
  | any
  deriving DecidableEq, Repr

def SnapshotStorage.clear : SnapshotStorage → Store → Store
  | .memory, _ => .empty
  | .skipList, _ => .empty
  -- every key is collected, then removed
  | .fjall, s => (s.toList.map Prod.fst).foldl OrdMap.erase s
  -- `delete_range` without bounds
  | .any, s => s.filterKeys fun _ => false

def insertItems : Nat → KvStreamingParser → Store → Option Store
  | 0, _, _ => none
  | fuel + 1, p, s =>
    match p.pollNext with
    | (.ready none, _) => some s
    | (.ready (some kv), p') => insertItems fuel p' (s.insert kv.1 kv.2)
    | (.pending true, p') => insertItems fuel p' s
    | (.pending false, _) => none

def installKvSnapshotFromStream (storage : SnapshotStorage) (fuel : Nat) (stream : KvStreamingParser) (s : Store) :
    Option Store :=
  insertItems fuel stream (storage.clear s)

def installRaftSnapshot (storage : SnapshotStorage) (fuel : Nat) (snapshot : StreamingSnapshotBuffer) (s : Store) :
    Option Store :=
  installKvSnapshotFromStream storage fuel (.new snapshot) s

theorem get_foldl_erase (keys : List Bytes) (s : Store) (k : Bytes) :
    (keys.foldl erase s).get k = if k ∈ keys then none else s.get k := by
  induction keys generalizing s with
  | nil => simp
  | cons a keys ih =>
    rw [foldl_cons, ih, get_erase]
    by_cases hk : k = a <;> simp [hk]

theorem SnapshotStorage.clear_eq (storage : SnapshotStorage) (s : Store) : storage.clear s = .empty := by
  refine ext_get fun k => ?_
  cases storage with
  | memory | skipList => rfl
  | any => rw [clear, get_filterKeys]; simp
  | fjall =>
    rw [clear, get_foldl_erase, get_empty]
    cases hk : s.get k with
    | none => simp
    | some v => rw [if_pos (mem_map_of_mem (f := Prod.fst) (get_eq_some.1 hk))]

/-! ## Round trip -/

variable {b : StreamingSnapshotBuffer} {rest : Bytes}

namespace StreamingSnapshotBuffer

structure Left (rest : Bytes) (b : StreamingSnapshotBuffer) : Prop extends b.Written where
  isComplete_eq : b.isComplete = true
  drop_eq : b.buffer.drop b.readPos = rest

theorem Left.unfetched_eq (h : b.Left rest) : b.unfetched = [] := by
  rw [unfetched, h.streamSource_eq]
  rfl

theorem Left.holds (h : b.Left rest) : b.Holds b.buffer := by
  refine ⟨h.writePos_eq, ?_, ?_⟩
  · rw [h.unfetched_eq, append_nil]
  · rw [h.isComplete_eq, h.streamSource_eq]
    rfl

theorem Left.pollRead_eq (h : b.Left rest) (n : Nat) :
    b.pollRead n = (.ready (rest.take n), { b with readPos := b.readPos + (rest.take n).length }) := by
  rcases h.holds.pollRead_cases n with ⟨_, heq⟩ | ⟨hge, _, hp, heq⟩ | ⟨_, _, bytes, stream, hne, hun, _⟩
  · rw [heq, h.drop_eq]
  · have hnil : rest = [] := by rw [← h.drop_eq, drop_eq_nil_of_le hge]
    have hb : { b with isComplete := true, streamSource := none } = b := by
      rw [← h.isComplete_eq, ← h.streamSource_eq]
    refine Prod.ext ?_ ?_
    · rw [hp, hnil, take_nil]
    · rw [heq, hb, hnil, take_nil]
      rfl
  · rw [h.unfetched_eq] at hun
    exact absurd (append_eq_nil_iff.1 hun.symm).1 hne

theorem Left.pollRead {bytes : Bytes} (h : b.Left (bytes ++ rest)) :
    ∃ b', b.pollRead bytes.length = (.ready bytes, b') ∧ b'.Left rest := by
  have hread := h.pollRead_eq bytes.length
  rw [take_left' rfl] at hread
  refine ⟨_, hread, ⟨h.writePos_eq, h.streamSource_eq⟩, h.isComplete_eq, ?_⟩
  show b.buffer.drop (b.readPos + bytes.length) = rest
  rw [← drop_drop, h.drop_eq, drop_left' rfl]

end StreamingSnapshotBuffer

variable {p : KvStreamingParser}

namespace KvStreamingParser

theorem readExactly_of_left {bytes : Bytes} (h : p.reader.Left (bytes ++ rest)) (state : ParseState)
    (next : Bytes → KvStreamingParser → Poll (Option (Bytes × Bytes)) × KvStreamingParser) :
    ∃ reader, p.readExactly bytes.length state next = next bytes { p with reader } ∧ reader.Left rest := by
  obtain ⟨reader, hread, hleft⟩ := h.pollRead
  refine ⟨reader, ?_, hleft⟩
  rw [readExactly, hread]
  exact if_pos rfl

theorem leNat_leBytes_four {n : Nat} (h : n < 2 ^ 32) : leNat (leBytes 4 n) = n := by
  rw [leNat_leBytes]
  exact Nat.mod_eq_of_lt h

theorem pollNext_of_pair {kv : Bytes × Bytes} (hkey : kv.1 ≠ []) (hklen : kv.1.length < 2 ^ 32)
    (hvlen : kv.2.length < 2 ^ 32) (hstate : p.state = .keyLen) (h : p.reader.Left (serializeKvPair kv ++ rest)) :
    ∃ p', p.pollNext = (.ready (some kv), p') ∧ p'.state = .keyLen ∧ p'.reader.Left rest := by
  obtain ⟨key, value⟩ := kv
  have hpos : key.length ≠ 0 := fun h => hkey (length_eq_zero_iff.1 h)
  have hfour : ∀ n, (leBytes 4 n).length = 4 := fun n => length_leBytes 4 n
  simp only [serializeKvPair, append_assoc] at h
  -- One step per arm: the reader moves over the key length, the key, the value length, the value.
  obtain ⟨r₁, hread, h₁⟩ := h.pollRead
  obtain ⟨r₂, hkeyArm, h₂⟩ := readExactly_of_left (p := { p with reader := r₁ }) h₁ (.key key.length)
    fun key p => { p with buffer := key }.pollValueLen
  obtain ⟨r₃, hlenArm, h₃⟩ := readExactly_of_left (p := { p with reader := r₂, buffer := key }) h₂ .valueLen
    fun bytes p => { p with buffer := [] }.pollValue p.buffer (leNat bytes)
  obtain ⟨r₄, hvalueArm, h₄⟩ := readExactly_of_left (p := { p with reader := r₃, buffer := [] }) h₃
    (.value key value.length) fun value p => (.ready (some (key, value)), { p with state := .keyLen })
  rw [hfour] at hread hlenArm
  refine ⟨{ p with reader := r₄, buffer := [], state := .keyLen }, ?_, rfl, h₄⟩
  rw [pollNext, hstate]
  simp only [pollKeyLen, hread, hfour, if_true, leNat_leBytes_four hklen, if_neg hpos]
  rw [pollKey, hkeyArm, pollValueLen, hlenArm]
  simp only [leNat_leBytes_four hvlen]
  rw [pollValue, hvalueArm]

theorem pollNext_of_end (hstate : p.state = .keyLen) (h : p.reader.Left []) : (p.pollNext).1 = .ready none := by
  have hread := h.pollRead_eq 4
  rw [take_nil] at hread
  rw [pollNext, hstate]
  simp [pollKeyLen, hread]

end KvStreamingParser

def Transferable (kv : Bytes × Bytes) : Prop := kv.1 ≠ [] ∧ kv.1.length < 2 ^ 32 ∧ kv.2.length < 2 ^ 32

instance (kv : Bytes × Bytes) : Decidable (Transferable kv) :=
  inferInstanceAs (Decidable (kv.1 ≠ [] ∧ kv.1.length < 2 ^ 32 ∧ kv.2.length < 2 ^ 32))

theorem insertItems_of_left {kvs : List (Bytes × Bytes)} (hkvs : ∀ kv ∈ kvs, Transferable kv) {fuel : Nat}
    (hfuel : kvs.length < fuel) (hstate : p.state = .keyLen) (h : p.reader.Left (serializeKvPairs kvs)) (s : Store) :
    insertItems fuel p s = some (s.insertMany kvs) := by
  induction kvs generalizing fuel p s with
  | nil =>
    obtain ⟨fuel, rfl⟩ : ∃ m, fuel = m + 1 := ⟨fuel - 1, by omega⟩
    have hend := KvStreamingParser.pollNext_of_end hstate h
    rw [insertItems, show p.pollNext = (.ready none, p.pollNext.2) from Prod.ext hend rfl]
    rfl
  | cons kv kvs ih =>
    obtain ⟨fuel, rfl⟩ : ∃ m, fuel = m + 1 := ⟨fuel - 1, by omega⟩
    obtain ⟨⟨hkey, hklen, hvlen⟩, hrest⟩ := forall_mem_cons.1 hkvs
    obtain ⟨p', hnext, hstate', hleft⟩ := KvStreamingParser.pollNext_of_pair hkey hklen hvlen hstate h
    rw [insertItems, hnext]
    exact ih hrest (by simpa using hfuel) hstate' hleft _

def StreamingSnapshotBuffer.writeAll (b : StreamingSnapshotBuffer) (chunks : List Bytes) : StreamingSnapshotBuffer :=
  chunks.foldl (fun b chunk => (b.pollWrite chunk).2) b

theorem StreamingSnapshotBuffer.Written.writeAll (h : b.Written) (chunks : List Bytes) :
    (b.writeAll chunks).Written ∧ (b.writeAll chunks).buffer = b.buffer ++ chunks.flatten ∧
      (b.writeAll chunks).readPos = b.readPos := by
  induction chunks generalizing b with
  | nil => exact ⟨h, by simp [StreamingSnapshotBuffer.writeAll], rfl⟩
  | cons chunk chunks ih =>
    obtain ⟨hw, hb, hr⟩ := ih (h.pollWrite chunk)
    have hcons : b.writeAll (chunk :: chunks) = (b.pollWrite chunk).2.writeAll chunks := rfl
    rw [hcons]
    refine ⟨hw, ?_, ?_⟩
    · rw [hb, h.pollWrite_eq, flatten_cons, append_assoc]
    · rw [hr, h.pollWrite_eq]

/-- **Snapshot transfer**: written in any chunks and installed, a store of transferable pairs is the store again. -/
theorem install_restores_store (storage : SnapshotStorage) (m before : Store)
    (hm : ∀ kv ∈ m.toList, Transferable kv) (chunks : List Bytes)
    (hchunks : chunks.flatten = serializeKvPairs m.toList) (fuel : Nat) (hfuel : m.toList.length < fuel) :
    installRaftSnapshot storage fuel (StreamingSnapshotBuffer.new.writeAll chunks).pollShutdown before = some m := by
  obtain ⟨hw, hb, hr⟩ := StreamingSnapshotBuffer.written_new.writeAll chunks
  have hleft : (StreamingSnapshotBuffer.new.writeAll chunks).pollShutdown.Left (serializeKvPairs m.toList) := by
    refine ⟨⟨hw.writePos_eq, hw.streamSource_eq⟩, rfl, ?_⟩
    show (StreamingSnapshotBuffer.new.writeAll chunks).buffer.drop _ = _
    rw [hb, hchunks]
    exact congrArg (fun pos => drop pos (serializeKvPairs m.toList)) hr
  have hinsert := insertItems_of_left (p := .new (StreamingSnapshotBuffer.new.writeAll chunks).pollShutdown)
    hm hfuel rfl hleft (storage.clear before)
  rw [installRaftSnapshot, installKvSnapshotFromStream, hinsert, storage.clear_eq, insertMany_toList]

/-- Two pairs, one with an empty value at the end of the stream, in chunks that split a length. -/
theorem install_restores_two_pairs :
    installRaftSnapshot .fjall 3
      (StreamingSnapshotBuffer.new.writeAll
        [[1, 0], [0, 0, 107, 1, 0, 0, 0, 118, 1, 0, 0, 0], [], [108, 0, 0, 0, 0]]).pollShutdown
      (OrdMap.insert .empty [1] [2]) =
    some ((OrdMap.insert .empty [107] [118]).insert [108] []) :=
  install_restores_store .fjall ((insert .empty [107] [118]).insert [108] []) (insert .empty [1] [2])
    (by decide) _ (by decide) 3 (by decide)

end Odgm
