import OaasIot.Odgm.Metadata

/-!
# The snapshot buffer (`raft_snapshot_stream.rs`)

`StreamingSnapshotBuffer` is the file a Raft snapshot travels in. The sender's fills from a stream of key-value pairs
when it is read (`KvStreamingReader`, `raft_snapshot.rs:129`); the receiver's is written to. One task holds a buffer at
a time, and the stream is never pending and never fails.
-/

namespace Odgm

open List

inductive Poll (α : Type)
  | ready (a : α)
  | pending (woken : Bool)
  deriving DecidableEq, Repr

/-! ## Serialised pairs -/

def serializeKvPair (kv : Bytes × Bytes) : Bytes :=
  leBytes 4 kv.1.length ++ kv.1 ++ leBytes 4 kv.2.length ++ kv.2

def serializeKvPairs (kvs : List (Bytes × Bytes)) : Bytes := kvs.flatMap serializeKvPair

theorem length_serializeKvPair (kv : Bytes × Bytes) :
    (serializeKvPair kv).length = 8 + kv.1.length + kv.2.length := by
  simp only [serializeKvPair, length_append, length_leBytes]
  omega

structure KvStreamingReader where
  kvStream : List (Bytes × Bytes)
  currentItem : Option Bytes
  streamEnded : Bool
  deriving DecidableEq

variable {n : Nat}

namespace KvStreamingReader

def new (kvStream : List (Bytes × Bytes)) : KvStreamingReader := ⟨kvStream, none, false⟩

def readItems (n : Nat) : List (Bytes × Bytes) → Bytes × KvStreamingReader
  | [] => ([], ⟨[], none, true⟩)
  | kv :: kvs =>
    if (serializeKvPair kv).take n = [] then readItems n kvs
    else ((serializeKvPair kv).take n, ⟨kvs, some ((serializeKvPair kv).drop n), false⟩)

def readNext (n : Nat) (r : KvStreamingReader) : Bytes × KvStreamingReader :=
  if r.streamEnded then ([], { r with currentItem := none }) else readItems n r.kvStream

def pollRead (n : Nat) (r : KvStreamingReader) : Bytes × KvStreamingReader :=
  match r.currentItem with
  | none => r.readNext n
  | some item => if item.take n = [] then r.readNext n else (item.take n, { r with currentItem := some (item.drop n) })

def rest (r : KvStreamingReader) : Bytes :=
  r.currentItem.getD [] ++ if r.streamEnded then [] else serializeKvPairs r.kvStream

theorem readItems_spec (hn : 0 < n) (kvs : List (Bytes × Bytes)) :
    serializeKvPairs kvs = (readItems n kvs).1 ++ (readItems n kvs).2.rest ∧
      ((readItems n kvs).1 = [] → serializeKvPairs kvs = []) := by
  cases kvs with
  | nil => exact ⟨rfl, fun _ => rfl⟩
  | cons kv kvs =>
    have hlen := length_serializeKvPair kv
    have hne : (serializeKvPair kv).take n ≠ [] := by
      intro h
      have := congrArg length h
      simp only [length_take, length_nil] at this
      omega
    have hsplit : serializeKvPairs (kv :: kvs) = serializeKvPair kv ++ serializeKvPairs kvs := rfl
    rw [readItems, if_neg hne]
    refine ⟨?_, fun h => absurd h hne⟩
    simp only [rest, Option.getD_some, Bool.false_eq_true, if_false, ← append_assoc, take_append_drop]
    exact hsplit

theorem readNext_spec (hn : 0 < n) {r : KvStreamingReader} (hr : r.currentItem.getD [] = []) :
    r.rest = (r.readNext n).1 ++ (r.readNext n).2.rest ∧ ((r.readNext n).1 = [] → r.rest = []) := by
  by_cases hend : r.streamEnded = true
  · simp [readNext, rest, hend, hr]
  · have hrest : r.rest = serializeKvPairs r.kvStream := by simp [rest, hend, hr]
    rw [hrest, readNext, if_neg hend]
    exact readItems_spec hn r.kvStream

theorem pollRead_spec (hn : 0 < n) (r : KvStreamingReader) :
    r.rest = (r.pollRead n).1 ++ (r.pollRead n).2.rest ∧ ((r.pollRead n).1 = [] → r.rest = []) := by
  unfold pollRead
  split
  next hitem => exact readNext_spec hn (by rw [hitem]; rfl)
  next item hitem =>
    by_cases hempty : item.take n = []
    · have hnil : item = [] := by
        rcases take_eq_nil_iff.1 hempty with h | h
        · omega
        · exact h
      rw [if_pos hempty]
      exact readNext_spec hn (by rw [hitem, hnil]; rfl)
    · rw [if_neg hempty]
      refine ⟨?_, fun h => absurd h hempty⟩
      simp only [rest, hitem, Option.getD_some, ← append_assoc, take_append_drop]

end KvStreamingReader

/-! ## The buffer -/

inductive SeekFrom
  | start (pos : Nat)
  | atEnd (offset : Int)
  | current (offset : Int)
  deriving DecidableEq, Repr

structure StreamingSnapshotBuffer where
  buffer : Bytes
  readPos : Nat
  writePos : Nat
  isComplete : Bool
  streamSource : Option KvStreamingReader
  deriving DecidableEq

namespace StreamingSnapshotBuffer

def new : StreamingSnapshotBuffer := ⟨[], 0, 0, false, none⟩
def withStream (stream : KvStreamingReader) : StreamingSnapshotBuffer := ⟨[], 0, 0, false, some stream⟩
def chunkSize : Nat := 8192

def pollSource (b : StreamingSnapshotBuffer) : Poll Bytes × StreamingSnapshotBuffer :=
  match b.streamSource with
  | none => (.pending false, b)
  | some stream =>
    if (stream.pollRead chunkSize).1 = [] then (.ready [], { b with isComplete := true, streamSource := none })
    else
      (.pending true,
        { b with
          buffer := b.buffer ++ (stream.pollRead chunkSize).1
          writePos := b.writePos + (stream.pollRead chunkSize).1.length
          streamSource := some (stream.pollRead chunkSize).2 })

def pollRead (n : Nat) (b : StreamingSnapshotBuffer) : Poll Bytes × StreamingSnapshotBuffer :=
  if 0 < b.writePos - b.readPos then
    let stop := min (b.readPos + n) b.buffer.length
    let toRead := (b.buffer.take stop).drop b.readPos
    (.ready toRead, { b with readPos := b.readPos + toRead.length })
  else if b.isComplete then (.ready [], b)
  else b.pollSource

def copyFromSlice (buffer : Bytes) (pos : Nat) (bytes : Bytes) : Bytes :=
  buffer.take pos ++ bytes ++ buffer.drop (pos + bytes.length)

def pollWrite (bytes : Bytes) (b : StreamingSnapshotBuffer) : Nat × StreamingSnapshotBuffer :=
  let buffer :=
    if b.writePos = b.buffer.length then b.buffer ++ bytes
    else if b.writePos + bytes.length ≤ b.buffer.length then copyFromSlice b.buffer b.writePos bytes
    else
      let resized := b.buffer ++ List.replicate (b.writePos + bytes.length - b.buffer.length) 0
      copyFromSlice resized b.writePos bytes
  (bytes.length, { b with buffer, writePos := b.writePos + bytes.length })

def pollShutdown (b : StreamingSnapshotBuffer) : StreamingSnapshotBuffer := { b with isComplete := true }

/-- The position a seek goes to. Only the sum of a read position, which may be anything, and an offset
can pass `u64::MAX`; it wraps as in a release build. -/
def seekTarget (b : StreamingSnapshotBuffer) : SeekFrom → Nat
  | .start pos => pos
  | .atEnd offset => if 0 ≤ offset then b.writePos + offset.toNat else b.writePos - (-offset).toNat
  | .current offset => if 0 ≤ offset then (b.readPos + offset.toNat) % 2 ^ 64 else b.readPos - (-offset).toNat

def seek (b : StreamingSnapshotBuffer) (position : SeekFrom) : Nat × StreamingSnapshotBuffer :=
  (b.seekTarget position, { b with readPos := b.seekTarget position })

def readToEnd : List Nat → StreamingSnapshotBuffer → Option (Bytes × StreamingSnapshotBuffer)
  | [], _ => none
  | n :: sizes, b =>
    match b.pollRead n with
    | (.ready [], b') => some ([], b')
    | (.ready bytes, b') => (b'.readToEnd sizes).map fun x => (bytes ++ x.1, x.2)
    | (.pending true, b') => b'.readToEnd sizes
    | (.pending false, _) => none

/-! ## What a buffer holds -/

def unfetched (b : StreamingSnapshotBuffer) : Bytes := (b.streamSource.map KvStreamingReader.rest).getD []

structure Holds (content : Bytes) (b : StreamingSnapshotBuffer) : Prop where
  writePos_eq : b.writePos = b.buffer.length
  content_eq : b.buffer ++ b.unfetched = content
  isComplete_eq : b.isComplete = b.streamSource.isNone

theorem holds_withStream (stream : KvStreamingReader) : Holds stream.rest (withStream stream) := ⟨rfl, rfl, rfl⟩

variable {content : Bytes} {b : StreamingSnapshotBuffer}

theorem Holds.seek (h : b.Holds content) (position : SeekFrom) :
    (b.seek position).2.Holds content := ⟨h.writePos_eq, h.content_eq, h.isComplete_eq⟩

@[simp] theorem readPos_seek_start (b : StreamingSnapshotBuffer) (pos : Nat) :
    (b.seek (.start pos)).2.readPos = pos := rfl

@[simp] theorem unfetched_seek (b : StreamingSnapshotBuffer) (position : SeekFrom) :
    (b.seek position).2.unfetched = b.unfetched := rfl

@[simp] theorem seek_atEnd_zero (b : StreamingSnapshotBuffer) : (b.seek (.atEnd 0)).1 = b.writePos := by
  simp [StreamingSnapshotBuffer.seek, seekTarget]

theorem Holds.pollRead_cases (h : b.Holds content) (n : Nat) :
    (b.readPos < b.buffer.length ∧
      b.pollRead n =
        (.ready ((b.buffer.drop b.readPos).take n),
          { b with readPos := b.readPos + ((b.buffer.drop b.readPos).take n).length })) ∨
    (b.buffer.length ≤ b.readPos ∧ b.unfetched = [] ∧ (b.pollRead n).1 = .ready [] ∧
      (b.pollRead n).2 = { b with isComplete := true, streamSource := none }) ∨
    (b.buffer.length ≤ b.readPos ∧ (b.pollRead n).1 = .pending true ∧
      ∃ bytes stream, bytes ≠ [] ∧ b.unfetched = bytes ++ stream.rest ∧
        (b.pollRead n).2 =
          { b with
            buffer := b.buffer ++ bytes, writePos := b.writePos + bytes.length, streamSource := some stream }) := by
  have hw := h.writePos_eq
  by_cases hlt : b.readPos < b.buffer.length
  · refine .inl ⟨hlt, ?_⟩
    have hslice : (b.buffer.take (min (b.readPos + n) b.buffer.length)).drop b.readPos =
        (b.buffer.drop b.readPos).take n := by
      rw [← take_eq_take_min, drop_take, Nat.add_sub_cancel_left]
    rw [pollRead, if_pos (by omega)]
    simp only [hslice]
  · have hge : b.buffer.length ≤ b.readPos := by omega
    have hread : b.pollRead n = if b.isComplete then (.ready [], b) else b.pollSource := by
      rw [pollRead, if_neg (by omega)]
    refine .inr ?_
    rw [hread]
    cases hsrc : b.streamSource with
    | none =>
      have hc : b.isComplete = true := by rw [h.isComplete_eq, hsrc]; rfl
      refine .inl ⟨hge, by rw [unfetched, hsrc]; rfl, ?_, ?_⟩
      · rw [if_pos hc]
      · rw [if_pos hc, ← hc, ← hsrc]
    | some stream =>
      have hc : ¬ b.isComplete = true := by rw [h.isComplete_eq, hsrc]; simp
      have hun : b.unfetched = stream.rest := by rw [unfetched, hsrc]; rfl
      obtain ⟨hrest, hend⟩ := stream.pollRead_spec (n := chunkSize) (by decide)
      rw [if_neg hc]
      simp only [pollSource, hsrc]
      by_cases hempty : (stream.pollRead chunkSize).1 = []
      · rw [if_pos hempty]
        exact .inl ⟨hge, hun.trans (hend hempty), rfl, rfl⟩
      · rw [if_neg hempty]
        exact .inr ⟨hge, rfl, _, _, hempty, hun.trans hrest, rfl⟩

theorem Holds.pollRead (h : b.Holds content) (n : Nat) : (b.pollRead n).2.Holds content := by
  have hw := h.writePos_eq
  have hc := h.content_eq
  rcases h.pollRead_cases n with ⟨_, heq⟩ | ⟨_, hun, _, heq⟩ | ⟨_, _, bytes, stream, _, hun, heq⟩
  · rw [heq]
    exact ⟨hw, hc, h.isComplete_eq⟩
  · rw [heq]
    rw [hun] at hc
    exact ⟨hw, hc, rfl⟩
  · have hlive : b.isComplete = false := by
      rw [h.isComplete_eq]
      cases hsrc : b.streamSource with
      | some s => rfl
      | none =>
        rw [unfetched, hsrc] at hun
        simp_all
    rw [heq]
    refine ⟨by simp [hw], ?_, hlive⟩
    rw [hun] at hc
    simpa [unfetched] using hc

theorem readToEnd_ready {b' : StreamingSnapshotBuffer} {bytes : Bytes} (hne : bytes ≠ [])
    (h : b.pollRead n = (.ready bytes, b')) (sizes : List Nat) :
    b.readToEnd (n :: sizes) = (b'.readToEnd sizes).map fun x => (bytes ++ x.1, x.2) := by
  rw [readToEnd, h]
  cases bytes with
  | nil => exact absurd rfl hne
  | cons => rfl

theorem readToEnd_eof (h : (b.pollRead n).1 = .ready []) (sizes : List Nat) :
    b.readToEnd (n :: sizes) = some ([], (b.pollRead n).2) := by
  rw [readToEnd, show b.pollRead n = (.ready [], (b.pollRead n).2) from Prod.ext h rfl]

theorem readToEnd_woken (h : (b.pollRead n).1 = .pending true) (sizes : List Nat) :
    b.readToEnd (n :: sizes) = (b.pollRead n).2.readToEnd sizes := by
  rw [readToEnd, show b.pollRead n = (.pending true, (b.pollRead n).2) from Prod.ext h rfl]

theorem readToEnd_of_holds {sizes : List Nat} (hpos : ∀ n ∈ sizes, 0 < n) (h : b.Holds content)
    (hlen : content.length - b.readPos + b.unfetched.length < sizes.length) :
    ∃ b', b.readToEnd sizes = some (content.drop b.readPos, b') := by
  -- Each poll delivers a byte or fetches one, so the sum in `hlen` goes down with the polls left.
  induction sizes generalizing b with
  | nil => exact absurd hlen (Nat.not_lt_zero _)
  | cons n sizes ih =>
    have hn := hpos n mem_cons_self
    have hnext := h.pollRead n
    have hcontent := h.content_eq
    have hlenC : content.length = b.buffer.length + b.unfetched.length := by
      rw [← hcontent, length_append]
    have ih := fun {b} => ih (fun m hm => hpos m (mem_cons_of_mem _ hm)) (b := b)
    rw [length_cons] at hlen
    rcases h.pollRead_cases n with ⟨hlt, heq⟩ | ⟨hge, hun, hp, _⟩ | ⟨hge, hp, bytes, stream, hne, hun, heq⟩
    · have hbytes : 0 < ((b.buffer.drop b.readPos).take n).length := by
        rw [length_take, length_drop]
        omega
      rw [heq] at hnext
      obtain ⟨b', hb'⟩ := ih hnext (by
        simp only [unfetched] at hlen hlenC ⊢
        omega)
      refine ⟨b', ?_⟩
      have hread : content.drop b.readPos =
          (b.buffer.drop b.readPos).take n ++ ((b.buffer.drop b.readPos).drop n ++ b.unfetched) := by
        rw [← hcontent, drop_append_of_le_length (by omega), ← append_assoc, take_append_drop]
      have hleft : content.drop (b.readPos + ((b.buffer.drop b.readPos).take n).length) =
          (b.buffer.drop b.readPos).drop n ++ b.unfetched := by
        rw [← drop_drop, hread, drop_left' rfl]
      rw [readToEnd_ready (ne_nil_of_length_pos hbytes) heq, hb', Option.map_some, hleft, ← hread]
    · have hnil : content.drop b.readPos = [] := by
        rw [hun] at hlenC
        exact drop_eq_nil_of_le (by rw [hlenC]; exact hge)
      rw [hnil]
      exact ⟨_, readToEnd_eof hp sizes⟩
    · have hbytes := length_pos_iff.2 hne
      rw [heq] at hnext
      obtain ⟨b', hb'⟩ := ih hnext (by
        have hsum := congrArg length hun
        rw [length_append] at hsum
        simp only [unfetched, Option.map_some, Option.getD_some] at hlen hsum ⊢
        omega)
      refine ⟨b', ?_⟩
      rw [readToEnd_woken hp, heq]
      exact hb'

/-! ## The sender's buffer -/

inductive SendOp
  | read (n : Nat)
  | seek (position : SeekFrom)

def sendStep (b : StreamingSnapshotBuffer) : SendOp → StreamingSnapshotBuffer
  | .read n => (b.pollRead n).2
  | .seek position => (b.seek position).2

def sendRun (b : StreamingSnapshotBuffer) (ops : List SendOp) : StreamingSnapshotBuffer := ops.foldl sendStep b

section
variable (h : b.Holds content)
include h

theorem Holds.sendStep : ∀ op, (b.sendStep op).Holds content
  | .read n => h.pollRead n
  | .seek position => h.seek position

theorem Holds.sendRun (ops : List SendOp) : (b.sendRun ops).Holds content := by
  induction ops generalizing b with
  | nil => exact h
  | cons op ops ih => exact ih (h.sendStep op)

theorem Holds.readToEnd_from_start {sizes : List Nat} (hpos : ∀ n ∈ sizes, 0 < n)
    (hlen : 2 * content.length < sizes.length) : ∃ b', (b.seek (.start 0)).2.readToEnd sizes = some (content, b') := by
  have hun : b.unfetched.length ≤ content.length := by
    rw [← h.content_eq, length_append]
    omega
  have hread := readToEnd_of_holds hpos (h.seek (.start 0)) (by
    rw [readPos_seek_start, unfetched_seek]
    omega)
  rwa [readPos_seek_start, drop_zero] at hread

theorem Holds.seek_end_eq_length_iff : (b.seek (.atEnd 0)).1 = content.length ↔ b.unfetched = [] := by
  have hlen : content.length = b.buffer.length + b.unfetched.length := by rw [← h.content_eq, length_append]
  rw [seek_atEnd_zero, h.writePos_eq, hlen, ← length_eq_zero_iff]
  omega

end

/-- **The end of a snapshot being sent** is reported right exactly when nothing is left to fetch. -/
theorem seek_end_is_total_iff (kvs : List (Bytes × Bytes)) (ops : List SendOp) :
    let b := (withStream (.new kvs)).sendRun ops
    (∀ sizes : List Nat, (∀ n ∈ sizes, 0 < n) → 2 * (serializeKvPairs kvs).length < sizes.length →
      ∃ bytes b', ((b.seek (.atEnd 0)).2.seek (.start 0)).2.readToEnd sizes = some (bytes, b') ∧
        (b.seek (.atEnd 0)).1 = bytes.length ∧ bytes = serializeKvPairs kvs) ↔
    b.unfetched = [] := by
  intro b
  have hb : b.Holds (serializeKvPairs kvs) := (holds_withStream (.new kvs)).sendRun ops
  rw [← hb.seek_end_eq_length_iff]
  constructor
  · intro h
    obtain ⟨bytes, b', _, hend, rfl⟩ :=
      h (replicate (2 * (serializeKvPairs kvs).length + 1) 1) (by simp) (by simp)
    exact hend
  · intro h sizes hpos hlen
    obtain ⟨b', hread⟩ := (hb.seek (.atEnd 0)).readToEnd_from_start hpos hlen
    exact ⟨_, b', hread, h, rfl⟩

/-- A snapshot with a pair in it, before anything is read of it: the end is at 0. -/
theorem seek_end_of_fresh_is_zero :
    ((withStream (.new [([107], [118])])).seek (.atEnd 0)).1 = 0 ∧
      (((((withStream (.new [([107], [118])])).seek (.atEnd 0)).2.seek (.start 0)).2.readToEnd [16, 16, 16]).map
        Prod.fst) = some [1, 0, 0, 0, 107, 1, 0, 0, 0, 118] := by
  decide

end StreamingSnapshotBuffer

end Odgm
