import OaasIot.Odgm.SnapshotBuffer

/-!
# Receiving a snapshot in chunks

A chunk that arrives at the offset where the last one ended is written; at any other offset the buffer is sought there
first. But seeking moves the read position only, and `poll_write` appends: a chunk sent again is appended again, and the
buffer is read from the offset of the last seek.
-/

namespace Odgm

open List

structure Chunk where
  offset : Nat
  len : Nat
  deriving DecidableEq, Repr

variable {s : Bytes}

namespace Chunk

def bytes (s : Bytes) (c : Chunk) : Bytes := (s.drop c.offset).take c.len
def positions (c : Chunk) : List Nat := List.range' c.offset c.len

theorem length_bytes {c : Chunk} (h : c.offset + c.len ≤ s.length) : (c.bytes s).length = c.len := by
  rw [bytes, length_take, length_drop]
  omega

end Chunk

/-! ## Deliveries -/

structure Receiving where
  buffer : StreamingSnapshotBuffer
  offset : Nat

namespace Receiving

def begin : Receiving := ⟨.new, 0⟩

def deliver (r : Receiving) (offset : Nat) (bytes : Bytes) : Receiving :=
  let buffer := if offset = r.offset then r.buffer else (r.buffer.seek (.start offset)).2
  ⟨(buffer.pollWrite bytes).2, offset + bytes.length⟩

def receive (s : Bytes) (r : Receiving) (cs : List Chunk) : Receiving :=
  cs.foldl (fun r c => r.deliver c.offset (c.bytes s)) r

end Receiving

def lastSeek : Nat → Nat → List Chunk → Nat
  | _, pos, [] => pos
  | cur, pos, c :: cs => lastSeek (c.offset + c.len) (if c.offset = cur then pos else c.offset) cs

def Covers (n : Nat) : Nat → List Chunk → Prop
  | f, [] => f = n
  | f, c :: cs => (c.offset = f ∧ Covers n (f + c.len) cs) ∨ (c.offset + c.len ≤ f ∧ Covers n f cs)

variable {cs : List Chunk} {n : Nat}

theorem Covers.within {f : Nat} (h : Covers n f cs) : f ≤ n ∧ ∀ c ∈ cs, c.offset + c.len ≤ n := by
  induction cs generalizing f with
  | nil => exact ⟨Nat.le_of_eq h, by simp⟩
  | cons c cs ih =>
    rcases h with ⟨hoff, h⟩ | ⟨hold, h⟩
    · obtain ⟨hf, hcs⟩ := ih h
      exact ⟨by omega, forall_mem_cons.2 ⟨by omega, hcs⟩⟩
    · obtain ⟨hf, hcs⟩ := ih h
      exact ⟨hf, forall_mem_cons.2 ⟨by omega, hcs⟩⟩

namespace StreamingSnapshotBuffer

structure Written (b : StreamingSnapshotBuffer) : Prop where
  writePos_eq : b.writePos = b.buffer.length
  streamSource_eq : b.streamSource = none

theorem written_new : new.Written := ⟨rfl, rfl⟩

variable {b : StreamingSnapshotBuffer}

variable (h : b.Written)
include h

theorem Written.seek (position : SeekFrom) : (b.seek position).2.Written := ⟨h.writePos_eq, h.streamSource_eq⟩

theorem Written.pollWrite_eq (bytes : Bytes) :
    (b.pollWrite bytes).2 = { b with buffer := b.buffer ++ bytes, writePos := b.writePos + bytes.length } := by
  simp only [pollWrite, if_pos h.writePos_eq]

theorem Written.pollWrite (bytes : Bytes) : (b.pollWrite bytes).2.Written := by
  rw [h.pollWrite_eq]
  exact ⟨by simp [h.writePos_eq], h.streamSource_eq⟩

theorem Written.holds : b.pollShutdown.Holds b.buffer := by
  refine ⟨h.writePos_eq, ?_, ?_⟩
  · rw [unfetched, pollShutdown, h.streamSource_eq]
    exact append_nil _
  · rw [pollShutdown, h.streamSource_eq]
    rfl

theorem Written.readToEnd {sizes : List Nat} (hpos : ∀ n ∈ sizes, 0 < n) (hlen : b.buffer.length < sizes.length) :
    ∃ b', b.pollShutdown.readToEnd sizes = some (b.buffer.drop b.readPos, b') := by
  have hun : b.pollShutdown.unfetched = [] := by
    rw [unfetched, pollShutdown, h.streamSource_eq]
    rfl
  refine readToEnd_of_holds hpos h.holds ?_
  rw [hun, length_nil]
  omega

end StreamingSnapshotBuffer

theorem receive_spec (hin : ∀ c ∈ cs, c.offset + c.len ≤ s.length) {r : Receiving} (hr : r.buffer.Written) :
    (r.receive s cs).buffer.Written ∧
      (r.receive s cs).buffer.buffer = r.buffer.buffer ++ cs.flatMap (Chunk.bytes s) ∧
      (r.receive s cs).buffer.readPos = lastSeek r.offset r.buffer.readPos cs := by
  induction cs generalizing r with
  | nil => exact ⟨hr, (append_nil _).symm, rfl⟩
  | cons c cs ih =>
    obtain ⟨hc, hcs⟩ := forall_mem_cons.1 hin
    have hlen := Chunk.length_bytes hc
    have hseek : (if c.offset = r.offset then r.buffer else (r.buffer.seek (.start c.offset)).2).Written := by
      split
      · exact hr
      · exact hr.seek _
    obtain ⟨hw, hb, hp⟩ := ih hcs (r := r.deliver c.offset (c.bytes s)) (hseek.pollWrite _)
    refine ⟨hw, ?_, ?_⟩
    · refine hb.trans ?_
      simp only [Receiving.deliver, hseek.pollWrite_eq, flatMap_cons, ← append_assoc]
      split <;> rfl
    · refine hp.trans ?_
      simp only [Receiving.deliver, hseek.pollWrite_eq, hlen, lastSeek]
      split <;> rfl

/-! ## Which deliveries give the snapshot back -/

def Contiguous (n : Nat) : Nat → List Chunk → Prop
  | cur, [] => cur = n
  | cur, c :: cs => (c.len = 0 ∨ c.offset = cur) ∧ Contiguous n (cur + c.len) cs

def EndsWithFullPass (n : Nat) (cs : List Chunk) : Prop :=
  ∃ first second, cs = first ++ second ∧ (first.map Chunk.len).sum = lastSeek 0 0 cs ∧ Contiguous n 0 second

variable {cur : Nat}

theorem Contiguous.le (h : Contiguous n cur cs) : cur ≤ n := by
  induction cs generalizing cur with
  | nil => exact Nat.le_of_eq h
  | cons c cs ih =>
    have := ih h.2
    omega

theorem bytes_eq_map {c : Chunk} (h : c.offset + c.len ≤ s.length) :
    c.bytes s = c.positions.map fun i => s.getD i 0 := by
  refine ext_getElem ?_ ?_
  · simp [Chunk.length_bytes h, Chunk.positions]
  · intro i h₁ h₂
    rw [Chunk.length_bytes h] at h₁
    simp [Chunk.bytes, Chunk.positions, getD_eq_getElem?_getD, show c.offset + i < s.length by omega]

theorem flatMap_bytes_eq_map (h : ∀ c ∈ cs, c.offset + c.len ≤ s.length) :
    cs.flatMap (Chunk.bytes s) = (cs.flatMap Chunk.positions).map fun i => s.getD i 0 := by
  rw [map_flatMap]
  exact flatMap_congr fun c hc => bytes_eq_map (h c hc)

theorem map_getD_eq_self_iff {ps : List Nat} (hps : ∀ p ∈ ps, p < n) :
    (∀ s : Bytes, s.length = n → (ps.map fun i => s.getD i 0) = s) ↔ ps = range n := by
  constructor
  · intro h
    have hlen : ps.length = n := by
      have := congrArg length (h (replicate n 0) (by simp))
      simpa using this
    refine ext_getElem (by simp [hlen]) ?_
    intro i hi _
    have hone := h ((range n).map fun j => if j = i then 1 else 0) (by simp)
    have hat := getElem_of_eq hone (i := i) (by simpa using hi)
    have hp := hps _ (getElem_mem hi)
    simpa [getD_eq_getElem?_getD, hp] using hat
  · rintro rfl s hs
    refine ext_getElem (by simp [hs]) ?_
    intro i h₁ h₂
    simp [getD_eq_getElem?_getD, h₂]

theorem flatMap_positions_eq_range'_iff {m : Nat} :
    cs.flatMap Chunk.positions = range' cur m ↔ Contiguous (cur + m) cur cs := by
  induction cs generalizing cur m with
  | nil =>
    rw [flatMap_nil, Contiguous, eq_comm, range'_eq_nil_iff]
    omega
  | cons c cs ih =>
    rw [flatMap_cons, Contiguous, Chunk.positions]
    by_cases hm : c.len ≤ m
    · have hsplit : range' cur m = range' cur c.len ++ range' (cur + c.len) (m - c.len) := by
        rw [range'_append_1, Nat.add_sub_cancel' hm]
      have hn : cur + m = cur + c.len + (m - c.len) := by omega
      rw [hsplit, hn, ← ih]
      constructor
      · intro h
        obtain ⟨hhead, htail⟩ := append_inj h (by simp)
        refine ⟨?_, htail⟩
        rcases Nat.eq_zero_or_pos c.len with h0 | h0
        · exact .inl h0
        · exact .inr (range'_inj.1 hhead |>.2.resolve_left (by omega))
      · rintro ⟨h0 | hoff, htail⟩
        · rw [htail, h0]
          rfl
        · rw [htail, hoff]
    · constructor
      · intro h
        have := congrArg length h
        simp only [length_append, length_range'] at this
        omega
      · rintro ⟨_, h⟩
        have := h.le
        omega

theorem exists_split_of_drop {k : Nat} {ps : List Nat} (h : (cs.flatMap Chunk.positions).drop k = 0 :: ps) :
    ∃ first second, cs = first ++ second ∧ (first.map Chunk.len).sum = k := by
  induction cs generalizing k with
  | nil => simp at h
  | cons c cs ih =>
    rcases Nat.eq_zero_or_pos k with rfl | hk
    · exact ⟨[], c :: cs, rfl, rfl⟩
    rw [flatMap_cons] at h
    by_cases hlt : k < c.len
    · rw [drop_append_of_le_length (by simp [Chunk.positions]; omega), Chunk.positions, drop_range'] at h
      obtain ⟨m, hm⟩ : ∃ m, c.len - k = m + 1 := ⟨c.len - k - 1, by omega⟩
      rw [hm, range'_succ, cons_append] at h
      have := (cons.inj h).1
      omega
    · rw [drop_append, drop_eq_nil_of_le (by simp [Chunk.positions]; omega), nil_append] at h
      obtain ⟨first, second, rfl, hsum⟩ := ih h
      refine ⟨c :: first, second, rfl, ?_⟩
      simp [Chunk.positions] at hsum ⊢
      omega

theorem drop_positions_eq_range_iff (h : Covers n 0 cs) :
    (cs.flatMap Chunk.positions).drop (lastSeek 0 0 cs) = range n ↔ EndsWithFullPass n cs := by
  have hpass : ∀ {first second : List Chunk}, (first.map Chunk.len).sum = lastSeek 0 0 (first ++ second) →
      ((first ++ second).flatMap Chunk.positions).drop (lastSeek 0 0 (first ++ second)) =
        second.flatMap Chunk.positions := by
    intro first second hsum
    rw [flatMap_append]
    refine drop_left' ?_
    simpa [Chunk.positions, length_flatMap] using hsum
  have hiff : ∀ second : List Chunk, second.flatMap Chunk.positions = range n ↔ Contiguous n 0 second := by
    intro second
    rw [range_eq_range', flatMap_positions_eq_range'_iff, Nat.zero_add]
  constructor
  · intro hdrop
    obtain ⟨first, second, rfl, hsum⟩ :
        ∃ first second, cs = first ++ second ∧ (first.map Chunk.len).sum = lastSeek 0 0 cs := by
      cases n with
      | zero =>
        -- Every chunk of an empty snapshot is the empty chunk at 0: there is no seek.
        have hzero : ∀ cs : List Chunk, (∀ c ∈ cs, c.offset + c.len ≤ 0) → lastSeek 0 0 cs = 0 := by
          intro cs hcs
          induction cs with
          | nil => rfl
          | cons c cs ih =>
            obtain ⟨hc, hcs⟩ := forall_mem_cons.1 hcs
            rw [lastSeek, if_pos (by omega), show c.offset + c.len = 0 by omega]
            exact ih hcs
        exact ⟨[], cs, rfl, (hzero cs h.within.2).symm⟩
      | succ n =>
        rw [range_succ_eq_map] at hdrop
        exact exists_split_of_drop hdrop
    exact ⟨first, second, rfl, hsum, (hiff second).1 ((hpass hsum).symm.trans hdrop)⟩
  · rintro ⟨first, second, rfl, hsum, hcont⟩
    rw [hpass hsum]
    exact (hiff second).2 hcont

theorem Contiguous.lastSeek_eq (hne : ∀ c ∈ cs, 0 < c.len) (h : Contiguous n cur cs) (pos : Nat) :
    lastSeek cur pos cs = pos := by
  induction cs generalizing cur with
  | nil => rfl
  | cons c cs ih =>
    obtain ⟨hc, hcs⟩ := forall_mem_cons.1 hne
    have hoff : c.offset = cur := h.1.resolve_left (by omega)
    rw [lastSeek, if_pos hoff, hoff]
    exact ih hcs h.2

theorem lastSeek_before_pass {first second : List Chunk} (hne : ∀ c ∈ first ++ second, 0 < c.len)
    (hfirst : first ≠ []) (hsecond : second ≠ []) (h : Contiguous n 0 second) (cur pos : Nat) :
    lastSeek cur pos (first ++ second) = 0 := by
  induction first generalizing cur pos with
  | nil => exact absurd rfl hfirst
  | cons c first ih =>
    obtain ⟨hc, hrest⟩ := forall_mem_cons.1 hne
    rw [cons_append, lastSeek]
    cases first with
    | cons d first => exact ih hrest (cons_ne_nil _ _) _ _
    | nil =>
      cases second with
      | nil => exact absurd rfl hsecond
      | cons d second =>
        obtain ⟨hd, hds⟩ := forall_mem_cons.1 hrest
        have hoff : d.offset = 0 := h.1.resolve_left (by omega)
        rw [nil_append, lastSeek, if_neg (by omega), hoff]
        exact h.2.lastSeek_eq hds 0

theorem endsWithFullPass_iff (h : Covers n 0 cs) (hne : ∀ c ∈ cs, 0 < c.len) :
    EndsWithFullPass n cs ↔ Contiguous n 0 cs := by
  constructor
  · rintro ⟨first, second, rfl, hsum, hcont⟩
    cases first with
    | nil => exact hcont
    | cons c first =>
      have hc := hne c (by simp)
      have hin := h.within.2 c (by simp)
      have hsecond : second ≠ [] := by
        rintro rfl
        have : 0 = n := hcont
        omega
      rw [lastSeek_before_pass hne (cons_ne_nil _ _) hsecond hcont, map_cons, sum_cons] at hsum
      omega
  · intro hcont
    exact ⟨[], cs, rfl, (hcont.lastSeek_eq hne 0).symm, hcont⟩

/-- **Receiving a snapshot**: the deliveries end with a full pass that the last seek points at; without empty chunks,
nothing is sent twice. -/
theorem receive_exact_iff {n : Nat} {cs : List Chunk} (h : Covers n 0 cs) :
    ((∀ s : Bytes, s.length = n → ∀ sizes : List Nat, (∀ m ∈ sizes, 0 < m) →
        (cs.map Chunk.len).sum < sizes.length →
        ∃ b', (Receiving.begin.receive s cs).buffer.pollShutdown.readToEnd sizes = some (s, b')) ↔
      EndsWithFullPass n cs) ∧
    ((∀ c ∈ cs, 0 < c.len) → (EndsWithFullPass n cs ↔ Contiguous n 0 cs)) := by
  refine ⟨?_, endsWithFullPass_iff h⟩
  have hread : ∀ s : Bytes, s.length = n → ∀ sizes : List Nat, (∀ m ∈ sizes, 0 < m) →
      (cs.map Chunk.len).sum < sizes.length →
      ∃ b', (Receiving.begin.receive s cs).buffer.pollShutdown.readToEnd sizes =
        some (((cs.flatMap Chunk.positions).drop (lastSeek 0 0 cs)).map fun i => s.getD i 0, b') := by
    intro s hs sizes hpos hlen
    have hin : ∀ c ∈ cs, c.offset + c.len ≤ s.length := fun c hc => hs ▸ h.within.2 c hc
    obtain ⟨hw, hb, hp⟩ := receive_spec hin (r := .begin) StreamingSnapshotBuffer.written_new
    have hbuf := hb.trans (flatMap_bytes_eq_map hin)
    obtain ⟨b', hb'⟩ := hw.readToEnd hpos (by
      rw [hbuf]
      simpa [Chunk.positions, length_flatMap] using hlen)
    refine ⟨b', hb'.trans ?_⟩
    rw [hbuf, hp, map_drop]
    rfl
  have hps : ∀ p ∈ (cs.flatMap Chunk.positions).drop (lastSeek 0 0 cs), p < n := by
    intro p hp
    obtain ⟨c, hc, hpc⟩ := mem_flatMap.1 (mem_of_mem_drop hp)
    have := h.within.2 c hc
    have := mem_range'_1.1 hpc
    omega
  rw [← drop_positions_eq_range_iff h, ← map_getD_eq_self_iff hps]
  constructor
  · intro hall s hs
    have hlen : (cs.map Chunk.len).sum < (replicate ((cs.map Chunk.len).sum + 1) 1).length := by simp
    obtain ⟨b₁, h₁⟩ := hread s hs _ (by simp) hlen
    obtain ⟨b₂, h₂⟩ := hall s hs _ (by simp) hlen
    exact (Prod.ext_iff.1 (Option.some.inj (h₁.symm.trans h₂))).1
  · intro hall s hs sizes hpos hlen
    obtain ⟨b', hb'⟩ := hread s hs sizes hpos hlen
    rw [hall s hs] at hb'
    exact ⟨b', hb'⟩

theorem receive_exact_two_chunks :
    Covers 4 0 [⟨0, 2⟩, ⟨2, 2⟩] ∧
      ∀ s : Bytes, s.length = 4 → ∀ sizes : List Nat, (∀ m ∈ sizes, 0 < m) → 4 < sizes.length →
        ∃ b', (Receiving.begin.receive s [⟨0, 2⟩, ⟨2, 2⟩]).buffer.pollShutdown.readToEnd sizes = some (s, b') := by
  have h : Covers 4 0 [⟨0, 2⟩, ⟨2, 2⟩] := .inl ⟨rfl, .inl ⟨rfl, rfl⟩⟩
  obtain ⟨hiff, hne⟩ := receive_exact_iff h
  exact ⟨h, hiff.2 ((hne (by simp)).2 ⟨.inr rfl, .inr rfl, rfl⟩)⟩

/-- The second chunk is sent twice: the snapshot "abcd" is read as "cdcd". -/
theorem receive_resent_chunk :
    Covers 4 0 [⟨0, 2⟩, ⟨2, 2⟩, ⟨2, 2⟩] ∧
      ((Receiving.begin.receive [97, 98, 99, 100] [⟨0, 2⟩, ⟨2, 2⟩, ⟨2, 2⟩]).buffer.pollShutdown.readToEnd
        [8, 8]).map Prod.fst = some [99, 100, 99, 100] :=
  ⟨.inl ⟨rfl, .inl ⟨rfl, .inr ⟨Nat.le_refl 4, rfl⟩⟩⟩, by decide⟩

end Odgm
