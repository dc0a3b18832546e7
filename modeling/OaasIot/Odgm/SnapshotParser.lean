import OaasIot.Odgm.SnapshotInstall

/-!
# The snapshot parser and the way its bytes arrive (`raft_snapshot.rs:255-405`)

`KvStreamingParser` reads each field with one `poll_read`. A read may deliver less than was asked for; the parser then
answers `Pending` in the state it was in: the bytes it did read are gone, and nothing wakes the task. `Parser.arm` is
one round of the loop over any reader, and `readPair` and `parse` are the format.
-/

namespace Odgm

open List

/-! ## Splits -/

inductive Split
  | done
  | wait (rest : Split)
  | chunk (bytes : Bytes) (rest : Split)

namespace Split

def content : Split → Bytes
  | .done => []
  | .wait rest => rest.content
  | .chunk bytes rest => bytes ++ rest.content

def pollRead (n : Nat) : Split → Poll Bytes × Split
  | .done => (.ready [], .done)
  | .wait rest => (.pending true, rest)
  | .chunk bytes rest => if bytes = [] then rest.pollRead n else (.ready (bytes.take n), .chunk (bytes.drop n) rest)

def firstRead (n : Nat) : Split → Bytes × Split
  | .done => ([], .done)
  | .wait rest => rest.firstRead n
  | .chunk bytes rest => if bytes = [] then rest.firstRead n else (bytes.take n, .chunk (bytes.drop n) rest)

def Whole : List Nat → Split → Prop
  | [], _ => True
  | n :: ns, split => (split.firstRead n).1.length = n ∧ Whole ns (split.firstRead n).2

theorem firstRead_spec (n : Nat) (split : Split) :
    split.content = (split.firstRead n).1 ++ (split.firstRead n).2.content ∧
      (0 < n → (split.firstRead n).1 = [] → split.content = []) := by
  induction split with
  | done => exact ⟨rfl, fun _ _ => rfl⟩
  | wait rest ih => exact ih
  | chunk bytes rest ih =>
    rw [firstRead, content]
    by_cases hempty : bytes = []
    · rw [if_pos hempty, hempty]
      exact ih
    · rw [if_neg hempty]
      refine ⟨?_, fun hn htake => ?_⟩
      · rw [content, ← append_assoc, take_append_drop]
      · rcases take_eq_nil_iff.1 htake with h | h
        · omega
        · exact absurd h hempty

def field (n : Nat) (split : Split) : Option (Bytes × Split) :=
  if (split.firstRead n).1.length = n then some (split.firstRead n) else none

end Split

/-! ## The format -/

inductive PairEnd
  | endOfBytes
  | emptyKey
  | incomplete
  deriving DecidableEq

def readPair {σ : Type} (atEnd : Prop) [Decidable atEnd] (field : Nat → σ → Option (Bytes × σ)) (s : σ) :
    Except PairEnd ((Bytes × Bytes) × σ) :=
  if atEnd then .error .endOfBytes
  else
    match field 4 s with
    | none => .error .incomplete
    | some (keyLen, s₁) =>
      if leNat keyLen = 0 then .error .emptyKey
      else
        match field (leNat keyLen) s₁ with
        | none => .error .incomplete
        | some (key, s₂) =>
          match field 4 s₂ with
          | none => .error .incomplete
          | some (valueLen, s₃) =>
            match field (leNat valueLen) s₃ with
            | none => .error .incomplete
            | some (value, s₄) => .ok ((key, value), s₄)

def takeField (n : Nat) (bytes : Bytes) : Option (Bytes × Bytes) :=
  if n ≤ bytes.length then some (bytes.take n, bytes.drop n) else none

def nextPair (bytes : Bytes) : Except PairEnd ((Bytes × Bytes) × Bytes) := readPair (bytes = []) takeField bytes

def Split.nextPair (split : Split) : Except PairEnd ((Bytes × Bytes) × Split) :=
  readPair (split.content = []) Split.field split

def parseFrom : Nat → Bytes → List (Bytes × Bytes) × PairEnd
  | 0, _ => ([], .incomplete)
  | fuel + 1, bytes =>
    match nextPair bytes with
    | .error ending => ([], ending)
    | .ok (kv, rest) => (kv :: (parseFrom fuel rest).1, (parseFrom fuel rest).2)

def parse (bytes : Bytes) : List (Bytes × Bytes) × PairEnd := parseFrom (bytes.length + 1) bytes

def fieldLengths (parsed : List (Bytes × Bytes) × PairEnd) : List Nat :=
  parsed.1.flatMap (fun kv => [4, kv.1.length, 4, kv.2.length]) ++ if parsed.2 = .emptyKey then [4] else []

/-! ## The parser -/

structure Parser (ρ : Type) where
  reader : ρ
  buffer : Bytes
  state : ParseState

inductive Arm (ρ : Type)
  | goOn (p : Parser ρ)
  | answer (poll : Poll (Option (Bytes × Bytes))) (p : Parser ρ)

def ParseState.request : ParseState → Nat
  | .keyLen => 4
  | .key n => n
  | .valueLen => 4
  | .value _ n => n

inductive ParseEnd
  | ended
  | failed
  | stuck
  deriving DecidableEq

namespace Parser

variable {ρ ρ' : Type}

def new (reader : ρ) : Parser ρ := ⟨reader, [], .keyLen⟩

def receive (bytes : Bytes) (p : Parser ρ) : Arm ρ :=
  match p.state with
  | .keyLen =>
    if bytes.length = 4 then
      if leNat bytes = 0 then .answer (.ready none) p else .goOn { p with state := .key (leNat bytes) }
    else if bytes = [] then .answer (.ready none) p
    else .answer (.pending false) p
  | .key keyLen =>
    if bytes.length = keyLen then .goOn { p with buffer := bytes, state := .valueLen } else .answer (.pending false) p
  | .valueLen =>
    if bytes.length = 4 then .goOn { p with buffer := [], state := .value p.buffer (leNat bytes) }
    else .answer (.pending false) p
  | .value key valueLen =>
    if bytes.length = valueLen then .answer (.ready (some (key, bytes))) { p with state := .keyLen }
    else .answer (.pending false) p

def arm (read : Nat → ρ → Poll Bytes × ρ) (p : Parser ρ) : Arm ρ :=
  match read p.state.request p.reader with
  | (.ready bytes, reader) => receive bytes { p with reader }
  | (.pending woken, reader) => .answer (.pending woken) { p with reader }

inductive Runs (read : Nat → ρ → Poll Bytes × ρ) : Parser ρ → List (Bytes × Bytes) → ParseEnd → Prop
  | goOn {p p' : Parser ρ} {kvs : List (Bytes × Bytes)} {e : ParseEnd} (h : p.arm read = .goOn p')
      (rest : Runs read p' kvs e) : Runs read p kvs e
  | woken {p p' : Parser ρ} {kvs : List (Bytes × Bytes)} {e : ParseEnd} (h : p.arm read = .answer (.pending true) p')
      (rest : Runs read p' kvs e) : Runs read p kvs e
  | pair {p p' : Parser ρ} {kv : Bytes × Bytes} {kvs : List (Bytes × Bytes)} {e : ParseEnd}
      (h : p.arm read = .answer (.ready (some kv)) p') (rest : Runs read p' kvs e) : Runs read p (kv :: kvs) e
  | ended {p p' : Parser ρ} (h : p.arm read = .answer (.ready none) p') : Runs read p [] .ended
  | stuck {p p' : Parser ρ} (h : p.arm read = .answer (.pending false) p') : Runs read p [] .stuck

def ArmRuns (read : Nat → ρ → Poll Bytes × ρ) (a : Arm ρ) (kvs : List (Bytes × Bytes)) (e : ParseEnd) : Prop :=
  match a with
  | .goOn p => Runs read p kvs e
  | .answer (.pending true) p => Runs read p kvs e
  | .answer (.pending false) _ => kvs = [] ∧ e = .stuck
  | .answer (.ready none) _ => kvs = [] ∧ e = .ended
  | .answer (.ready (some kv)) p => ∃ kvs', kvs = kv :: kvs' ∧ Runs read p kvs' e

variable {read : Nat → ρ → Poll Bytes × ρ}

theorem runs_iff {p : Parser ρ} {kvs : List (Bytes × Bytes)} {e : ParseEnd} :
    Runs read p kvs e ↔ ArmRuns read (p.arm read) kvs e := by
  constructor
  · intro h
    cases h with
    | goOn h rest | woken h rest => rw [h]; exact rest
    | pair h rest => rw [h]; exact ⟨_, rfl, rest⟩
    | ended h | stuck h => rw [h]; exact ⟨rfl, rfl⟩
  · intro h
    cases harm : p.arm read with
    | goOn p' =>
      rw [harm] at h
      exact .goOn harm h
    | answer poll p' =>
      rw [harm] at h
      match poll with
      | .pending true => exact .woken harm h
      | .pending false =>
        obtain ⟨rfl, rfl⟩ := h
        exact .stuck harm
      | .ready none =>
        obtain ⟨rfl, rfl⟩ := h
        exact .ended harm
      | .ready (some kv) =>
        obtain ⟨kvs', rfl, rest⟩ := h
        exact .pair harm rest

theorem Runs.unique {p : Parser ρ} {kvs kvs' : List (Bytes × Bytes)}
    {e e' : ParseEnd} (h : Runs read p kvs e) (h' : Runs read p kvs' e') : kvs = kvs' ∧ e = e' := by
  induction h generalizing kvs' with
  | goOn harm _ ih | woken harm _ ih =>
    rw [runs_iff, harm] at h'
    exact ih h'
  | pair harm _ ih =>
    rw [runs_iff, harm] at h'
    obtain ⟨kvs'', rfl, rest⟩ := h'
    obtain ⟨rfl, rfl⟩ := ih rest
    exact ⟨rfl, rfl⟩
  | ended harm | stuck harm =>
    rw [runs_iff, harm] at h'
    exact ⟨h'.1.symm, h'.2.symm⟩

theorem not_runs_failed {p : Parser ρ} {kvs : List (Bytes × Bytes)} : ¬ Runs read p kvs .failed := by
  intro h
  generalize he : ParseEnd.failed = e at h
  induction h with
  | goOn _ _ ih | woken _ _ ih | pair _ _ ih => exact ih he
  | ended _ | stuck _ => cases he

/-! ## On a split -/

section
variable {kvs : List (Bytes × Bytes)} {e : ParseEnd}

theorem armRuns_arm (p : Parser Split) :
    ArmRuns Split.pollRead (p.arm Split.pollRead) kvs e ↔
      ArmRuns Split.pollRead (receive (p.reader.firstRead p.state.request).1
        { p with reader := (p.reader.firstRead p.state.request).2 }) kvs e := by
  obtain ⟨reader, buffer, state⟩ := p
  induction reader with
  | done => exact Iff.rfl
  | wait rest ih => exact runs_iff.trans ih
  | chunk bytes rest ih =>
    unfold arm
    dsimp only
    rw [Split.pollRead, Split.firstRead]
    by_cases hempty : bytes = []
    · rw [if_pos hempty, if_pos hempty]
      exact ih
    · rw [if_neg hempty, if_neg hempty]

theorem runs_receive (p : Parser Split) :
    Runs Split.pollRead p kvs e ↔ ArmRuns Split.pollRead (receive (p.reader.firstRead p.state.request).1
      { p with reader := (p.reader.firstRead p.state.request).2 }) kvs e :=
  runs_iff.trans (armRuns_arm p)

variable (split : Split)

theorem runs_key (buffer : Bytes) (n : Nat) :
    Runs Split.pollRead ⟨split, buffer, .key n⟩ kvs e ↔
      match split.field n with
      | none => kvs = [] ∧ e = .stuck
      | some (key, rest) => Runs Split.pollRead ⟨rest, key, .valueLen⟩ kvs e := by
  rw [runs_receive, Split.field]
  by_cases hlen : (split.firstRead n).1.length = n <;> simp [receive, ParseState.request, ArmRuns, hlen]

theorem runs_valueLen (key : Bytes) :
    Runs Split.pollRead ⟨split, key, .valueLen⟩ kvs e ↔
      match split.field 4 with
      | none => kvs = [] ∧ e = .stuck
      | some (valueLen, rest) => Runs Split.pollRead ⟨rest, [], .value key (leNat valueLen)⟩ kvs e := by
  rw [runs_receive, Split.field]
  by_cases hlen : (split.firstRead 4).1.length = 4 <;> simp [receive, ParseState.request, ArmRuns, hlen]

theorem runs_value (key : Bytes) (n : Nat) :
    Runs Split.pollRead ⟨split, [], .value key n⟩ kvs e ↔
      match split.field n with
      | none => kvs = [] ∧ e = .stuck
      | some (value, rest) => ∃ kvs', kvs = (key, value) :: kvs' ∧ Runs Split.pollRead (new rest) kvs' e := by
  rw [runs_receive, Split.field]
  by_cases hlen : (split.firstRead n).1.length = n <;> simp [receive, ParseState.request, ArmRuns, hlen, new]

theorem runs_iff_nextPair :
    Runs Split.pollRead (new split) kvs e ↔
      match split.nextPair with
      | .error .incomplete => kvs = [] ∧ e = .stuck
      | .error _ => kvs = [] ∧ e = .ended
      | .ok (kv, rest) => ∃ kvs', kvs = kv :: kvs' ∧ Runs Split.pollRead (new rest) kvs' e := by
  obtain ⟨hsplit, hempty⟩ := split.firstRead_spec 4
  rw [runs_receive, Split.nextPair, readPair]
  by_cases hend : split.content = []
  · have hnil : (split.firstRead 4).1 = [] := (append_eq_nil_iff.1 (hsplit.symm.trans hend)).1
    simp [new, receive, ParseState.request, hend, hnil, ArmRuns]
  · have hne : (split.firstRead 4).1 ≠ [] := fun h => hend (hempty (by decide) h)
    rw [if_neg hend, Split.field]
    by_cases hlen : (split.firstRead 4).1.length = 4
    · by_cases hzero : leNat (split.firstRead 4).1 = 0
      · simp [new, receive, ParseState.request, hlen, hzero, ArmRuns]
      · simp only [new, receive, ParseState.request, hlen, hzero, if_true, if_false, ArmRuns, runs_key]
        rcases Split.field (leNat (split.firstRead 4).1) (split.firstRead 4).2 with _ | ⟨key, s₂⟩
        · rfl
        simp only [runs_valueLen]
        rcases Split.field 4 s₂ with _ | ⟨valueLen, s₃⟩
        · rfl
        simp only [runs_value]
        rcases Split.field (leNat valueLen) s₃ with _ | ⟨value, s₄⟩ <;> rfl
    · simp [new, receive, ParseState.request, hlen, hne, ArmRuns]

end

end Parser

/-! ## What the bytes say -/

section
variable {σ : Type} {atEnd : Prop} [Decidable atEnd] {field : Nat → σ → Option (Bytes × σ)} {s s' : σ} {kv : Bytes × Bytes}

theorem readPair_eq_ok_iff :
    readPair atEnd field s = .ok (kv, s') ↔
      ¬ atEnd ∧ ∃ keyLen s₁ s₂ valueLen s₃, field 4 s = some (keyLen, s₁) ∧ leNat keyLen ≠ 0 ∧
        field (leNat keyLen) s₁ = some (kv.1, s₂) ∧ field 4 s₂ = some (valueLen, s₃) ∧
        field (leNat valueLen) s₃ = some (kv.2, s') := by
  constructor
  · intro h
    unfold readPair at h
    split at h
    · cases h
    next hend =>
      split at h
      · cases h
      next keyLen s₁ h₁ =>
        split at h
        · cases h
        next hzero =>
          split at h
          · cases h
          next key s₂ h₂ =>
            split at h
            · cases h
            next valueLen s₃ h₃ =>
              split at h
              · cases h
              next value s₄ h₄ =>
                cases h
                exact ⟨hend, keyLen, s₁, s₂, valueLen, s₃, h₁, hzero, h₂, h₃, h₄⟩
  · rintro ⟨hend, keyLen, s₁, s₂, valueLen, s₃, h₁, hzero, h₂, h₃, h₄⟩
    simp only [readPair, if_neg hend, h₁, if_neg hzero, h₂, h₃, h₄]

theorem readPair_eq_emptyKey_iff :
    readPair atEnd field s = .error .emptyKey ↔
      ¬ atEnd ∧ ∃ keyLen s₁, field 4 s = some (keyLen, s₁) ∧ leNat keyLen = 0 := by
  constructor
  · intro h
    unfold readPair at h
    split at h
    · cases h
    next hend =>
      split at h
      · cases h
      next keyLen s₁ h₁ =>
        split at h
        next hzero => exact ⟨hend, keyLen, s₁, h₁, hzero⟩
        · repeat' split at h
          all_goals cases h
  · rintro ⟨hend, keyLen, s₁, h₁, hzero⟩
    simp only [readPair, if_neg hend, h₁, if_pos hzero]

theorem readPair_eq_endOfBytes_iff : readPair atEnd field s = .error .endOfBytes ↔ atEnd := by
  constructor
  · intro h
    by_contra hend
    unfold readPair at h
    rw [if_neg hend] at h
    repeat' split at h
    all_goals cases h
  · intro hend
    rw [readPair, if_pos hend]

end

theorem takeField_eq_some {n : Nat} {bytes b rest : Bytes} :
    takeField n bytes = some (b, rest) ↔ bytes = b ++ rest ∧ b.length = n := by
  unfold takeField
  constructor
  · intro h
    split at h <;> cases h
    exact ⟨(take_append_drop n bytes).symm, length_take_of_le ‹_›⟩
  · rintro ⟨rfl, rfl⟩
    rw [if_pos (by simp), take_left' rfl, drop_left' rfl]

theorem length_of_nextPair {bytes rest : Bytes} {kv : Bytes × Bytes} (h : nextPair bytes = .ok (kv, rest)) :
    bytes.length = 8 + kv.1.length + kv.2.length + rest.length := by
  obtain ⟨_, keyLen, s₁, s₂, valueLen, s₃, h₁, _, h₂, h₃, h₄⟩ := readPair_eq_ok_iff.1 h
  obtain ⟨rfl, hkeyLen⟩ := takeField_eq_some.1 h₁
  obtain ⟨rfl, _⟩ := takeField_eq_some.1 h₂
  obtain ⟨rfl, hvalueLen⟩ := takeField_eq_some.1 h₃
  obtain ⟨rfl, _⟩ := takeField_eq_some.1 h₄
  simp only [length_append]
  omega

theorem parseFrom_eq (fuel fuel' : Nat) {bytes : Bytes} (h : bytes.length < fuel) (h' : bytes.length < fuel') :
    parseFrom fuel bytes = parseFrom fuel' bytes := by
  induction fuel generalizing fuel' bytes with
  | zero => omega
  | succ fuel ih =>
    obtain ⟨fuel', rfl⟩ : ∃ m, fuel' = m + 1 := ⟨fuel' - 1, by omega⟩
    rw [parseFrom, parseFrom]
    cases hnext : nextPair bytes with
    | error ending => rfl
    | ok r =>
      obtain ⟨kv, rest⟩ := r
      have hlen := length_of_nextPair hnext
      dsimp only
      rw [ih fuel' (by omega) (by omega)]

theorem parse_of_ok {bytes rest : Bytes} {kv : Bytes × Bytes} (h : nextPair bytes = .ok (kv, rest)) :
    parse bytes = (kv :: (parse rest).1, (parse rest).2) := by
  have hlen := length_of_nextPair h
  rw [parse, parseFrom, h]
  dsimp only
  rw [parse, parseFrom_eq bytes.length (rest.length + 1) (by omega) (by omega)]

theorem parse_of_error {bytes : Bytes} {ending : PairEnd} (h : nextPair bytes = .error ending) :
    parse bytes = ([], ending) := by
  rw [parse, parseFrom, h]

theorem fieldLengths_cons (kv : Bytes × Bytes) (parsed : List (Bytes × Bytes) × PairEnd) :
    fieldLengths (kv :: parsed.1, parsed.2) = 4 :: kv.1.length :: 4 :: kv.2.length :: fieldLengths parsed := rfl

theorem sum_fieldLengths_le {bytes : Bytes} (h : (parse bytes).2 ≠ .incomplete) :
    (fieldLengths (parse bytes)).sum ≤ bytes.length := by
  induction hn : bytes.length using Nat.strong_induction_on generalizing bytes with
  | _ n ih =>
    subst hn
    cases hnext : nextPair bytes with
    | ok r =>
      obtain ⟨kv, rest⟩ := r
      have hlen := length_of_nextPair hnext
      rw [parse_of_ok hnext] at h
      have hrest := ih rest.length (by omega) h rfl
      rw [parse_of_ok hnext, fieldLengths_cons]
      simp only [sum_cons]
      omega
    | error ending =>
      rw [parse_of_error hnext] at h ⊢
      cases ending with
      | incomplete => exact absurd rfl h
      | endOfBytes => exact Nat.zero_le _
      | emptyKey =>
        obtain ⟨_, keyLen, s₁, h₁, _⟩ := readPair_eq_emptyKey_iff.1 hnext
        obtain ⟨rfl, hkeyLen⟩ := takeField_eq_some.1 h₁
        rw [length_append, hkeyLen]
        exact Nat.le_add_right 4 _

/-! ## What a split gives of it -/

namespace Split

variable {split rest : Split} {kv : Bytes × Bytes}

theorem takeField_of_field {n : Nat} {b : Bytes} (h : split.field n = some (b, rest)) :
    takeField n split.content = some (b, rest.content) ∧ split.firstRead n = (b, rest) ∧ b.length = n := by
  unfold field at h
  split at h
  next hlen =>
    obtain ⟨hsplit, _⟩ := split.firstRead_spec n
    have hread := Option.some.inj h
    rw [hread] at hsplit hlen
    exact ⟨takeField_eq_some.2 ⟨hsplit, hlen⟩, hread, hlen⟩
  · cases h

theorem field_of_takeField {n : Nat} {b bytes : Bytes} (hwhole : (split.firstRead n).1.length = n)
    (h : takeField n split.content = some (b, bytes)) :
    split.field n = some (b, (split.firstRead n).2) ∧ (split.firstRead n).2.content = bytes := by
  have hfield : split.field n = some ((split.firstRead n).1, (split.firstRead n).2) := if_pos hwhole
  obtain ⟨htake, _, _⟩ := takeField_of_field hfield
  rw [htake] at h
  obtain ⟨hb, hrest⟩ := Prod.mk.inj (Option.some.inj h)
  exact ⟨by rw [hfield, ← hb], hrest⟩

theorem nextPair_of_ok (h : split.nextPair = .ok (kv, rest)) :
    Odgm.nextPair split.content = .ok (kv, rest.content) ∧
      ∀ ns, split.Whole (4 :: kv.1.length :: 4 :: kv.2.length :: ns) ↔ rest.Whole ns := by
  obtain ⟨hend, keyLen, s₁, s₂, valueLen, s₃, h₁, hzero, h₂, h₃, h₄⟩ := readPair_eq_ok_iff.1 h
  obtain ⟨ht₁, hr₁, hl₁⟩ := takeField_of_field h₁
  obtain ⟨ht₂, hr₂, hl₂⟩ := takeField_of_field h₂
  obtain ⟨ht₃, hr₃, hl₃⟩ := takeField_of_field h₃
  obtain ⟨ht₄, hr₄, hl₄⟩ := takeField_of_field h₄
  refine ⟨readPair_eq_ok_iff.2 ⟨hend, keyLen, _, _, valueLen, _, ht₁, hzero, ht₂, ht₃, ht₄⟩, fun ns => ?_⟩
  simp only [Whole, hl₂, hl₄, hr₁, hr₂, hr₃, hr₄, hl₁, hl₃, true_and]

theorem nextPair_of_whole {bytes : Bytes} {ns : List Nat} (h : Odgm.nextPair split.content = .ok (kv, bytes))
    (hwhole : split.Whole (4 :: kv.1.length :: 4 :: kv.2.length :: ns)) :
    ∃ rest, split.nextPair = .ok (kv, rest) := by
  obtain ⟨hend, keyLen, b₁, b₂, valueLen, b₃, h₁, hzero, h₂, h₃, h₄⟩ := readPair_eq_ok_iff.1 h
  obtain ⟨hw₁, hw₂, hw₃, hw₄, _⟩ := hwhole
  have hkey := (takeField_eq_some.1 h₂).2
  have hvalue := (takeField_eq_some.1 h₄).2
  rw [hkey] at hw₂ hw₃ hw₄
  rw [hvalue] at hw₄
  obtain ⟨hf₁, rfl⟩ := field_of_takeField hw₁ h₁
  obtain ⟨hf₂, rfl⟩ := field_of_takeField hw₂ h₂
  obtain ⟨hf₃, rfl⟩ := field_of_takeField hw₃ h₃
  obtain ⟨hf₄, _⟩ := field_of_takeField hw₄ h₄
  exact ⟨_, readPair_eq_ok_iff.2 ⟨hend, keyLen, _, _, valueLen, _, hf₁, hzero, hf₂, hf₃, hf₄⟩⟩

theorem nextPair_of_emptyKey (h : split.nextPair = .error .emptyKey) :
    Odgm.nextPair split.content = .error .emptyKey ∧ split.Whole [4] := by
  obtain ⟨hend, keyLen, s₁, h₁, hzero⟩ := readPair_eq_emptyKey_iff.1 h
  obtain ⟨ht₁, hr₁, hl₁⟩ := takeField_of_field h₁
  refine ⟨readPair_eq_emptyKey_iff.2 ⟨hend, keyLen, _, ht₁, hzero⟩, ?_, trivial⟩
  rw [hr₁]
  exact hl₁

def Good (split : Split) : Prop :=
  (parse split.content).2 ≠ .incomplete ∧ split.Whole (fieldLengths (parse split.content))

theorem not_good_of_incomplete (h : split.nextPair = .error .incomplete) : ¬ split.Good := by
  rintro ⟨hcomplete, hwhole⟩
  cases hnext : Odgm.nextPair split.content with
  | ok r =>
    obtain ⟨kv, bytes⟩ := r
    rw [parse_of_ok hnext, fieldLengths_cons] at hwhole
    obtain ⟨rest, hrest⟩ := nextPair_of_whole hnext hwhole
    rw [hrest] at h
    cases h
  | error ending =>
    rw [parse_of_error hnext] at hcomplete hwhole
    cases ending with
    | incomplete => exact hcomplete rfl
    | endOfBytes =>
      have hdone : split.nextPair = .error .endOfBytes :=
        readPair_eq_endOfBytes_iff.2 (readPair_eq_endOfBytes_iff.1 hnext)
      rw [hdone] at h
      cases h
    | emptyKey =>
      obtain ⟨hend, keyLen, b₁, h₁, hzero⟩ := readPair_eq_emptyKey_iff.1 hnext
      obtain ⟨hf₁, _⟩ := field_of_takeField hwhole.1 h₁
      have hempty : split.nextPair = .error .emptyKey := readPair_eq_emptyKey_iff.2 ⟨hend, keyLen, _, hf₁, hzero⟩
      rw [hempty] at h
      cases h

end Split

namespace Parser

def ParsesRight {ρ : Type} (read : Nat → ρ → Poll Bytes × ρ) (reader : ρ) (bytes : Bytes) : Prop :=
  Runs read (new reader) (parse bytes).1 (if (parse bytes).2 = .incomplete then .failed else .ended)

theorem runs_spec (split : Split) :
    (split.Good ∧ Runs Split.pollRead (new split) (parse split.content).1 .ended) ∨
      (¬ split.Good ∧ ∃ kvs, Runs Split.pollRead (new split) kvs .stuck) := by
  induction hn : split.content.length using Nat.strong_induction_on generalizing split with
  | _ n ih =>
    subst hn
    cases hnext : split.nextPair with
    | ok r =>
      obtain ⟨kv, rest⟩ := r
      obtain ⟨hbytes, hwhole⟩ := Split.nextPair_of_ok hnext
      have hlen := length_of_nextPair hbytes
      have hgood : split.Good ↔ rest.Good := by
        unfold Split.Good
        rw [parse_of_ok hbytes, fieldLengths_cons, hwhole]
      have hruns : ∀ kvs e, Runs Split.pollRead (new rest) kvs e → Runs Split.pollRead (new split) (kv :: kvs) e := by
        intro kvs e hrest
        rw [runs_iff_nextPair, hnext]
        exact ⟨kvs, rfl, hrest⟩
      rcases ih rest.content.length (by omega) rest rfl with ⟨hrest, hrun⟩ | ⟨hrest, kvs, hrun⟩
      · refine .inl ⟨hgood.2 hrest, ?_⟩
        rw [parse_of_ok hbytes]
        exact hruns _ _ hrun
      · exact .inr ⟨fun h => hrest (hgood.1 h), kv :: kvs, hruns _ _ hrun⟩
    | error ending =>
      cases ending with
      | incomplete =>
        refine .inr ⟨Split.not_good_of_incomplete hnext, [], ?_⟩
        rw [runs_iff_nextPair, hnext]
        exact ⟨rfl, rfl⟩
      | endOfBytes =>
        have hbytes : Odgm.nextPair split.content = .error .endOfBytes :=
          readPair_eq_endOfBytes_iff.2 (readPair_eq_endOfBytes_iff.1 hnext)
        refine .inl ⟨?_, ?_⟩
        · rw [Split.Good, parse_of_error hbytes]
          exact ⟨by simp, trivial⟩
        · rw [runs_iff_nextPair, hnext, parse_of_error hbytes]
          exact ⟨rfl, rfl⟩
      | emptyKey =>
        obtain ⟨hbytes, hwhole⟩ := Split.nextPair_of_emptyKey hnext
        refine .inl ⟨?_, ?_⟩
        · rw [Split.Good, parse_of_error hbytes]
          exact ⟨by simp, hwhole⟩
        · rw [runs_iff_nextPair, hnext, parse_of_error hbytes]
          exact ⟨rfl, rfl⟩

theorem parsesRight_iff (split : Split) : ParsesRight Split.pollRead split split.content ↔ split.Good := by
  unfold ParsesRight
  by_cases hincomplete : (parse split.content).2 = .incomplete
  · rw [if_pos hincomplete]
    exact iff_of_false not_runs_failed fun hgood => hgood.1 hincomplete
  · rw [if_neg hincomplete]
    rcases runs_spec split with ⟨hgood, hrun⟩ | ⟨hgood, kvs, hrun⟩
    · exact iff_of_true hrun hgood
    · refine iff_of_false (fun h => ?_) hgood
      cases (h.unique hrun).2

/-! ## On a buffer -/

def withReader (p : Parser ρ) (reader : ρ') : Parser ρ' := ⟨reader, p.buffer, p.state⟩

end Parser

namespace Arm

variable {ρ ρ' : Type}

def reader : Arm ρ → ρ
  | .goOn p => p.reader
  | .answer _ p => p.reader

def withReader (a : Arm ρ) (reader : ρ') : Arm ρ' :=
  match a with
  | .goOn p => .goOn (p.withReader reader)
  | .answer poll p => .answer poll (p.withReader reader)

end Arm

namespace Parser

section
variable {read : Nat → ρ → Poll Bytes × ρ} {read' : Nat → ρ' → Poll Bytes × ρ'} {R : ρ → ρ' → Prop}

theorem receive_withReader (bytes : Bytes) (p : Parser ρ) (b : ρ') :
    (receive bytes p).reader = p.reader ∧ receive bytes (p.withReader b) = (receive bytes p).withReader b := by
  obtain ⟨a, buffer, state⟩ := p
  cases state with
  | keyLen =>
    simp only [receive, withReader]
    split
    · split <;> exact ⟨rfl, rfl⟩
    · split <;> exact ⟨rfl, rfl⟩
  | key n | valueLen | value key n =>
    simp only [receive, withReader]
    split <;> exact ⟨rfl, rfl⟩

variable (hread : ∀ n a b, R a b → (read' n b).1 = (read n a).1 ∧ R (read n a).2 (read' n b).2)
include hread

theorem arm_related {p : Parser ρ} {b : ρ'} (hb : R p.reader b) :
    ∃ b', R (p.arm read).reader b' ∧ (p.withReader b).arm read' = (p.arm read).withReader b' := by
  obtain ⟨hpoll, hrest⟩ := hread p.state.request p.reader b hb
  refine ⟨(read' p.state.request b).2, ?_⟩
  unfold arm
  change _ ∧ (match read' p.state.request b with
    | (.ready bytes, reader) => receive bytes (p.withReader reader)
    | (.pending woken, reader) => Arm.answer (.pending woken) (p.withReader reader)) = _
  rcases hb' : read' p.state.request b with ⟨poll, b'⟩
  rcases ha : read p.state.request p.reader with ⟨poll', a'⟩
  rw [ha, hb'] at hpoll hrest
  obtain rfl : poll = poll' := hpoll
  cases poll with
  | pending woken => exact ⟨hrest, rfl⟩
  | ready bytes =>
    obtain ⟨hreader, hreceive⟩ := receive_withReader bytes { p with reader := a' } b'
    refine ⟨?_, hreceive⟩
    dsimp only
    rw [hreader]
    exact hrest

theorem Runs.of_related
    {p : Parser ρ} {kvs : List (Bytes × Bytes)} {e : ParseEnd} (h : Runs read p kvs e) {b : ρ'} (hb : R p.reader b) :
    Runs read' (p.withReader b) kvs e := by
  induction h generalizing b with
  | goOn harm _ ih | woken harm _ ih =>
    obtain ⟨b', hb', harm'⟩ := arm_related hread hb
    rw [harm] at hb' harm'
    rw [runs_iff, harm']
    exact ih hb'
  | pair harm _ ih =>
    obtain ⟨b', hb', harm'⟩ := arm_related hread hb
    rw [harm] at hb' harm'
    exact .pair harm' (ih hb')
  | ended harm | stuck harm =>
    obtain ⟨b', _, harm'⟩ := arm_related hread hb
    rw [runs_iff, harm', harm]
    exact ⟨rfl, rfl⟩

end

end Parser

namespace Split

def Single : Split → Prop
  | .done => True
  | .chunk _ .done => True
  | _ => False

theorem Single.firstRead_eq {split : Split} (h : split.Single) (n : Nat) :
    split.pollRead n = (.ready (split.firstRead n).1, (split.firstRead n).2) ∧
      (split.firstRead n).1 = split.content.take n ∧ (split.firstRead n).2.content = split.content.drop n ∧
      (split.firstRead n).2.Single := by
  match split with
  | .done => exact ⟨rfl, take_nil.symm, drop_nil.symm, trivial⟩
  | .chunk bytes .done =>
    rw [pollRead, firstRead, content, content, append_nil]
    by_cases hempty : bytes = []
    · rw [if_pos hempty, if_pos hempty, hempty]
      exact ⟨rfl, take_nil.symm, drop_nil.symm, trivial⟩
    · rw [if_neg hempty, if_neg hempty]
      exact ⟨rfl, rfl, append_nil _, trivial⟩

theorem Single.whole {split : Split} (h : split.Single) {ns : List Nat} (hle : ns.sum ≤ split.content.length) :
    split.Whole ns := by
  induction ns generalizing split with
  | nil => trivial
  | cons n ns ih =>
    obtain ⟨_, hread, hrest, hsingle⟩ := h.firstRead_eq n
    rw [sum_cons] at hle
    refine ⟨?_, ih hsingle ?_⟩
    · rw [hread, length_take_of_le (by omega)]
    · rw [hrest, length_drop]
      omega

end Split

theorem StreamingSnapshotBuffer.Left.pollRead_split {b : StreamingSnapshotBuffer} {split : Split}
    (h : b.Left split.content) (hsingle : split.Single) (n : Nat) :
    (b.pollRead n).1 = (split.pollRead n).1 ∧
      (b.pollRead n).2.Left (split.pollRead n).2.content ∧ (split.pollRead n).2.Single := by
  obtain ⟨hpoll, hread, hrest, hsingle'⟩ := hsingle.firstRead_eq n
  rw [hpoll, h.pollRead_eq n, hread]
  refine ⟨rfl, ⟨⟨h.writePos_eq, h.streamSource_eq⟩, h.isComplete_eq, ?_⟩, hsingle'⟩
  show b.buffer.drop (b.readPos + (split.content.take n).length) = (split.firstRead n).2.content
  rw [← drop_drop, h.drop_eq, hrest, length_take]
  rcases Nat.le_total n split.content.length with hle | hle
  · rw [Nat.min_eq_left hle]
  · rw [Nat.min_eq_right hle, drop_length, drop_eq_nil_of_le hle]

namespace Parser

theorem runs_buffer_iff {b : StreamingSnapshotBuffer} {bytes : Bytes} (h : b.Left bytes) {kvs : List (Bytes × Bytes)}
    {e : ParseEnd} :
    Runs (fun n b => StreamingSnapshotBuffer.pollRead n b) (new b) kvs e ↔
      Runs Split.pollRead (new (.chunk bytes .done)) kvs e := by
  have hcontent : (Split.chunk bytes .done).content = bytes := append_nil bytes
  have hstart : b.Left (Split.chunk bytes .done).content := by rwa [hcontent]
  constructor
  · intro hrun
    refine hrun.of_related (R := fun b split => b.Left split.content ∧ split.Single) ?_ ⟨hstart, trivial⟩
    intro n b split hrel
    obtain ⟨hpoll, hrest⟩ := hrel.1.pollRead_split hrel.2 n
    exact ⟨hpoll.symm, hrest⟩
  · intro hrun
    refine hrun.of_related (R := fun split b => b.Left split.content ∧ split.Single) ?_ ⟨hstart, trivial⟩
    intro n split b hrel
    exact hrel.1.pollRead_split hrel.2 n

/-! ### The loop of `poll_next` -/

def ofKv (p : KvStreamingParser) : Parser StreamingSnapshotBuffer := ⟨p.reader, p.buffer, p.state⟩
def toKv (p : Parser StreamingSnapshotBuffer) : KvStreamingParser := ⟨p.reader, p.buffer, p.state⟩

theorem pollNext_arm (p : KvStreamingParser) :
    match (ofKv p).arm fun n b => StreamingSnapshotBuffer.pollRead n b with
    | .goOn p' => p.pollNext = p'.toKv.pollNext
    | .answer poll p' => p.pollNext = (poll, p'.toKv) := by
  obtain ⟨reader, buffer, state⟩ := p
  rcases hread : reader.pollRead state.request with ⟨bytes | woken, reader'⟩
  · -- in every state the two branch on the same lengths
    cases state with
    | keyLen | key n | valueLen | value key n =>
      simp only [ParseState.request] at hread
      simp only [ofKv, arm, ParseState.request, KvStreamingParser.pollNext, KvStreamingParser.pollKeyLen,
        KvStreamingParser.pollKey, KvStreamingParser.pollValueLen, KvStreamingParser.pollValue,
        KvStreamingParser.readExactly, hread, receive]
      split_ifs <;> rfl
  · cases state with
    | keyLen | key n | valueLen | value key n =>
      simp only [ParseState.request] at hread
      simp only [ofKv, arm, ParseState.request, KvStreamingParser.pollNext, KvStreamingParser.pollKeyLen,
        KvStreamingParser.pollKey, KvStreamingParser.pollValueLen, KvStreamingParser.pollValue,
        KvStreamingParser.readExactly, hread, toKv]

/-- **The parser and its bytes**: right if they are not truncated and no field is cut; a complete buffer cuts none. -/
theorem snapshot_parser_iff (bytes : Bytes) :
    (∀ split : Split, split.content = bytes → (ParsesRight Split.pollRead split bytes ↔
      (parse bytes).2 ≠ .incomplete ∧ split.Whole (fieldLengths (parse bytes)))) ∧
    ∀ b : StreamingSnapshotBuffer, b.Left bytes →
      (ParsesRight (fun n b => StreamingSnapshotBuffer.pollRead n b) b bytes ↔ (parse bytes).2 ≠ .incomplete) := by
  refine ⟨fun split hsplit => hsplit ▸ parsesRight_iff split, fun b hleft => ?_⟩
  have hcontent : (Split.chunk bytes .done).content = bytes := append_nil bytes
  have hchunk := parsesRight_iff (.chunk bytes .done)
  rw [hcontent] at hchunk
  refine ((runs_buffer_iff hleft).trans hchunk).trans ?_
  rw [Split.Good, hcontent, and_iff_left_iff_imp]
  intro hcomplete
  have hsingle : (Split.chunk bytes .done).Single := trivial
  refine hsingle.whole ?_
  rw [hcontent]
  exact sum_fieldLengths_le hcomplete

def completeBuffer (bytes : Bytes) : StreamingSnapshotBuffer := ⟨bytes, 0, bytes.length, true, none⟩

theorem snapshot_parser_one_pair :
    ParsesRight (fun n b => StreamingSnapshotBuffer.pollRead n b) (completeBuffer [1, 0, 0, 0, 107, 1, 0, 0, 0, 118])
      [1, 0, 0, 0, 107, 1, 0, 0, 0, 118] :=
  ((snapshot_parser_iff _).2 _ ⟨⟨rfl, rfl⟩, rfl, rfl⟩).2 (by decide)

/-- The task hangs on a missing byte, and on two reads that cut a length. -/
theorem snapshot_parser_hangs :
    Runs (fun n b => StreamingSnapshotBuffer.pollRead n b) (new (completeBuffer [1, 0, 0, 0, 107, 1, 0, 0, 0])) [] .stuck ∧
      parse [1, 0, 0, 0, 107, 1, 0, 0, 0] = ([], .incomplete) ∧
      Runs Split.pollRead (new (.chunk [1, 0] (.chunk [0, 0, 107, 1, 0, 0, 0, 118] .done))) [] .stuck ∧
      parse [1, 0, 0, 0, 107, 1, 0, 0, 0, 118] = ([([107], [118])], .endOfBytes) := by
  refine ⟨?_, by decide, ?_, by decide⟩
  · exact .goOn rfl (.goOn rfl (.goOn rfl (.stuck rfl)))
  · exact .stuck rfl

end Parser

end Odgm
