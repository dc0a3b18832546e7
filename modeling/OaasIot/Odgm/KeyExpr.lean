import OaasIot.Lib.Segments
import OaasIot.Lib.Decimal
import OaasIot.Odgm.GrpcObjects

/-!
# Key expressions (`shard/network/helpers.rs`)

The client proxy builds a path around the id as the caller spells it; the handlers find the id behind the last segment
`objects`. They try to read it as a number before they normalize it, and some skip a segment that is one of their verbs.
-/

namespace Odgm

open List

/-! ## Parsing -/

inductive ObjectIdentity
  | numeric (oid : UInt64)
  | str (sid : Str)
  deriving DecidableEq

def ObjectIdentity.storageId : ObjectIdentity → Str
  | .numeric oid => .ofU64 oid
  | .str sid => sid

def slash : UInt8 := 0x2F
def splitPathSegments (expr : Bytes) : List Bytes := segments slash expr

/-- A segment of a key expression is a string; the branch for other bytes is never taken. -/
def parseObjectIdentitySegment (segment : Bytes) (maxStringIdLen : Nat) : Option ObjectIdentity :=
  match parseU64 segment with
  | some num => some (.numeric num)
  | none =>
    match Str.fromUtf8 segment with
    | none => none
    | some raw =>
      match normalizeObjectId raw maxStringIdLen with
      | .ok norm => some (.str norm)
      | .error _ => none

def objectsWord : Bytes := text "objects"
def entriesWord : Bytes := text "entries"
def getWord : Bytes := text "get"
def setWord : Bytes := text "set"
def batchSetWord : Bytes := text "batch-set"
def verbs : List Bytes := [getWord, setWord, batchSetWord]
def objectsPos (segments : List Bytes) : Option Nat := rposition (· == objectsWord) segments

def extractIdentityFromExpr (expr : Bytes) (maxStringIdLen : Nat) : Option ObjectIdentity := do
  let segments := splitPathSegments expr
  let pos ← objectsPos segments
  let candidate ← segments[pos + 1]?
  if candidate ∈ verbs then
    let candidate ← segments[pos + 2]?
    parseObjectIdentitySegment candidate maxStringIdLen
  else parseObjectIdentitySegment candidate maxStringIdLen

def parseEntryRequest (expr : Bytes) (maxStringIdLen : Nat) : Option (ObjectIdentity × Str) := do
  let segments := splitPathSegments expr
  let pos ← objectsPos segments
  let key ← segments[pos + 3]?
  if segments[pos + 2]? = some entriesWord then
    let identity ← parseObjectIdentitySegment (← segments[pos + 1]?) maxStringIdLen
    let entryKey ← Str.fromUtf8 key
    pure (identity, entryKey)
  else none

def parseBatchSetIdentity (expr : Bytes) (maxStringIdLen : Nat) : Option ObjectIdentity := do
  let segments := splitPathSegments expr
  let pos ← objectsPos segments
  if segments[pos + 2]? = some batchSetWord then
    parseObjectIdentitySegment (← segments[pos + 1]?) maxStringIdLen
  else none

structure Query where
  keyExpr : Bytes
  oid : Option Bytes
  oidStr : Option Bytes

def parseIdentityFromQuery (query : Query) (maxStringIdLen : Nat) : Option ObjectIdentity :=
  match extractIdentityFromExpr query.keyExpr maxStringIdLen with
  | some identity => some identity
  | none =>
    match query.oid.bind parseU64 with
    | some oid => some (.numeric oid)
    | none =>
      match query.oidStr.bind Str.fromUtf8 with
      | none => none
      | some raw =>
        match normalizeObjectId raw maxStringIdLen with
        | .ok norm => some (.str norm)
        | .error _ => none

/-! ## What the handlers address -/

inductive Address
  | object (id : Str)
  | entry (id key : Str)
  deriving DecidableEq

def getterAddress (query : Query) (maxStringIdLen : Nat) : Except Bytes Address :=
  match parseEntryRequest query.keyExpr maxStringIdLen with
  | some (.numeric _, _) => .error (text "granular storage requires string object ids")
  | some (.str sid, rawEntryKey) =>
    match normalizeEntryKey rawEntryKey maxStringIdLen with
    | .ok entryKey => .ok (.entry sid entryKey)
    | .error e => .error (text "invalid entry key '" ++ rawEntryKey.bytes ++ text ("': " ++ e.message))
  | none =>
    match parseIdentityFromQuery query maxStringIdLen with
    | some identity => .ok (.object identity.storageId)
    | none => .error (text "invalid object id")

def setterAddress (query : Query) (maxStringIdLen : Nat) : Except Bytes Str :=
  match parseIdentityFromQuery query maxStringIdLen with
  | some identity => .ok identity.storageId
  | none => .error (text "invalid object id")

def batchSetAddress (query : Query) (maxStringIdLen : Nat) : Except Bytes Str :=
  match parseBatchSetIdentity query.keyExpr maxStringIdLen with
  | none => .error (text "invalid object id")
  | some (.numeric _) => .error (text "granular storage requires string object ids")
  | some (.str sid) => .ok sid

/-! ## The paths of the proxy -/

namespace Proxy

variable (cls : Str) (partition : UInt32)

def collectionPath : Bytes :=
  text "oprc" ++ slash :: (cls.bytes ++ slash :: (decimal partition.toNat ++ slash :: objectsWord))

def query (path : Bytes) : Query := ⟨path, none, none⟩
def getPath (id : Str) : Query := query (collectionPath cls partition ++ slash :: id.bytes)
def setPath (id : Str) : Query := query (collectionPath cls partition ++ slash :: (id.bytes ++ slash :: setWord))

def batchSetPath (id : Str) : Query :=
  query (collectionPath cls partition ++ slash :: (id.bytes ++ slash :: batchSetWord))

def entryPath (id key : Str) : Query :=
  query (collectionPath cls partition ++ slash :: (id.bytes ++ slash :: (entriesWord ++ slash :: key.bytes)))

end Proxy

/-! ## Parsers by the segments behind `objects` -/

section
variable {expr : Bytes} {front rest : List Bytes} {maxLen : Nat}

theorem objectsPos_eq (h : objectsWord ∉ rest) : objectsPos (front ++ objectsWord :: rest) = some front.length := by
  apply rposition_append_cons
  · exact beq_self_eq_true _
  · intro y hy
    rw [beq_eq_false_iff_ne]
    rintro rfl
    exact h hy

theorem getElem?_behind (front rest : List Bytes) (i : Nat) :
    (front ++ objectsWord :: rest)[front.length + (i + 1)]? = rest[i]? := by
  rw [getElem?_append_right (by omega), Nat.add_sub_cancel_left, getElem?_cons_succ]

variable (hsplit : splitPathSegments expr = front ++ objectsWord :: rest)
include hsplit

variable (h : objectsWord ∉ rest)
include h

theorem extractIdentity_of_split : extractIdentityFromExpr expr maxLen = rest[0]?.bind fun candidate =>
      if candidate ∈ verbs then rest[1]?.bind fun next => parseObjectIdentitySegment next maxLen
      else parseObjectIdentitySegment candidate maxLen := by
  unfold extractIdentityFromExpr
  have h0 := getElem?_behind front rest 0
  have h1 := getElem?_behind front rest 1
  simp only [hsplit, objectsPos_eq h, Option.bind_eq_bind, Option.bind_some, h0, h1]

theorem parseEntryRequest_of_split : parseEntryRequest expr maxLen = rest[2]?.bind fun key =>
      if rest[1]? = some entriesWord then
        rest[0]?.bind fun segment => (parseObjectIdentitySegment segment maxLen).bind fun identity =>
          (Str.fromUtf8 key).bind fun entryKey => some (identity, entryKey)
      else none := by
  unfold parseEntryRequest
  have h0 := getElem?_behind front rest 0
  have h1 := getElem?_behind front rest 1
  have h2 := getElem?_behind front rest 2
  simp only [hsplit, objectsPos_eq h, Option.bind_eq_bind, Option.bind_some, h0, h1, h2]
  rfl

theorem parseBatchSetIdentity_of_split : parseBatchSetIdentity expr maxLen =
      if rest[1]? = some batchSetWord then
        rest[0]?.bind fun segment => parseObjectIdentitySegment segment maxLen
      else none := by
  unfold parseBatchSetIdentity
  have h0 := getElem?_behind front rest 0
  have h1 := getElem?_behind front rest 1
  simp only [hsplit, objectsPos_eq h, Option.bind_eq_bind, Option.bind_some, h0, h1]

end

theorem notMem_verbs {w : Bytes} : w ∉ verbs ↔ w ≠ getWord ∧ w ≠ setWord ∧ w ≠ batchSetWord := by
  simp [verbs]

/-! ## Ids that normalize -/

section
variable {maxLen : Nat} {raw norm : Str}

section
variable (h : normalizeObjectId raw maxLen = .ok norm)
include h

theorem raw_ne_nil : raw.bytes ≠ [] := by
  intro hnil
  rw [normalizeObjectId, if_pos hnil] at h
  cases h

theorem slash_notMem : slash ∉ raw.bytes := by
  intro hmem
  obtain ⟨hbytes, hvalid⟩ := normalizeObjectId_ok h
  have hslash := hvalid (asciiLower slash) (hbytes ▸ mem_map_of_mem hmem)
  exact absurd hslash (by decide)

theorem parseSegment_of_normalizes :
    parseObjectIdentitySegment raw.bytes maxLen = some ((parseU64 raw.bytes).elim (.str norm) .numeric) := by
  unfold parseObjectIdentitySegment
  cases parseU64 raw.bytes with
  | none => simp only [Str.fromUtf8_bytes, h, Option.elim_none]
  | some num => rfl

end

theorem parseSegment_bytes {segment : Bytes} {identity : ObjectIdentity} (hnum : parseU64 segment = none)
    (h : parseObjectIdentitySegment segment maxLen = some identity) :
    identity.storageId.bytes = segment.map asciiLower := by
  rw [parseObjectIdentitySegment, hnum] at h
  cases hstr : Str.fromUtf8 segment with
  | none => simp [hstr] at h
  | some raw =>
    obtain rfl := Str.bytes_of_fromUtf8 hstr
    cases hnorm : normalizeObjectId raw maxLen with
    | error e => simp [hnorm] at h
    | ok norm =>
      simp only [Str.fromUtf8_bytes, hnorm, Option.some.injEq] at h
      subst h
      exact (normalizeObjectId_ok hnorm).1

end

namespace Proxy

section
variable (cls : Str) (partition : UInt32) {raw norm key normKey : Str} {maxLen : Nat}

def front : List Bytes :=
  segments slash (text "oprc") ++ (segments slash cls.bytes ++ segments slash (decimal partition.toNat))

theorem split_collectionPath {tail : Bytes} {rest : List Bytes} (htail : segments slash tail = rest) :
    splitPathSegments (collectionPath cls partition ++ slash :: tail) =
      front cls partition ++ objectsWord :: rest := by
  have hword : segments slash objectsWord = [objectsWord] :=
    segments_word slash (by decide +kernel) (by decide +kernel)
  rw [splitPathSegments, segments_append, collectionPath, segments_append, segments_append, segments_append, hword,
    front, htail]
  simp only [append_assoc, singleton_append]

/-- An id that is the word `objects` is taken for that of the path. -/
theorem split_id {tail : Bytes} {rest : List Bytes} (htail : segments slash tail = raw.bytes :: rest)
    (hrest : objectsWord ∉ rest) :
    ∃ front, splitPathSegments (collectionPath cls partition ++ slash :: tail) =
        front ++ objectsWord :: (if raw.bytes = objectsWord then rest else raw.bytes :: rest) ∧
      objectsWord ∉ (if raw.bytes = objectsWord then rest else raw.bytes :: rest) := by
  rw [split_collectionPath cls partition htail]
  by_cases hobj : raw.bytes = objectsWord
  · exact ⟨front cls partition ++ [objectsWord], by simp [hobj], by simpa [hobj] using hrest⟩
  · exact ⟨front cls partition, by rw [if_neg hobj], by simp [hobj, Ne.symm hobj, hrest]⟩

theorem segments_id (h : normalizeObjectId raw maxLen = .ok norm) : segments slash raw.bytes = [raw.bytes] :=
  segments_word slash (raw_ne_nil h) (slash_notMem h)

theorem segments_id_word (h : normalizeObjectId raw maxLen = .ok norm) (word : Bytes) (hne : word ≠ [])
    (hword : slash ∉ word) : segments slash (raw.bytes ++ slash :: word) = [raw.bytes, word] := by
  rw [segments_append, segments_id h, segments_word slash hne hword]
  rfl

theorem parseIdentity_query (path : Bytes) :
    parseIdentityFromQuery (query path) maxLen = extractIdentityFromExpr path maxLen := by
  unfold parseIdentityFromQuery query
  cases extractIdentityFromExpr path maxLen <;> rfl

/-- An id that reads as a number is that number in decimal. -/
def CanonicalNumber (raw norm : Str) : Prop := ∀ num, parseU64 raw.bytes = some num → Str.ofU64 num = norm

theorem storageId_eq_iff :
    ((parseU64 raw.bytes).elim (ObjectIdentity.str norm) .numeric).storageId = norm ↔ CanonicalNumber raw norm := by
  unfold CanonicalNumber
  cases parseU64 raw.bytes with
  | none | some num => simp [ObjectIdentity.storageId]

/-! ## The four paths -/

section
variable (h : normalizeObjectId raw maxLen = .ok norm)
include h

theorem getPath_iff : getterAddress (getPath cls partition raw) maxLen = .ok (.object norm) ↔
      raw.bytes ≠ objectsWord ∧ raw.bytes ∉ verbs ∧ CanonicalNumber raw norm := by
  obtain ⟨front, hsplit, hno⟩ := split_id cls partition (segments_id h) not_mem_nil
  have hentry : parseEntryRequest (getPath cls partition raw).keyExpr maxLen = _ := parseEntryRequest_of_split hsplit hno
  have hidentity : parseIdentityFromQuery (getPath cls partition raw) maxLen = _ :=
    (parseIdentity_query _).trans (extractIdentity_of_split hsplit hno)
  by_cases hobj : raw.bytes = objectsWord
  · simp [getterAddress, hentry, hidentity, hobj]
  · by_cases hverb : raw.bytes ∈ verbs
    · simp [getterAddress, hentry, hidentity, hverb, hobj]
    · simp [getterAddress, hentry, hidentity, hverb, hobj, parseSegment_of_normalizes h, storageId_eq_iff]

/-- Behind `set` the id `set` is found by accident: its verb is skipped and the one of the path is read. -/
theorem setPath_iff : setterAddress (setPath cls partition raw) maxLen = .ok norm ↔
      raw.bytes ≠ objectsWord ∧ raw.bytes ≠ getWord ∧ raw.bytes ≠ batchSetWord ∧ CanonicalNumber raw norm := by
  have hseg := segments_id_word h setWord (by decide +kernel) (by decide +kernel)
  have hsetVerb : setWord ∈ verbs := by decide +kernel
  obtain ⟨front, hsplit, hno⟩ := split_id cls partition hseg (by decide +kernel)
  have hidentity : parseIdentityFromQuery (setPath cls partition raw) maxLen = _ :=
    (parseIdentity_query _).trans (extractIdentity_of_split hsplit hno)
  by_cases hobj : raw.bytes = objectsWord
  · simp [setterAddress, hidentity, hsetVerb, hobj]
  · rw [if_neg hobj] at hidentity
    by_cases hverb : raw.bytes ∈ verbs
    · by_cases hset : raw.bytes = setWord
      · have hget : setWord ≠ getWord := by decide +kernel
        have hbatch : setWord ≠ batchSetWord := by decide +kernel
        have hparse := parseSegment_of_normalizes h
        rw [hset] at hparse hidentity hobj
        simp only [getElem?_cons_zero, getElem?_cons_succ, Option.bind_some, hsetVerb, if_true, hparse]
          at hidentity
        simp only [setterAddress, hidentity, Except.ok.injEq, ← hset, storageId_eq_iff]
        simp [hset, hobj, hget, hbatch]
      · -- The verb of the path is read in place of the id.
        have hother : raw.bytes = getWord ∨ raw.bytes = batchSetWord := by
          simpa [verbs, hset] using hverb
        refine iff_of_false ?_ ?_
        · intro haddr
          simp only [getElem?_cons_zero, getElem?_cons_succ, Option.bind_some, hverb, if_true] at hidentity
          cases hparse : parseObjectIdentitySegment setWord maxLen with
          | none => simp [setterAddress, hidentity, hparse] at haddr
          | some identity =>
            simp only [setterAddress, hidentity, hparse, Except.ok.injEq] at haddr
            have hbytes := parseSegment_bytes (by decide +kernel) hparse
            rw [haddr, (normalizeObjectId_ok h).1] at hbytes
            rcases hother with hraw | hraw <;> exact absurd (hraw ▸ hbytes) (by decide +kernel)
        · rintro ⟨_, hget, hbatch, _⟩
          exact hother.elim hget hbatch
    · obtain ⟨hget, _, hbatch⟩ := notMem_verbs.1 hverb
      simp [setterAddress, hidentity, hverb, hobj, hget, hbatch, parseSegment_of_normalizes h, storageId_eq_iff]

theorem batchSetPath_iff : batchSetAddress (batchSetPath cls partition raw) maxLen = .ok norm ↔
      raw.bytes ≠ objectsWord ∧ parseU64 raw.bytes = none := by
  have hseg := segments_id_word h batchSetWord (by decide +kernel) (by decide +kernel)
  obtain ⟨front, hsplit, hno⟩ := split_id cls partition hseg (by decide +kernel)
  have hidentity : parseBatchSetIdentity (batchSetPath cls partition raw).keyExpr maxLen = _ :=
    parseBatchSetIdentity_of_split hsplit hno
  by_cases hobj : raw.bytes = objectsWord
  · simp [batchSetAddress, hidentity, hobj]
  · cases hnum : parseU64 raw.bytes with
    | none => simp [batchSetAddress, hidentity, parseSegment_of_normalizes h, hnum, hobj]
    | some num => simp [batchSetAddress, hidentity, parseSegment_of_normalizes h, hnum, hobj]

omit h in
theorem getterAddress_ne_entry {q : Query} (hentry : parseEntryRequest q.keyExpr maxLen = none) (id key : Str) :
    getterAddress q maxLen ≠ .ok (.entry id key) := by
  simp only [getterAddress, hentry]
  cases parseIdentityFromQuery q maxLen <;> simp

theorem entryPath_iff (hkey : normalizeEntryKey key maxLen = .ok normKey) :
    getterAddress (entryPath cls partition raw key) maxLen = .ok (.entry norm normKey) ↔
      raw.bytes ≠ objectsWord ∧ key.bytes ≠ objectsWord ∧ parseU64 raw.bytes = none := by
  have hseg : segments slash (raw.bytes ++ slash :: (entriesWord ++ slash :: key.bytes)) =
      [raw.bytes, entriesWord, key.bytes] := by
    have hentries : segments slash entriesWord = [entriesWord] :=
      segments_word slash (by decide +kernel) (by decide +kernel)
    rw [segments_append, segments_append, segments_id h, hentries, segments_id hkey]
    rfl
  have hword : objectsWord ≠ entriesWord := by decide +kernel
  by_cases hkeyObj : key.bytes = objectsWord
  · -- The last `objects` is the key.
    have hlast : splitPathSegments (entryPath cls partition raw key).keyExpr =
        (front cls partition ++ [objectsWord, raw.bytes, entriesWord]) ++ objectsWord :: [] := by
      rw [append_assoc]
      exact (split_collectionPath cls partition hseg).trans (by rw [hkeyObj]; rfl)
    have hentry : parseEntryRequest (entryPath cls partition raw key).keyExpr maxLen = none :=
      parseEntryRequest_of_split hlast not_mem_nil
    exact iff_of_false (getterAddress_ne_entry hentry _ _) (fun hcond => hcond.2.1 hkeyObj)
  obtain ⟨front, hsplit, hno⟩ := split_id cls partition hseg (by simp [hword, Ne.symm hkeyObj])
  have hentry : parseEntryRequest (entryPath cls partition raw key).keyExpr maxLen = _ :=
    parseEntryRequest_of_split hsplit hno
  by_cases hobj : raw.bytes = objectsWord
  · rw [if_pos hobj] at hentry
    exact iff_of_false (getterAddress_ne_entry hentry _ _) (fun hcond => hcond.1 hobj)
  · cases hnum : parseU64 raw.bytes with
    | none => simp [getterAddress, hentry, parseSegment_of_normalizes h, hnum, hobj, hkeyObj, hkey]
    | some num => simp [getterAddress, hentry, parseSegment_of_normalizes h, hnum, hobj]

theorem buildIdentity_of_normalizes (enabled : Bool) :
    (DataService.mk maxLen enabled).buildIdentityFromString raw = .ok norm := by
  simp only [DataService.buildIdentityFromString, if_neg (raw_ne_nil h), h]

end

/-- The id is no word of the path and no number. -/
def Addressable (raw : Str) : Prop := raw.bytes ≠ objectsWord ∧ raw.bytes ∉ verbs ∧ parseU64 raw.bytes = none

theorem Addressable.canonical (h : Addressable raw) (norm : Str) : CanonicalNumber raw norm := by
  intro num hnum
  rw [h.2.2] at hnum
  cases hnum

theorem Addressable.settable (h : Addressable raw) (norm : Str) :
    raw.bytes ≠ getWord ∧ raw.bytes ≠ batchSetWord ∧ CanonicalNumber raw norm := by
  obtain ⟨hget, _, hbatch⟩ := notMem_verbs.1 h.2.1
  exact ⟨hget, hbatch, h.canonical norm⟩

end

/-- **Key-expression addressing**: gRPC names the normalized id, and which ids each of the four paths names it for. -/
theorem proxy_addressing_iff (maxLen : Nat) (enabled : Bool) (cls : Str) (partition : UInt32) {raw norm : Str}
    (h : normalizeObjectId raw maxLen = .ok norm) {key normKey : Str}
    (hkey : normalizeEntryKey key maxLen = .ok normKey) :
    (DataService.mk maxLen enabled).buildIdentityFromString raw = .ok norm ∧
    (getterAddress (getPath cls partition raw) maxLen = .ok (.object norm) ↔
      raw.bytes ≠ objectsWord ∧ raw.bytes ∉ verbs ∧ CanonicalNumber raw norm) ∧
    (setterAddress (setPath cls partition raw) maxLen = .ok norm ↔
      raw.bytes ≠ objectsWord ∧ raw.bytes ≠ getWord ∧ raw.bytes ≠ batchSetWord ∧ CanonicalNumber raw norm) ∧
    (batchSetAddress (batchSetPath cls partition raw) maxLen = .ok norm ↔
      raw.bytes ≠ objectsWord ∧ parseU64 raw.bytes = none) ∧
    (getterAddress (entryPath cls partition raw key) maxLen = .ok (.entry norm normKey) ↔
      raw.bytes ≠ objectsWord ∧ key.bytes ≠ objectsWord ∧ parseU64 raw.bytes = none) ∧
    ∀ raw' norm', normalizeObjectId raw' maxLen = .ok norm' → Addressable raw → Addressable raw' → norm ≠ norm' →
      getterAddress (getPath cls partition raw) maxLen ≠ getterAddress (getPath cls partition raw') maxLen ∧
      setterAddress (setPath cls partition raw) maxLen ≠ setterAddress (setPath cls partition raw') maxLen ∧
      batchSetAddress (batchSetPath cls partition raw) maxLen ≠ batchSetAddress (batchSetPath cls partition raw') maxLen ∧
      (key.bytes ≠ objectsWord → getterAddress (entryPath cls partition raw key) maxLen ≠
        getterAddress (entryPath cls partition raw' key) maxLen) := by
  refine ⟨buildIdentity_of_normalizes h enabled, getPath_iff cls partition h, setPath_iff cls partition h,
    batchSetPath_iff cls partition h, entryPath_iff cls partition h hkey, ?_⟩
  intro raw' norm' h' haddr haddr' hne
  refine ⟨?_, ?_, ?_, ?_⟩
  · rw [(getPath_iff cls partition h).2 ⟨haddr.1, haddr.2.1, haddr.canonical norm⟩,
      (getPath_iff cls partition h').2 ⟨haddr'.1, haddr'.2.1, haddr'.canonical norm'⟩]
    simpa using hne
  · rw [(setPath_iff cls partition h).2 ⟨haddr.1, haddr.settable norm⟩,
      (setPath_iff cls partition h').2 ⟨haddr'.1, haddr'.settable norm'⟩]
    simpa using hne
  · rw [(batchSetPath_iff cls partition h).2 ⟨haddr.1, haddr.2.2⟩,
      (batchSetPath_iff cls partition h').2 ⟨haddr'.1, haddr'.2.2⟩]
    simpa using hne
  · intro hobj
    rw [(entryPath_iff cls partition h hkey).2 ⟨haddr.1, hobj, haddr.2.2⟩,
      (entryPath_iff cls partition h' hkey).2 ⟨haddr'.1, hobj, haddr'.2.2⟩]
    simpa using hne

/-! ## Ids that are misread -/

namespace Misread

def cls : Str := ⟨[99], by decide, by decide⟩

def padded : Str := ⟨[0x30, 0x30, 0x37], by decide, by decide⟩
def seven : Str := ⟨[0x37], by decide, by decide⟩
def getId : Str := ⟨[0x67, 0x65, 0x74], by decide, by decide⟩
def setId : Str := ⟨[0x73, 0x65, 0x74], by decide, by decide⟩

/-- `007` is read as the object `7`, and setting the object `get` sets the object `set`. -/
theorem ids_misread :
    (normalizeObjectId padded 160 = .ok padded ∧ normalizeObjectId seven 160 = .ok seven ∧
      normalizeObjectId getId 160 = .ok getId) ∧
    getterAddress (getPath cls 0 padded) 160 = .ok (.object seven) ∧
    getterAddress (getPath cls 0 seven) 160 = .ok (.object seven) ∧
    batchSetAddress (batchSetPath cls 0 seven) 160 = .error (text "granular storage requires string object ids") ∧
    getterAddress (getPath cls 0 getId) 160 = .error (text "invalid object id") ∧
    setterAddress (setPath cls 0 getId) 160 = .ok setId := by
  refine ⟨⟨?_, ?_, ?_⟩, ?_, ?_, ?_, ?_, ?_⟩
  all_goals rfl

theorem proxy_addressing_plain :
    getterAddress (getPath cls 0 Recreated.id.str) 160 = .ok (.object Recreated.id.str) :=
  (proxy_addressing_iff 160 true cls 0 (show normalizeObjectId Recreated.id.str 160 = .ok Recreated.id.str from rfl)
    (show normalizeEntryKey Recreated.key 160 = .ok Recreated.key from rfl)).2.1.2
    ⟨by decide +kernel, by decide +kernel, fun num hnum => by cases hnum⟩

end Misread

end Proxy

end Odgm
