import OaasIot.Crm.Naming
import OaasIot.Lib.DnsLabel

/-!
# Valid resource names (`grpc/helpers.rs`)

The name of a runtime is the id of its deployment after `sanitizeName`: lower case, no hyphens at its ends, up to 253
characters. `dns1035Safe` makes a label of it.
-/

open DnsLabel

namespace Crm

open List

/-! ## The name of a runtime -/

def sanitizeName (id : String) : String := String.ofList (trimHyphens (id.toList.map nameChar))

def validateName (name : String) : Except String Unit :=
  if name.isEmpty then .error "invalid deployment_id: empty after sanitization"
  else if 253 < name.length then .error "invalid deployment_id: length exceeds 253 characters"
  else .ok ()

/-! ## Characters -/

theorem isUpper_toLower (c : Char) : c.toLower.isUpper = false := by
  rw [Bool.eq_false_iff]
  intro h
  simp only [Char.toLower, Char.isUpper] at h
  grind

theorem labelChar_nameChar (c : Char) : LabelChar (nameChar c) := by
  unfold nameChar
  split
  · rename_i h
    simp only [Char.isAlphanum, Char.isAlpha, isUpper_toLower, Bool.false_or, Bool.or_eq_true, beq_iff_eq] at h
    rcases h with (h | h) | h
    · exact .inl h
    · exact .inr (.inl h)
    · exact .inr (.inr h)
  · exact .inr (.inr rfl)

variable {c : Char}

theorem nameChar_eq_self (h : LabelChar c) : nameChar c = c := by
  have hlower : c.toLower = c := by
    rw [Char.toLower, dif_neg]
    intro hrange
    have hup := h.not_isUpper
    simp only [Char.isUpper, decide_eq_false_iff_not] at hup
    exact hup hrange
  unfold nameChar
  rw [hlower]
  by_cases hc : c = '-'
  · simp [hc]
  · rw [(h.alnum hc).isAlphanum]
    rfl

/-! ## Trimming -/

variable {cs : List Char}

theorem rdropWhile_eq_self (h : cs.getLast? = some c) (hc : c ≠ '-') : cs.rdropWhile (· == '-') = cs := by
  rw [rdropWhile_eq_self_iff]
  intro hne
  rw [getLast?_eq_some_getLast hne, Option.some.injEq] at h
  simpa [h] using hc

theorem trimHyphens_eq_self {first last : Char} (hfirst : cs.head? = some first) (hne : first ≠ '-')
    (hlast : cs.getLast? = some last) (hne' : last ≠ '-') : trimHyphens cs = cs := by
  have hdrop : cs.dropWhile (· == '-') = cs := by
    cases cs with
    | nil => rfl
    | cons c cs =>
      obtain rfl : c = first := by simpa using hfirst
      exact dropWhile_cons_of_neg (by simpa using hne)
  rw [trimHyphens, hdrop, rdropWhile_eq_self hlast hne']

theorem labelChar_trimHyphens {id : String} : ∀ c ∈ trimHyphens (id.toList.map nameChar), LabelChar c := by
  intro c hc
  obtain ⟨d, _, rfl⟩ := mem_map.1 (mem_of_mem_trimHyphens hc)
  exact labelChar_nameChar d

/-! ## The steps of `dns1035Safe` -/

def lettered (c : Char) (cs : List Char) : List Char := if c.isAlpha then c :: cs else 'a' :: c :: cs

section Lettered

variable {c : Char} {cs : List Char}

theorem lettered_eq_cons (h : ∀ d ∈ c :: cs, LabelChar d) :
    ∃ d ds, lettered c cs = d :: ds ∧ d.isLower = true ∧ ∀ e ∈ d :: ds, LabelChar e := by
  unfold lettered
  split
  · rename_i hal
    exact ⟨c, cs, rfl, by rwa [(h c mem_cons_self).isAlpha] at hal, h⟩
  · exact ⟨'a', c :: cs, rfl, by decide, forall_mem_cons.2 ⟨by decide, h⟩⟩

theorem isLabel_cut (h : ∀ d ∈ c :: cs, LabelChar d) :
    IsLabel (String.ofList (((lettered c cs).take 63).rdropWhile (· == '-'))) := by
  obtain ⟨d, ds, heq, hlow, hchars⟩ := lettered_eq_cons h
  rw [heq, take_succ_cons]
  refine isLabel_rdropWhile hlow (fun e he => hchars e ?_) (by simp)
  exact (take_subset 63 (d :: ds)) he

end Lettered

theorem dns1035Safe_of_cons {name : String} (h : trimHyphens (name.toList.map nameChar) = c :: cs) :
    dns1035Safe name = String.ofList (((lettered c cs).take 63).rdropWhile (· == '-')) := by
  have hchars : ∀ d ∈ c :: cs, LabelChar d := h ▸ labelChar_trimHyphens
  obtain ⟨e, he, hal⟩ := (isLabel_cut hchars).tail.last
  rw [Option.mem_def, String.toList_ofList] at he
  have hne : (((lettered c cs).take 63).rdropWhile (· == '-')).isEmpty = false := by
    cases hcut : ((lettered c cs).take 63).rdropWhile (· == '-') with
    | nil => rw [hcut] at he; cases he
    | cons a as => rfl
  unfold lettered at he hne ⊢
  rw [dns1035Safe, h]
  simp only [he, hal.isAlphanum, if_true, orDefault, hne, Bool.false_eq_true, if_false]

variable (name : String)

theorem isLabel_dns1035Safe : IsLabel (dns1035Safe name) := by
  cases h : trimHyphens (name.toList.map nameChar) with
  | nil =>
    rw [dns1035Safe, h]
    decide
  | cons c cs =>
    rw [dns1035Safe_of_cons h]
    exact isLabel_cut (h ▸ labelChar_trimHyphens)

variable {s : String}

theorem map_nameChar_eq_self (h : ∀ c ∈ s.toList, LabelChar c) : s.toList.map nameChar = s.toList :=
  (map_congr_left fun c hc => nameChar_eq_self (h c hc)).trans (map_id _)

theorem sanitizeName_of_isLabel (h : IsLabel s) : sanitizeName s = s := by
  obtain ⟨first, hfirst, hlow⟩ := h.first
  obtain ⟨last, hlast, hal⟩ := h.tail.last
  rw [sanitizeName, map_nameChar_eq_self h.tail.chars,
    trimHyphens_eq_self hfirst (Alnum.ne_hyphen (.inl hlow)) hlast hal.ne_hyphen, String.ofList_toList]

theorem dns1035Safe_of_isLabel (h : IsLabel s) : dns1035Safe s = s := by
  obtain ⟨first, hfirst, hlow⟩ := h.first
  obtain ⟨last, hlast, hal⟩ := h.tail.last
  have htrim := congrArg String.toList (sanitizeName_of_isLabel h)
  rw [sanitizeName, String.toList_ofList] at htrim
  cases hs : s.toList with
  | nil => rw [hs] at hfirst; cases hfirst
  | cons c cs =>
    obtain rfl : c = first := by simpa [hs] using hfirst
    have hlettered : lettered c cs = s.toList := by
      rw [lettered, if_pos (by simp [Char.isAlpha, hlow]), hs]
    have htake : s.toList.take 63 = s.toList := take_of_length_le (String.length_toList ▸ h.length)
    rw [dns1035Safe_of_cons (htrim.trans hs), hlettered, htake, rdropWhile_eq_self hlast hal.ne_hyphen,
      String.ofList_toList]

/-! ## Accepted names -/

theorem isLabel_sanitizeName_iff (id : String) : IsLabel (sanitizeName id) ↔
    (sanitizeName id).length ≤ 63 ∧ ∃ c ∈ (sanitizeName id).toList.head?, c.isLower = true := by
  refine ⟨fun h => ⟨h.length, h.first⟩, fun ⟨hlen, hfirst⟩ => ⟨hlen, ⟨?_, ?_⟩, hfirst⟩⟩
  · rw [sanitizeName, String.toList_ofList]
    exact labelChar_trimHyphens
  · obtain ⟨c, hc, _⟩ := hfirst
    rw [sanitizeName, String.toList_ofList, Option.mem_def] at hc
    have hne : trimHyphens (id.toList.map nameChar) ≠ [] := by
      intro hnil
      rw [hnil] at hc
      cases hc
    obtain ⟨e, he⟩ : ∃ e, (trimHyphens (id.toList.map nameChar)).getLast? = some e :=
      ⟨_, getLast?_eq_some_getLast hne⟩
    refine ⟨e, by simpa [sanitizeName] using he, ?_⟩
    exact (labelChar_trimHyphens e (mem_of_getLast? he)).alnum (getLast?_rdropWhile he)

theorem dns1035Safe_eq_self_iff (id : String) : dns1035Safe (sanitizeName id) = sanitizeName id ↔
    (sanitizeName id).length ≤ 63 ∧ ∃ c ∈ (sanitizeName id).toList.head?, c.isLower = true := by
  rw [← isLabel_sanitizeName_iff]
  exact ⟨fun h => h ▸ isLabel_dns1035Safe _, dns1035Safe_of_isLabel⟩

/-! ## The names of the children -/

theorem isLabel_functionServiceName_iff (idx total : Nat) :
    IsLabel (functionServiceName name idx total) ↔
      (1 < total → (dns1035Safe name).length + 4 + (toString idx).length ≤ 63) := by
  unfold functionServiceName
  split
  · rename_i h
    have htail : IsTail ("-fn-" ++ toString idx) := (isTail_toString idx).append (by decide)
    rw [String.append_assoc, (isLabel_dns1035Safe name).append_iff htail, String.length_append]
    have hfn : "-fn-".length = 4 := by decide
    rw [hfn, ← Nat.add_assoc]
    exact ⟨fun hle _ => hle, fun hle => hle h⟩
  · rename_i h
    exact iff_of_true (isLabel_dns1035Safe name) fun h' => absurd h' h

theorem isLabel_odgm_iff : IsLabel (dns1035Safe name ++ "-odgm") ↔ (dns1035Safe name).length + 5 ≤ 63 :=
  (isLabel_dns1035Safe name).append_iff (by decide)

theorem isLabel_odgmSvc_iff : IsLabel (dns1035Safe name ++ "-odgm" ++ "-svc") ↔ (dns1035Safe name).length + 9 ≤ 63 := by
  rw [String.append_assoc]
  exact (isLabel_dns1035Safe name).append_iff (by decide)

end Crm
