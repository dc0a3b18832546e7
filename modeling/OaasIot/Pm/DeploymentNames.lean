import OaasIot.Crm.ResourceNames
import OaasIot.Crm.Templates

/-!
# The names made from a deployment id (`oprc-pm/src/services/deployment/units.rs`)

The package manager leaves room for a random suffix (`max_base = 63 - 1 - 8`), so the id is a label. The runtime manager
appends `-fn-<i>`, `-odgm` or `-odgm-svc` to it. **No room is left for these.**
-/

open DnsLabel Crm

namespace Pm

open List

def dnsLabelSafe (s : String) : List Char :=
  let trimmed := trimHyphens (s.toList.map nameChar)
  let cut :=
    match if trimmed.isEmpty then ['x'] else trimmed with
    | [] => []
    | c :: cs => (lettered c cs).rdropWhile (· == '-')
  if cut.isEmpty then ['x'] else cut

def gatherSuffix (suffix : List Char) : List String → Option (List Char)
  | [] => if suffix.length < 8 then none else some suffix
  | candidate :: rest =>
    if suffix.length < 8 then
      gatherSuffix ((suffix ++ (candidate.toList.filter Char.isAlphanum).map Char.toLower).take 8) rest
    else some suffix

def deploymentBase (className : String) : List Char :=
  let base := ((dnsLabelSafe className).take 54).rdropWhile (· == '-')
  if base.isEmpty then ['x'] else base

def deploymentId (className : String) (suffix : List Char) : String :=
  String.ofList (deploymentBase className) ++ ("-" ++ String.ofList suffix)

def genSafeDeploymentId (className : String) (nanoids : List String) : Option String :=
  (gatherSuffix [] nanoids).map (deploymentId className)

def derivedNames (id : String) (functions : Nat) : List String :=
  let name := sanitizeName id
  name :: (List.range functions).map (fun i => functionServiceName name i functions) ++
    (odgmResources name).map (·.name)

/-! ## The id -/

theorem dnsLabelSafe_eq_cons (s : String) :
    ∃ d ds, dnsLabelSafe s = d :: ds ∧ d.isLower = true ∧ ∀ e ∈ d :: ds, LabelChar e := by
  obtain ⟨c, cs, hfilled, hchars⟩ : ∃ c cs, (if (trimHyphens (s.toList.map nameChar)).isEmpty then ['x']
      else trimHyphens (s.toList.map nameChar)) = c :: cs ∧ ∀ d ∈ c :: cs, LabelChar d := by
    cases htrim : trimHyphens (s.toList.map nameChar) with
    | nil => exact ⟨'x', [], rfl, by decide⟩
    | cons c cs => exact ⟨c, cs, rfl, htrim ▸ labelChar_trimHyphens⟩
  obtain ⟨d, ds, hlettered, hlow, hall⟩ := lettered_eq_cons hchars
  obtain ⟨es, hcut, hes⟩ := rdropWhile_cons_of_ne ds (Alnum.ne_hyphen (.inl hlow))
  refine ⟨d, es, ?_, hlow, fun e he => hall e ((cons_prefix_cons.2 ⟨rfl, hes⟩).subset he)⟩
  unfold dnsLabelSafe
  simp only [hfilled, hlettered, hcut, isEmpty_cons, Bool.false_eq_true, if_false]

theorem isLabel_deploymentBase (className : String) :
    IsLabel (String.ofList (deploymentBase className)) ∧ (deploymentBase className).length ≤ 54 := by
  obtain ⟨d, ds, hsafe, hlow, hchars⟩ := dnsLabelSafe_eq_cons className
  obtain ⟨es, hcut, hes⟩ := rdropWhile_cons_of_ne (ds.take 53) (Alnum.ne_hyphen (.inl hlow))
  have hbase : deploymentBase className = (d :: ds.take 53).rdropWhile (· == '-') := by
    unfold deploymentBase
    simp only [hsafe, take_succ_cons, hcut, isEmpty_cons, Bool.false_eq_true, if_false]
  have htake : (d :: ds.take 53).length ≤ 54 := by simp
  constructor
  · rw [hbase]
    exact isLabel_rdropWhile hlow (fun e he => hchars e (take_subset 54 (d :: ds) he)) (by omega)
  · rw [hbase, hcut]
    exact ((cons_prefix_cons.2 ⟨rfl, hes⟩).length_le).trans htake

theorem alnum_toLower {c : Char} (h : c.isAlphanum = true) : Alnum c.toLower := by
  by_cases hup : c.val ≥ 'A'.val ∧ c.val ≤ 'Z'.val
  · refine .inl ?_
    have hA : 'A'.val.toNat = 65 := rfl
    have hZ : 'Z'.val.toNat = 90 := rfl
    have hval : (c.val + ('a'.val - 'A'.val)).toNat = c.val.toNat + 32 := by
      have hdiff : ('a'.val - 'A'.val).toNat = 32 := by decide
      have hle := UInt32.le_iff_toNat_le.1 hup.2
      rw [UInt32.toNat_add, hdiff]
      omega
    obtain ⟨hlo, hhi⟩ := hup
    rw [Char.toLower, dif_pos ⟨hlo, hhi⟩]
    simp only [Char.isLower, Bool.and_eq_true, decide_eq_true_eq, ge_iff_le, UInt32.le_iff_toNat_le] at hlo hhi ⊢
    have ha : 'a'.val.toNat = 97 := rfl
    have hz : 'z'.val.toNat = 122 := rfl
    omega
  · have hsame : c.toLower = c := by rw [Char.toLower, dif_neg hup]
    have hupper : c.isUpper = false := by simpa only [Char.isUpper, decide_eq_false_iff_not] using hup
    rw [hsame]
    simpa [Char.isAlphanum, Char.isAlpha, hupper, Alnum] using h

theorem gatherSuffix_spec {suffix gathered : List Char} {nanoids : List String} (hlen : suffix.length ≤ 8)
    (hal : ∀ c ∈ suffix, Alnum c) (h : gatherSuffix suffix nanoids = some gathered) :
    gathered.length = 8 ∧ ∀ c ∈ gathered, Alnum c := by
  induction nanoids generalizing suffix with
  | nil =>
    rw [gatherSuffix] at h
    split at h
    · cases h
    · obtain rfl := Option.some.inj h
      exact ⟨by omega, hal⟩
  | cons candidate rest ih =>
    rw [gatherSuffix] at h
    split at h
    · refine ih (length_take_le 8 _) (fun c hc => ?_) h
      rcases mem_append.1 (mem_of_mem_take hc) with hc | hc
      · exact hal c hc
      · obtain ⟨d, hd, rfl⟩ := mem_map.1 hc
        exact alnum_toLower (mem_filter.1 hd).2
    · obtain rfl := Option.some.inj h
      exact ⟨by omega, hal⟩

section Suffix

variable {className : String} {suffix : List Char}

variable (hlen : suffix.length = 8)
include hlen

theorem isTail_suffix (hal : ∀ c ∈ suffix, Alnum c) : IsTail ("-" ++ String.ofList suffix) := by
  refine IsTail.append (by decide) ⟨fun c hc => ?_, ?_⟩
  · rw [String.toList_ofList] at hc
    exact (hal c hc).elim .inl fun h => .inr (.inl h)
  · have hne : suffix ≠ [] := ne_nil_of_length_pos (by omega)
    refine ⟨suffix.getLast hne, ?_, hal _ (getLast_mem hne)⟩
    rw [String.toList_ofList, Option.mem_def, getLast?_eq_some_getLast hne]

theorem length_deploymentId : (deploymentId className suffix).length = (deploymentBase className).length + 9 := by
  have hhyphen : "-".length = 1 := by decide
  simp only [deploymentId, String.length_append, String.length_ofList, hlen, hhyphen]

theorem isLabel_deploymentId (hal : ∀ c ∈ suffix, Alnum c) : IsLabel (deploymentId className suffix) := by
  obtain ⟨hbase, hle⟩ := isLabel_deploymentBase className
  rw [deploymentId, hbase.append_iff (isTail_suffix hlen hal), ← String.length_append]
  change (deploymentId className suffix).length ≤ 63
  rw [length_deploymentId hlen]
  omega

end Suffix

/-! ## The names -/

theorem length_toString_mono {i j : Nat} (h : i ≤ j) : (toString i).length ≤ (toString j).length := by
  rw [← String.length_toList, ← String.length_toList, Nat.toString_eq_repr, Nat.toString_eq_repr, Nat.toList_repr,
    Nat.toList_repr]
  have hpos : 0 < (Nat.toDigits 10 j).length := length_pos_iff.2 Nat.toDigits_ne_nil
  rw [Nat.length_toDigits_le_iff (by decide) hpos]
  exact h.trans_lt ((Nat.length_toDigits_le_iff (by decide) hpos).1 le_rfl)

theorem isLabel_derivedNames_iff {id : String} (h : IsLabel id) (functions : Nat) :
    (∀ s ∈ derivedNames id functions, IsLabel s) ↔
      id.length + 9 ≤ 63 ∧ (1 < functions → id.length + 4 + (toString (functions - 1)).length ≤ 63) := by
  have hnames : ∀ s, s ∈ derivedNames id functions ↔ s = id ∨ (∃ i < functions, functionServiceName id i functions = s) ∨
      s = dns1035Safe id ++ "-odgm" ∨ s = dns1035Safe id ++ "-odgm" ++ "-svc" := by
    intro s
    simp [derivedNames, sanitizeName_of_isLabel h, odgmResources]
  constructor
  · intro hall
    refine ⟨?_, fun hone => ?_⟩
    · have := (isLabel_odgmSvc_iff id).1 (hall _ ((hnames _).2 (.inr (.inr (.inr rfl)))))
      rwa [dns1035Safe_of_isLabel h] at this
    · have hlast := hall _ ((hnames _).2 (.inr (.inl ⟨functions - 1, by omega, rfl⟩)))
      have := (isLabel_functionServiceName_iff id _ _).1 hlast hone
      rwa [dns1035Safe_of_isLabel h] at this
  · rintro ⟨hsvc, hfn⟩ s hs
    rcases (hnames s).1 hs with rfl | ⟨i, hi, rfl⟩ | rfl | rfl
    · exact h
    · rw [isLabel_functionServiceName_iff, dns1035Safe_of_isLabel h]
      intro hone
      have := length_toString_mono (show i ≤ functions - 1 by omega)
      have := hfn hone
      omega
    · rw [isLabel_odgm_iff, dns1035Safe_of_isLabel h]
      omega
    · rw [isLabel_odgmSvc_iff, dns1035Safe_of_isLabel h]
      exact hsvc

/-- **Valid names**, whatever the random suffix: the class key is short enough for the longest of them. -/
theorem derived_names_valid_iff (classKey : String) (functions : Nat) :
    (∀ nanoids id, genSafeDeploymentId classKey nanoids = some id → ∀ s ∈ derivedNames id functions, IsLabel s) ↔
      (deploymentBase classKey).length ≤ 45 ∧
        (1 < functions → (deploymentBase classKey).length + (toString (functions - 1)).length ≤ 50) := by
  have hid : ∀ suffix, suffix.length = 8 → (∀ c ∈ suffix, Alnum c) →
      ((∀ s ∈ derivedNames (deploymentId classKey suffix) functions, IsLabel s) ↔
        (deploymentBase classKey).length ≤ 45 ∧
          (1 < functions → (deploymentBase classKey).length + (toString (functions - 1)).length ≤ 50)) := by
    intro suffix hlen hal
    rw [isLabel_derivedNames_iff (isLabel_deploymentId hlen hal), length_deploymentId hlen]
    grind
  constructor
  · intro hall
    have hgather : gatherSuffix [] ["aaaaaaaa"] = some "aaaaaaaa".toList := by decide
    refine (hid "aaaaaaaa".toList (by decide) (by decide)).1 (hall ["aaaaaaaa"] _ ?_)
    rw [genSafeDeploymentId, hgather, Option.map_some]
  · intro hfits nanoids id hgen
    obtain ⟨suffix, hsuffix, rfl⟩ := Option.map_eq_some_iff.1 hgen
    obtain ⟨hlen, hal⟩ := gatherSuffix_spec (by simp) (by simp) hsuffix
    exact (hid suffix hlen hal).2 hfits

namespace LongKey

def classKey : String := "example.SmartBuildingTemperatureAggregatorEdge"

/-- The Service of the data grid gets a name of 64 characters. -/
theorem odgm_service_name_too_long :
    genSafeDeploymentId classKey ["k3v9x2mq"] = some "example-smartbuildingtemperatureaggregatoredge-k3v9x2mq" ∧
      "example-smartbuildingtemperatureaggregatoredge-k3v9x2mq-odgm-svc" ∈
        derivedNames "example-smartbuildingtemperatureaggregatoredge-k3v9x2mq" 1 ∧
      ¬ IsLabel "example-smartbuildingtemperatureaggregatoredge-k3v9x2mq-odgm-svc" := by
  decide +kernel

end LongKey

end Pm
