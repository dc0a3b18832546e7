import Mathlib

/-!
# Names and URLs of function services (`templates/manager.rs`, `routing.rs`)

With several functions the name of a Service carries the **index of the function and depends on their number**, so the
renderer and the router agree only if they count the same functions.
-/

namespace Crm

open List

def nameChar (c : Char) : Char := if c.toLower.isAlphanum || c.toLower == '-' then c.toLower else '-'

def trimHyphens (cs : List Char) : List Char := (cs.dropWhile (· == '-')).rdropWhile (· == '-')
def orDefault (cs : List Char) : String := if cs.isEmpty then "default" else String.ofList cs

def dns1035Safe (name : String) : String :=
  match trimHyphens (name.toList.map nameChar) with
  | [] => "default"
  | c :: cs =>
    let lettered := if c.isAlpha then c :: cs else 'a' :: c :: cs
    let cut := (lettered.take 63).rdropWhile (· == '-')
    match cut.getLast? with
    | none => "default"
    | some last => orDefault (if last.isAlphanum then cut else cut.dropLast)

variable (className : String) (idx total : Nat)

def functionServiceName : String :=
  if 1 < total then dns1035Safe className ++ "-fn-" ++ toString idx else dns1035Safe className

def functionServiceUrl : String :=
  "http://" ++ functionServiceName className idx total ++ ":80/"

/-- The host of an `http` URL: what stands between the scheme and a port or a path. -/
def httpHost (url : String) : Option String :=
  if "http://".toList.isPrefixOf url.toList then
    some (String.ofList ((url.toList.drop 7).takeWhile fun c => c ≠ ':' ∧ c ≠ '/'))
  else none

/-! ## Which characters a name has -/

def Plain (s : String) : Prop := ∀ c ∈ s.toList, c ≠ ':' ∧ c ≠ '/'

theorem plain_append {s t : String} (hs : Plain s) (ht : Plain t) : Plain (s ++ t) := by
  intro c hc
  rw [String.toList_append, mem_append] at hc
  rcases hc with hc | hc
  · exact hs c hc
  · exact ht c hc

theorem plain_of_alphanum {c : Char} (h : c.isAlphanum = true) : c ≠ ':' ∧ c ≠ '/' := by
  constructor <;> (rintro rfl; revert h; decide)

theorem plain_nameChar (c : Char) : nameChar c ≠ ':' ∧ nameChar c ≠ '/' := by
  unfold nameChar
  split
  · rename_i h
    rcases Bool.or_eq_true _ _ ▸ h with h | h
    · exact plain_of_alphanum h
    · rw [beq_iff_eq.1 h]; decide
  · decide

theorem plain_toString (n : Nat) : Plain (toString n) := by
  intro c hc
  rw [Nat.toString_eq_repr, Nat.toList_repr] at hc
  have hdigit : c.isDigit = true := Nat.isDigit_of_mem_toDigits (by decide) (by decide) hc
  exact plain_of_alphanum (by simp [Char.isAlphanum, hdigit])

theorem mem_of_mem_trimHyphens {c : Char} {cs : List Char} (h : c ∈ trimHyphens cs) : c ∈ cs :=
  (dropWhile_sublist _).mem ((List.rdropWhile_prefix _ _).subset h)

theorem plain_of_all {s : String} (h : (s.toList.all fun c => decide (c ≠ ':' ∧ c ≠ '/')) = true) : Plain s :=
  fun c hc => of_decide_eq_true (all_eq_true.1 h c hc)

theorem plain_default : Plain "default" := plain_of_all (by decide)

theorem plain_orDefault {cs : List Char} (h : ∀ c ∈ cs, c ≠ ':' ∧ c ≠ '/') : Plain (orDefault cs) := by
  unfold orDefault
  split
  · exact plain_default
  · intro c hc
    exact h c (by rwa [String.toList_ofList] at hc)

theorem plain_dns1035Safe (name : String) : Plain (dns1035Safe name) := by
  unfold dns1035Safe
  split
  · exact plain_default
  · rename_i c cs htrim
    have hkept : ∀ d ∈ c :: cs, d ≠ ':' ∧ d ≠ '/' := by
      intro d hd
      obtain ⟨e, _, rfl⟩ := mem_map.1 (mem_of_mem_trimHyphens (htrim ▸ hd))
      exact plain_nameChar e
    have hlettered : ∀ d ∈ (if c.isAlpha then c :: cs else 'a' :: c :: cs), d ≠ ':' ∧ d ≠ '/' := by
      split
      · exact hkept
      · exact forall_mem_cons.2 ⟨by decide, hkept⟩
    simp only
    split
    · exact plain_default
    · refine plain_orDefault fun d hd => hlettered d ?_
      have hcut : d ∈ ((if c.isAlpha then c :: cs else 'a' :: c :: cs).take 63).rdropWhile (· == '-') := by
        split at hd
        · exact hd
        · exact (dropLast_sublist _).mem hd
      exact mem_of_mem_take ((List.rdropWhile_prefix _ _).subset hcut)

theorem plain_functionServiceName : Plain (functionServiceName className idx total) := by
  unfold functionServiceName
  split
  · exact plain_append (plain_append (plain_dns1035Safe _) (plain_of_all (by decide))) (plain_toString idx)
  · exact plain_dns1035Safe _

/-! ## Hosts -/

theorem httpHost_append {name rest : String} (hname : Plain name)
    (hrest : rest = "" ∨ rest.toList.head? = some ':' ∨ rest.toList.head? = some '/') :
    httpHost ("http://" ++ name ++ rest) = some name := by
  have htake : (name.toList ++ rest.toList).takeWhile (fun c => decide (c ≠ ':' ∧ c ≠ '/')) = name.toList := by
    rw [takeWhile_append_of_pos (fun c hc => by simpa using hname c hc)]
    rcases hrest with rfl | hrest
    · simp
    · cases hr : rest.toList with
      | nil => simp
      | cons c cs =>
        rw [hr, head?_cons, Option.some.injEq, Option.some.injEq] at hrest
        rcases hrest with rfl | rfl <;> simp
  have hlist : ("http://" ++ name ++ rest).toList = "http://".toList ++ (name.toList ++ rest.toList) := by
    simp [String.toList_append]
  rw [httpHost, hlist, if_pos (by simp)]
  rw [show (7 : Nat) = "http://".toList.length by decide, drop_left, htake, String.ofList_toList]

theorem httpHost_functionServiceUrl :
    httpHost (functionServiceUrl className idx total) = some (functionServiceName className idx total) :=
  httpHost_append (plain_functionServiceName className idx total) (.inr (.inl (by decide)))

theorem httpHost_plain {name : String} (h : Plain name) : httpHost ("http://" ++ name) = some name := by
  have := httpHost_append h (.inl rfl)
  rwa [String.append_empty] at this

/-! ## Which names are equal -/

theorem append_fn_inj {base : String} {i j : Nat} (h : base ++ "-fn-" ++ toString i = base ++ "-fn-" ++ toString j) :
    i = j := by
  have hrepr : i.repr = j.repr := by simpa using (String.append_right_inj (base ++ "-fn-")).1 h
  have hdigits : Nat.toDigits 10 i = Nat.toDigits 10 j := by rw [← Nat.toList_repr, hrepr, Nat.toList_repr]
  have hnat := congrArg (fun ds => Nat.ofDigitChars 10 ds 0) hdigits
  simpa using hnat

theorem append_fn_ne (base : String) (i : Nat) : base ++ "-fn-" ++ toString i ≠ base := by
  intro h
  have := congrArg (fun s => s.toList.length) h
  simp [String.toList_append] at this

/-- Two predictions for the same runtime agree exactly when they are of the same index in a runtime with several
functions on both sides, or of a single function on both sides. -/
theorem functionServiceName_inj {className : String} {i j n m : Nat} :
    functionServiceName className i n = functionServiceName className j m ↔
      (1 < n ∧ 1 < m ∧ i = j) ∨ (¬ 1 < n ∧ ¬ 1 < m) := by
  unfold functionServiceName
  by_cases hn : 1 < n <;> by_cases hm : 1 < m <;> simp only [hn, hm, if_true, if_false]
  · constructor
    · intro h; exact .inl ⟨trivial, trivial, append_fn_inj h⟩
    · rintro (⟨_, _, rfl⟩ | ⟨h, _⟩)
      · rfl
      · exact absurd trivial h
  · simpa using append_fn_ne (dns1035Safe className) i
  · simpa using (append_fn_ne (dns1035Safe className) j).symm
  · simp

end Crm
