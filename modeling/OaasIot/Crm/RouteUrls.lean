import OaasIot.Crm.CollectionRequests

/-!
# The URLs of the routes (`oprc-crm/src/collections.rs:41-84`)

`build_collection_request` makes a fully qualified URL of a short one (`normalizeUrl`) **by cutting strings**: a dot
anywhere means that it is qualified already, what stands before the first slash is the service, and only a port `:80` is
taken off. `parseHttp` is what a client reads.
-/

open Grpc

namespace Crm

open List

/-! ## Parts of a URL -/

structure HttpUrl where
  host : String
  port : Option String
  path : String
  deriving DecidableEq

namespace HttpUrl

def portText (u : HttpUrl) : List Char :=
  match u.port with
  | none => []
  | some port => ':' :: port.toList

def authority (u : HttpUrl) : List Char := u.host.toList ++ u.portText
def text (u : HttpUrl) : String := String.ofList ("http://".toList ++ (u.authority ++ u.path.toList))

structure Readable (u : HttpUrl) : Prop where
  host : Plain u.host
  port : ∀ port, u.port = some port → '/' ∉ port.toList
  path : u.path = "" ∨ u.path.toList.head? = some '/'

structure WellFormed (u : HttpUrl) : Prop extends Readable u where
  digits : ∀ port, u.port = some port → port ≠ "" ∧ ∀ c ∈ port.toList, c.isDigit = true

end HttpUrl

def parseHttp (url : String) : Option HttpUrl :=
  if "http://".toList.isPrefixOf url.toList then
    let rest := url.toList.drop 7
    let authority := rest.takeWhile (· ≠ '/')
    let port := authority.dropWhile (· ≠ ':')
    some
      { host := String.ofList (authority.takeWhile (· ≠ ':'))
        port := if port.isEmpty then none else some (String.ofList (port.drop 1))
        path := String.ofList (rest.dropWhile (· ≠ '/')) }
  else none

theorem cut_at {a : Char} {l r : List Char} (hl : a ∉ l) (hr : ∀ c ∈ r.head?, c = a) :
    (l ++ r).takeWhile (· ≠ a) = l ∧ (l ++ r).dropWhile (· ≠ a) = r := by
  have hall : ∀ c ∈ l, decide (c ≠ a) = true := fun c hc => decide_eq_true fun h => hl (h ▸ hc)
  rw [takeWhile_append_of_pos hall, dropWhile_append_of_pos hall]
  cases r with
  | nil => simp
  | cons c cs => simp [hr c rfl]

section Read

variable {u : HttpUrl} (h : u.Readable)
include h

theorem HttpUrl.Readable.colon : ':' ∉ u.host.toList := fun hmem => (h.host ':' hmem).1 rfl

theorem HttpUrl.Readable.slash : '/' ∉ u.authority := by
  have hhost : '/' ∉ u.host.toList := fun hmem => (h.host '/' hmem).2 rfl
  unfold HttpUrl.authority HttpUrl.portText
  cases hport : u.port with
  | none => simpa using hhost
  | some port => simp [hhost, h.port port hport]

theorem HttpUrl.Readable.head : ∀ c ∈ u.path.toList.head?, c = '/' := by
  rcases h.path with hpath | hpath
  · simp [hpath]
  · simp [hpath, eq_comm]

omit h in
theorem toList_text (u : HttpUrl) : u.text.toList = "http://".toList ++ (u.authority ++ u.path.toList) :=
  String.toList_ofList

omit h in
theorem drop_text (u : HttpUrl) : u.text.toList.drop 7 = u.authority ++ u.path.toList := by
  rw [toList_text, show (7 : Nat) = "http://".toList.length from rfl, drop_left]

theorem parseHttp_text : parseHttp u.text = some u := by
  have hstart : ∀ c ∈ u.portText.head?, c = ':' := by
    unfold HttpUrl.portText
    cases u.port <;> simp [eq_comm]
  obtain ⟨htake, hdrop⟩ := cut_at h.slash h.head
  obtain ⟨hname, hrest⟩ := cut_at h.colon hstart
  rw [parseHttp, drop_text, toList_text, if_pos (by simp)]
  dsimp only
  rw [htake, hdrop, HttpUrl.authority, hname, hrest]
  obtain ⟨host, port, path⟩ := u
  cases port <;> simp [HttpUrl.portText]

end Read

/-! ## What becomes of a URL -/

def slashed (path : String) : String := if path.toList.getLast? = some '/' then path else path ++ "/"
def clusterSuffix (ns : String) : String := "." ++ ns ++ ".svc.cluster.local"

/-- A short URL after normalisation. A port other than 80 is taken for a part of the service, so the qualification goes
behind it. -/
def qualified (ns : String) (u : HttpUrl) : HttpUrl :=
  if u.port = none ∨ u.port = some "80" then ⟨u.host ++ clusterSuffix ns, none, slashed u.path⟩
  else ⟨u.host, u.port.map (· ++ clusterSuffix ns), slashed u.path⟩

section Normalize

variable {u : HttpUrl} {ns : String}

theorem notMem_authority (h : u.WellFormed) (hhost : '.' ∉ u.host.toList) : '.' ∉ u.authority := by
  unfold HttpUrl.authority HttpUrl.portText
  cases hport : u.port with
  | none => simpa using hhost
  | some port =>
    have hdigits : '.' ∉ port.toList := fun hmem => absurd ((h.digits port hport).2 '.' hmem) (by decide)
    simp [hhost, hdigits]

theorem trimEndSlash_of_notMem {cs : List Char} (h : '/' ∉ cs) : trimEndSlash cs = cs := by
  refine rdropWhile_eq_self_iff.2 fun hne hlast => h ?_
  rw [← beq_iff_eq.1 hlast]
  exact getLast_mem hne

theorem suffix_port80_iff (h : u.WellFormed) : ":80".toList <:+ u.authority ↔ u.port = some "80" := by
  unfold HttpUrl.authority HttpUrl.portText
  constructor
  · rintro ⟨front, hfront⟩
    cases hport : u.port with
    | none =>
      rw [hport, append_nil] at hfront
      exact absurd (hfront ▸ mem_append_right front (by decide)) h.colon
    | some port =>
      have hdigits : ':' ∉ port.toList := fun hmem => absurd ((h.digits port hport).2 ':' hmem) (by decide)
      rw [hport] at hfront
      have hlist : port.toList = ['8', '0'] := ((append_cons_inj_of_notMem h.colon hdigits).1 hfront.symm).2.2
      rw [← String.ofList_toList (s := port), hlist]
  · intro hport
    rw [hport]
    exact suffix_append _ _

theorem stripPort80_authority (h : u.WellFormed) :
    stripPort80 u.authority = if u.port = some "80" then u.host.toList else u.authority := by
  unfold stripPort80
  simp only [isSuffixOf_iff_suffix, suffix_port80_iff h]
  split
  · rename_i hport
    simp [HttpUrl.authority, HttpUrl.portText, hport]
  · rfl

theorem cut_authority (h : u.Readable) :
    let stripped := u.authority ++ u.path.toList
    trimEndSlash (if stripped.contains '/' then stripped.takeWhile (· ≠ '/') else trimEndSlash stripped) = u.authority ∧
      (if stripped.contains '/' then stripped.dropWhile (· ≠ '/') else ['/']) =
        if u.path = "" then ['/'] else u.path.toList := by
  have hauth := h.slash
  rcases h.path with hpath | hpath
  · simp [hpath, hauth, trimEndSlash_of_notMem hauth]
  · have hne : u.path ≠ "" := fun hempty => by simp [hempty] at hpath
    have hmem : '/' ∈ u.path.toList := mem_of_mem_head? hpath
    obtain ⟨htake, hdrop⟩ := cut_at hauth h.head
    simp only [contains_iff_mem.2 (mem_append_right _ hmem), if_true, hne, if_false]
    rw [htake, hdrop, trimEndSlash_of_notMem hauth]
    exact ⟨rfl, rfl⟩

theorem toList_slashed (path : String) :
    (slashed path).toList =
      let rest := if path = "" then ['/'] else path.toList
      if rest.getLast? = some '/' then rest else rest ++ ['/'] := by
  unfold slashed
  by_cases hempty : path = ""
  · subst hempty
    rfl
  · simp only [hempty, if_false]
    split <;> simp

theorem append_slash {rest : List Char} (front : List Char) (hne : rest ≠ []) :
    (if (front ++ rest).getLast? = some '/' then front ++ rest else front ++ rest ++ ['/']) =
      front ++ if rest.getLast? = some '/' then rest else rest ++ ['/'] := by
  rw [getLast?_append_of_ne_nil _ hne]
  split
  · rfl
  · rw [append_assoc]

theorem toList_clusterSuffix (ns : String) :
    (clusterSuffix ns).toList = '.' :: (ns.toList ++ ".svc.cluster.local".toList) := by
  simp [clusterSuffix, String.toList_append]

theorem toList_text_qualified (ns : String) (u : HttpUrl) :
    (qualified ns u).text.toList = "http://".toList ++
      ((if u.port = some "80" then u.host.toList else u.authority) ++ (clusterSuffix ns).toList ++
        (slashed u.path).toList) := by
  rw [toList_text]
  unfold qualified HttpUrl.authority
  by_cases hnone : u.port = none
  · simp [hnone, HttpUrl.portText, String.toList_append]
  by_cases h80 : u.port = some "80"
  · simp [h80, HttpUrl.portText, String.toList_append]
  obtain ⟨port, hport⟩ := Option.ne_none_iff_exists'.1 hnone
  rw [hport] at h80
  simp [hport, h80, HttpUrl.portText, String.toList_append]

theorem normalizeUrl_short (h : u.WellFormed) (hhost : '.' ∉ u.host.toList) (hpath : '.' ∉ u.path.toList) :
    normalizeUrl ns u.text = (qualified ns u).text := by
  have hdot : (u.authority ++ u.path.toList).contains '.' = false := by simp [notMem_authority h hhost, hpath]
  obtain ⟨hsvc, hrest⟩ := cut_authority h.toReadable
  rw [normalizeUrl, drop_text, toList_text, if_pos (by simp)]
  simp only [hdot, Bool.false_eq_true, if_false, hsvc, hrest, stripPort80_authority h]
  have hne : (if u.path = "" then ['/'] else u.path.toList) ≠ [] := by
    split
    · simp
    · rename_i hempty
      exact fun hnil => hempty (String.toList_eq_nil_iff.1 hnil)
  rw [append_slash _ hne, ← String.ofList_toList (s := (qualified ns u).text), toList_text_qualified, toList_slashed,
    toList_clusterSuffix]
  simp

theorem normalizeUrl_of_dot {url : String} {rest : List Char} (hurl : url.toList = "http://".toList ++ rest)
    (hdot : '.' ∈ rest) : normalizeUrl ns url = url := by
  have hcontains : (url.toList.drop 7).contains '.' = true := by
    rw [hurl, show (7 : Nat) = "http://".toList.length from rfl, drop_left]
    exact contains_iff_mem.2 hdot
  rw [normalizeUrl]
  simp only [hcontains, if_true, ite_self]

theorem toList_normalizeUrl {url : String} (hhttp : "http://".toList.isPrefixOf url.toList = true)
    (hdot : ¬ (url.toList.drop 7).contains '.' = true) :
    ∃ core rest, (normalizeUrl ns url).toList = "http://".toList ++ (core ++ '.' :: rest) := by
  rw [normalizeUrl, if_pos hhttp]
  simp only [hdot, if_false, Bool.false_eq_true, String.toList_ofList]
  generalize stripPort80 _ = core
  generalize (if (url.toList.drop 7).contains '/' then (url.toList.drop 7).dropWhile (· ≠ '/') else ['/']) = rest
  generalize "http://".toList = scheme
  generalize ".svc.cluster.local".toList = suffix
  split
  · exact ⟨core, ns.toList ++ suffix ++ rest, by simp⟩
  · exact ⟨core, ns.toList ++ suffix ++ rest ++ ['/'], by simp⟩

theorem normalizeUrl_normalizeUrl (ns url : String) : normalizeUrl ns (normalizeUrl ns url) = normalizeUrl ns url := by
  by_cases hhttp : "http://".toList.isPrefixOf url.toList = true
  · by_cases hdot : (url.toList.drop 7).contains '.' = true
    · have hself : normalizeUrl ns url = url := by
        rw [normalizeUrl]
        simp only [hdot, if_true, ite_self]
      rw [hself, hself]
    · obtain ⟨core, rest, hlist⟩ : ∃ core rest, (normalizeUrl ns url).toList = "http://".toList ++ (core ++ '.' :: rest) :=
        toList_normalizeUrl hhttp hdot
      exact normalizeUrl_of_dot hlist (mem_append_right _ mem_cons_self)
  · have hself : normalizeUrl ns url = url := by rw [normalizeUrl, if_neg hhttp]
    rw [hself, hself]

end Normalize

/-! ## The routes of a request -/

def requestUrl (request : CreateCollectionRequest) (id : String) : Option String :=
  (request.invocations.bind (·.fnRoutes.get id)).map (·.url)

def SamePath (p q : String) : Prop := p = q ∨ p = q ++ "/" ∨ p ++ "/" = q

def Qualifies (ns : String) (u : HttpUrl) (url : String) : Prop :=
  ∃ v, parseHttp url = some v ∧ v.host = u.host ++ "." ++ ns ++ ".svc.cluster.local" ∧
    (v.port = u.port ∨ (u.port = some "80" ∧ v.port = none)) ∧ SamePath v.path u.path

/-- A short host is qualified, one with a dot left alone, and a second normalisation changes nothing. -/
structure Normalized (ns : String) (u : HttpUrl) (url : String) : Prop where
  short : '.' ∉ u.host.toList → Qualifies ns u url
  dotted : '.' ∈ u.host.toList → url = u.text
  again : normalizeUrl ns url = url

theorem samePath_slashed (path : String) : SamePath (slashed path) path := by
  unfold slashed
  split
  · exact .inl rfl
  · exact .inr (.inl rfl)

section Routes

variable {u : HttpUrl} {ns : String}

theorem head_slashed (h : u.Readable) : slashed u.path = "" ∨ (slashed u.path).toList.head? = some '/' := by
  refine .inr ?_
  rcases h.path with hpath | hpath
  · rw [hpath]
    rfl
  · unfold slashed
    split
    · exact hpath
    · rw [String.toList_append, head?_append, hpath]
      rfl

theorem readable_qualified (h : u.WellFormed) (hns : Plain ns) : (qualified ns u).Readable := by
  have hsuffix : Plain (clusterSuffix ns) :=
    plain_append (plain_append (plain_of_all (by decide)) hns) (plain_of_all (by decide))
  unfold qualified
  split
  · exact ⟨plain_append h.host hsuffix, fun _ hport => (by cases hport), head_slashed h.toReadable⟩
  · refine ⟨h.host, fun port hport => ?_, head_slashed h.toReadable⟩
    obtain ⟨given, hgiven, rfl⟩ := Option.map_eq_some_iff.1 hport
    rw [String.toList_append, mem_append]
    rintro (hmem | hmem)
    · exact h.port given hgiven hmem
    · exact (hsuffix '/' hmem).2 rfl

theorem qualifies_qualified_iff (h : u.WellFormed) (hns : Plain ns) :
    Qualifies ns u (qualified ns u).text ↔ u.port = none ∨ u.port = some "80" := by
  rw [Qualifies, parseHttp_text (readable_qualified h hns)]
  constructor
  · rintro ⟨v, hv, hhost, _⟩
    obtain rfl := Option.some.inj hv
    by_contra hport
    -- the qualification stands in the port, so the host is the short one
    rw [qualified, if_neg hport] at hhost
    have hlen := congrArg (fun s : String => s.toList.length) hhost
    simp [String.toList_append] at hlen
  · intro hport
    refine ⟨_, rfl, ?_⟩
    rw [qualified, if_pos hport]
    refine ⟨by simp [clusterSuffix, String.append_assoc], ?_, samePath_slashed u.path⟩
    rcases hport with hport | hport
    · exact .inl hport.symm
    · exact .inr ⟨hport, rfl⟩

theorem not_qualifies_self (h : u.WellFormed) : ¬ Qualifies ns u u.text := by
  rintro ⟨v, hv, hhost, _⟩
  rw [parseHttp_text h.toReadable] at hv
  obtain rfl := Option.some.inj hv
  have hlen := congrArg (fun s : String => s.toList.length) hhost
  simp [String.toList_append] at hlen

theorem requestUrl_buildCollectionRequest {name shardType : String} {partitionCount replicaCount : Int32}
    {inv : InvocationsSpec} {options : Option (OrdMap String String)} {assignments : Option (List ShardAssignment)}
    {id : String} {r : FunctionRoute} (hroute : inv.fnRoutes.get id = some r) :
    requestUrl (buildCollectionRequest name ns partitionCount replicaCount shardType (some inv) options assignments) id =
      some (normalizeUrl ns r.url) := by
  simp [requestUrl, buildCollectionRequest, OrdMap.get_mapWithKey, hroute, routeToProto]

end Routes

/-- **Route URLs** are normalised as they should be if the host has a dot, or the port is 80 or none and the path has
no dot. -/
theorem route_url_normalized_iff (name ns shardType : String) (partitionCount replicaCount : Int32) (inv : InvocationsSpec)
    (options : Option (OrdMap String String)) (assignments : Option (List ShardAssignment)) (id : String)
    (r : FunctionRoute) (u : HttpUrl) (hroute : inv.fnRoutes.get id = some r) (hurl : r.url = u.text) (hu : u.WellFormed)
    (hns : Plain ns) :
    (∃ url, requestUrl (buildCollectionRequest name ns partitionCount replicaCount shardType (some inv) options assignments)
        id = some url ∧ Normalized ns u url) ↔
      '.' ∈ u.host.toList ∨ ((u.port = none ∨ u.port = some "80") ∧ '.' ∉ u.path.toList) := by
  rw [requestUrl_buildCollectionRequest hroute, hurl]
  have hself : '.' ∈ u.authority ++ u.path.toList → normalizeUrl ns u.text = u.text := normalizeUrl_of_dot (toList_text u)
  constructor
  · rintro ⟨url, hsome, hnorm⟩
    obtain rfl := Option.some.inj hsome
    by_cases hhost : '.' ∈ u.host.toList
    · exact .inl hhost
    · have hq := hnorm.short hhost
      by_cases hpath : '.' ∈ u.path.toList
      · rw [hself (mem_append_right _ hpath)] at hq
        exact absurd hq (not_qualifies_self hu)
      · rw [normalizeUrl_short hu hhost hpath, qualifies_qualified_iff hu hns] at hq
        exact .inr ⟨hq, hpath⟩
  · intro h
    refine ⟨_, rfl, fun hhost => ?_, fun hhost => ?_, normalizeUrl_normalizeUrl ns u.text⟩
    · obtain ⟨hport, hpath⟩ := h.resolve_left hhost
      rw [normalizeUrl_short hu hhost hpath]
      exact (qualifies_qualified_iff hu hns).2 hport
    · exact hself (mem_append_left _ (mem_append_left _ hhost))

namespace ShortUrls

def routesTo (url : String) : InvocationsSpec :=
  ⟨OrdMap.empty.insert "run" ⟨url, none, none, none, none, [], none⟩, []⟩

def told (url : String) : Option String :=
  requestUrl (buildCollectionRequest "cls" "prod" 1 1 "mst" (some (routesTo url)) none none) "run"

theorem route_url_normalized_default :
    told "http://svc:80/run" = some "http://svc.prod.svc.cluster.local/run/" ∧
      ∃ url, told "http://svc:80/run" = some url ∧ Normalized "prod" ⟨"svc", some "80", "/run"⟩ url := by
  have hformed : HttpUrl.WellFormed ⟨"svc", some "80", "/run"⟩ := by
    refine ⟨⟨plain_of_all (by decide), fun port hport => ?_, .inr rfl⟩, fun port hport => ?_⟩
    · obtain rfl := Option.some.inj hport
      decide
    · obtain rfl := Option.some.inj hport
      exact ⟨by decide, all_eq_true.1 (by decide)⟩
  refine ⟨by decide +kernel, ?_⟩
  exact (route_url_normalized_iff "cls" "prod" "mst" 1 1 (routesTo "http://svc:80/run") none none "run" _
    ⟨"svc", some "80", "/run"⟩ (by rfl) (by decide +kernel) hformed (plain_of_all (by decide))).2
    (.inr ⟨.inr rfl, by decide⟩)

theorem not_normalized {given url : String} {u v : HttpUrl} (htold : told given = some url)
    (hread : parseHttp url = some v) (hdot : '.' ∉ u.host.toList)
    (hhost : v.host ≠ u.host ++ "." ++ "prod" ++ ".svc.cluster.local") :
    ¬ ∃ url, told given = some url ∧ Normalized "prod" u url := by
  rintro ⟨url', htold', hnorm⟩
  obtain rfl := Option.some.inj (htold.symm.trans htold')
  obtain ⟨w, hw, hqualified, _⟩ := hnorm.short hdot
  obtain rfl := Option.some.inj (hread.symm.trans hw)
  exact hhost hqualified

/-- **The port is taken for a part of the service**, and a dot in the path for a qualified host. -/
theorem port_swallowed :
    told "http://svc:8080/run" = some "http://svc:8080.prod.svc.cluster.local/run/" ∧
      (¬ ∃ url, told "http://svc:8080/run" = some url ∧ Normalized "prod" ⟨"svc", some "8080", "/run"⟩ url) ∧
      told "http://svc/v1.2" = some "http://svc/v1.2" ∧
      ¬ ∃ url, told "http://svc/v1.2" = some url ∧ Normalized "prod" ⟨"svc", none, "/v1.2"⟩ url := by
  have hport : told "http://svc:8080/run" = some "http://svc:8080.prod.svc.cluster.local/run/" := by decide +kernel
  have hpath : told "http://svc/v1.2" = some "http://svc/v1.2" := by decide +kernel
  have hread : parseHttp "http://svc:8080.prod.svc.cluster.local/run/" =
      some ⟨"svc", some "8080.prod.svc.cluster.local", "/run/"⟩ := by decide +kernel
  have hread' : parseHttp "http://svc/v1.2" = some ⟨"svc", none, "/v1.2"⟩ := by decide +kernel
  exact ⟨hport, not_normalized hport hread (by decide) (by decide), hpath,
    not_normalized hpath hread' (by decide) (by decide)⟩

end ShortUrls
end Crm
