import RegionClient.Proofs.Session.Negotiation
import RegionClient.Proofs.Url.Containment
import RegionClient.Proofs.Url.WithNames
import RegionClient.Proofs.Version

/-!
# Roots of versions

Where the API of a version is found below a base URL. The names of a version are written behind the
text of the base URL, and only then is the text read: they come behind its path if the text takes
names, and behind whatever else it ends in otherwise. Main statements: which base URLs have the root
of every version below them, and below which base URLs the requests for two versions never have one
target (`apiRoot_of_validate`).
-/

namespace RegionClient

open Text Http

/-- The root of a version stands below a base URL: its path is that of the base URL with a slash at
its end, and `api/<version>/` behind it. -/
structure IsRootOf (base : Url) (version : Version) (root : Url) : Prop where
  scheme : root.scheme = base.scheme
  authority : root.authority = base.authority
  path : String.ofList root.path.print =
    ensureTrailingSlash (String.ofList base.path.print) ++ "api/" ++ version.toText ++ "/"

/-- A request is composed below a root, for a path that does not climb out of it. -/
def AsksBelow (root : Url) (r : WireRequest) : Prop :=
  ∃ path credentials settings fresh method request,
    Url.climb? (root.movesOf path) = none ∧ request.path = (Request.ofPath path).path ∧
      compose root credentials settings fresh method request = .ok r

/-- Requests tell versions apart: those of two versions below one base URL have two targets. -/
def TellsVersions (baseUrl : String) : Prop :=
  ∀ version version' root root' r r', apiRoot baseUrl version = .ok root →
    apiRoot baseUrl version' = .ok root' → AsksBelow root r → AsksBelow root' r' →
    r.target = r'.target → version = version'

/-- Requests do not tell versions apart: what is asked of one is asked of each at one target. -/
def MixesVersions (baseUrl : String) : Prop :=
  ∀ version root credentials settings fresh method request r,
    apiRoot baseUrl version = .ok root →
    compose root credentials settings fresh method request = .ok r →
    ∀ version', ∃ root' r', apiRoot baseUrl version' = .ok root' ∧
      compose root' credentials settings fresh method request = .ok r' ∧ r'.target = r.target

/-! ## Names of versions -/

/-- The names that are written behind a base URL for a version. -/
def rootNames (version : Version) : List (List Char) := [['a', 'p', 'i'], version.print]

private theorem isPlain_rootNames (version : Version) :
    ∀ name ∈ rootNames version, Url.IsPlain name := by
  intro name hname
  rcases List.mem_cons.mp hname with rfl | hname
  · exact ⟨List.all_eq_true.mp (by decide), 'a', ['p', 'i'], rfl, by decide⟩
  · obtain rfl := List.mem_singleton.mp hname
    refine ⟨fun c hc ↦ ?_, ?_⟩
    · rcases Version.isMark_of_mem_print hc with hdigit | rfl
      · simp [Url.isPlainChar, Char.isAlphanum, hdigit]
      · decide
    · obtain ⟨c, rest, hprint, hdigit⟩ := version.exists_print
      refine ⟨c, rest, hprint, ?_⟩
      rintro rfl
      exact absurd hdigit (by decide)

private theorem rootNames_ne_nil (version : Version) : rootNames version ≠ [] :=
  List.cons_ne_nil _ _

private theorem namesText_rootNames (version : Version) :
    Url.namesText (rootNames version) = "api/".toList ++ (version.print ++ ['/']) := by
  simp [Url.namesText, rootNames]

private theorem version_of_append {version version' : Version} {rest rest' : List Char}
    (h : Url.namesText (rootNames version) ++ rest = Url.namesText (rootNames version') ++ rest') :
    version = version' := by
  rw [namesText_rootNames, namesText_rootNames] at h
  simp only [List.append_assoc] at h
  have h := List.append_cancel_left h
  have hslash : ∀ version : Version, '/' ∉ version.print := by
    intro version hmem
    rcases Version.isMark_of_mem_print hmem with hdigit | hdot
    · exact absurd hdigit (by decide)
    · exact absurd hdot (by decide)
  exact Version.print_injective (Url.eq_of_append_cons (hslash version) (hslash version') h).1

namespace Http

/-- The root of a version is what the base URL spells with the names of the version behind it. -/
theorem apiRoot_eq_ok_iff {baseUrl : String} {version : Version} {root : Url} :
    apiRoot baseUrl version = .ok root ↔
      Url.parse (Url.withNames baseUrl (rootNames version)) = .ok root := by
  have htext : ensureTrailingSlash baseUrl ++ "api/" ++ version.toText ++ "/" =
      Url.withNames baseUrl (rootNames version) := by
    apply String.toList_injective
    unfold ensureTrailingSlash Url.withNames Url.tailOf
    split <;> simp [Version.toText, namesText_rootNames]
  unfold apiRoot
  rw [htext]
  cases Url.parse (Url.withNames baseUrl (rootNames version)) with
  | ok url => simp
  | error e => simp

end Http

private theorem isRootOf_iff_print {base root : Url} {version : Version} :
    IsRootOf base version root ↔ root.scheme = base.scheme ∧ root.authority = base.authority ∧
      root.path.print =
        Url.withoutSlash base.path.print ++ '/' :: Url.namesText (rootNames version) := by
  have hslash : ∀ s : String,
      (ensureTrailingSlash s).toList = Url.withoutSlash s.toList ++ ['/'] := by
    intro s
    unfold ensureTrailingSlash Url.withoutSlash
    split
    · next h =>
      obtain ⟨front, hfront⟩ := List.getLast?_eq_some_iff.mp h
      rw [hfront, List.dropLast_concat]
    · rw [String.toList_append]
      rfl
  have htext : ∀ path : List Char,
      String.ofList path =
        ensureTrailingSlash (String.ofList base.path.print) ++ "api/" ++ version.toText ++ "/" ↔
      path = Url.withoutSlash base.path.print ++ '/' :: Url.namesText (rootNames version) := by
    intro path
    rw [← String.toList_inj]
    simp [hslash, namesText_rootNames, Version.toText]
  rw [← htext]
  constructor
  · exact fun h ↦ ⟨h.scheme, h.authority, h.path⟩
  · rintro ⟨hscheme, hauthority, hpath⟩
    exact ⟨hscheme, hauthority, hpath⟩

/-! ## Requests below a root -/

private theorem exists_query_appendQuery {url : Url} {query : String} (h : url.query = some query)
    (hne : query ≠ "") (pairs : List (String × String)) :
    ∃ behind, (url.appendQuery pairs).query = some (String.ofList (query.toList ++ behind)) := by
  have hempty : query.isEmpty = false := by
    rw [← Bool.not_eq_true, String.isEmpty_iff]
    exact hne
  have hsome : ∀ behind : List Char, (query.toList ++ behind).isEmpty = false := by
    intro behind
    have hchars : query.toList ≠ [] := fun e ↦ hne (String.toList_injective e)
    simp [hchars]
  unfold Url.appendQuery
  rw [h]
  cases pairs with
  | nil => exact ⟨[], by simpa using hsome []⟩
  | cons pair pairs =>
    refine ⟨'&' :: Form.encode (pair :: pairs), ?_⟩
    simp only [hempty, Bool.false_eq_true, if_false, hsome]

private theorem exists_query_sentTo {url : Url} {query : String} (h : url.query = some query)
    (hne : query ≠ "") (method : Method) (request : Request) :
    ∃ behind,
      (sentTo method request url).query = some (String.ofList (query.toList ++ behind)) := by
  have huser : (takeUser url).2.query = some query := by
    rcases takeUser_snd url with h' | h' <;> rw [h', ← h]
    rfl
  unfold sentTo
  cases addedPairs? method request with
  | none => exact ⟨[], by rw [huser, List.append_nil, String.ofList_toList]⟩
  | some pairs => exact exists_query_appendQuery huser hne pairs

/-- A request below a root goes to a path behind that of the root, and its query begins with that
of the root. -/
theorem of_asksBelow {root : Url} {r : WireRequest} {text : String}
    (hparse : Url.parse text = .ok root) (h : AsksBelow root r) :
    isSendable root = true ∧ ∃ path, r.url.path = .segments path ∧ Url.Avoids '?' path ∧
      (root.trunk ≠ [""] →
        (Url.Path.segments root.trunk).print ++ ['/'] <+: (Url.Path.segments path).print) ∧
      ∀ query, root.query = some query → query ≠ "" →
        ∃ behind, r.url.query = some (String.ofList (query.toList ++ behind)) := by
  obtain ⟨path, credentials, settings, fresh, method, request, hclimb, hpath, hcompose⟩ := h
  have hsendable : isSendable root = true :=
    ((exists_compose_iff root credentials settings fresh method request).mp ⟨r, hcompose⟩).sendable
  obtain ⟨hspecial, hfile⟩ := isSpecial_of_isSendable hsendable
  obtain ⟨segments, hsegments, hslash, hmark⟩ :=
    Url.exists_segments_of_parse hparse hspecial hfile
  obtain ⟨url, hlocate, -, -, hurl⟩ := of_compose hcompose
  rw [hpath, Url.locate_eq hsegments (beq_false_of_ne hfile)] at hlocate
  obtain rfl := Except.ok.inj hlocate
  refine ⟨hsendable, _, by rw [hurl, path_sentTo], ?_, fun htrunk ↦ ?_, fun query hquery hne ↦ ?_⟩
  · rw [Url.movesOf, ← Url.foldl_appendSegment]
    exact hmark.dropEmptyLast.foldl_appendSegment (.inr rfl) _ _
  · have hstart : Url.dropEmptyLast segments = root.trunk ∨ root.trunk = [] :=
      (Url.dropEmptyLast_eq hsegments).imp_right And.right
    have hleads : Url.LeadsBehind root.trunk (root.movesOf path) (Url.dropEmptyLast segments) := by
      refine (Url.leadsBehind_iff hstart (root.getLast?_movesOf path)).mpr
        ⟨htrunk, fun _ after hafter ↦ ?_⟩
      rw [hclimb] at hafter
      cases hafter
    rw [← Url.withoutSlash_print hsegments hslash]
    exact ((Url.isBelow_iff_leadsBehind hsegments hslash path).mpr hleads).path
  · rw [hurl]
    refine exists_query_sentTo ?_ hne method request
    exact hquery

/-- The text of a target is that of the path, and the query behind a question mark. -/
theorem toList_target (url : Url) :
    url.target.toList = url.path.print ++ Url.printAfter '?' url.query :=
  String.toList_ofList

/-- The text of a path does not hold what its segments do not hold, the slash aside. -/
theorem notMem_print {c : Char} {path : List String} (h : Url.Avoids c path) (hslash : c ≠ '/') :
    c ∉ (Url.Path.segments path).print := by
  intro hmem
  obtain ⟨segment, hsegment, hmem⟩ := List.mem_flatMap.mp hmem
  rcases List.mem_cons.mp hmem with hmem | hmem
  · exact hslash hmem
  · exact h segment hsegment hmem

private theorem prefix_target_of_path {root : Url} {r : WireRequest} {text : String}
    {trunk : List String} {version : Version} (hparse : Url.parse text = .ok root)
    (h : AsksBelow root r)
    (hpath : root.path = .segments (trunk ++ Url.namesPath (rootNames version))) :
    (Url.Path.segments trunk).print ++ '/' :: Url.namesText (rootNames version) <+:
      r.target.toList := by
  obtain ⟨-, path, hurl, -, hbelow, -⟩ := of_asksBelow hparse h
  have htrunk : root.trunk = trunk ++ ["api", version.toText] := by
    have hends : trunk ++ Url.namesPath (rootNames version) =
        trunk ++ ["api", version.toText] ++ [""] := by
      rw [List.append_assoc]
      rfl
    rw [Url.trunk, hpath, hends]
    exact Url.trunkOf_append_nil _
  have hlong : root.trunk ≠ [""] := by
    rw [htrunk]
    intro hone
    have hlength := congrArg List.length hone
    simp at hlength
  have hprint : (Url.Path.segments root.trunk).print ++ ['/'] =
      (Url.Path.segments trunk).print ++ '/' :: Url.namesText (rootNames version) := by
    have hslash : (Url.Path.segments [""]).print = ['/'] := rfl
    rw [htrunk, ← Url.print_namesPath, ← hslash, ← Url.print_append, ← Url.print_append,
      List.append_assoc]
    rfl
  rw [← hprint, WireRequest.target, toList_target, hurl]
  exact (hbelow hlong).trans (List.prefix_append _ _)

private theorem exists_target_of_query {root : Url} {r : WireRequest} {text : String}
    {query tail : List Char} (hparse : Url.parse text = .ok root) (h : AsksBelow root r)
    (hquery : root.query = some (String.ofList (query ++ tail))) (htail : tail ≠ []) :
    ∃ front behind, '?' ∉ front ∧
      r.target.toList = front ++ '?' :: (query ++ tail ++ behind) := by
  obtain ⟨-, path, hurl, hmark, -, hbegins⟩ := of_asksBelow hparse h
  have hne : String.ofList (query ++ tail) ≠ "" := by
    intro hempty
    have hnil := congrArg String.toList hempty
    rw [String.toList_ofList] at hnil
    exact htail (List.append_eq_nil_iff.mp hnil).2
  obtain ⟨behind, hbehind⟩ := hbegins _ hquery hne
  refine ⟨_, behind, notMem_print hmark (by decide), ?_⟩
  rw [WireRequest.target, toList_target, hurl, hbehind, Url.printAfter, String.toList_ofList,
    String.toList_ofList]

/-- The roots of all versions are read behind the same text, once one of them takes requests. -/
theorem exists_apiRoots {baseUrl : String} {base root : Url} {version : Version}
    (hparse : Url.parse baseUrl = .ok base) (hroot : apiRoot baseUrl version = .ok root)
    (hsendable : isSendable root = true) :
    ∃ authority front, Url.isSpecial base.scheme = true ∧
      (∀ mark, mark = '?' ∨ mark = '#' → (mark ∈ front ↔ mark ∈ baseUrl.toList)) ∧
      (baseUrl.toList.getLast? = some '/' → front.getLast? = some '/') ∧
      ∀ version, apiRoot baseUrl version = .ok (Url.withServer base.scheme authority
        (front ++ Url.tailOf baseUrl (rootNames version))) := by
  rw [apiRoot_eq_ok_iff] at hroot
  have hplain := isPlain_rootNames
  have hnames := rootNames_ne_nil
  obtain ⟨hspecial, hfile⟩ := isSpecial_of_isSendable hsendable
  have hscheme : root.scheme = base.scheme := by
    have hwith := (Url.parse_withNames hparse (hplain version) (hnames version)).2
    exact Url.scheme_of_readAfterScheme (hwith.symm.trans hroot)
  rw [hscheme] at hspecial hfile
  obtain ⟨authority, front, hmarks, hslash, hserver⟩ :=
    Url.exists_server hspecial hfile hparse (hplain version) (hnames version) hroot
  exact ⟨authority, front, hspecial, hmarks, hslash, fun version ↦
    apiRoot_eq_ok_iff.mpr (hserver _ (hplain version) (hnames version))⟩

private theorem version_of_query {text text' baseUrl : String} {root root' : Url}
    {version version' : Version} {r r' : WireRequest} {query : List Char}
    (hparse : Url.parse text = .ok root) (hparse' : Url.parse text' = .ok root')
    (h : AsksBelow root r) (h' : AsksBelow root' r') (htarget : r.target = r'.target)
    (hquery : root.query =
      some (String.ofList (query ++ Url.tailOf baseUrl (rootNames version))))
    (hquery' : root'.query =
      some (String.ofList (query ++ Url.tailOf baseUrl (rootNames version')))) :
    version = version' := by
  have htail : ∀ version, Url.tailOf baseUrl (rootNames version) ≠ [] := by
    intro version hnil
    have hlast := (Url.tailOf_eq (isPlain_rootNames version) (rootNames_ne_nil version) baseUrl).1
    rw [hnil] at hlast
    cases hlast
  obtain ⟨path, behind, hpath, htext⟩ := exists_target_of_query hparse h hquery (htail version)
  obtain ⟨path', behind', hpath', htext'⟩ :=
    exists_target_of_query hparse' h' hquery' (htail version')
  rw [htarget, htext', List.append_assoc, List.append_assoc] at htext
  have hsame := List.append_cancel_left (Url.eq_of_append_cons hpath' hpath htext).2
  unfold Url.tailOf at hsame
  split at hsame
  · exact (version_of_append hsame).symm
  · exact (version_of_append (List.cons.inj hsame).2).symm

private theorem version_of_path {text text' : String} {root root' : Url}
    {version version' : Version} {r r' : WireRequest} {trunk : List String}
    (hparse : Url.parse text = .ok root) (hparse' : Url.parse text' = .ok root')
    (h : AsksBelow root r) (h' : AsksBelow root' r') (htarget : r.target = r'.target)
    (hpath : root.path = .segments (trunk ++ Url.namesPath (rootNames version)))
    (hpath' : root'.path = .segments (trunk ++ Url.namesPath (rootNames version'))) :
    version = version' := by
  obtain ⟨behind, htext⟩ := prefix_target_of_path hparse h hpath
  obtain ⟨behind', htext'⟩ := prefix_target_of_path hparse' h' hpath'
  rw [htarget, ← htext', List.append_assoc, List.append_assoc] at htext
  exact version_of_append (List.cons.inj (List.append_cancel_left htext)).2

/-- Requests of two versions with the same target are of the same version, if the base URL has no
fragment. -/
theorem version_of_target {baseUrl : String} {base root root' : Url} {version version' : Version}
    {r r' : WireRequest} (hparse : Url.parse baseUrl = .ok base) (hfragment : '#' ∉ baseUrl.toList)
    (hroot : apiRoot baseUrl version = .ok root) (hroot' : apiRoot baseUrl version' = .ok root')
    (h : AsksBelow root r) (h' : AsksBelow root' r') (htarget : r.target = r'.target) :
    version = version' := by
  have hread := apiRoot_eq_ok_iff.mp hroot
  have hread' := apiRoot_eq_ok_iff.mp hroot'
  obtain ⟨authority, front, hspecial, hmarks, hslash, hserver⟩ :=
    exists_apiRoots hparse hroot (of_asksBelow hread h).1
  obtain rfl := Except.ok.inj (hroot.symm.trans (hserver version))
  obtain rfl := Except.ok.inj (hroot'.symm.trans (hserver version'))
  have hno : '#' ∉ front := fun hfront ↦ hfragment ((hmarks '#' (.inr rfl)).mp hfront)
  by_cases hask : '?' ∈ front
  · -- The version stands in the query.
    obtain ⟨query, hquery⟩ := Url.exists_query_withServer baseUrl authority hspecial hask hno
    exact version_of_query hread hread' h h' htarget (hquery _ (isPlain_rootNames version))
      (hquery _ (isPlain_rootNames version'))
  · -- The version stands in the path.
    have hfront : Url.HasNoMark front := fun c hc ↦ ⟨fun e ↦ hask (e ▸ hc), fun e ↦ hno (e ▸ hc)⟩
    obtain ⟨trunk, htrunk⟩ := Url.exists_trunk_withServer base.scheme authority hfront hslash
    exact version_of_path hread hread' h h' htarget (htrunk _ (isPlain_rootNames version))
      (htrunk _ (isPlain_rootNames version'))

/-! ## Requests at roots with a fragment -/

private theorem locate_withFragment {root url : Url} {path : String} (fragment : Option String)
    (h : locate root path = .ok url) :
    locate { root with fragment } path = .ok { url with fragment } := by
  obtain ⟨⟨segments, hpath⟩, -⟩ := locate_eq_ok h
  unfold locate Url.appendSegments? at h ⊢
  rw [hpath] at h
  dsimp only at h ⊢
  rw [hpath]
  rw [← Except.ok.inj h]

private theorem takeUser_withFragment (url : Url) (fragment : Option String) :
    (takeUser { url with fragment }).2 = { (takeUser url).2 with fragment } := by
  obtain ⟨user, h | h⟩ := exists_takeUser url
  · rw [h url rfl, h { url with fragment } rfl]
  · rw [h url rfl, h { url with fragment } rfl]
    rfl

private theorem target_sentTo_withFragment (method : Method) (request : Request) (url : Url)
    (fragment : Option String) :
    (sentTo method request { url with fragment }).target = (sentTo method request url).target := by
  unfold sentTo
  rw [takeUser_withFragment]
  cases addedPairs? method request <;> rfl

private theorem exists_compose_withFragment {root : Url} {credentials : Credentials}
    {settings : ClientSettings} {fresh : Fresh} {method : Method} {request : Request}
    {r : WireRequest} (fragment : Option String)
    (h : compose root credentials settings fresh method request = .ok r) :
    ∃ r', compose { root with fragment } credentials settings fresh method request = .ok r' ∧
      r'.target = r.target := by
  obtain ⟨url, hlocate, hhost, hsendable, rfl⟩ := compose_eq_ok_iff.mp h
  refine ⟨_, compose_eq_ok_iff.mpr
    ⟨_, locate_withFragment fragment hlocate, hhost, hsendable, rfl⟩, ?_⟩
  exact target_sentTo_withFragment method request url fragment

/-- The roots of all versions differ in their fragments only, if the base URL has one. -/
theorem exists_apiRoot_withFragment {baseUrl : String} {base root : Url} {version : Version}
    (hparse : Url.parse baseUrl = .ok base) (hfragment : '#' ∈ baseUrl.toList)
    (hroot : apiRoot baseUrl version = .ok root) (hsendable : isSendable root = true)
    (version' : Version) : ∃ fragment, apiRoot baseUrl version' = .ok { root with fragment } := by
  obtain ⟨authority, front, -, hmarks, -, hserver⟩ := exists_apiRoots hparse hroot hsendable
  have hfront : '#' ∈ front := (hmarks '#' (.inr rfl)).mpr hfragment
  obtain rfl := Except.ok.inj (hroot.symm.trans (hserver version))
  obtain ⟨fragment, hbase⟩ := Url.exists_fragment_withServer base.scheme authority hfront
    (Url.tailOf baseUrl (rootNames version))
  obtain ⟨fragment', hbase'⟩ := Url.exists_fragment_withServer base.scheme authority hfront
    (Url.tailOf baseUrl (rootNames version'))
  refine ⟨fragment', ?_⟩
  rw [hserver, hbase', hbase]

/-! ## Requests of a negotiation -/

private theorem climb?_movesOf_negotiation (root : Url) {path : String}
    (h : path = "version" ∨ path = "users") : Url.climb? (root.movesOf path) = none := by
  unfold Url.movesOf
  rcases h with rfl | rfl <;> cases Url.isSpecial root.scheme <;> decide

/-- What a negotiation asks for is asked for below the root. -/
theorem asksBelow_of_negotiation {root : Url} {credentials : Credentials}
    {settings : ClientSettings} {fresh : Fresh} {request : Request} {r : WireRequest}
    (hrequest : request = versionRequest ∨ request = identityRequest)
    (h : compose root credentials settings fresh .get request = .ok r) : AsksBelow root r := by
  have hpath : ∃ path, (path = "version" ∨ path = "users") ∧
      request.path = (Request.ofPath path).path := by
    rcases hrequest with rfl | rfl
    · exact ⟨"version", .inl rfl, by decide⟩
    · exact ⟨"users", .inr rfl, by decide⟩
  obtain ⟨path, hname, hpath⟩ := hpath
  exact ⟨path, credentials, settings, fresh, .get, request,
    climb?_movesOf_negotiation root hname, hpath, h⟩

/-- The endpoint of a version stands at the root of that version. -/
theorem apiRoot_of_make {settings : ClientSettings} {baseUrl apiKey : String} {version : Version}
    {endpoint : Endpoint} (h : Endpoint.make settings baseUrl apiKey version = .ok endpoint) :
    apiRoot baseUrl version = .ok endpoint.root := (Endpoint.make_eq_ok_iff.mp h).2.1

private theorem exists_parse_of_validate {config : ControllerConfig}
    (h : config.validate = .ok ()) :
    ∃ base, Url.parse config.baseUrl = .ok base := by
  cases hparse : Url.parse config.baseUrl with
  | ok base => exact ⟨base, rfl⟩
  | error e =>
    unfold ControllerConfig.validate ControllerConfig.issues at h
    rw [hparse] at h
    cases h

/-! ## Roots below base URLs -/

/-- Every version has its root below a base URL that is accepted, if the text of the base URL takes
names; for a special scheme other than that of files, only then. Requests tell the versions apart
if the base URL has no fragment, and mix them up if it has one. Those of a negotiation are made
below the root of the candidate. -/
theorem apiRoot_of_validate (config : ControllerConfig) (h : config.validate = .ok ()) :
    ∃ base, Url.parse config.baseUrl = .ok base ∧
      (Url.TakesNames (Url.isSpecial base.scheme) config.baseUrl → ∀ version,
        ∃ root, apiRoot config.baseUrl version = .ok root ∧ IsRootOf base version root) ∧
      (Url.isSpecial base.scheme = true → base.scheme ≠ "file" → ∀ version root,
        apiRoot config.baseUrl version = .ok root → IsRootOf base version root →
          Url.TakesNames true config.baseUrl) ∧
      ('#' ∉ config.baseUrl.toList → TellsVersions config.baseUrl) ∧
      ('#' ∈ config.baseUrl.toList → MixesVersions config.baseUrl) ∧
      ∀ settings apiKey version endpoint,
        Endpoint.make settings config.baseUrl apiKey version = .ok endpoint →
          apiRoot config.baseUrl version = .ok endpoint.root ∧
          ∀ fresh request r, request = versionRequest ∨ request = identityRequest →
            compose endpoint.root endpoint.credentials endpoint.settings fresh .get request =
              .ok r → AsksBelow endpoint.root r := by
  obtain ⟨base, hparse⟩ := exists_parse_of_validate h
  refine ⟨base, hparse, fun htakes version ↦ ?_, fun hspecial hfile version root hroot hbelow ↦ ?_,
    fun hfragment version version' root root' r r' hroot hroot' hasks hasks' htarget ↦ ?_,
    fun hfragment version root credentials settings fresh method request r hroot hcompose
      version' ↦ ?_,
    fun settings apiKey version endpoint hmake ↦ ⟨apiRoot_of_make hmake,
      fun fresh request r hrequest hcompose ↦ asksBelow_of_negotiation hrequest hcompose⟩⟩
  · obtain ⟨root, hroot, hextends⟩ :=
      htakes.exists_extends hparse (isPlain_rootNames version) (rootNames_ne_nil version)
    exact ⟨root, apiRoot_eq_ok_iff.mpr hroot,
      isRootOf_iff_print.mpr ⟨hextends.scheme, hextends.authority, hextends.print_eq⟩⟩
  · exact Url.takesNames_of_print hspecial hfile hparse (isPlain_rootNames version)
      (rootNames_ne_nil version) (apiRoot_eq_ok_iff.mp hroot) (isRootOf_iff_print.mp hbelow).2.2
  · exact version_of_target hparse hfragment hroot hroot' hasks hasks' htarget
  · have hsendable : isSendable root = true :=
      ((exists_compose_iff root credentials settings fresh method request).mp
        ⟨r, hcompose⟩).sendable
    obtain ⟨fragment, hroot'⟩ :=
      exists_apiRoot_withFragment hparse hfragment hroot hsendable version'
    obtain ⟨r', hcompose', htarget⟩ := exists_compose_withFragment fragment hcompose
    exact ⟨_, r', hroot', hcompose', htarget⟩

/-- A base URL without a slash at its end has roots below it. -/
theorem exists_isRootOf_region :
    let config : ControllerConfig := { baseUrl := "http://region/MAAS" }
    config.validate = .ok () ∧ ∃ base, Url.parse config.baseUrl = .ok base ∧
      (∀ version, ∃ root, apiRoot config.baseUrl version = .ok root ∧
        IsRootOf base version root) ∧ TellsVersions config.baseUrl := by
  intro config
  have hvalid : config.validate = .ok () := ok_of_toOption (by decide +kernel)
  obtain ⟨base, hparse, hroot, -, htells, -⟩ := apiRoot_of_validate config hvalid
  have hbase : base.scheme = "http" := by
    have hscheme : (Url.parse config.baseUrl).toOption.map (·.scheme) = some "http" := by
      decide +kernel
    rw [hparse] at hscheme
    exact Option.some.inj hscheme
  have hlast : (Url.significant config.baseUrl).getLast? = some 'S' := by decide +kernel
  refine ⟨hvalid, base, hparse, hroot ?_, htells (by decide)⟩
  rw [hbase]
  refine ⟨?_, by decide +kernel, fun c hc hslash ↦ ?_, by decide +kernel⟩
  · refine fun c hc ↦ ⟨?_, ?_⟩ <;> rintro rfl <;> exact absurd hc (by decide)
  · obtain rfl := Option.some.inj (hlast.symm.trans hc)
    cases hslash

/-- Names behind a fragment stay in the fragment: all versions have one target. -/
theorem not_isRootOf_fragment :
    let config : ControllerConfig := { baseUrl := "http://maas.example.com/MAAS/#top" }
    config.validate = .ok () ∧ (∃ base root, Url.parse config.baseUrl = .ok base ∧
      apiRoot config.baseUrl .twoDotOh = .ok root ∧ ¬ IsRootOf base .twoDotOh root) ∧
      ¬ TellsVersions config.baseUrl := by
  intro config
  let base : Url :=
    { scheme := "http"
      authority := some { host := some (.domain "maas.example.com") }
      path := .segments ["MAAS", ""]
      fragment := some "top" }
  have hroot : apiRoot config.baseUrl .twoDotOh =
      .ok { base with fragment := some "top/api/2.0/" } := ok_of_toOption (by decide +kernel)
  have hroot' : apiRoot config.baseUrl ⟨1, 0, 0⟩ =
      .ok { base with fragment := some "top/api/1.0/" } := ok_of_toOption (by decide +kernel)
  refine ⟨ok_of_toOption (by decide +kernel),
    ⟨base, _, ok_of_toOption (by decide +kernel), hroot, fun hbelow ↦ ?_⟩, fun htells ↦ ?_⟩
  · have hpath := hbelow.path
    revert hpath
    decide
  · obtain ⟨r, hcompose⟩ :=
      (exists_compose_iff { base with fragment := some "top/api/2.0/" } Endpoint.region.credentials
        Endpoint.region.settings ⟨⟨"nonce", "0"⟩, "boundary"⟩ .get versionRequest).mpr
          ⟨⟨_, rfl⟩, rfl, by decide⟩
    obtain ⟨r', hcompose', htarget⟩ :=
      exists_compose_withFragment (some "top/api/1.0/") hcompose
    have hsame := htells _ _ _ _ _ _ hroot hroot' (asksBelow_of_negotiation (.inl rfl) hcompose)
      (asksBelow_of_negotiation (.inl rfl) hcompose') htarget.symm
    revert hsame
    decide

end RegionClient
