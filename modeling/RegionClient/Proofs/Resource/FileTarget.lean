import RegionClient.Proofs.Http.Exchange
import RegionClient.Proofs.Resource.Upload
import RegionClient.Proofs.Url.Segments

/-!
# Targets of files

Where a file is asked for and deleted. `NamesFile` says that a URL names a file by one segment
below the collection, so that distinct names have distinct targets. Main statement: getting and
deleting a file whose name uploads accept is one call, which goes to a URL that names the file
unless the name is `.` or `..` or holds a tab or a line end (`namesFile_iff_isFaithful`).
-/

namespace RegionClient

open Text Http

/-- A name that some upload is accepted under. -/
def Upload.AcceptsName (name : String) : Prop :=
  ∃ upload : Upload, upload.filename = name ∧ upload.validate = .ok ()

/-- Names of uploads are neither empty nor paths. -/
theorem Upload.acceptsName_iff {name : String} :
    AcceptsName name ↔ name ≠ "" ∧ '/' ∉ name.toList := by
  constructor
  · rintro ⟨upload, rfl, h⟩
    have hvalid := isValid_iff.mpr h
    exact ⟨hvalid.named, hvalid.noPath⟩
  · rintro ⟨hempty, hslash⟩
    have hvalid : IsValid { filename := name, content := some [] } :=
      ⟨hempty, hslash, .inl ⟨rfl, rfl, rfl⟩⟩
    exact ⟨_, rfl, isValid_iff.mp hvalid⟩

namespace Url

/-- The path of the collection of files below a root. -/
def filesPath (root : Url) : List Char := (Path.segments root.trunk).print ++ "/files/".toList

/-- A URL names a file below a root: behind the path of the collection it has one segment, which
spells the name, and a slash. -/
def NamesFile (root : Url) (name : String) (url : Url) : Prop :=
  ∃ segment : List Char, '/' ∉ segment ∧ Percent.decode segment = Utf8.ofString name ∧
    url.path.print = root.filesPath ++ (segment ++ ['/'])

/-- A name that comes out right as a segment, below a root whose path is not two slashes. -/
structure IsFaithful (root : Url) (name : String) : Prop where
  ne_dot : name.toList ≠ ['.']
  ne_dots : name.toList ≠ ['.', '.']
  isKept : ∀ c ∈ name.toList, c ≠ '\t' ∧ c ≠ '\n' ∧ c ≠ '\r'
  ne_slashes : root.path ≠ .segments ["", ""]

/-! ## What names a file -/

private theorem NamesFile.ne_filesPath {root : Url} {name : String} {url : Url}
    (h : root.NamesFile name url) : url.path.print ≠ root.filesPath := by
  obtain ⟨segment, -, -, hprint⟩ := h
  rw [hprint]
  intro hsame
  have hnil := List.append_right_eq_self.mp hsame
  simp at hnil

/-- A path names one file only. -/
theorem NamesFile.name_unique {root : Url} {name name' : String} {url url' : Url}
    (h : root.NamesFile name url) (h' : root.NamesFile name' url')
    (hpath : url.path.print = url'.path.print) : name = name' := by
  obtain ⟨segment, -, hdecode, hprint⟩ := h
  obtain ⟨segment', -, hdecode', hprint'⟩ := h'
  rw [hprint, hprint'] at hpath
  have hsame : segment = segment' :=
    List.append_cancel_right (List.append_cancel_left hpath)
  apply String.toList_injective
  apply Utf8.encode_injective
  exact hdecode.symm.trans (hsame ▸ hdecode')

/-! ## The path of a file -/

private theorem path_ofPath_file {name : String} (h : Upload.AcceptsName name) :
    (Request.ofPath ("files/" ++ name)).path.toList =
      "files".toList ++ '/' :: (name.toList ++ ['/']) := by
  obtain ⟨hempty, hslash⟩ := Upload.acceptsName_iff.mp h
  have hnonempty : name.toList ≠ [] := by simpa using hempty
  have hlast : ("files/" ++ name).toList.getLast? ≠ some '/' := by
    intro hlast
    rw [String.toList_append, List.getLast?_append, List.getLast?_eq_some_getLast hnonempty,
      Option.some_or, ← List.getLast?_eq_some_getLast hnonempty] at hlast
    exact hslash (List.mem_of_getLast? hlast)
  rw [Request.ofPath, ensureTrailingSlash, if_neg hlast, String.toList_append,
    String.toList_append, List.append_assoc]
  rfl

private theorem pathSegments_file {name : String} (h : Upload.AcceptsName name) :
    Http.pathSegments (Request.ofPath ("files/" ++ name)).path =
      ["files".toList, name.toList, []] := by
  have hslash : '/' ∉ name.toList := (Upload.acceptsName_iff.mp h).2
  unfold Http.pathSegments
  rw [path_ofPath_file h]
  show splitOn '/' ("files".toList ++ '/' :: (name.toList ++ ['/'])) = _
  rw [splitOn_append_cons (by decide), splitOn_append_cons hslash]
  rfl

/-- The segments of the URL of a file. -/
def fileSegments (base : List String) (special : Bool) (name : List Char) : List String :=
  if name = ['.'] ∨ name = ['.', '.'] then base ++ ["files", ""]
  else if keptOf name = ['.', '.'] then segmentBase (base ++ [""]) ++ [""]
  else if keptOf name = ['.'] then base ++ ["files", "", ""]
  else base ++
    ["files", String.ofList (Percent.encode (escapedInSegment special) (keptOf name)), ""]

private theorem appendSegment_files (special : Bool) (path : List String) :
    appendSegment special false path "files".toList = segmentBase path ++ ["files"] := by
  rw [appendSegment_eq, if_neg (by decide), if_neg (by decide), if_neg (by decide)]
  cases special <;> rfl

private theorem appendSegment_file (special : Bool) (path : List String) (name : List Char) :
    appendSegment special false
        (appendSegment special false (appendSegment special false path "files".toList) name) [] =
      fileSegments (segmentBase path) special name := by
  have hfiles : segmentBase (segmentBase path ++ ["files"]) = segmentBase path ++ ["files"] :=
    segmentBase_append (by decide)
  have hup : shorten (segmentBase path ++ ["files"]) = segmentBase path :=
    shorten_append (by decide)
  rw [appendSegment_files, appendSegment_nil, appendSegment_eq, hfiles, hup, fileSegments]
  by_cases hdots : name = ['.'] ∨ name = ['.', '.']
  · rw [if_pos hdots, if_pos hdots, hfiles, List.append_assoc]
    rfl
  · rw [if_neg hdots, if_neg hdots]
    by_cases htwo : keptOf name = ['.', '.']
    · rw [if_pos htwo, if_pos htwo]
    · rw [if_neg htwo, if_neg htwo]
      have hlong : ∀ s : String, segmentBase (segmentBase path ++ ["files"] ++ [s]) =
          segmentBase path ++ ["files"] ++ [s] := by
        intro s
        apply segmentBase_of_long
        simp
      by_cases hone : keptOf name = ['.']
      · rw [if_pos hone, if_pos hone, hlong, List.append_assoc, List.append_assoc]
        rfl
      · rw [if_neg hone, if_neg hone, hlong, List.append_assoc, List.append_assoc]
        rfl

/-- A file is located by the segments of its path. -/
theorem locate_file {root : Url} {path : List String} (hpath : root.path = .segments path)
    (hscheme : (root.scheme == "file") = false) {name : String} (h : Upload.AcceptsName name) :
    locate root (Request.ofPath ("files/" ++ name)).path =
      .ok { root with path := .segments (fileSegments (segmentBase root.trunk)
        (isSpecial root.scheme) name.toList) } := by
  rw [locate_segments hpath hscheme, pathSegments_file h, List.foldl_cons, List.foldl_cons,
    List.foldl_cons, List.foldl_nil, appendSegment_file, segmentBase_dropEmptyLast hpath]

/-! ## Names and paths -/

private theorem print_file (base : List String) (cs : List Char) :
    (Path.segments (base ++ ["files", String.ofList cs, ""])).print =
      (Path.segments base).print ++ "/files/".toList ++ (cs ++ ['/']) := by
  rw [print_append, List.append_assoc]
  simp [Path.print]

private theorem print_fileSegments_nil (special : Bool) (name rest : List Char) :
    (Path.segments (fileSegments [] special name)).print ≠ '/' :: '/' :: rest := by
  intro h
  unfold fileSegments at h
  split at h
  · cases h
  · split at h
    · cases h
    · split at h
      · cases h
      · cases h

/-- The path of a file names it if the name is faithful. -/
theorem namesFile_of_isFaithful {root url : Url} {special : Bool} {name : String}
    (hpath : url.path = .segments (fileSegments (segmentBase root.trunk) special name.toList))
    (h : root.IsFaithful name) : root.NamesFile name url := by
  have htrunk : root.trunk ≠ [""] := fun hslashes ↦ h.ne_slashes (trunk_eq_iff.mp hslashes)
  have hbase : segmentBase root.trunk = root.trunk := if_neg htrunk
  have hkept : keptOf name.toList = name.toList := keptOf_eq_iff.mpr h.isKept
  have hdots : ¬ (name.toList = ['.'] ∨ name.toList = ['.', '.']) :=
    not_or.mpr ⟨h.ne_dot, h.ne_dots⟩
  refine ⟨Percent.encode (escapedInSegment special) name.toList, ?_, ?_, ?_⟩
  · exact Percent.notMem_encode (escapedInSegment_slash special) (by decide) (by decide) _
  · exact Percent.decode_encode (escapedInSegment_mark special) _
  · rw [hpath, hbase, fileSegments, hkept, if_neg hdots, if_neg h.ne_dots, if_neg h.ne_dot,
      print_file, filesPath]

private theorem eq_encode_of_print {base : List String} {special : Bool} {name segment : List Char}
    (hsegment : segment ≠ [])
    (h : (Path.segments (fileSegments base special name)).print =
      (Path.segments base).print ++ "/files/".toList ++ (segment ++ ['/'])) :
    name ≠ ['.'] ∧ name ≠ ['.', '.'] ∧
      segment = Percent.encode (escapedInSegment special) (keptOf name) := by
  unfold fileSegments at h
  -- In every case but the last, the path ends too early for a segment and a slash.
  by_cases hdots : name = ['.'] ∨ name = ['.', '.']
  · rw [if_pos hdots, print_append] at h
    have hnil := List.append_right_eq_self.mp h.symm
    simp at hnil
  · rw [if_neg hdots] at h
    by_cases htwo : keptOf name = ['.', '.']
    · rw [if_pos htwo] at h
      by_cases hbase : base = []
      · rw [hbase] at h
        cases h
      · have hlong : 2 ≤ (base ++ [""]).length := by
          have hpos := List.length_pos_iff.mpr hbase
          rw [List.length_append, List.length_singleton]
          omega
        rw [segmentBase_of_long hlong, print_append, print_append, List.append_assoc,
          List.append_assoc] at h
        cases List.append_cancel_left h
    · rw [if_neg htwo] at h
      by_cases hone : keptOf name = ['.']
      · rw [if_pos hone, print_append, List.append_assoc] at h
        have hslash : "/files/".toList ++ ['/'] = "/files/".toList ++ (segment ++ ['/']) :=
          List.append_cancel_left h
        exact absurd (List.self_eq_append_left.mp (List.append_cancel_left hslash)) hsegment
      · rw [if_neg hone, print_file] at h
        have hsame := List.append_cancel_right (List.append_cancel_left h)
        obtain ⟨hdot, hdots⟩ := not_or.mp hdots
        exact ⟨hdot, hdots, hsame.symm⟩

/-- The path of a file names it only if the name is faithful. -/
theorem isFaithful_of_namesFile {root url : Url} {special : Bool} {name : String}
    (hname : Upload.AcceptsName name)
    (hpath : url.path = .segments (fileSegments (segmentBase root.trunk) special name.toList))
    (h : root.NamesFile name url) : root.IsFaithful name := by
  obtain ⟨segment, -, hdecode, hprint⟩ := h
  rw [hpath, filesPath] at hprint
  have htrunk : root.trunk ≠ [""] := by
    intro htrunk
    rw [htrunk] at hprint
    exact print_fileSegments_nil special _ _ hprint
  have hbase : segmentBase root.trunk = root.trunk := if_neg htrunk
  rw [hbase] at hprint
  have hsegment : segment ≠ [] := by
    rintro rfl
    have hnil : [] = name.toList := Utf8.encode_injective hdecode
    exact (Upload.acceptsName_iff.mp hname).1 (String.toList_injective hnil.symm)
  obtain ⟨hdot, hdots, rfl⟩ := eq_encode_of_print hsegment hprint
  rw [Percent.decode_encode (escapedInSegment_mark special)] at hdecode
  exact ⟨hdot, hdots, keptOf_eq_iff.mp (Utf8.encode_injective hdecode),
    fun hslashes ↦ htrunk (trunk_eq_iff.mpr hslashes)⟩

private theorem NamesFile.getLast?_print {root : Url} {name : String} {url : Url}
    (h : root.NamesFile name url) : url.path.print.getLast? = some '/' := by
  obtain ⟨segment, -, -, hprint⟩ := h
  rw [hprint, ← List.append_assoc, List.getLast?_concat]

end Url

/-! ## Requests for files -/

/-- The request for a file. -/
def fileRequest (name : String) : Request := .ofPath ("files/" ++ name)

/-- Getting a file is one call. -/
theorem calls_getFile {σ : Type} (s : Session σ) (run : Run σ) {name : String} (h : name ≠ "") :
    ((Step.getFile name).perform s run).2.calls = run.calls ++ [(.get, fileRequest name)] := by
  have hplan : (Step.getFile name).plan = .ok (.get, fileRequest name) :=
    if_neg (mt String.isEmpty_iff.mp h)
  rw [Step.perform_of_planned s hplan]
  exact s.calls_afterCall .get (fileRequest name) run

/-- Deleting a file is one call. -/
theorem calls_deleteFile {σ : Type} (s : Session σ) (run : Run σ) {name : String} (h : name ≠ "") :
    ((Step.deleteFile name).perform s run).2.calls = run.calls ++ [(.delete, fileRequest name)] := by
  have hplan : (Step.deleteFile name).plan = .ok (.delete, fileRequest name) :=
    if_neg (mt String.isEmpty_iff.mp h)
  rw [Step.perform_of_planned s hplan]
  exact s.calls_afterCall .delete (fileRequest name) run

namespace Http.Endpoint

variable {e : Endpoint} {name name' : String} {method method' : Method} {r r' : WireRequest}

/-- A wire request is the first that an endpoint makes of a request for a file. -/
def AsksForFile (e : Endpoint) (name : String) (method : Method) (r : WireRequest) : Prop :=
  ∃ fresh, compose e.root e.credentials e.settings fresh method (fileRequest name) = .ok r

private theorem AsksForFile.path_eq (h : e.AsksForFile name method r)
    (hname : Upload.AcceptsName name) :
    r.url.path = .segments (Url.fileSegments (Url.segmentBase e.root.trunk)
      (Url.isSpecial e.root.scheme) name.toList) := by
  obtain ⟨fresh, hcompose⟩ := h
  have htakes := (exists_compose_iff ..).mp ⟨r, hcompose⟩
  obtain ⟨segments, hpath⟩ := htakes.segments
  have hscheme := beq_false_of_ne (isSpecial_of_isSendable htakes.sendable).2
  obtain ⟨url, hlocate, -, -, hurl⟩ := of_compose hcompose
  rw [fileRequest, Url.locate_file hpath hscheme hname] at hlocate
  rw [hurl, path_sentTo, ← Except.ok.inj hlocate]

private theorem query_appendQuery_nil (url : Url) :
    (url.appendQuery []).query = url.query ∨
      url.query = some "" ∧ (url.appendQuery []).query = none := by
  unfold Url.appendQuery
  cases url.query with
  | none => exact .inl rfl
  | some query =>
    by_cases hempty : query = ""
    · rw [hempty]
      exact .inr ⟨rfl, rfl⟩
    · left
      have hnonempty : query.toList.isEmpty = false := by simpa using hempty
      dsimp only
      rw [hnonempty, String.ofList_toList]
      rfl

private theorem AsksForFile.query_eq (h : e.AsksForFile name method r) :
    r.url.query = e.root.query ∨ e.root.query = some "" ∧ r.url.query = none := by
  obtain ⟨fresh, hcompose⟩ := h
  obtain ⟨url, hlocate, -, -, hurl⟩ := of_compose hcompose
  have hroot : (takeUser url).2.query = e.root.query := by
    have hquery : url.query = e.root.query := by
      rw [(locate_eq_ok hlocate).2]
    rcases takeUser_snd url with h | h <;> rw [h]
    · exact hquery
    · exact hquery
  rw [hurl, ← hroot]
  cases method with
  | get => exact query_appendQuery_nil _
  | post => exact .inl rfl
  | delete => exact .inl rfl

private theorem AsksForFile.target_eq (h : e.AsksForFile name method r) :
    ∃ tail, r.target.toList = r.url.path.print ++ tail ∧
      (tail = Url.printAfter '?' e.root.query ∨ e.root.query = some "" ∧ tail = []) := by
  refine ⟨Url.printAfter '?' r.url.query, String.toList_ofList, ?_⟩
  rcases h.query_eq with hquery | ⟨hempty, hquery⟩
  · rw [hquery]
    exact .inl rfl
  · rw [hquery]
    exact .inr ⟨hempty, rfl⟩

private theorem AsksForFile.print_eq (h : e.AsksForFile name method r)
    (h' : e.AsksForFile name' method' r') (hlast : r.url.path.print.getLast? = some '/')
    (hlast' : r'.url.path.print.getLast? = some '/') (htarget : r.target = r'.target) :
    r.url.path.print = r'.url.path.print := by
  obtain ⟨tail, hr, htail⟩ := h.target_eq
  obtain ⟨tail', hr', htail'⟩ := h'.target_eq
  rw [htarget, hr'] at hr
  -- Where one of the tails is a lone mark, the other path would have to end in it.
  rcases htail with rfl | ⟨hempty, rfl⟩
  · rcases htail' with rfl | ⟨hempty, rfl⟩
    · exact (List.append_cancel_right hr).symm
    · rw [hempty, List.append_nil] at hr
      rw [hr] at hlast'
      have hmark := hlast'.symm.trans List.getLast?_concat
      cases hmark
  · rcases htail' with rfl | ⟨-, rfl⟩
    · rw [hempty, List.append_nil] at hr
      rw [← hr] at hlast
      have hmark := hlast.symm.trans List.getLast?_concat
      cases hmark
    · rw [List.append_nil, List.append_nil] at hr
      exact hr.symm

end Http.Endpoint

/-- A name that uploads are accepted under is asked for and deleted by one call. Below a root that
takes requests, the call goes to a URL that names the file, if and only if the name is faithful.
No faithful name goes to the collection, and no two go to one target. -/
theorem namesFile_iff_isFaithful (e : Endpoint) {name : String} (hname : Upload.AcceptsName name) :
    (∀ (s : Session Network) (run : Run Network),
      ((Step.getFile name).perform s run).2.calls = run.calls ++ [(.get, fileRequest name)] ∧
      ((Step.deleteFile name).perform s run).2.calls =
        run.calls ++ [(.delete, fileRequest name)]) ∧
    (∀ method fresh, (∃ r, compose e.root e.credentials e.settings fresh method
      (fileRequest name) = .ok r) ↔ e.root.TakesRequests) ∧
    ∀ method r, e.AsksForFile name method r →
      (e.root.NamesFile name r.url ↔ e.root.IsFaithful name) ∧
      (e.root.IsFaithful name → r.url.path.print ≠ e.root.filesPath ∧
        ∀ name' method' r', Upload.AcceptsName name' → e.root.IsFaithful name' →
          e.AsksForFile name' method' r' → r.target = r'.target → name = name') := by
  have hempty : name ≠ "" := (Upload.acceptsName_iff.mp hname).1
  refine ⟨fun s run ↦ ⟨calls_getFile s run hempty, calls_deleteFile s run hempty⟩,
    fun method fresh ↦ exists_compose_iff .., fun method r h ↦ ?_⟩
  have hpath := h.path_eq hname
  constructor
  · constructor
    · exact Url.isFaithful_of_namesFile hname hpath
    · exact Url.namesFile_of_isFaithful hpath
  · intro hfaithful
    have hnames := Url.namesFile_of_isFaithful hpath hfaithful
    refine ⟨hnames.ne_filesPath, fun name' method' r' hname' hfaithful' h' htarget ↦ ?_⟩
    have hnames' := Url.namesFile_of_isFaithful (h'.path_eq hname') hfaithful'
    exact hnames.name_unique hnames'
      (h.print_eq h' hnames.getLast?_print hnames'.getLast?_print htarget)

/-- A name with a question mark is asked for as it is. -/
theorem namesFile_questionMark :
    Upload.AcceptsName "a?b" ∧
      ∃ r, Endpoint.region.AsksForFile "a?b" .get r ∧
        Endpoint.region.root.NamesFile "a?b" r.url := by
  have hname : Upload.AcceptsName "a?b" := Upload.acceptsName_iff.mpr (by decide)
  obtain ⟨-, hexists, hnames⟩ := namesFile_iff_isFaithful Endpoint.region hname
  obtain ⟨r, hcompose⟩ :=
    (hexists .get ⟨⟨"nonce", "0"⟩, "boundary"⟩).mpr ⟨⟨_, rfl⟩, rfl, by decide⟩
  have hasks : Endpoint.region.AsksForFile "a?b" .get r := ⟨_, hcompose⟩
  exact ⟨hname, r, hasks,
    (hnames .get r hasks).1.mpr ⟨by decide, by decide, by simp, by decide⟩⟩

/-- A name with a tab is accepted, but the tab is lost on the way. -/
theorem not_namesFile_tab :
    Upload.AcceptsName "a\tb" ∧
      ∃ r, Endpoint.region.AsksForFile "a\tb" .get r ∧
        ¬ Endpoint.region.root.NamesFile "a\tb" r.url := by
  have hname : Upload.AcceptsName "a\tb" := Upload.acceptsName_iff.mpr (by decide)
  have htakes : Endpoint.region.root.TakesRequests := ⟨⟨_, rfl⟩, rfl, by decide⟩
  obtain ⟨r, hcompose⟩ :=
    (exists_compose_iff Endpoint.region.root Endpoint.region.credentials Endpoint.region.settings
      ⟨⟨"nonce", "0"⟩, "boundary"⟩ .get (fileRequest "a\tb")).mpr htakes
  have hasks : Endpoint.region.AsksForFile "a\tb" .get r := ⟨_, hcompose⟩
  refine ⟨hname, r, hasks, fun hnames ↦ ?_⟩
  have hkept := (Url.isFaithful_of_namesFile hname (hasks.path_eq hname) hnames).isKept
  exact (hkept '\t' (by decide)).1 rfl

end RegionClient
