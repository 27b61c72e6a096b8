import Mathlib.Data.List.Induction
import RegionClient.Proofs.Http.Exchange
import RegionClient.Proofs.Resource.Step
import RegionClient.Proofs.Text.Split
import RegionClient.Proofs.Url.Segments

/-!
# Slashes at the end of paths

Every path is a bare one, which has no slash at its end, with slashes behind it. `IsUnified` is the
law that however many slashes there are, the same is asked for, by a path with one slash. No slash
is ever taken away, so that the law fails for two slashes and more. Main statement: the law holds
of a path unless it ends in two slashes, the requests of two paths are the same if the paths differ
in a single slash only, and on the wire each further slash is one more at the end of the path that
is asked for (`isUnified_iff`).
-/

namespace RegionClient

open Text Http

/-- A path is a bare one, which has no slash at its end, with slashes behind it. -/
structure Slashed (bare : String) (n : Nat) (path : String) : Prop where
  isBare : bare.toList.getLast? ≠ some '/'
  toList_eq : path.toList = bare.toList ++ List.replicate n '/'

/-- The primitive calls, without the path. -/
inductive Primitive where
  | get
  | getQuery (params : Params)
  | getOp (op : String)
  | post (op : String) (params : Params)
  | postFile (op : String) (params : Params) (content : Bytes)
  | delete

namespace Primitive

/-- A primitive call at a path. -/
def step (path : String) : Primitive → Step
  | get => .get path
  | getQuery params => .getQuery path params
  | getOp op => .getOp path op
  | post op params => .post path op params
  | postFile op params content => .postFile path op params content
  | delete => .delete path

end Primitive

/-- All spellings of a path ask for the same: the path of the request has one slash at its end,
making a request of that path again changes nothing, and every primitive call at the path is the
one at the bare path. -/
structure IsUnified (path : String) : Prop where
  oneSlash : ∃ bare, Slashed bare 1 (Request.ofPath path).path
  settled : Request.ofPath (Request.ofPath path).path = Request.ofPath path
  sameRequest : ∀ bare n, Slashed bare n path → Request.ofPath path = Request.ofPath bare
  sameRun : ∀ bare n, Slashed bare n path → ∀ (primitive : Primitive) (σ : Type) (s : Session σ)
    (run : Run σ), (primitive.step path).perform s run = (primitive.step bare).perform s run

/-! ## Slashes -/

/-- Every path is a bare one with slashes behind it. -/
theorem exists_slashed (path : String) : ∃ bare n, Slashed bare n path := by
  suffices h : ∀ cs : List Char, ∃ (front : List Char) (n : Nat),
      front.getLast? ≠ some '/' ∧ cs = front ++ List.replicate n '/' by
    obtain ⟨front, n, hbare, hpath⟩ := h path.toList
    exact ⟨String.ofList front, n, by rwa [String.toList_ofList], by rwa [String.toList_ofList]⟩
  intro cs
  induction cs using List.reverseRecOn with
  | nil => exact ⟨[], 0, by simp, rfl⟩
  | append_singleton cs c ih =>
    by_cases hc : c = '/'
    · obtain ⟨front, n, hbare, rfl⟩ := ih
      exact ⟨front, n + 1, hbare, by rw [hc, List.replicate_succ', List.append_assoc]⟩
    · exact ⟨cs ++ [c], 0, by simpa using hc, by simp⟩

namespace Slashed

variable {bare bare' path path' : String} {n n' : Nat}

private theorem getLast?_eq_iff (h : Slashed bare n path) :
    path.toList.getLast? = some '/' ↔ n ≠ 0 := by
  rw [h.toList_eq]
  cases n with
  | zero => simpa using h.isBare
  | succ n => simp [List.replicate_succ']

private theorem two_slashes_iff (h : Slashed bare n path) : ['/', '/'] <:+ path.toList ↔ 2 ≤ n := by
  rw [h.toList_eq]
  constructor
  · rintro ⟨front, hfront⟩
    by_contra hfew
    obtain rfl | rfl : n = 0 ∨ n = 1 := by omega
    · have hlast := congrArg List.getLast? hfront
      simp only [List.replicate_zero, List.append_nil] at hlast
      exact h.isBare (by rw [← hlast, List.getLast?_append]; rfl)
    · have hbare : bare.toList = front ++ ['/'] :=
        List.append_cancel_right (hfront.symm.trans (List.append_assoc front ['/'] ['/']).symm)
      exact h.isBare (by rw [hbare, List.getLast?_concat])
  · intro htwo
    obtain ⟨k, rfl⟩ := Nat.exists_eq_add_of_le' htwo
    exact ⟨bare.toList ++ List.replicate k '/', by
      rw [List.replicate_add, List.append_assoc]; rfl⟩

private theorem unique_of_le (h : Slashed bare n path) (h' : Slashed bare' n' path) (hle : n ≤ n') :
    bare = bare' ∧ n = n' := by
  obtain ⟨k, rfl⟩ := Nat.exists_eq_add_of_le' hle
  have hbare : bare.toList = bare'.toList ++ List.replicate k '/' := by
    refine List.append_cancel_right (?_ : _ ++ List.replicate n '/' = _ ++ List.replicate n '/')
    rw [← h.toList_eq, h'.toList_eq, List.replicate_add, List.append_assoc]
  cases k with
  | zero =>
    rw [List.replicate_zero, List.append_nil] at hbare
    exact ⟨String.toList_injective hbare, (Nat.zero_add n).symm⟩
  | succ k =>
    refine absurd ?_ h.isBare
    rw [hbare, List.replicate_succ', ← List.append_assoc, List.getLast?_concat]

/-- A path has one bare path and one number of slashes. -/
theorem unique (h : Slashed bare n path) (h' : Slashed bare' n' path) : bare = bare' ∧ n = n' := by
  rcases Nat.le_total n n' with hle | hle
  · exact h.unique_of_le h' hle
  · obtain ⟨hbare, hn⟩ := h'.unique_of_le h hle
    exact ⟨hbare.symm, hn.symm⟩

/-- The spelling of a bare path by a number of slashes is one path. -/
theorem path_unique (h : Slashed bare n path) (h' : Slashed bare n path') : path = path' :=
  String.toList_injective (h.toList_eq.trans h'.toList_eq.symm)

private theorem self (h : Slashed bare n path) : Slashed bare 0 bare := ⟨h.isBare, by simp⟩

/-- The path of a request has the slashes of the path that it is made of, or one. -/
theorem ofPath (h : Slashed bare n path) : Slashed bare (max 1 n) (Request.ofPath path).path := by
  refine ⟨h.isBare, ?_⟩
  show (ensureTrailingSlash path).toList = _
  unfold ensureTrailingSlash
  by_cases hn : n = 0
  · rw [if_neg (mt h.getLast?_eq_iff.mp (not_not_intro hn)), String.toList_append, h.toList_eq, hn]
    simp
  · rw [if_pos (h.getLast?_eq_iff.mpr hn), h.toList_eq, Nat.max_eq_right (by omega)]

private theorem ofPath_eq_iff (h : Slashed bare n path) (h' : Slashed bare' n' path') :
    Request.ofPath path = Request.ofPath path' ↔ bare = bare' ∧ max 1 n = max 1 n' := by
  constructor
  · intro hsame
    have hpath := h.ofPath
    rw [hsame] at hpath
    exact hpath.unique h'.ofPath
  · rintro ⟨rfl, hn⟩
    have hpath := h.ofPath
    rw [hn] at hpath
    have hsame := hpath.path_unique h'.ofPath
    exact congrArg (fun p : String ↦ ({ path := p } : Request)) hsame

end Slashed

private theorem ofPath_path_ofPath (path : String) :
    Request.ofPath (Request.ofPath path).path = Request.ofPath path := by
  obtain ⟨bare, n, h⟩ := exists_slashed path
  exact (h.ofPath.ofPath_eq_iff h).mpr ⟨rfl, by omega⟩

/-! ## Primitive calls -/

namespace Primitive

/-- The method of a primitive call. -/
def method : Primitive → Method
  | get | getQuery _ | getOp _ => .get
  | post .. | postFile .. => .post
  | delete => .delete

/-- What a primitive call makes of the request for its path. -/
def dress (request : Request) : Primitive → Request
  | get | delete => request
  | getQuery params => { request with params }
  | getOp op => request.withOp op
  | post op params => { request.withOp op with params }
  | postFile op params content =>
    { request.withOp op with params, file := some ⟨"file", content⟩ }

private theorem plan_step (primitive : Primitive) (path : String) :
    (primitive.step path).plan = .ok (primitive.method, primitive.dress (.ofPath path)) := by
  cases primitive <;> rfl

private theorem path_dress (primitive : Primitive) (request : Request) :
    (primitive.dress request).path = request.path := by
  have hop : ∀ op, (request.withOp op).path = request.path := by
    intro op
    unfold Request.withOp
    split <;> rfl
  cases primitive with
  | getOp op => exact hop op
  | post op params => exact hop op
  | postFile op params content => exact hop op
  | _ => rfl

private theorem dress_eq (primitive : Primitive) (request : Request) (path : String) :
    primitive.dress { request with path } = { primitive.dress request with path } := by
  have hop : ∀ op, ({ request with path } : Request).withOp op =
      { request.withOp op with path } := by
    intro op
    unfold Request.withOp
    split <;> rfl
  cases primitive <;> simp only [dress, hop]

/-- Paths that make the same request are the same to every primitive call. -/
theorem perform_congr {path path' : String} (h : Request.ofPath path = Request.ofPath path')
    (primitive : Primitive) {σ : Type} (s : Session σ) (run : Run σ) :
    (primitive.step path).perform s run = (primitive.step path').perform s run := by
  rw [Step.perform_of_planned s (primitive.plan_step path),
    Step.perform_of_planned s (primitive.plan_step path'), h]
  cases primitive <;> rfl

end Primitive

/-! ## Paths of URLs -/

namespace Url

/-- Empty segments are put behind a path, except behind a lone slash. -/
def withEmpty (path : List String) (n : Nat) : List String :=
  if path = [""] then [""] else path ++ List.replicate n ""

private theorem foldl_appendSegment_nil (special : Bool) {path : List String} (h : path ≠ [])
    (n : Nat) :
    (List.replicate n []).foldl (appendSegment special false) path = withEmpty path n := by
  unfold withEmpty
  by_cases hslash : path = [""]
  · rw [if_pos hslash, hslash]
    induction n with
    | zero => rfl
    | succ n ih =>
      rw [List.replicate_succ, List.foldl_cons, appendSegment_nil]
      exact ih
  · rw [if_neg hslash]
    induction n with
    | zero => exact (List.append_nil path).symm
    | succ n ih =>
      have hlong : path ++ List.replicate n "" ≠ [""] := by
        intro hsingle
        rcases List.append_eq_singleton_iff.mp hsingle with ⟨hnil, -⟩ | ⟨hpath, -⟩
        · exact h hnil
        · exact hslash hpath
      rw [List.replicate_succ', List.foldl_append, ih, List.foldl_cons, List.foldl_nil,
        appendSegment_nil, segmentBase, if_neg hlong, List.replicate_succ', List.append_assoc]

private theorem print_eq_slash_iff {path : List String} :
    (Path.segments path).print = ['/'] ↔ path = [""] := by
  constructor
  · intro h
    cases path with
    | nil => cases h
    | cons segment rest =>
      have hrest : segment.toList ++ (Path.segments rest).print = [] := (List.cons.inj h).2
      obtain ⟨hsegment, hrest⟩ := List.append_eq_nil_iff.mp hrest
      cases rest with
      | nil => rw [String.toList_eq_nil_iff.mp hsegment]
      | cons segment rest => cases hrest
  · rintro rfl
    rfl

private theorem print_withEmpty (path : List String) (n : Nat) :
    (Path.segments (withEmpty path n)).print =
      if (Path.segments path).print = ['/'] then ['/']
      else (Path.segments path).print ++ List.replicate n '/' := by
  have hempty : (Path.segments (List.replicate n "")).print = List.replicate n '/' := by
    induction n with
    | zero => rfl
    | succ n ih =>
      rw [List.replicate_succ, List.replicate_succ, ← ih]
      rfl
  unfold withEmpty
  by_cases hslash : path = [""]
  · rw [if_pos hslash, if_pos (print_eq_slash_iff.mpr hslash)]
    rfl
  · rw [if_neg hslash, if_neg (mt print_eq_slash_iff.mp hslash), print_append, hempty]

end Url

private theorem splitOn_slashes (cs : List Char) (n : Nat) :
    splitOn '/' (cs ++ List.replicate n '/') = splitOn '/' cs ++ List.replicate n [] := by
  induction n with
  | zero => simp
  | succ n ih =>
    rw [List.replicate_succ', ← List.append_assoc, splitOn_append_separator, ih, List.append_assoc,
      List.replicate_succ']
    rfl

private theorem exists_pathSegments_slashed (bare : String) : ∃ front, ∀ n path,
    Slashed bare (n + 1) path → pathSegments path = front ++ List.replicate (n + 1) [] := by
  cases hbare : bare.toList with
  | nil =>
    refine ⟨[], fun n path h ↦ ?_⟩
    have hpath : path.toList = '/' :: List.replicate n '/' := by
      rw [h.toList_eq, hbare]
      rfl
    unfold pathSegments
    rw [hpath]
    exact splitOn_slashes [] n
  | cons c rest =>
    by_cases hc : c = '/'
    · refine ⟨splitOn '/' rest, fun n path h ↦ ?_⟩
      unfold pathSegments
      rw [h.toList_eq, hbare, hc]
      exact splitOn_slashes rest (n + 1)
    · refine ⟨splitOn '/' (c :: rest), fun n path h ↦ ?_⟩
      unfold pathSegments
      rw [h.toList_eq, hbare, List.cons_append]
      split
      · next hslash => exact absurd (List.cons.inj hslash).1 hc
      · exact splitOn_slashes (c :: rest) (n + 1)

/-- Below a root with segments, a path has the URL of the bare path with a slash, with an empty
segment for each further slash. -/
theorem exists_locate_slashed {root : Url} {segments : List String}
    (hpath : root.path = .segments segments) (hscheme : (root.scheme == "file") = false)
    (bare : String) : ∃ kept, ∀ n path, Slashed bare (n + 1) path →
      locate root path = .ok { root with path := .segments (Url.withEmpty kept n) } := by
  obtain ⟨front, hfront⟩ := exists_pathSegments_slashed bare
  refine ⟨Url.segmentBase (front.foldl (Url.appendSegment (Url.isSpecial root.scheme) false)
    (Url.dropEmptyLast segments)) ++ [""], fun n path h ↦ ?_⟩
  rw [locate_segments hpath hscheme, hfront n path h, List.foldl_append, List.replicate_succ,
    List.foldl_cons, Url.appendSegment_nil, Url.foldl_appendSegment_nil _ (by simp)]

/-! ## On the wire -/

namespace Http

/-- The request at another path of the same server. -/
def WireRequest.withPath (r : WireRequest) (path : Url.Path) : WireRequest :=
  { r with url := { r.url with path } }

private theorem takeUser_withPath (url : Url) (path : Url.Path) :
    takeUser { url with path } = ((takeUser url).1, { (takeUser url).2 with path }) := by
  obtain ⟨user, h | h⟩ := exists_takeUser url
  · rw [h url rfl, h { url with path } rfl]
  · rw [h url rfl, h { url with path } rfl]
    rfl

private theorem sentTo_withPath (method : Method) (request : Request) (url : Url) (name : String)
    (path : Url.Path) :
    sentTo method { request with path := name } { url with path } =
      { sentTo method request url with path } := by
  have hpairs : addedPairs? method { request with path := name } = addedPairs? method request := by
    cases method <;> rfl
  unfold sentTo
  rw [hpairs, takeUser_withPath]
  cases addedPairs? method request <;> rfl

private theorem compose_withPath {root url : Url} {credentials : Credentials}
    {settings : ClientSettings} {fresh : Fresh} {method : Method} {request : Request}
    {r : WireRequest} {name : String} {path : Url.Path}
    (h : compose root credentials settings fresh method request = .ok r)
    (hlocate : locate root request.path = .ok url)
    (hlocate' : locate root name = .ok { url with path }) :
    compose root credentials settings fresh method { request with path := name } =
      .ok (r.withPath path) := by
  obtain ⟨url', hurl, hhost, hsendable, rfl⟩ := compose_eq_ok_iff.mp h
  obtain rfl := Except.ok.inj (hlocate.symm.trans hurl)
  refine compose_eq_ok_iff.mpr ⟨_, hlocate', hhost, hsendable, ?_⟩
  have hpayload : payload fresh method { request with path := name } =
      payload fresh method request := rfl
  rw [sentTo_withPath method request url name path, takeUser_withPath url path, hpayload]
  rfl

end Http

namespace Primitive

/-- What a primitive call at a path is sent as, by an endpoint. -/
def Sends (e : Endpoint) (fresh : Fresh) (path : String) (primitive : Primitive)
    (r : WireRequest) : Prop :=
  compose e.root e.credentials e.settings fresh primitive.method
    (primitive.dress (.ofPath path)) = .ok r

/-- Whatever the slashes at the end of a path, a primitive call at it is sent as the one at the bare
path is, but for the path of the URL. There each slash but the first shows at the end, unless the
bare path comes to a lone slash. -/
theorem exists_sends (primitive : Primitive) {e : Endpoint} (htakes : e.root.TakesRequests)
    (fresh : Fresh) {bare path : String} {n : Nat} (h : Slashed bare n path) :
    ∃ first shown, primitive.Sends e fresh bare first ∧
      primitive.Sends e fresh path (first.withPath shown) ∧
      shown.print = if first.url.path.print = ['/'] then ['/']
        else first.url.path.print ++ List.replicate (n - 1) '/' := by
  obtain ⟨segments, hpath⟩ := htakes.segments
  have hscheme := beq_false_of_ne (isSpecial_of_isSendable htakes.sendable).2
  obtain ⟨kept, hkept⟩ := exists_locate_slashed hpath hscheme bare
  obtain ⟨first, hfirst⟩ := (exists_compose_iff e.root e.credentials e.settings fresh
    primitive.method (primitive.dress (.ofPath bare))).mpr htakes
  have hlocate : locate e.root (primitive.dress (.ofPath bare)).path =
      .ok { e.root with path := .segments (Url.withEmpty kept 0) } := by
    rw [path_dress]
    exact hkept 0 _ h.self.ofPath
  -- Every request has one slash at its end; those behind it are empty segments of their own.
  have hmore : Slashed bare (n - 1 + 1) (Request.ofPath path).path := by
    have hslashes : max 1 n = n - 1 + 1 := by omega
    exact hslashes ▸ h.ofPath
  have hdress : primitive.dress (.ofPath path) =
      { primitive.dress (.ofPath bare) with path := (Request.ofPath path).path } :=
    primitive.dress_eq (.ofPath bare) _
  have hurl : first.url.path = .segments (Url.withEmpty kept 0) := by
    obtain ⟨url, hfound, -, -, hsent⟩ := of_compose hfirst
    rw [hsent, path_sentTo, ← Except.ok.inj (hlocate.symm.trans hfound)]
  refine ⟨first, .segments (Url.withEmpty kept (n - 1)), hfirst, ?_, ?_⟩
  · unfold Sends
    rw [hdress]
    exact compose_withPath hfirst hlocate (hkept _ _ hmore)
  · have hzero : (Url.Path.segments (Url.withEmpty kept 0)).print =
        (Url.Path.segments kept).print := by
      rw [Url.print_withEmpty, List.replicate_zero, List.append_nil]
      split
      · next hslash => exact hslash.symm
      · rfl
    rw [hurl, hzero, Url.print_withEmpty]

end Primitive

/-! ## The law -/

private theorem IsUnified.of_few {bare path : String} {n : Nat} (h : Slashed bare n path)
    (hn : n < 2) :
    IsUnified path where
  oneSlash := by
    have hone : max 1 n = 1 := by omega
    exact ⟨bare, hone ▸ h.ofPath⟩
  settled := ofPath_path_ofPath path
  sameRequest := by
    intro bare' n' h'
    obtain ⟨rfl, rfl⟩ := h.unique h'
    exact (h.ofPath_eq_iff h.self).mpr ⟨rfl, by omega⟩
  sameRun := by
    intro bare' n' h' primitive σ s run
    obtain ⟨rfl, rfl⟩ := h.unique h'
    exact primitive.perform_congr ((h.ofPath_eq_iff h.self).mpr ⟨rfl, by omega⟩) s run

/-- The spellings of a path ask for the same, except that slashes beyond the first are not taken
away: the law holds of a path unless it ends in two slashes. A request of the path of a request is
always the same, and two paths make the same request only if they differ in a single slash. On the
wire, the slashes beyond the first stand at the end of the path that is asked for, which is else
that of the bare path. -/
theorem isUnified_iff (path : String) :
    (IsUnified path ↔ ¬ ['/', '/'] <:+ path.toList) ∧
    Request.ofPath (Request.ofPath path).path = Request.ofPath path ∧
    ∃ bare n, Slashed bare n path ∧
      (∀ bare' n' path', Slashed bare' n' path' →
        (Request.ofPath path = Request.ofPath path' ↔ bare = bare' ∧ max 1 n = max 1 n')) ∧
      ∀ (primitive : Primitive) (e : Endpoint) (fresh : Fresh), e.root.TakesRequests →
        ∃ first shown, primitive.Sends e fresh bare first ∧
          primitive.Sends e fresh path (first.withPath shown) ∧
          shown.print = if first.url.path.print = ['/'] then ['/']
            else first.url.path.print ++ List.replicate (n - 1) '/' := by
  obtain ⟨bare, n, h⟩ := exists_slashed path
  refine ⟨?_, ofPath_path_ofPath path, bare, n, h, fun _ _ _ h' ↦ h.ofPath_eq_iff h',
    fun primitive e fresh htakes ↦ primitive.exists_sends htakes fresh h⟩
  rw [h.two_slashes_iff]
  constructor
  · intro hlaw htwo
    obtain ⟨bare', hone⟩ := hlaw.oneSlash
    have hslashes : max 1 n = 1 := (h.ofPath.unique hone).2
    omega
  · intro hfew
    exact .of_few h (by omega)

/-- Two slashes are kept. -/
theorem not_isUnified_two : ¬ IsUnified "machines//" := by
  intro hlaw
  have hsame := hlaw.sameRequest "machines" 2 ⟨by decide, by decide⟩
  revert hsame
  decide

end RegionClient
