import RegionClient.Proofs.Http.Exchange
import RegionClient.Proofs.Text.Utf8
import RegionClient.Proofs.Url.Paths

/-!
# Paths spelled below a root

The URL of a path whose segments are literal: none of them is dots, or holds a tab or a line end.
Main statement: below the API root of a version, the text of that URL's path is the root's, and
behind it the segments one by one, each escaped; the segments can be read off it, so different
paths have different URLs (`spells_of_locate`).
-/

namespace RegionClient

open Text

namespace Http

/-- The text of a path; one slash at its front does not count. -/
def bareText (path : String) : List Char :=
  match path.toList with
  | '/' :: rest => rest
  | cs => cs

private theorem pathSegments_eq (path : String) :
    pathSegments path = splitOn '/' (bareText path) := rfl

end Http

namespace Url

open Http

/-- A segment that stands for itself. -/
structure IsLiteral (segment : List Char) : Prop where
  ne_dot : segment ≠ ['.']
  ne_dots : segment ≠ ['.', '.']
  isKept : ∀ c ∈ segment, c ≠ '\t' ∧ c ≠ '\n' ∧ c ≠ '\r'

/-- A URL spells a path below a root: it differs from the root in its path only, and that goes on
with the segments between slashes, each of them escaped. What the escapes stand for are the
segments, and no character that ends a path, and none outside ASCII, stands unescaped. -/
structure Spells (root : Url) (path : String) (suffix : List Char) (url : Url) : Prop where
  scheme : url.scheme = root.scheme
  authority : url.authority = root.authority
  query : url.query = root.query
  fragment : url.fragment = root.fragment
  print_eq : url.path.print = withoutSlash root.path.print ++ '/' :: suffix
  encoded : suffix =
    join '/' ((splitOn '/' (bareText path)).map (Percent.encode (escapedInSegment true)))
  decoded : (splitOn '/' suffix).map (fun piece ↦ Utf8.decode? (Percent.decode piece)) =
    (splitOn '/' (bareText path)).map some
  visible : ∀ c ∈ suffix, c.toNat < 0x80 ∧ c ∉ "?#\\ ".toList

/-! ## Literal segments -/

private theorem isLiteral_of_mem_bareText {path : String}
    (h : ∀ segment ∈ splitOn '/' path.toList, IsLiteral segment) :
    ∀ segment ∈ splitOn '/' (bareText path), IsLiteral segment := by
  unfold bareText
  split
  · next rest hrest =>
    intro segment hsegment
    apply h
    rw [hrest, splitOn, if_pos rfl]
    exact List.mem_cons_of_mem [] hsegment
  · exact h

private theorem appendSegment_of_isLiteral (special : Bool) {path : List String}
    (hslashes : path ≠ [""]) {segment : List Char} (h : IsLiteral segment) :
    appendSegment special false path segment =
      path ++ [String.ofList (Percent.encode (escapedInSegment special) segment)] := by
  have hkept : keptOf segment = segment := keptOf_eq_iff.mpr h.isKept
  have hbase : segmentBase path = path := if_neg hslashes
  rw [appendSegment_eq, hkept, hbase, if_neg (not_or.mpr ⟨h.ne_dot, h.ne_dots⟩), if_neg h.ne_dots,
    if_neg h.ne_dot]

private theorem foldl_appendSegment_of_isLiteral (special : Bool) {path : List String}
    (hne : path ≠ []) (hslashes : path ≠ [""]) {segments : List (List Char)}
    (h : ∀ segment ∈ segments, IsLiteral segment) :
    segments.foldl (appendSegment special false) path =
      path ++ (segments.map (Percent.encode (escapedInSegment special))).map String.ofList := by
  induction segments generalizing path with
  | nil => exact (List.append_nil path).symm
  | cons segment rest ih =>
    have hlong : ∀ name : String, path ++ [name] ≠ [""] := by
      intro name hsingle
      have hlength := congrArg List.length hsingle
      rw [List.length_append, List.length_singleton, List.length_singleton] at hlength
      exact hne (List.length_eq_zero_iff.mp (by omega))
    rw [List.foldl_cons, appendSegment_of_isLiteral special hslashes (h segment List.mem_cons_self),
      ih (by simp) (hlong _) fun s hs ↦ h s (List.mem_cons_of_mem segment hs), List.append_assoc]
    rfl

/-! ## The text of the URL -/

private theorem print_map_ofList {pieces : List (List Char)} (h : pieces ≠ []) :
    (Path.segments (pieces.map String.ofList)).print = '/' :: join '/' pieces := by
  induction pieces with
  | nil => exact absurd rfl h
  | cons piece rest ih =>
    have hcons : (Path.segments ((piece :: rest).map String.ofList)).print =
        '/' :: piece ++ (Path.segments (rest.map String.ofList)).print := by
      simp only [Path.print, List.map_cons, List.flatMap_cons, String.toList_ofList]
    rw [hcons]
    cases rest with
    | nil => exact List.append_nil _
    | cons piece' rest => rw [ih (List.cons_ne_nil piece' rest)]; rfl

private theorem decode_pieces (special : Bool) (segments : List (List Char)) :
    (segments.map (Percent.encode (escapedInSegment special))).map
      (fun piece ↦ Utf8.decode? (Percent.decode piece)) = segments.map some := by
  rw [List.map_map]
  apply List.map_congr_left
  intro segment _
  rw [Function.comp_apply, Percent.decode_encode (escapedInSegment_mark special),
    Utf8.decode?_encode]

private theorem visible_of_mem_join {segments : List (List Char)} {c : Char}
    (h : c ∈ join '/' (segments.map (Percent.encode (escapedInSegment true)))) :
    c.toNat < 0x80 ∧ c ∉ "?#\\ ".toList := by
  rcases mem_join h with rfl | ⟨piece, hpiece, hc⟩
  · decide
  · obtain ⟨segment, -, rfl⟩ := List.mem_map.mp hpiece
    refine ⟨Percent.ascii_of_mem_encode hc, fun hmark ↦ ?_⟩
    have hmarks : c = '?' ∨ c = '#' ∨ c = '\\' ∨ c = ' ' := by simpa using hmark
    rcases hmarks with rfl | rfl | rfl | rfl
    all_goals exact Percent.notMem_encode (by decide) (by decide) (by decide) segment hc

private theorem splitOn_join_encode (special : Bool) {segments : List (List Char)}
    (hne : segments ≠ []) :
    splitOn '/' (join '/' (segments.map (Percent.encode (escapedInSegment special)))) =
      segments.map (Percent.encode (escapedInSegment special)) := by
  apply splitOn_join (mt List.map_eq_nil_iff.mp hne)
  intro piece hpiece
  obtain ⟨segment, -, rfl⟩ := List.mem_map.mp hpiece
  exact Percent.notMem_encode (escapedInSegment_slash special) (by decide) (by decide) segment

/-- The text of a URL's path spells one path only, up to a slash at its front. -/
theorem Spells.bareText_unique {root url url' : Url} {path path' : String}
    {suffix suffix' : List Char} (h : Spells root path suffix url)
    (h' : Spells root path' suffix' url') (hsame : url.path.print = url'.path.print) :
    bareText path = bareText path' := by
  have htext : withoutSlash root.path.print ++ '/' :: suffix =
      withoutSlash root.path.print ++ '/' :: suffix' := by
    rw [← h.print_eq, hsame, h'.print_eq]
  have hsuffix : suffix = suffix' := (List.cons.inj (List.append_cancel_left htext)).2
  have hsegments : splitOn '/' (bareText path) = splitOn '/' (bareText path') := by
    apply List.map_injective_iff.mpr fun _ _ ↦ Option.some.inj
    rw [← h.decoded, hsuffix, h'.decoded]
  rw [← join_splitOn '/' (bareText path), hsegments, join_splitOn]

/-! ## Roots -/

private theorem trunk_of_apiForm {root : Url} {segments : List String} {front name : List Char}
    (hpath : root.path = .segments segments) (hfree : Avoids '/' segments)
    (hform : root.path.print = front ++ "/api/".toList ++ name ++ ['/']) :
    root.trunk ≠ [] ∧ root.trunk ≠ [""] := by
  have htext : front ++ "/api/".toList ++ name = (Path.segments root.trunk).print := by
    rw [← withoutSlash_print hpath hfree, hform, withoutSlash, List.getLast?_concat, if_pos rfl,
      List.dropLast_concat]
  have hlength := congrArg List.length htext
  have hapi : "/api/".toList.length = 5 := rfl
  rw [List.length_append, List.length_append, hapi] at hlength
  constructor
  · intro hnil
    rw [hnil, Path.print, List.flatMap_nil, List.length_nil] at hlength
    omega
  · intro hslashes
    have hone : (Path.segments [""]).print.length = 1 := rfl
    rw [hslashes, hone] at hlength
    omega

/-- A literal path is spelled behind a trunk that is neither empty nor two slashes. -/
theorem exists_spells {root : Url} {segments : List String} (hpath : root.path = .segments segments)
    (hfree : Avoids '/' segments) (hspecial : isSpecial root.scheme = true)
    (hfile : root.scheme ≠ "file") (htrunk : root.trunk ≠ [] ∧ root.trunk ≠ [""]) {path : String}
    (h : ∀ segment ∈ splitOn '/' path.toList, IsLiteral segment) :
    ∃ url suffix, locate root path = .ok url ∧ Spells root path suffix url := by
  have hstart : dropEmptyLast segments = root.trunk :=
    (dropEmptyLast_eq hpath).resolve_right fun hslash ↦ htrunk.1 hslash.2
  have hne : splitOn '/' (bareText path) ≠ [] := splitOn_ne_nil '/' (bareText path)
  let pieces := (splitOn '/' (bareText path)).map (Percent.encode (escapedInSegment true))
  refine ⟨{ root with path := .segments (root.trunk ++ pieces.map String.ofList) }, join '/' pieces,
    ?_, rfl, rfl, rfl, rfl, ?_, rfl, ?_, fun c hc ↦ visible_of_mem_join hc⟩
  · rw [locate_segments hpath (beq_false_of_ne hfile), hspecial, hstart, pathSegments_eq,
      foldl_appendSegment_of_isLiteral true htrunk.1 htrunk.2 (isLiteral_of_mem_bareText h)]
  · show (Path.segments (root.trunk ++ pieces.map String.ofList)).print = _
    rw [print_append, print_map_ofList (mt List.map_eq_nil_iff.mp hne),
      withoutSlash_print hpath hfree]
  · rw [splitOn_join_encode true hne, decode_pieces]

end Url

namespace Http

/-- Below the API root of a version on the web, every literal path has a URL that spells it, and the
URL of no other literal path has the same text, a slash at the front aside. -/
theorem spells_of_locate {text : String} {root : Url} (hparse : Url.parse text = .ok root)
    (hscheme : root.scheme = "http" ∨ root.scheme = "https") {front : List Char} {version : Version}
    (hform : root.path.print =
      front ++ "/api/".toList ++ version.toText.toList ++ ['/']) {path : String}
    (hpath : ∀ segment ∈ splitOn '/' path.toList, Url.IsLiteral segment) :
    ∃ url suffix, locate root path = .ok url ∧ Url.Spells root path suffix url ∧
      ∀ path' url', (∀ segment ∈ splitOn '/' path'.toList, Url.IsLiteral segment) →
        locate root path' = .ok url' → url'.path.print = url.path.print →
          bareText path' = bareText path := by
  have hspecial : Url.isSpecial root.scheme = true := by
    rcases hscheme with h | h <;> rw [h] <;> decide
  have hfile : root.scheme ≠ "file" := by
    rcases hscheme with h | h <;> rw [h] <;> decide
  obtain ⟨segments, hsegments, hfree, -⟩ := Url.exists_segments_of_parse hparse hspecial hfile
  have htrunk := Url.trunk_of_apiForm hsegments hfree hform
  obtain ⟨url, suffix, hlocate, hspells⟩ :=
    Url.exists_spells hsegments hfree hspecial hfile htrunk hpath
  refine ⟨url, suffix, hlocate, hspells, fun path' url' hpath' hlocate' hsame ↦ ?_⟩
  obtain ⟨_, suffix', hlocated, hspells'⟩ :=
    Url.exists_spells hsegments hfree hspecial hfile htrunk hpath'
  obtain rfl := Except.ok.inj (hlocate'.symm.trans hlocated)
  exact hspells'.bareText_unique hspells hsame

/-- Marks, spaces, escapes and empty segments stay in their place. -/
theorem spells_region :
    ∃ url, locate Endpoint.region.root "/files//50%2Foff/a?b#c\\ é/" = .ok url ∧
      url.path.print = "/MAAS/api/2.0/files//50%252Foff/a%3Fb%23c%5C%20%C3%A9/".toList ∧
      (splitOn '/' "files//50%252Foff/a%3Fb%23c%5C%20%C3%A9/".toList).map
          (fun piece ↦ Utf8.decode? (Percent.decode piece)) =
        ["files", "", "50%2Foff", "a?b#c\\ é", ""].map (fun segment ↦ some segment.toList) := by
  have hparse : Url.parse "http://region/MAAS/api/2.0/" = .ok Endpoint.region.root :=
    ok_of_toOption (by decide +kernel)
  have hform : Endpoint.region.root.path.print =
      "/MAAS".toList ++ "/api/".toList ++ Version.twoDotOh.toText.toList ++ ['/'] := by
    decide +kernel
  have hpath : ∀ segment ∈ splitOn '/' "/files//50%2Foff/a?b#c\\ é/".toList,
      Url.IsLiteral segment := by
    have hall : ∀ segment ∈ splitOn '/' "/files//50%2Foff/a?b#c\\ é/".toList,
        segment ≠ ['.'] ∧ segment ≠ ['.', '.'] ∧
          '\t' ∉ segment ∧ '\n' ∉ segment ∧ '\r' ∉ segment := by decide +kernel
    intro segment hsegment
    obtain ⟨hdot, hdots, htab, hfeed, hreturn⟩ := hall segment hsegment
    exact ⟨hdot, hdots, fun c hc ↦ ⟨ne_of_mem_of_not_mem hc htab, ne_of_mem_of_not_mem hc hfeed,
      ne_of_mem_of_not_mem hc hreturn⟩⟩
  obtain ⟨url, suffix, hlocate, hspells, -⟩ :=
    spells_of_locate hparse (.inl rfl) hform hpath
  have hsuffix : suffix = "files//50%252Foff/a%3Fb%23c%5C%20%C3%A9/".toList :=
    hspells.encoded.trans (by decide +kernel)
  have hdecoded := hspells.decoded
  rw [hsuffix] at hdecoded
  refine ⟨url, hlocate, ?_, hdecoded.trans (by decide +kernel)⟩
  rw [hspells.print_eq, hsuffix]
  decide +kernel

end Http

end RegionClient
