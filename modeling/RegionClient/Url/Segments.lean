import RegionClient.Text.Form
import RegionClient.Url.Parse

/-!
# Extending URLs

Appending path segments and query pairs to a URL. A segment is escaped as a whole, so that no
character in it ends the segment or the path.
-/

namespace RegionClient.Url

/-- The segments behind which the next one is put: a lone empty segment is filled. -/
def segmentBase (path : List String) : List String := if path = [""] then [] else path

/-- Appends one segment. The segments `.` and `..` are passed over; tabs and line ends are dropped
after that, and what is left is then placed like a segment of a parsed path. -/
def appendSegment (special isFile : Bool) (path : List String) (segment : List Char) :
    List String :=
  if segment = ['.'] ∨ segment = ['.', '.'] then path
  else
    let kept := segment.filter fun c ↦ c ≠ '\t' ∧ c ≠ '\n' ∧ c ≠ '\r'
    placeSegment isFile true (segmentBase path)
      (Text.Percent.encode (escapedInSegment special) kept)

/-- The path without an empty last segment, if it is not the only one. -/
def dropEmptyLast (path : List String) : List String :=
  if 2 ≤ path.length ∧ path.getLast? = some "" then path.dropLast else path

/-- Appends segments in place of an empty last one; absent if the URL takes no segments. Models
`path_segments_mut` of `url`, with `pop_if_empty` and `extend`. -/
def appendSegments? (u : Url) (segments : List (List Char)) : Option Url :=
  match u.path with
  | .rootless _ => none
  | .segments path =>
    let append := appendSegment (isSpecial u.scheme) (u.scheme == "file")
    some { u with path := .segments (segments.foldl append (dropEmptyLast path)) }

/-- Appends pairs to the query. An empty query is then dropped. Models `RequestBuilder.query` of
`reqwest`. -/
def appendQuery (u : Url) (pairs : List (String × String)) : Url :=
  let added := Text.Form.encode pairs
  let query := match u.query, pairs with
    | some q, [] => q.toList
    | none, [] => []
    | some q, _ :: _ => if q.isEmpty then added else q.toList ++ '&' :: added
    | none, _ :: _ => added
  { u with query := if query.isEmpty then none else some (String.ofList query) }

end RegionClient.Url
