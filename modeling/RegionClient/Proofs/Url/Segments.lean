import RegionClient.Proofs.Text.Escapes
import RegionClient.Proofs.Text.Split
import RegionClient.Url.Segments

/-!
# Laws of appended segments

What appending a segment does to a path, told by the characters of the segment. Main statements: an
escaped segment is taken for dots only if it is dots (`isSingleDot_encode_iff`,
`isDoubleDot_encode_iff`), and every segment falls under one of four cases (`appendSegment_eq`).
-/

namespace RegionClient

namespace Url

open Text

/-! ## Dots -/

/-- A text begins with a spelling of a dot. -/
private theorem decode_of_map_dot {cs rest : List Char} (h : cs.map Char.toLower = '.' :: rest) :
    ∃ cs', Percent.decode cs = 0x2E :: Percent.decode cs' ∧ cs'.map Char.toLower = rest := by
  obtain ⟨dot, cs', rfl, hdot, hrest⟩ := List.map_eq_cons_iff.mp h
  obtain rfl := eq_of_toLower_eq hdot (by decide)
  exact ⟨cs', Percent.decode_dot cs', hrest⟩

/-- A text begins with the escape of a dot. -/
private theorem decode_of_map_escapedDot {cs rest : List Char}
    (h : cs.map Char.toLower = '%' :: '2' :: 'e' :: rest) :
    ∃ cs', Percent.decode cs = 0x2E :: Percent.decode cs' ∧ cs'.map Char.toLower = rest := by
  obtain ⟨mark, cs, rfl, hmark, h⟩ := List.map_eq_cons_iff.mp h
  obtain ⟨high, cs, rfl, hhigh, h⟩ := List.map_eq_cons_iff.mp h
  obtain ⟨low, cs', rfl, hlow, hrest⟩ := List.map_eq_cons_iff.mp h
  exact ⟨cs', Percent.decode_escapedDot hmark hhigh hlow cs', hrest⟩

/-- Every spelling of a dot spells a dot. -/
theorem decode_of_isSingleDot {cs : List Char} (h : isSingleDot cs = true) :
    Percent.decode cs = [0x2E] := by
  unfold isSingleDot at h
  rw [Bool.or_eq_true, decide_eq_true_iff, decide_eq_true_iff] at h
  rcases h with rfl | h
  · rfl
  · obtain ⟨rest, hdecode, hrest⟩ := decode_of_map_escapedDot h
    rw [hdecode, List.map_eq_nil_iff.mp hrest]
    rfl

/-- Every spelling of two dots spells two dots. -/
theorem decode_of_isDoubleDot {cs : List Char} (h : isDoubleDot cs = true) :
    Percent.decode cs = [0x2E, 0x2E] := by
  -- Both dots may be escaped or not; the first leaves one of two spellings of the second.
  have hsecond : ∃ rest, Percent.decode cs = 0x2E :: Percent.decode rest ∧
      (rest.map Char.toLower = ['.'] ∨ rest.map Char.toLower = ['%', '2', 'e']) := by
    simp only [isDoubleDot, List.any_cons, List.any_nil, Bool.or_false, Bool.or_eq_true,
      decide_eq_true_iff] at h
    rcases h with h | h | h | h
    · obtain ⟨rest, hdecode, hrest⟩ := decode_of_map_dot h
      exact ⟨rest, hdecode, .inl hrest⟩
    · obtain ⟨rest, hdecode, hrest⟩ := decode_of_map_dot h
      exact ⟨rest, hdecode, .inr hrest⟩
    · obtain ⟨rest, hdecode, hrest⟩ := decode_of_map_escapedDot h
      exact ⟨rest, hdecode, .inl hrest⟩
    · obtain ⟨rest, hdecode, hrest⟩ := decode_of_map_escapedDot h
      exact ⟨rest, hdecode, .inr hrest⟩
  obtain ⟨rest, hdecode, hrest⟩ := hsecond
  rw [hdecode]
  rcases hrest with hrest | hrest
  · obtain ⟨behind, hdecode, hbehind⟩ := decode_of_map_dot hrest
    rw [hdecode, List.map_eq_nil_iff.mp hbehind]
    rfl
  · obtain ⟨behind, hdecode, hbehind⟩ := decode_of_map_escapedDot hrest
    rw [hdecode, List.map_eq_nil_iff.mp hbehind]
    rfl

/-- The set of path segments holds the mark of escapes. -/
theorem escapedInSegment_mark (special : Bool) : escapedInSegment special '%' = true := by
  cases special <;> decide

/-- The set of path segments holds the slash. -/
theorem escapedInSegment_slash (special : Bool) : escapedInSegment special '/' = true := by
  cases special <;> decide

/-- An escaped segment is a single dot only if the segment is. -/
theorem isSingleDot_encode_iff (special : Bool) (cs : List Char) :
    isSingleDot (Percent.encode (escapedInSegment special) cs) = true ↔ cs = ['.'] := by
  constructor
  · intro h
    have hdecode := decode_of_isSingleDot h
    rw [Percent.decode_encode (escapedInSegment_mark special)] at hdecode
    exact Utf8.encode_injective (hdecode.trans rfl)
  · rintro rfl
    cases special <;> decide

/-- An escaped segment is a double dot only if the segment is. -/
theorem isDoubleDot_encode_iff (special : Bool) (cs : List Char) :
    isDoubleDot (Percent.encode (escapedInSegment special) cs) = true ↔ cs = ['.', '.'] := by
  constructor
  · intro h
    have hdecode := decode_of_isDoubleDot h
    rw [Percent.decode_encode (escapedInSegment_mark special)] at hdecode
    exact Utf8.encode_injective (hdecode.trans rfl)
  · rintro rfl
    cases special <;> decide

/-! ## Single segments -/

/-- What is left of a segment without tabs and line ends. -/
def keptOf (segment : List Char) : List Char :=
  segment.filter fun c ↦ c ≠ '\t' ∧ c ≠ '\n' ∧ c ≠ '\r'

/-- A segment of dots is passed over. One that is left with two dots takes the last segment away,
and one that is left with a single dot leaves an empty segment. Every other is escaped. -/
theorem appendSegment_eq (special : Bool) (path : List String) (segment : List Char) :
    appendSegment special false path segment =
      if segment = ['.'] ∨ segment = ['.', '.'] then path
      else if keptOf segment = ['.', '.'] then shorten (segmentBase path) ++ [""]
      else if keptOf segment = ['.'] then segmentBase path ++ [""]
      else segmentBase path ++
        [String.ofList (Percent.encode (escapedInSegment special) (keptOf segment))] := by
  unfold appendSegment
  split
  · rfl
  · show placeSegment false true (segmentBase path)
      (Percent.encode (escapedInSegment special) (keptOf segment)) = _
    unfold placeSegment
    dsimp only
    by_cases htwo : keptOf segment = ['.', '.']
    · rw [if_pos htwo, if_pos ((isDoubleDot_encode_iff special _).mpr htwo)]
      rfl
    · rw [if_neg htwo, if_neg (mt (isDoubleDot_encode_iff special _).mp htwo)]
      by_cases hone : keptOf segment = ['.']
      · rw [if_pos hone, if_pos ((isSingleDot_encode_iff special _).mpr hone)]
        rfl
      · rw [if_neg hone, if_neg (mt (isSingleDot_encode_iff special _).mp hone), if_neg]
        exact fun h ↦ Bool.false_ne_true h.1

/-- A name without tabs and line ends is kept. -/
theorem keptOf_eq_iff {cs : List Char} :
    keptOf cs = cs ↔ ∀ c ∈ cs, c ≠ '\t' ∧ c ≠ '\n' ∧ c ≠ '\r' := by
  rw [keptOf, List.filter_eq_self]
  simp only [decide_eq_true_iff]

/-- An empty segment is appended as it is. -/
theorem appendSegment_nil (special : Bool) (path : List String) :
    appendSegment special false path [] = segmentBase path ++ [""] := by
  rw [appendSegment_eq, if_neg (by decide), if_neg (by decide), if_neg (by decide)]
  rfl

/-- Nothing is filled in a path with a name at its end. -/
theorem segmentBase_append {path : List String} {name : String} (h : name ≠ "") :
    segmentBase (path ++ [name]) = path ++ [name] := by
  unfold segmentBase
  rw [if_neg]
  intro hsingle
  cases path with
  | nil => exact h (List.singleton_inj.mp hsingle)
  | cons segment rest => simp at hsingle

/-- Nothing is filled in a path of more than one segment. -/
theorem segmentBase_of_long {path : List String} (h : 2 ≤ path.length) :
    segmentBase path = path := by
  rw [segmentBase, if_neg]
  rintro rfl
  simp at h

/-- Going up from a name that is no drive letter takes it away. -/
theorem shorten_append {path : List String} {name : String}
    (h : isDriveLetter name.toList = false) : shorten (path ++ [name]) = path := by
  rw [shorten, List.getLast?_concat]
  dsimp only
  rw [h, if_neg Bool.false_ne_true, List.dropLast_concat]

/-! ## Bases of paths -/

/-- The segments of a path before a slash at its end. -/
def trunk (u : Url) : List String :=
  match u.path with
  | .rootless _ => []
  | .segments path => if path.getLast? = some "" then path.dropLast else path

/-- The text of segments is put together from that of their parts. -/
theorem print_append (path path' : List String) :
    (Path.segments (path ++ path')).print =
      (Path.segments path).print ++ (Path.segments path').print :=
  List.flatMap_append

/-- Only a path of two slashes has an empty segment before the slash at its end. -/
theorem trunk_eq_iff {root : Url} : root.trunk = [""] ↔ root.path = .segments ["", ""] := by
  unfold trunk
  constructor
  · intro h
    cases hpath : root.path with
    | rootless text =>
      rw [hpath] at h
      cases h
    | segments path =>
      rw [hpath] at h
      dsimp only at h
      by_cases hempty : path.getLast? = some ""
      · rw [if_pos hempty] at h
        obtain ⟨front, rfl⟩ := List.getLast?_eq_some_iff.mp hempty
        rw [List.dropLast_concat] at h
        rw [h]
        rfl
      · rw [if_neg hempty] at h
        rw [h] at hempty
        exact absurd rfl hempty
  · intro h
    rw [h]
    rfl

/-- Segments are appended to the trunk, or to a lone slash if there is none. -/
theorem dropEmptyLast_eq {root : Url} {path : List String} (h : root.path = .segments path) :
    dropEmptyLast path = root.trunk ∨ dropEmptyLast path = [""] ∧ root.trunk = [] := by
  unfold trunk dropEmptyLast
  rw [h]
  dsimp only
  by_cases hempty : path.getLast? = some ""
  · rw [if_pos hempty]
    by_cases hlong : 2 ≤ path.length
    · rw [if_pos ⟨hlong, hempty⟩]
      exact .inl rfl
    · rw [if_neg (fun hboth ↦ hlong hboth.1)]
      obtain ⟨front, rfl⟩ := List.getLast?_eq_some_iff.mp hempty
      have hfront : front = [] := by
        apply List.length_eq_zero_iff.mp
        rw [List.length_append, List.length_singleton] at hlong
        omega
      rw [hfront]
      exact .inr ⟨rfl, rfl⟩
  · rw [if_neg hempty, if_neg (fun hboth ↦ hempty hboth.2)]
    exact .inl rfl

/-- The base that the first segment is put behind. -/
theorem segmentBase_dropEmptyLast {root : Url} {path : List String}
    (h : root.path = .segments path) : segmentBase (dropEmptyLast path) = segmentBase root.trunk := by
  rcases dropEmptyLast_eq h with htrunk | ⟨hslash, htrunk⟩
  · rw [htrunk]
  · rw [hslash, htrunk]
    rfl

end Url

end RegionClient
