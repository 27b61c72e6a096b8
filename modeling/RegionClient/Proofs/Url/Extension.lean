import RegionClient.Proofs.Url.PathText

/-!
# Text behind URLs

What becomes of a URL when names with slashes behind them are written behind its text. Main
statement: whatever the scheme, the names come behind the path and nothing else changes
(`exists_extends`), if the text has no query and no fragment and the names join its path.
-/

namespace RegionClient.Url

open Text

variable {special isFile : Bool} {cs tail rest name : List Char} {names : List (List Char)}

/-! ## Names behind a URL -/

/-- A URL is another one with names behind its path. -/
structure Extends (base : Url) (names : List (List Char)) (url : Url) : Prop where
  scheme : url.scheme = base.scheme
  authority : url.authority = base.authority
  path : match base.path with
    | .segments path => Avoids '/' path ∧ url.path = .segments (trunkOf path ++ namesPath names)
    | .rootless text => url.path.print = withoutSlash text.toList ++ '/' :: namesText names

/-- The text of the path goes on behind that of the other one. -/
theorem Extends.print_eq {base url : Url} (h : Extends base names url) :
    url.path.print = withoutSlash base.path.print ++ '/' :: namesText names := by
  have hpath := h.path
  cases hbase : base.path with
  | rootless text =>
    rw [hbase] at hpath
    exact hpath
  | segments path =>
    rw [hbase] at hpath
    have htrunk : base.trunk = trunkOf path := by
      unfold trunk
      rw [hbase]
      rfl
    rw [hpath.2, print_append, print_namesPath, ← htrunk, ← withoutSlash_print hbase hpath.1, hbase]

/-- No query and no fragment begins in a text. -/
def HasNoMark (cs : List Char) : Prop := ∀ c ∈ cs, c ≠ '?' ∧ c ≠ '#'

private theorem HasNoMark.of_append (h : HasNoMark (cs ++ tail)) : HasNoMark tail :=
  fun c hc ↦ h c (List.mem_append_right cs hc)

/-- A text without marks is all path. -/
theorem cutPath_of_hasNoMark (h : HasNoMark cs) : cutPath cs = (cs, []) := by
  have hall : ∀ c ∈ cs, decide (c ≠ '?' ∧ c ≠ '#') = true := fun c hc ↦ decide_eq_true (h c hc)
  rw [cutPath, List.span_eq_takeWhile_dropWhile, List.takeWhile_eq_self_iff.mpr hall,
    List.dropWhile_eq_nil_iff.mpr hall]

/-- No mark stands in a text without marks behind another. -/
theorem HasNoMark.append (h : HasNoMark cs) (htail : HasNoMark tail) : HasNoMark (cs ++ tail) := by
  intro c hc
  rcases List.mem_append.mp hc with hc | hc
  · exact h c hc
  · exact htail c hc

/-- Plain names hold no mark. -/
theorem hasNoMark_namesText (hplain : ∀ name ∈ names, IsPlain name) :
    HasNoMark (namesText names) := by
  intro c hc
  rcases of_mem_namesText hplain hc with hc | rfl
  · have hmark := (of_isPlainChar hc).2.2.2
    simp only [List.mem_cons, not_or] at hmark
    exact ⟨hmark.2.2.1, hmark.2.2.2.1⟩
  · decide

/-- Blanks are no marks. -/
theorem IsLow.hasNoMark (h : IsLow cs) : HasNoMark cs := by
  refine fun c hc ↦ ⟨?_, ?_⟩ <;> rintro rfl
  · exact h.notMem (by decide) hc
  · exact h.notMem (by decide) hc

/-- A slash is no mark. -/
theorem hasNoMark_slash : HasNoMark ['/'] := by
  intro c hc
  rw [List.mem_singleton.mp hc]
  decide

private theorem Joins.hasNoMark (h : Joins special cs tail names)
    (hplain : ∀ name ∈ names, IsPlain name) :
    HasNoMark tail := by
  rcases h with ⟨-, rfl⟩ | ⟨-, rfl⟩
  · exact hasNoMark_namesText hplain
  · exact hasNoMark_slash.append (hasNoMark_namesText hplain)

/-- Both slashes of special schemes separate segments. -/
theorem isPathSlash_iff {c : Char} : isPathSlash special c = true ↔
    c = '/' ∨ (special = true ∧ c = '\\') := by
  simp [isPathSlash]

/-- The segments behind an authority are those of the path text, if there is one. -/
theorem segmentsOf_eq_pathOf (h : special = true ∨ cs ≠ []) :
    segmentsOf special cs = pathOf false special cs := by
  cases cs with
  | nil =>
    obtain rfl : special = true := h.resolve_right fun hne ↦ hne rfl
    rfl
  | cons c rest =>
    rw [segmentsOf, pathOf, piecesOf, dropSlash]
    simp only [isPathSlash_iff]

/-- Names behind the text behind an authority come behind the trunk of its path. -/
theorem segmentsOf_append (hjoins : Joins special cs tail names)
    (hplain : ∀ name ∈ names, IsPlain name) :
    segmentsOf special (cs ++ tail) = trunkOf (segmentsOf special cs) ++ namesPath names := by
  have hmore : cs ++ tail ≠ [] := by
    rcases hjoins with ⟨hslash, -⟩ | ⟨-, rfl⟩
    · rintro hnil
      rw [(List.append_eq_nil_iff.mp hnil).1] at hslash
      cases hslash
    · simp
  rw [segmentsOf_eq_pathOf (.inr hmore), pathOf_append false hjoins hplain]
  by_cases h : special = true ∨ cs ≠ []
  · rw [segmentsOf_eq_pathOf h]
  · -- No path at all has no more of a trunk than a lone slash has.
    obtain ⟨hspecial, hnil⟩ := not_or.mp h
    obtain rfl : special = false := by simpa using hspecial
    obtain rfl : cs = [] := by simpa using hnil
    rfl

private theorem extends_withServer {scheme : String} (authority : Authority)
    (hjoins : Joins (isSpecial scheme) cs tail names) (hplain : ∀ name ∈ names, IsPlain name)
    (hmark : HasNoMark cs) :
    Extends (withServer scheme authority cs) names (withServer scheme authority (cs ++ tail)) := by
  refine ⟨rfl, rfl, ?_⟩
  show Avoids '/' _ ∧ Path.segments _ = Path.segments _
  rw [cutPath_of_hasNoMark hmark, cutPath_of_hasNoMark (hmark.append (hjoins.hasNoMark hplain))]
  refine ⟨avoids_segmentsOf _ _ (.inl rfl), ?_⟩
  dsimp only
  rw [segmentsOf_append hjoins hplain]

/-- A path begins with a drive letter. -/
def hasDrive (path : List String) : Bool := (path.head?.map (isDriveLetter ·.toList)).getD false

private theorem hasDrive_append (path : List String) (hplain : ∀ name ∈ names, IsPlain name) :
    hasDrive (trunkOf path ++ namesPath names) = hasDrive path := by
  have hnames : hasDrive (namesPath names) = false := by
    cases names with
    | nil => decide
    | cons name names =>
      have hname := hplain name List.mem_cons_self
      have hcolon : ':' ∉ name := hname.notMem (by decide)
      have hbar : '|' ∉ name := hname.notMem (by decide)
      show isDriveLetter (String.ofList name).toList = false
      rw [String.toList_ofList]
      unfold isDriveLetter
      split
      · simp only [List.mem_cons, not_or] at hcolon hbar
        simp [Ne.symm hcolon.2.1, Ne.symm hbar.2.1]
      · rfl
  rcases List.eq_nil_or_concat path with rfl | ⟨front, last, rfl⟩
  · exact hnames
  · rw [List.concat_eq_append]
    by_cases hempty : last = ""
    · rw [hempty, trunkOf_append_nil]
      cases front with
      | nil => exact hnames
      | cons segment front => rfl
    · rw [trunkOf_append front hempty]
      cases front <;> rfl

private theorem withFileHost_eq (host : Option Host) (cs : List Char) :
    withFileHost host cs =
      ⟨"file", some { host := if hasDrive (pathOf true true (cutPath cs).1) then none else host },
        .segments (pathOf true true (cutPath cs).1), (readSuffix true (cutPath cs).2).1,
        (readSuffix true (cutPath cs).2).2⟩ := by
  unfold withFileHost
  obtain ⟨pathText, suffix⟩ := cutPath cs
  cases pathText <;> rfl

private theorem extends_withFileHost (host : Option Host) (hjoins : Joins true cs tail names)
    (hplain : ∀ name ∈ names, IsPlain name) (hmark : HasNoMark cs) :
    Extends (withFileHost host cs) names (withFileHost host (cs ++ tail)) := by
  rw [withFileHost_eq, withFileHost_eq, cutPath_of_hasNoMark hmark,
    cutPath_of_hasNoMark (hmark.append (hjoins.hasNoMark hplain))]
  dsimp only
  rw [pathOf_append true hjoins hplain, hasDrive_append _ hplain]
  exact ⟨rfl, rfl, avoids_pathOf true true cs, rfl⟩

/-- What is left of a text ends as the text does. -/
theorem getLast?_of_suffix (h : rest <:+ cs) (hne : rest ≠ []) : rest.getLast? = cs.getLast? := by
  obtain ⟨front, rfl⟩ := h
  rw [List.getLast?_append, List.getLast?_eq_some_getLast hne]
  rfl

private theorem Joins.of_suffix (h : Joins special cs tail names) (hrest : rest <:+ cs)
    (hne : cs.getLast? = some '/' → rest ≠ []) : Joins special rest tail names := by
  rcases h with ⟨hslash, htail⟩ | ⟨hslash, htail⟩
  · exact .inl ⟨(getLast?_of_suffix hrest (hne hslash)).trans hslash, htail⟩
  · refine .inr ⟨fun c hc ↦ ?_, htail⟩
    have hsome : rest ≠ [] := by
      rintro rfl
      cases hc
    exact hslash c ((getLast?_of_suffix hrest hsome).symm.trans hc)

private theorem Joins.isEnded (h : Joins special cs tail names) (b : Bool) : IsEnded b cs tail := by
  rcases h with ⟨hslash, -⟩ | ⟨-, rfl⟩
  · exact .inl ⟨'/', List.mem_of_getLast? hslash, endsAuthority_slash b⟩
  · exact .inr rfl

/-- A URL with an authority takes names behind its text, unless the authority is a lone at sign. -/
theorem exists_extends_of_readAuthority {scheme : String} {base : Url}
    (h : readAuthority scheme cs = .ok base) (hat : cs ≠ ['@']) (hmark : HasNoMark cs)
    (hjoins : Joins (isSpecial scheme) cs tail names) (hplain : ∀ name ∈ names, IsPlain name) :
    ∃ url, readAuthority scheme (cs ++ tail) = .ok url ∧ Extends base names url := by
  rw [readAuthority_eq] at h ⊢
  rw [readServer_append (hjoins.isEnded _) hat]
  cases hserver : readServer scheme cs with
  | error e =>
    rw [hserver] at h
    cases h
  | ok server =>
    obtain ⟨authority, rest⟩ := server
    rw [hserver] at h
    obtain rfl := Except.ok.inj h
    have hrest := isRest_of_readServer hserver
    obtain ⟨front, hcut, -⟩ := id hrest
    have hjoins' : Joins (isSpecial scheme) rest tail names := by
      refine hjoins.of_suffix ⟨front, hcut.symm⟩ fun hslash hnil ↦ ?_
      have hmem := hrest.mem (List.mem_of_getLast? hslash) (endsAuthority_slash _)
      rw [hnil] at hmem
      exact absurd hmem List.not_mem_nil
    rw [hcut] at hmark
    exact ⟨_, rfl, extends_withServer authority hjoins' hplain hmark.of_append⟩

/-- The first of the names behind a text begins with no slash. -/
theorem head?_namesText (hplain : ∀ name ∈ names, IsPlain name) (hnames : names ≠ []) :
    ∃ c rest, namesText names = c :: rest ∧ isPlainChar c = true := by
  obtain ⟨name, names, rfl⟩ := List.exists_cons_of_ne_nil hnames
  have hname := hplain name List.mem_cons_self
  obtain ⟨c, rest, rfl, -⟩ := hname.head
  exact ⟨c, _, rfl, hname.chars c List.mem_cons_self⟩

private theorem announcesHost_append (hjoins : Joins true cs tail names)
    (hplain : ∀ name ∈ names, IsPlain name) (hnames : names ≠ []) :
    announcesHost (cs ++ tail) = announcesHost cs := by
  obtain ⟨c, rest, htext, hc⟩ := head?_namesText hplain hnames
  have hslash : isSlash c = false := by
    have hmark := (of_isPlainChar hc).2.2.2
    simp only [List.mem_cons, not_or] at hmark
    simp [isSlash, hmark.1, hmark.2.1]
  match cs, hjoins with
  | [], .inl ⟨hlast, _⟩ => cases hlast
  | [], .inr ⟨_, htail⟩ =>
    rw [htail, htext, List.nil_append, announcesHost, hslash, Bool.and_false]
    rfl
  | [a], .inl ⟨_, htail⟩ =>
    rw [htail, htext, List.singleton_append, announcesHost, hslash, Bool.and_false]
    rfl
  | [a], .inr ⟨hlast, htail⟩ =>
    have ha : isSlash a = false := hlast a rfl
    rw [htail, List.singleton_append, announcesHost, ha, Bool.false_and]
    rfl
  | a :: b :: behind, _ => rfl

/-- A `file` URL takes names behind its text, unless the text is two slashes. -/
theorem exists_extends_of_readFile {base : Url} (h : readFile cs = .ok base)
    (hslashes : cs ≠ ['/', '/'] ∧ cs ≠ ['\\', '/']) (hmark : HasNoMark cs)
    (hjoins : Joins true cs tail names) (hplain : ∀ name ∈ names, IsPlain name)
    (hnames : names ≠ []) :
    ∃ url, readFile (cs ++ tail) = .ok url ∧ Extends base names url := by
  have hbehind : ∀ a b behind, cs = a :: b :: behind → announcesHost cs = true →
      Joins true behind tail names := by
    intro a b behind hcs hannounces
    refine hjoins.of_suffix ⟨[a, b], hcs.symm⟩ fun hlast hnil ↦ ?_
    rw [hnil] at hcs
    rw [hcs] at hlast hannounces
    obtain rfl : b = '/' := Option.some.inj hlast
    have ha : isSlash a = true := (Bool.and_eq_true_iff.mp hannounces).1
    rcases Bool.or_eq_true_iff.mp ha with ha | ha
    · exact hslashes.1 (by rw [hcs, beq_iff_eq.mp ha])
    · exact hslashes.2 (by rw [hcs, beq_iff_eq.mp ha])
  rw [readFile_eq] at h ⊢
  rw [readFileHost_append (announcesHost_append hjoins hplain hnames)
    fun a b behind hcs hannounces ↦ (hbehind a b behind hcs hannounces).isEnded true]
  cases hhost : readFileHost cs with
  | error e =>
    rw [hhost] at h
    cases h
  | ok read =>
    obtain ⟨host, rest⟩ := read
    rw [hhost] at h
    obtain rfl := Except.ok.inj h
    refine ⟨_, rfl, ?_⟩
    rcases isRest_of_readFileHost hhost with rfl | ⟨a, b, behind, hcs, hannounces, hrest⟩
    · exact extends_withFileHost host hjoins hplain hmark
    · obtain ⟨front, hcut, -⟩ := id hrest
      have hjoins' : Joins true rest tail names := by
        refine (hbehind a b behind hcs hannounces).of_suffix ⟨front, hcut.symm⟩
          fun hlast hnil ↦ ?_
        have hmem := hrest.mem (List.mem_of_getLast? hlast) (endsAuthority_slash true)
        rw [hnil] at hmem
        exact absurd hmem List.not_mem_nil
      have hwhole : cs = (a :: b :: front) ++ rest := by rw [hcs, hcut]; rfl
      rw [hwhole] at hmark
      exact extends_withFileHost host hjoins' hplain hmark.of_append

/-- The URL without an authority that has a path. -/
def withPath (scheme : String) (cs : List Char) : Url :=
  ⟨scheme, none, .segments (pathOf false false (cutPath cs).1),
    (readSuffix false (cutPath cs).2).1, (readSuffix false (cutPath cs).2).2⟩

/-- The URL that has plain text for a path. -/
def withText (scheme : String) (cs : List Char) : Url :=
  ⟨scheme, none, .rootless (String.ofList (Percent.encode isControl (cutPath cs).1)),
    (readSuffix false (cutPath cs).2).1, (readSuffix false (cutPath cs).2).2⟩

section Other

variable {scheme : String} (hfile : scheme ≠ "file") (hspecial : isSpecial scheme = false)

include hfile hspecial

private theorem readAfterScheme_authority (cs : List Char) :
    readAfterScheme scheme ('/' :: '/' :: cs) = readAuthority scheme cs := by
  rw [readAfterScheme, if_neg hfile, hspecial, if_neg Bool.false_ne_true]

private theorem readAfterScheme_path (h : cs.head? ≠ some '/') :
    readAfterScheme scheme ('/' :: cs) = .ok (withPath scheme ('/' :: cs)) := by
  have hcut : cutPath ('/' :: cs) = ('/' :: (cutPath cs).1, (cutPath cs).2) := by
    rw [cutPath, cutPath, List.span_eq_takeWhile_dropWhile, List.span_eq_takeWhile_dropWhile]
    rfl
  unfold readAfterScheme
  rw [if_neg hfile, hspecial, if_neg Bool.false_ne_true]
  split
  · next rest heq =>
    rw [(List.cons.inj heq).2] at h
    exact absurd rfl h
  · next rest _ heq =>
    rw [withPath, hcut, (List.cons.inj heq).2]
    rfl
  · next hslash => exact absurd rfl (hslash cs)

private theorem readAfterScheme_text (h : cs.head? ≠ some '/') :
    readAfterScheme scheme cs = .ok (withText scheme cs) := by
  unfold readAfterScheme
  rw [if_neg hfile, hspecial, if_neg Bool.false_ne_true]
  split
  · exact absurd rfl h
  · exact absurd rfl h
  · rfl

end Other

private theorem encode_append_names (hjoins : Joins false cs tail names) (hne : cs ≠ [])
    (hplain : ∀ name ∈ names, IsPlain name) :
    Percent.encode isControl (cs ++ tail) =
      withoutSlash (Percent.encode isControl cs) ++ '/' :: namesText names := by
  have hnames : Percent.encode isControl (namesText names) = namesText names := by
    refine Percent.encode_eq_self fun c hc ↦ ?_
    rcases of_mem_namesText hplain hc with hc | rfl
    · have hpath := (of_isPlainChar hc).1
      simp only [escapedInPath, escapedInFragment, Bool.or_eq_false_iff] at hpath
      exact ⟨ascii_of_isPlainChar hc, hpath.1.1⟩
    · decide
  obtain ⟨front, last, rfl⟩ := (List.eq_nil_or_concat cs).resolve_left hne
  rw [List.concat_eq_append] at hjoins ⊢
  rcases hjoins with ⟨hlast, rfl⟩ | ⟨hlast, rfl⟩
  · rw [List.getLast?_concat] at hlast
    obtain rfl := Option.some.inj hlast
    have hslash : Percent.encode isControl ['/'] = ['/'] := by decide
    rw [Percent.encode_append, Percent.encode_append, hnames, hslash, withoutSlash,
      List.getLast?_concat, if_pos rfl, List.dropLast_concat, List.append_assoc]
    rfl
  · have hlast' : '/' ∉ [last] := by
      have hno := hlast last List.getLast?_concat
      simp only [List.mem_singleton]
      rintro rfl
      cases hno
    have hends : (Percent.encode isControl (front ++ [last])).getLast? ≠ some '/' := by
      have hsome : Percent.encode isControl [last] ≠ [] :=
        Percent.encode_ne_nil (List.cons_ne_nil last [])
      rw [Percent.encode_append, List.getLast?_append, List.getLast?_eq_some_getLast hsome,
        Option.some_or, ← List.getLast?_eq_some_getLast hsome]
      exact fun hslash ↦ Percent.slash_notMem_encode hlast' (List.mem_of_getLast? hslash)
    have hslash : Percent.encode isControl ('/' :: namesText names) = '/' :: namesText names := by
      rw [← List.singleton_append, Percent.encode_append, hnames]
      rfl
    rw [Percent.encode_append _ (front ++ [last]), hslash, withoutSlash, if_neg hends]

private theorem extends_withPath (scheme : String) (hjoins : Joins false cs tail names)
    (hplain : ∀ name ∈ names, IsPlain name) (hmark : HasNoMark cs) :
    Extends (withPath scheme cs) names (withPath scheme (cs ++ tail)) := by
  refine ⟨rfl, rfl, ?_⟩
  show Avoids '/' _ ∧ Path.segments _ = Path.segments _
  rw [cutPath_of_hasNoMark hmark,
    cutPath_of_hasNoMark (hmark.append (hjoins.hasNoMark hplain))]
  dsimp only
  rw [pathOf_append false hjoins hplain]
  exact ⟨avoids_pathOf _ _ _, rfl⟩

private theorem extends_withText (scheme : String) (hjoins : Joins false cs tail names)
    (hne : cs ≠ []) (hplain : ∀ name ∈ names, IsPlain name) (hmark : HasNoMark cs) :
    Extends (withText scheme cs) names (withText scheme (cs ++ tail)) := by
  refine ⟨rfl, rfl, ?_⟩
  show (String.ofList (Percent.encode isControl (cutPath (cs ++ tail)).1)).toList =
    withoutSlash (String.ofList (Percent.encode isControl (cutPath cs).1)).toList ++ _
  rw [cutPath_of_hasNoMark hmark,
    cutPath_of_hasNoMark (hmark.append (hjoins.hasNoMark hplain)), String.toList_ofList,
    String.toList_ofList]
  exact encode_append_names hjoins hne hplain

private theorem extends_withText_nil (scheme : String) (hplain : ∀ name ∈ names, IsPlain name) :
    Extends (withText scheme []) names (withPath scheme ('/' :: namesText names)) := by
  have hjoins : Joins false [] ('/' :: namesText names) names :=
    .inr ⟨fun _ hlast ↦ absurd hlast nofun, rfl⟩
  have hmark : HasNoMark ([] ++ '/' :: namesText names) :=
    hasNoMark_slash.append (hasNoMark_namesText hplain)
  refine ⟨rfl, rfl, ?_⟩
  show (Path.segments (pathOf false false (cutPath ([] ++ '/' :: namesText names)).1)).print = _
  rw [cutPath_of_hasNoMark hmark]
  dsimp only
  rw [pathOf_append false hjoins hplain]
  exact print_namesPath names

/-- The URL of another scheme takes names behind its text, unless that is two slashes, or two
slashes and a lone at sign. -/
theorem exists_extends_of_readOther {scheme : String} {base : Url} (hfile : scheme ≠ "file")
    (hspecial : isSpecial scheme = false) (h : readAfterScheme scheme cs = .ok base)
    (hslashes : cs ≠ ['/', '/'] ∧ cs ≠ ['/', '/', '@']) (hmark : HasNoMark cs)
    (hjoins : Joins false cs tail names) (hplain : ∀ name ∈ names, IsPlain name)
    (hnames : names ≠ []) :
    ∃ url, readAfterScheme scheme (cs ++ tail) = .ok url ∧ Extends base names url := by
  obtain ⟨c, behind, htext, hc⟩ := head?_namesText hplain hnames
  have hname : (namesText names).head? ≠ some '/' := by
    rw [htext]
    intro hslash
    rw [Option.some.inj hslash] at hc
    exact absurd hc (by decide)
  -- Two slashes open an authority, one slash a path, and anything else is plain text. The names
  -- must not make one of another.
  by_cases hhead : cs.head? = some '/'
  · obtain ⟨rest, rfl⟩ := List.head?_eq_some_iff.mp hhead
    by_cases hsecond : rest.head? = some '/'
    · obtain ⟨rest, rfl⟩ := List.head?_eq_some_iff.mp hsecond
      rw [readAfterScheme_authority hfile hspecial] at h
      rw [List.cons_append, List.cons_append, readAfterScheme_authority hfile hspecial]
      have hat : rest ≠ ['@'] := by
        rintro rfl
        exact hslashes.2 rfl
      have hjoins' : Joins (isSpecial scheme) rest tail names := by
        rw [hspecial]
        refine hjoins.of_suffix ⟨['/', '/'], rfl⟩ fun _ hnil ↦ ?_
        rw [hnil] at hslashes
        exact hslashes.1 rfl
      have hmark' : HasNoMark rest := fun c hc ↦ hmark c (List.mem_append_right ['/', '/'] hc)
      exact exists_extends_of_readAuthority h hat hmark' hjoins' hplain
    · have hsecond' : (rest ++ tail).head? ≠ some '/' := by
        cases rest with
        | cons c rest => exact hsecond
        | nil =>
          rcases hjoins with ⟨-, rfl⟩ | ⟨hlast, -⟩
          · exact hname
          · exact absurd (hlast '/' rfl) (by decide)
      rw [readAfterScheme_path hfile hspecial hsecond] at h
      rw [List.cons_append, readAfterScheme_path hfile hspecial hsecond', ← List.cons_append]
      obtain rfl := Except.ok.inj h
      exact ⟨_, rfl, extends_withPath scheme hjoins hplain hmark⟩
  · rw [readAfterScheme_text hfile hspecial hhead] at h
    obtain rfl := Except.ok.inj h
    by_cases hempty : cs = []
    · obtain rfl := hempty
      obtain rfl : tail = '/' :: namesText names := by
        rcases hjoins with ⟨hlast, -⟩ | ⟨-, htail⟩
        · cases hlast
        · exact htail
      rw [List.nil_append, readAfterScheme_path hfile hspecial hname]
      exact ⟨_, rfl, extends_withText_nil scheme hplain⟩
    · have hhead' : (cs ++ tail).head? ≠ some '/' := by
        obtain ⟨c, rest, rfl⟩ := List.exists_cons_of_ne_nil hempty
        exact hhead
      rw [readAfterScheme_text hfile hspecial hhead']
      exact ⟨_, rfl, extends_withText scheme hjoins hempty hplain hmark⟩

private theorem readServer_of_special {scheme : String} (hspecial : isSpecial scheme = true)
    (h : cs = [] ∨ cs = ['@']) : readServer scheme cs = .error .emptyHost := by
  unfold readServer
  rw [hspecial]
  rcases h with rfl | rfl <;> rfl

/-- The text of the authority of a special scheme: slashes in front of it do not count. -/
def serverText (cs : List Char) : List Char := cs.dropWhile fun c ↦ c = '/' ∨ c = '\\'

/-- The text of an authority is what is left of the text behind the scheme. -/
theorem serverText_suffix (cs : List Char) : serverText cs <:+ cs := List.dropWhile_suffix _

section Special

variable {scheme : String} {base : Url} (hfile : scheme ≠ "file")
  (hspecial : isSpecial scheme = true)

include hfile hspecial

/-- An authority stands behind any slashes. -/
theorem readAfterScheme_special (cs : List Char) :
    readAfterScheme scheme cs = readAuthority scheme (serverText cs) := by
  unfold readAfterScheme
  rw [if_neg hfile, if_pos hspecial]
  rfl

/-- A URL of a special scheme has an authority. -/
theorem serverText_ne (h : readAfterScheme scheme cs = .ok base) :
    serverText cs ≠ [] ∧ serverText cs ≠ ['@'] := by
  rw [readAfterScheme_special hfile hspecial, readAuthority_eq] at h
  have hno : ¬ (serverText cs = [] ∨ serverText cs = ['@']) := by
    intro hlone
    rw [readServer_of_special hspecial hlone] at h
    cases h
  exact not_or.mp hno

/-- What follows a URL of a special scheme follows its authority. -/
theorem serverText_append (h : readAfterScheme scheme cs = .ok base) (tail : List Char) :
    serverText (cs ++ tail) = serverText cs ++ tail := by
  have hne := (serverText_ne hfile hspecial h).1
  unfold serverText at hne ⊢
  rw [List.dropWhile_append, if_neg]
  rw [List.isEmpty_iff]
  exact hne

/-- A URL of a special scheme takes names behind its text. -/
theorem exists_extends_of_readSpecial (h : readAfterScheme scheme cs = .ok base)
    (hmark : HasNoMark cs) (hjoins : Joins true cs tail names)
    (hplain : ∀ name ∈ names, IsPlain name) :
    ∃ url, readAfterScheme scheme (cs ++ tail) = .ok url ∧ Extends base names url := by
  obtain ⟨hne, hat⟩ := serverText_ne hfile hspecial h
  have hsuffix := serverText_suffix cs
  rw [readAfterScheme_special hfile hspecial, serverText_append hfile hspecial h]
  rw [readAfterScheme_special hfile hspecial] at h
  refine exists_extends_of_readAuthority h hat (fun c hc ↦ hmark c (hsuffix.subset hc)) ?_ hplain
  rw [hspecial]
  exact hjoins.of_suffix hsuffix fun _ ↦ hne

end Special

/-- A URL takes names behind its text, unless that ends behind the slashes in front of an authority
or with a lone at sign for an authority. -/
theorem exists_extends {scheme : String} {base : Url} (h : readAfterScheme scheme cs = .ok base)
    (hplace : cs ≠ ['/', '/'] ∧ cs ≠ ['\\', '/'] ∧ cs ≠ ['/', '/', '@']) (hmark : HasNoMark cs)
    (hjoins : Joins (isSpecial scheme) cs tail names) (hplain : ∀ name ∈ names, IsPlain name)
    (hnames : names ≠ []) :
    ∃ url, readAfterScheme scheme (cs ++ tail) = .ok url ∧ Extends base names url := by
  by_cases hfile : scheme = "file"
  · obtain rfl := hfile
    exact exists_extends_of_readFile h ⟨hplace.1, hplace.2.1⟩ hmark hjoins hplain hnames
  · cases hspecial : isSpecial scheme with
    | false =>
      rw [hspecial] at hjoins
      exact exists_extends_of_readOther hfile hspecial h ⟨hplace.1, hplace.2.2⟩ hmark hjoins hplain
        hnames
    | true =>
      rw [hspecial] at hjoins
      exact exists_extends_of_readSpecial hfile hspecial h hmark hjoins hplain

end RegionClient.Url
