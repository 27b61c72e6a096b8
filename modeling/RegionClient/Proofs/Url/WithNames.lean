import RegionClient.Proofs.Url.Extension

/-!
# Names behind the text of a URL

A text gets a slash, and names with a slash behind each are written behind it. Main statements: if
the text takes names, they come behind the path of its URL and nothing else changes
(`TakesNames.exists_extends`); texts of special schemes take names if they come behind the path
(`takesNames_of_print`); and whatever the text of a special scheme is, all names are read behind the
same text (`exists_server`).
-/

namespace RegionClient.Url

open Text

variable {cs tail rest : List Char} {text scheme : String}

/-! ## Text behind significant text -/

/-- The blanks at the end of a text that count if more text follows. -/
def blanksBehind (text : String) : List Char :=
  keptOf (text.toList.reverse.takeWhile isLow).reverse

private theorem isLow_blanksBehind (text : String) : IsLow (blanksBehind text) := by
  intro c hc
  exact List.mem_takeWhile_imp (List.mem_reverse.mp (List.mem_filter.mp hc).1)

private theorem blanksBehind_eq_nil (h : text.toList.getLast? = some '/') :
    blanksBehind text = [] := by
  obtain ⟨front, hfront⟩ := List.getLast?_eq_some_iff.mp h
  have hslash : isLow '/' = false := by decide
  rw [blanksBehind, hfront, List.reverse_append, List.reverse_singleton, List.singleton_append,
    List.takeWhile_cons_of_neg (by simp [hslash])]
  rfl

private theorem keptOf_append (cs tail : List Char) :
    keptOf (cs ++ tail) = keptOf cs ++ keptOf tail :=
  List.filter_append cs tail

private theorem significant_append {c : Char} (h : significant text ≠ [])
    (hlast : tail.getLast? = some c) (hc : isLow c = false) :
    significant (text ++ String.ofList tail) =
      significant text ++ (blanksBehind text ++ keptOf tail) := by
  have hsome : text.toList.dropWhile isLow ≠ [] := by
    intro hnil
    apply h
    show keptOf ((text.toList.dropWhile isLow).reverse.dropWhile isLow).reverse = []
    rw [hnil]
    rfl
  -- The first character that counts ends the blanks at the end of the text.
  have hblanks : text.toList.reverse.takeWhile isLow =
      (text.toList.dropWhile isLow).reverse.takeWhile isLow := by
    have hfirst : (text.toList.dropWhile isLow).head hsome ∈
        (text.toList.dropWhile isLow).reverse := by simp
    have hwhole : text.toList.reverse = (text.toList.dropWhile isLow).reverse ++
        (text.toList.takeWhile isLow).reverse := by
      rw [← List.reverse_append, List.takeWhile_append_dropWhile]
    rw [hwhole, List.takeWhile_append, if_neg]
    intro hlength
    have hall := List.takeWhile_eq_self_iff.mp
      ((List.takeWhile_prefix isLow).eq_of_length hlength)
    have hcounts := List.head_dropWhile_not isLow hsome
    rw [hall _ hfirst] at hcounts
    cases hcounts
  have htail : tail.reverse.dropWhile isLow = tail.reverse := by
    obtain ⟨front, rfl⟩ := List.getLast?_eq_some_iff.mp hlast
    simp [hc]
  have hne : tail.reverse ≠ [] := by
    rintro hnil
    rw [List.reverse_eq_nil_iff.mp hnil] at hlast
    cases hlast
  have hstrip : strip isLow (text ++ String.ofList tail).toList =
      strip isLow text.toList ++ ((text.toList.reverse.takeWhile isLow).reverse ++ tail) := by
    rw [strip, strip, String.toList_append, String.toList_ofList, List.dropWhile_append, if_neg,
      List.reverse_append, List.dropWhile_append, if_neg, htail, List.reverse_append,
      List.reverse_reverse, List.reverse_reverse, hblanks, ← List.append_assoc,
      ← List.reverse_append, List.takeWhile_append_dropWhile, List.reverse_reverse]
    · rw [htail, List.isEmpty_iff]
      exact hne
    · rw [List.isEmpty_iff]
      exact hsome
  show keptOf (strip isLow (text ++ String.ofList tail).toList) =
    keptOf (strip isLow text.toList) ++ _
  rw [hstrip, keptOf_append, keptOf_append]
  rfl

private theorem readScheme_append (h : readScheme cs = some (scheme, rest)) (tail : List Char) :
    readScheme (cs ++ tail) = some (scheme, rest ++ tail) := by
  unfold readScheme at h ⊢
  dsimp only at h ⊢
  generalize (fun c : Char ↦ c.isAlphanum || c == '+' || c == '-' || c == '.') = p at h ⊢
  rw [List.span_eq_takeWhile_dropWhile] at h ⊢
  split at h
  · next first name behind hspan =>
    obtain ⟨hname, hbehind⟩ := Prod.mk.inj hspan
    split at h
    · next hfirst =>
      cases h
      have hdrop : (cs ++ tail).dropWhile p = ':' :: (rest ++ tail) := by
        rw [List.dropWhile_append, hbehind]
        rfl
      have htake : (cs ++ tail).takeWhile p = first :: name := by
        rw [List.takeWhile_append, if_neg, hname]
        intro hlength
        have hcut : cs.length = (cs.takeWhile p).length + (cs.dropWhile p).length := by
          rw [← List.length_append, List.takeWhile_append_dropWhile]
        rw [hbehind, List.length_cons] at hcut
        omega
      rw [hdrop, htake]
      exact if_pos hfirst
    · cases h
  · cases h

private theorem exists_of_readScheme (h : readScheme cs = some (scheme, rest)) :
    ∃ name, cs = name ++ ':' :: rest ∧ HasNoMark name := by
  unfold readScheme at h
  dsimp only at h
  rw [List.span_eq_takeWhile_dropWhile] at h
  split at h
  · next first name behind hspan =>
    obtain ⟨hname, hbehind⟩ := Prod.mk.inj hspan
    split at h
    · next hfirst =>
      cases h
      refine ⟨first :: name, ?_, fun c hc ↦ ?_⟩
      · rw [← hname, ← hbehind, List.takeWhile_append_dropWhile]
      · rw [← hname] at hc
        have hscheme := List.mem_takeWhile_imp hc
        constructor
        · rintro rfl
          exact absurd hscheme (by decide)
        · rintro rfl
          exact absurd hscheme (by decide)
    · cases h
  · cases h

/-! ## Texts that take names -/

/-- The text behind the scheme. -/
def behindScheme (text : String) : List Char :=
  ((readScheme (significant text)).map (·.2)).getD []

/-- Names can be written behind a text as if they were written behind the path of its URL: no query
and no fragment, no blanks at the end other than tabs and line ends, a slash at the end of the URL
only if it is at the end of the text, and an authority for the slashes in front of it. -/
structure TakesNames (special : Bool) (text : String) : Prop where
  mark : HasNoMark text.toList
  blanks : blanksBehind text = []
  slash : ∀ c, (significant text).getLast? = some c → isPathSlash special c = true →
    text.toList.getLast? = some '/'
  place : behindScheme text ≠ ['/', '/'] ∧ behindScheme text ≠ ['\\', '/'] ∧
    behindScheme text ≠ ['/', '/', '@']

private theorem exists_scheme_of_parse {base : Url} (h : parse text = .ok base) :
    ∃ scheme, readScheme (significant text) = some (scheme, behindScheme text) ∧
      readAfterScheme scheme (behindScheme text) = .ok base := by
  unfold parse at h
  split at h
  · next scheme rest hscheme =>
    have hbehind : behindScheme text = rest := by rw [behindScheme, hscheme]; rfl
    rw [hbehind]
    exact ⟨scheme, hscheme, h⟩
  · cases h

private theorem getLast?_behindScheme {base : Url} (h : parse text = .ok base) {c : Char}
    (hc : c ≠ ':') :
    (behindScheme text).getLast? = some c ↔ (significant text).getLast? = some c := by
  obtain ⟨scheme, hscheme, -⟩ := exists_scheme_of_parse h
  obtain ⟨name, hname, -⟩ := exists_of_readScheme hscheme
  rw [hname, List.getLast?_append, List.getLast?_cons]
  cases hlast : (behindScheme text).getLast? with
  | none => simp [Ne.symm hc]
  | some c' => simp

private theorem getLast?_significant (h : text.toList.getLast? = some '/') :
    (significant text).getLast? = some '/' := by
  obtain ⟨front, htext⟩ := List.getLast?_eq_some_iff.mp h
  have hdrop : ∃ front', text.toList.dropWhile isLow = front' ++ ['/'] := by
    rw [htext, List.dropWhile_append]
    split
    · exact ⟨[], rfl⟩
    · exact ⟨_, rfl⟩
  obtain ⟨front', hdrop⟩ := hdrop
  have hstrip : strip isLow text.toList = front' ++ ['/'] := by
    have hslash : isLow '/' = false := by decide
    rw [strip, hdrop, List.reverse_append, List.reverse_singleton, List.singleton_append,
      List.dropWhile_cons_of_neg (by simp [hslash]), List.reverse_cons, List.reverse_reverse]
  show (keptOf (strip isLow text.toList)).getLast? = some '/'
  rw [hstrip, keptOf_append]
  exact List.getLast?_concat

/-- What is not dropped at the front is not dropped at all. -/
private theorem mem_dropWhile {p : Char → Bool} {c : Char} (hc : p c = false) :
    c ∈ cs.dropWhile p ↔ c ∈ cs := by
  refine ⟨fun h ↦ (List.dropWhile_suffix p).subset h, fun h ↦ ?_⟩
  rw [← List.takeWhile_append_dropWhile (p := p) (l := cs)] at h
  rcases List.mem_append.mp h with h | h
  · rw [List.mem_takeWhile_imp h] at hc
    cases hc
  · exact h

private theorem mem_significant {c : Char} (hc : isLow c = false) :
    c ∈ significant text ↔ c ∈ text.toList := by
  have hkept : c ≠ '\t' ∧ c ≠ '\n' ∧ c ≠ '\r' := by
    refine ⟨?_, ?_, ?_⟩ <;> rintro rfl <;> exact absurd hc (by decide)
  show c ∈ keptOf (strip isLow text.toList) ↔ _
  rw [keptOf, List.mem_filter, and_iff_left (decide_eq_true hkept), strip, List.mem_reverse,
    mem_dropWhile hc, List.mem_reverse, mem_dropWhile hc]

private theorem mark_mem_behindScheme {base : Url} (h : parse text = .ok base) {mark : Char}
    (hmark : mark = '?' ∨ mark = '#') : mark ∈ behindScheme text ↔ mark ∈ text.toList := by
  obtain ⟨scheme, hscheme, -⟩ := exists_scheme_of_parse h
  obtain ⟨name, hname, hno⟩ := exists_of_readScheme hscheme
  have hlow : isLow mark = false := by rcases hmark with rfl | rfl <;> decide
  have hcolon : mark ≠ ':' := by rcases hmark with rfl | rfl <;> decide
  have hnotMem : mark ∉ name := fun hmem ↦ hmark.elim (hno _ hmem).1 (hno _ hmem).2
  rw [← mem_significant hlow, hname, List.mem_append, List.mem_cons, or_iff_right hnotMem,
    or_iff_right hcolon]

private theorem hasNoMark_behindScheme {base : Url} (h : parse text = .ok base) :
    HasNoMark (behindScheme text) ↔ HasNoMark text.toList := by
  constructor
  · refine fun hno c hc ↦ ⟨?_, ?_⟩ <;> rintro rfl
    · exact (hno _ ((mark_mem_behindScheme h (.inl rfl)).mpr hc)).1 rfl
    · exact (hno _ ((mark_mem_behindScheme h (.inr rfl)).mpr hc)).2 rfl
  · refine fun hno c hc ↦ ⟨?_, ?_⟩ <;> rintro rfl
    · exact (hno _ ((mark_mem_behindScheme h (.inl rfl)).mp hc)).1 rfl
    · exact (hno _ ((mark_mem_behindScheme h (.inr rfl)).mp hc)).2 rfl

private theorem mark_mem_rest {base : Url} (h : parse text = .ok base) {front : List Char}
    (hrest : IsRest true (serverText (behindScheme text) ++ blanksBehind text) front)
    {mark : Char} (hmark : mark = '?' ∨ mark = '#') : mark ∈ front ↔ mark ∈ text.toList := by
  have hlow : isLow mark = false := by rcases hmark with rfl | rfl <;> decide
  have hslash : decide (mark = '/' ∨ mark = '\\') = false := by
    rcases hmark with rfl | rfl <;> decide
  have hend : endsAuthority true mark = true := by rcases hmark with rfl | rfl <;> decide
  have hserver : mark ∈ serverText (behindScheme text) ++ blanksBehind text ↔
      mark ∈ text.toList := by
    rw [List.mem_append, or_iff_left ((isLow_blanksBehind text).notMem hlow), serverText,
      mem_dropWhile hslash, mark_mem_behindScheme h hmark]
  rw [← hserver]
  obtain ⟨before, hbefore, -⟩ := id hrest
  exact ⟨fun hmem ↦ hbefore ▸ List.mem_append_right before hmem, fun hmem ↦ hrest.mem hmem hend⟩

/-- The text of names behind a text that gets its slash. -/
def tailOf (text : String) (names : List (List Char)) : List Char :=
  if text.toList.getLast? = some '/' then namesText names else '/' :: namesText names

/-- A text with names behind it. -/
def withNames (text : String) (names : List (List Char)) : String :=
  text ++ String.ofList (tailOf text names)

/-- The text of plain names ends in a slash, and all of it is kept. -/
theorem tailOf_eq {names : List (List Char)} (hplain : ∀ name ∈ names, IsPlain name)
    (hnames : names ≠ []) (text : String) :
    (tailOf text names).getLast? = some '/' ∧ keptOf (tailOf text names) = tailOf text names := by
  have hlast : (namesText names).getLast? = some '/' := by
    obtain ⟨front, name, rfl⟩ := (List.eq_nil_or_concat names).resolve_left hnames
    rw [List.concat_eq_append, namesText, List.flatMap_append, List.flatMap_singleton,
      ← List.append_assoc]
    exact List.getLast?_concat
  have hkept : keptOf (namesText names) = namesText names := by
    refine keptOf_eq_iff.mpr fun c hc ↦ ?_
    have hlow : isLow c = false := by
      rcases of_mem_namesText hplain hc with hc | rfl
      · exact (of_isPlainChar hc).2.2.1
      · decide
    refine ⟨?_, ?_, ?_⟩ <;> rintro rfl <;> exact absurd hlow (by decide)
  unfold tailOf
  split
  · exact ⟨hlast, hkept⟩
  · constructor
    · rw [List.getLast?_cons, hlast]
      rfl
    · rw [← List.singleton_append, keptOf_append, hkept]
      rfl

/-- Names behind a text are read behind its scheme. -/
theorem parse_withNames {base : Url} {names : List (List Char)} (h : parse text = .ok base)
    (hplain : ∀ name ∈ names, IsPlain name) (hnames : names ≠ []) :
    readAfterScheme base.scheme (behindScheme text) = .ok base ∧
      parse (withNames text names) = readAfterScheme base.scheme
        (behindScheme text ++ (blanksBehind text ++ tailOf text names)) := by
  obtain ⟨scheme, hscheme, hread⟩ := exists_scheme_of_parse h
  obtain rfl := scheme_of_readAfterScheme hread
  obtain ⟨hlast, hkept⟩ := tailOf_eq hplain hnames text
  have hcounts : significant text ≠ [] := by
    intro hnil
    rw [hnil] at hscheme
    cases hscheme
  refine ⟨hread, ?_⟩
  rw [parse, withNames, significant_append hcounts hlast (by decide), hkept,
    readScheme_append hscheme]

/-- Names join the text behind the scheme. -/
theorem TakesNames.joins {special : Bool} {base : Url} (h : TakesNames special text)
    (hparse : parse text = .ok base) (names : List (List Char)) :
    Joins special (behindScheme text) (tailOf text names) names := by
  unfold tailOf
  by_cases hlast : text.toList.getLast? = some '/'
  · rw [if_pos hlast]
    exact .inl ⟨(getLast?_behindScheme hparse (by decide)).mpr (getLast?_significant hlast), rfl⟩
  · rw [if_neg hlast]
    refine .inr ⟨fun c hc ↦ Bool.eq_false_iff.mpr fun hslash ↦ hlast ?_, rfl⟩
    have hcolon : c ≠ ':' := by
      rintro rfl
      cases special <;> cases hslash
    exact h.slash c ((getLast?_behindScheme hparse hcolon).mp hc) hslash

/-- Names behind a text that takes them come behind the path of its URL. -/
theorem TakesNames.exists_extends {base : Url} {names : List (List Char)}
    (h : TakesNames (isSpecial base.scheme) text) (hparse : parse text = .ok base)
    (hplain : ∀ name ∈ names, IsPlain name) (hnames : names ≠ []) :
    ∃ url, parse (withNames text names) = .ok url ∧ Extends base names url := by
  obtain ⟨hread, hwith⟩ := parse_withNames hparse hplain hnames
  have hmark : HasNoMark (behindScheme text) := (hasNoMark_behindScheme hparse).mpr h.mark
  rw [hwith, h.blanks, List.nil_append]
  exact Url.exists_extends hread h.place hmark (h.joins hparse names) hplain hnames

/-! ## Texts that do not take names -/

private theorem cutPath_append {c : Char} (hc : c ∈ cs) (hmark : c = '?' ∨ c = '#') :
    ∃ path mark rest, (mark = '?' ∨ mark = '#') ∧ mark :: rest <:+ cs ∧ c ∈ mark :: rest ∧
      ∀ tail, cutPath (cs ++ tail) = (path, mark :: (rest ++ tail)) := by
  let p : Char → Bool := fun c ↦ c ≠ '?' ∧ c ≠ '#'
  have hstays : p c = false := by rcases hmark with rfl | rfl <;> decide
  have hmem : c ∈ cs.dropWhile p := (mem_dropWhile hstays).mpr hc
  have hne := List.ne_nil_of_mem hmem
  obtain ⟨mark, rest, hrest⟩ := List.exists_cons_of_ne_nil hne
  have hfirst := List.head_dropWhile_not p hne
  simp only [hrest, List.head_cons] at hfirst
  have hmark' : mark = '?' ∨ mark = '#' := by
    rw [decide_eq_false_iff_not, not_and_or, not_not, not_not] at hfirst
    exact hfirst
  refine ⟨cs.takeWhile p, mark, rest, hmark', hrest ▸ List.dropWhile_suffix p, hrest ▸ hmem,
    fun tail ↦ ?_⟩
  have hlong : (cs.takeWhile p).length ≠ cs.length := by
    intro hlength
    have hall := List.takeWhile_eq_self_iff.mp ((List.takeWhile_prefix p).eq_of_length hlength) c hc
    rcases hmark with rfl | rfl <;> exact absurd hall (by decide)
  rw [cutPath, List.span_eq_takeWhile_dropWhile, List.takeWhile_append, if_neg hlong,
    List.dropWhile_append, hrest]
  rfl

private theorem length_le_withoutSlash (cs : List Char) :
    cs.length ≤ (withoutSlash cs).length + 1 := by
  unfold withoutSlash
  split
  · rw [List.length_dropLast]
    omega
  · omega

private theorem namesText_ne_nil {names : List (List Char)} (hplain : ∀ name ∈ names, IsPlain name)
    (hnames : names ≠ []) : namesText names ≠ [] := by
  obtain ⟨c, rest, htext, -⟩ := head?_namesText hplain hnames
  rw [htext]
  exact List.cons_ne_nil c rest

section Special

variable {base url : Url} {names : List (List Char)} (hspecial : isSpecial base.scheme = true)
  (hfile : base.scheme ≠ "file") (hparse : parse text = .ok base)
  (hplain : ∀ name ∈ names, IsPlain name) (hnames : names ≠ [])

include hspecial hfile hparse hplain hnames

/-- The URL of a text with names behind it, told by the authority of the text. -/
theorem parse_withNames_special :
    parse (withNames text names) = readAuthority base.scheme
      (serverText (behindScheme text) ++ (blanksBehind text ++ tailOf text names)) := by
  obtain ⟨hread, hwith⟩ := parse_withNames hparse hplain hnames
  rw [hwith, readAfterScheme_special hfile hspecial, serverText_append hfile hspecial hread]

private theorem exists_readServer : ∃ authority rest,
    readServer base.scheme (serverText (behindScheme text)) = .ok (authority, rest) ∧
      base = withServer base.scheme authority rest := by
  obtain ⟨hread, -⟩ := parse_withNames hparse hplain hnames
  rw [readAfterScheme_special hfile hspecial, readAuthority_eq] at hread
  cases hserver : readServer base.scheme (serverText (behindScheme text)) with
  | error e =>
    rw [hserver] at hread
    cases hread
  | ok server =>
    rw [hserver] at hread
    exact ⟨server.1, server.2, rfl, (Except.ok.inj hread).symm⟩

/-- Behind an authority that is ended, all that follows is left. -/
theorem parse_withNames_of_isEnded {authority : Authority}
    (hserver : readServer base.scheme (serverText (behindScheme text)) = .ok (authority, rest))
    (h : IsEnded true (serverText (behindScheme text)) (blanksBehind text ++ tailOf text names)) :
    parse (withNames text names) = .ok
      (withServer base.scheme authority (rest ++ (blanksBehind text ++ tailOf text names))) := by
  obtain ⟨hread, -⟩ := parse_withNames hparse hplain hnames
  obtain ⟨-, hat⟩ := serverText_ne hfile hspecial hread
  rw [parse_withNames_special hspecial hfile hparse hplain hnames, readAuthority_eq,
    readServer_append (by rwa [hspecial]) hat, hserver]
  rfl

/-- Behind a slash of their own, names are left by any authority, and the blanks belong to it. -/
theorem parse_withNames_of_fresh (hfresh : text.toList.getLast? ≠ some '/') :
    parse (withNames text names) =
      (readServer base.scheme (serverText (behindScheme text) ++ blanksBehind text)).map
        fun (authority, rest) ↦ withServer base.scheme authority (rest ++ tailOf text names) := by
  obtain ⟨hread, -⟩ := parse_withNames hparse hplain hnames
  obtain ⟨hne, hat⟩ := serverText_ne hfile hspecial hread
  have hat' : serverText (behindScheme text) ++ blanksBehind text ≠ ['@'] := by
    cases hblanks : blanksBehind text with
    | nil =>
      rw [List.append_nil]
      exact hat
    | cons c rest =>
      intro hlone
      have hlength := congrArg List.length hlone
      have hpos := List.length_pos_iff.mpr hne
      rw [List.length_append, List.length_singleton, List.length_cons] at hlength
      omega
  have htail : tailOf text names = '/' :: namesText names := if_neg hfresh
  rw [parse_withNames_special hspecial hfile hparse hplain hnames, htail, readAuthority_eq,
    ← List.append_assoc, readServer_append (.inr rfl) hat']
  cases readServer base.scheme (serverText (behindScheme text) ++ blanksBehind text) <;> rfl

private theorem mark_of_print (hwith : parse (withNames text names) = .ok url)
    (hprint : url.path.print = withoutSlash base.path.print ++ '/' :: namesText names) :
    HasNoMark (behindScheme text) := by
  have hno : ∀ c ∈ behindScheme text, (c = '?' ∨ c = '#') → False := by
    intro c hc hmark
    have hend : endsAuthority true c = true := by rcases hmark with rfl | rfl <;> rfl
    have hserver : c ∈ serverText (behindScheme text) := by
      refine (mem_dropWhile ?_).mpr hc
      rcases hmark with rfl | rfl <;> decide
    obtain ⟨authority, rest, hread, hbase⟩ :=
      exists_readServer hspecial hfile hparse hplain hnames
    have hrest := isRest_of_readServer hread
    rw [hspecial] at hrest
    have hurl := Except.ok.inj (hwith.symm.trans (parse_withNames_of_isEnded hspecial hfile hparse
      hplain hnames hread (.inl ⟨c, hserver, hend⟩)))
    have hsame : url.path = base.path := by
      rw [hurl, hbase]
      obtain ⟨path, mark, behind, -, -, -, hcut⟩ := cutPath_append (hrest.mem hserver hend) hmark
      have hcutBase := hcut []
      rw [List.append_nil] at hcutBase
      show Path.segments _ = Path.segments _
      rw [hcut, hcutBase]
      rfl
    have hlength := congrArg List.length hprint
    have hle := length_le_withoutSlash base.path.print
    have hpos := List.length_pos_iff.mpr (namesText_ne_nil hplain hnames)
    rw [hsame, List.length_append, List.length_cons] at hlength
    omega
  exact fun c hc ↦ ⟨fun h ↦ hno c hc (.inl h), fun h ↦ hno c hc (.inr h)⟩

omit hfile hparse hplain hnames in
private theorem path_withServer (authority : Authority) (hmark : HasNoMark cs) :
    (withServer base.scheme authority cs).path = .segments (pathOf false true cs) := by
  show Path.segments _ = _
  rw [hspecial, cutPath_of_hasNoMark hmark, segmentsOf_eq_pathOf (.inl rfl)]

private theorem not_print_of_isEnded {authority : Authority}
    (hserver : readServer base.scheme (serverText (behindScheme text)) = .ok (authority, rest))
    (hbase : base = withServer base.scheme authority rest)
    (hurl : url = withServer base.scheme authority
      (rest ++ (blanksBehind text ++ '/' :: namesText names)))
    (hmark : HasNoMark (behindScheme text)) (hne : rest ≠ [])
    (hmore : blanksBehind text ≠ [] ∨
      ∃ c, (significant text).getLast? = some c ∧ isPathSlash true c = true) :
    url.path.print ≠ withoutSlash base.path.print ++ '/' :: namesText names := by
  have hrest : rest <:+ serverText (behindScheme text) := by
    obtain ⟨front, hfront, -⟩ := isRest_of_readServer hserver
    exact ⟨front, hfront.symm⟩
  have hmark : HasNoMark rest := fun c hc ↦
    hmark c ((serverText_suffix _).subset (hrest.subset hc))
  have hmark' : HasNoMark (rest ++ (blanksBehind text ++ '/' :: namesText names)) :=
    hmark.append ((isLow_blanksBehind text).hasNoMark.append
      (hasNoMark_slash.append (hasNoMark_namesText hplain)))
  have hbasePath : base.path = .segments (pathOf false true rest) :=
    (congrArg Url.path hbase).trans (path_withServer hspecial authority hmark)
  have hurlPath : url.path =
      .segments (pathOf false true (rest ++ (blanksBehind text ++ '/' :: namesText names))) :=
    (congrArg Url.path hurl).trans (path_withServer hspecial authority hmark')
  have hextends : Extends base names
      { base with path := .segments (trunkOf (pathOf false true rest) ++ namesPath names) } := by
    refine ⟨rfl, rfl, ?_⟩
    rw [hbasePath]
    exact ⟨avoids_pathOf _ _ _, rfl⟩
  -- Between the path of the base URL and the names stands a piece more than there should be, so
  -- that the path is too long.
  have hlonger :
      (Path.segments (trunkOf (pathOf false true rest) ++ namesPath names)).print.length <
        url.path.print.length := by
    rw [hurlPath]
    refine length_print_lt (isLow_blanksBehind text)
      (hmore.imp_right fun ⟨c, hc, hend⟩ ↦ ⟨c, ?_, hend⟩) hne hplain
    obtain ⟨hread, -⟩ := parse_withNames hparse hplain hnames
    have hserverNe := (serverText_ne hfile hspecial hread).1
    have hcolon : c ≠ ':' := by
      rintro rfl
      cases hend
    rw [getLast?_of_suffix hrest hne, getLast?_of_suffix (serverText_suffix _) hserverNe]
    exact (getLast?_behindScheme hparse hcolon).mpr hc
  intro hprint
  rw [hprint, ← hextends.print_eq] at hlonger
  exact Nat.lt_irrefl _ hlonger

private theorem not_more_of_print (hwith : parse (withNames text names) = .ok url)
    (hprint : url.path.print = withoutSlash base.path.print ++ '/' :: namesText names)
    (hfresh : text.toList.getLast? ≠ some '/')
    (hmore : blanksBehind text ≠ [] ∨
      ∃ c, (significant text).getLast? = some c ∧ isPathSlash true c = true) : False := by
  obtain ⟨hread, -⟩ := parse_withNames hparse hplain hnames
  obtain ⟨hne, -⟩ := serverText_ne hfile hspecial hread
  obtain ⟨authority, rest, hserver, hbase⟩ :=
    exists_readServer hspecial hfile hparse hplain hnames
  have htail : tailOf text names = '/' :: namesText names := if_neg hfresh
  by_cases hended : ∃ c ∈ serverText (behindScheme text), endsAuthority true c = true
  · have hurl := Except.ok.inj (hwith.symm.trans (parse_withNames_of_isEnded hspecial hfile hparse
      hplain hnames hserver (.inl hended)))
    rw [htail] at hurl
    obtain ⟨c, hc, hend⟩ := hended
    have hrest := isRest_of_readServer hserver
    rw [hspecial] at hrest
    have hmark := mark_of_print hspecial hfile hparse hplain hnames hwith hprint
    exact not_print_of_isEnded hspecial hfile hparse hplain hnames hserver hbase hurl hmark
      (List.ne_nil_of_mem (hrest.mem hc hend)) hmore hprint
  · -- Blanks are the end of the authority.
    have hcs : ∀ c ∈ serverText (behindScheme text), endsAuthority true c = false :=
      fun c hc ↦ Bool.eq_false_iff.mpr fun hend ↦ hended ⟨c, hc, hend⟩
    have hblanks : blanksBehind text ≠ [] := by
      refine hmore.resolve_right fun ⟨c, hc, hend⟩ ↦ ?_
      have hcolon : c ≠ ':' := by
        rintro rfl
        cases hend
      have hlast := (getLast?_behindScheme hparse hcolon).mpr hc
      rw [← getLast?_of_suffix (serverText_suffix _) hne] at hlast
      have hends : endsAuthority true c = true := by
        rcases isPathSlash_iff.mp hend with rfl | ⟨-, rfl⟩ <;> rfl
      rw [hcs c (List.mem_of_getLast? hlast)] at hends
      cases hends
    rw [parse_withNames_of_fresh hspecial hfile hparse hplain hnames hfresh] at hwith
    cases hserver' :
        readServer base.scheme (serverText (behindScheme text) ++ blanksBehind text) with
    | error e =>
      rw [hserver'] at hwith
      cases hwith
    | ok server' =>
      exact not_readServer_append_of_isLow hspecial hcs hserver (isLow_blanksBehind text) hblanks
        server' hserver'

/-- Names that come behind the path of a URL are written behind a text that takes them. -/
theorem takesNames_of_print (hwith : parse (withNames text names) = .ok url)
    (hprint : url.path.print = withoutSlash base.path.print ++ '/' :: namesText names) :
    TakesNames true text := by
  have hmore := not_more_of_print hspecial hfile hparse hplain hnames hwith hprint
  obtain ⟨hread, -⟩ := parse_withNames hparse hplain hnames
  obtain ⟨hserver, hat⟩ := serverText_ne hfile hspecial hread
  refine ⟨(hasNoMark_behindScheme hparse).mp ?_, ?_, fun c hc hslash ↦ ?_, ?_, ?_, ?_⟩
  · exact mark_of_print hspecial hfile hparse hplain hnames hwith hprint
  · by_cases hlast : text.toList.getLast? = some '/'
    · exact blanksBehind_eq_nil hlast
    · by_cases hblanks : blanksBehind text = []
      · exact hblanks
      · exact (hmore hlast (.inl hblanks)).elim
  · by_cases hlast : text.toList.getLast? = some '/'
    · exact hlast
    · exact (hmore hlast (.inr ⟨c, hc, hslash⟩)).elim
  · intro hplace
    rw [hplace] at hserver
    exact hserver rfl
  · intro hplace
    rw [hplace] at hserver
    exact hserver rfl
  · intro hplace
    rw [hplace] at hat
    exact hat rfl

/-- All names are read behind the same text, which has the marks of the whole, once some are. -/
theorem exists_server (hwith : parse (withNames text names) = .ok url) :
    ∃ authority front,
      (∀ mark, mark = '?' ∨ mark = '#' → (mark ∈ front ↔ mark ∈ text.toList)) ∧
      (text.toList.getLast? = some '/' → front.getLast? = some '/') ∧
      ∀ names : List (List Char), (∀ name ∈ names, IsPlain name) → names ≠ [] →
        parse (withNames text names) =
          .ok (withServer base.scheme authority (front ++ tailOf text names)) := by
  obtain ⟨hread, -⟩ := parse_withNames hparse hplain hnames
  obtain ⟨hne, -⟩ := serverText_ne hfile hspecial hread
  have hsuffix := serverText_suffix (behindScheme text)
  by_cases hended : ∃ c ∈ serverText (behindScheme text), endsAuthority true c = true
  · obtain ⟨authority, rest, hserver, -⟩ :=
      exists_readServer hspecial hfile hparse hplain hnames
    have hrest := isRest_of_readServer hserver
    rw [hspecial] at hrest
    obtain ⟨c, hc, hend⟩ := hended
    have hrestNe : rest ≠ [] := List.ne_nil_of_mem (hrest.mem hc hend)
    have hrest' : rest <:+ serverText (behindScheme text) := by
      obtain ⟨front, hfront, -⟩ := hrest
      exact ⟨front, hfront.symm⟩
    refine ⟨authority, rest ++ blanksBehind text, fun mark hmark ↦ ?_, fun hslash ↦ ?_,
      fun names hplain hnames ↦ ?_⟩
    · exact mark_mem_rest hparse (hrest.append _) hmark
    · rw [blanksBehind_eq_nil hslash, List.append_nil, getLast?_of_suffix hrest' hrestNe,
        getLast?_of_suffix hsuffix hne]
      exact (getLast?_behindScheme hparse (by decide)).mpr (getLast?_significant hslash)
    · rw [List.append_assoc]
      exact parse_withNames_of_isEnded hspecial hfile hparse hplain hnames hserver
        (.inl ⟨c, hc, hend⟩)
  · -- The text ends in no slash, for that would end the authority.
    have hfresh : text.toList.getLast? ≠ some '/' := by
      intro hslash
      have hlast := (getLast?_behindScheme hparse (by decide)).mpr (getLast?_significant hslash)
      rw [← getLast?_of_suffix hsuffix hne] at hlast
      exact hended ⟨'/', List.mem_of_getLast? hlast, endsAuthority_slash true⟩
    rw [parse_withNames_of_fresh hspecial hfile hparse hplain hnames hfresh] at hwith
    cases hserver :
        readServer base.scheme (serverText (behindScheme text) ++ blanksBehind text) with
    | error e =>
      rw [hserver] at hwith
      cases hwith
    | ok server =>
      obtain ⟨authority, front⟩ := server
      have hrest := isRest_of_readServer hserver
      rw [hspecial] at hrest
      refine ⟨authority, front, fun mark hmark ↦ mark_mem_rest hparse hrest hmark,
        fun hslash ↦ absurd hslash hfresh, fun names hplain hnames ↦ ?_⟩
      rw [parse_withNames_of_fresh hspecial hfile hparse hplain hnames hfresh, hserver]
      rfl

end Special

/-! ## Names behind a common text -/

/-- Names behind a text, with or without a slash of their own. -/
theorem of_mem_tailOf {names : List (List Char)} (hplain : ∀ name ∈ names, IsPlain name) {c : Char}
    (hc : c ∈ tailOf text names) : isPlainChar c = true ∨ c = '/' := by
  unfold tailOf at hc
  split at hc
  · exact of_mem_namesText hplain hc
  · rcases List.mem_cons.mp hc with hc | hc
    · exact .inr hc
    · exact of_mem_namesText hplain hc

/-- Behind a text without marks, all names come behind the same segments. -/
theorem exists_trunk_withServer (scheme : String) (authority : Authority) (hmark : HasNoMark cs)
    (hslash : text.toList.getLast? = some '/' → cs.getLast? = some '/') :
    ∃ trunk, ∀ names : List (List Char), (∀ name ∈ names, IsPlain name) →
      (withServer scheme authority (cs ++ tailOf text names)).path =
        .segments (trunk ++ namesPath names) := by
  by_cases hlast : text.toList.getLast? = some '/'
  · refine ⟨trunkOf (segmentsOf (isSpecial scheme) cs), fun names hplain ↦ ?_⟩
    have hjoins : Joins (isSpecial scheme) cs (namesText names) names := .inl ⟨hslash hlast, rfl⟩
    show Path.segments _ = _
    rw [tailOf, if_pos hlast, cutPath_of_hasNoMark (hmark.append (hasNoMark_namesText hplain)),
      segmentsOf_append hjoins hplain]
  · obtain ⟨trunk, htrunk⟩ := exists_pathOf_slash false (isSpecial scheme) cs
    refine ⟨trunk, fun names hplain ↦ ?_⟩
    have hcut : cutPath (cs ++ '/' :: namesText names) = (cs ++ '/' :: namesText names, []) :=
      cutPath_of_hasNoMark (hmark.append (hasNoMark_slash.append (hasNoMark_namesText hplain)))
    show Path.segments _ = _
    rw [tailOf, if_neg hlast, ← htrunk names hplain, hcut, segmentsOf_eq_pathOf (.inr (by simp))]

/-- Behind a text with a fragment, all that follows belongs to the fragment. -/
theorem exists_fragment_withServer (scheme : String) (authority : Authority)
    (hfragment : '#' ∈ cs) (tail : List Char) :
    ∃ fragment, withServer scheme authority (cs ++ tail) =
      { withServer scheme authority cs with fragment } := by
  obtain ⟨path, mark, rest, hmark, -, hmem, hcut⟩ := cutPath_append hfragment (.inr rfl)
  have hcutBase := hcut []
  rw [List.append_nil, List.append_nil] at hcutBase
  unfold withServer
  rw [hcut, hcutBase]
  rcases hmark with rfl | rfl
  · -- The fragment begins behind the query.
    have hrest : '#' ∈ rest := (List.mem_cons.mp hmem).resolve_left (by decide)
    obtain ⟨behind, hsplit⟩ := splitFirst_append hrest
    refine ⟨some (String.ofList (Percent.encode escapedInFragment (behind ++ tail))), ?_⟩
    dsimp only
    rw [readSuffix, readSuffix, hsplit]
    rfl
  · exact ⟨_, rfl⟩

/-- Behind a text with a query and without a fragment, all names come behind the same query. -/
theorem exists_query_withServer (text : String) (authority : Authority)
    (hspecial : isSpecial scheme = true) (hquery : '?' ∈ cs) (hfragment : '#' ∉ cs) :
    ∃ query, ∀ names : List (List Char), (∀ name ∈ names, IsPlain name) →
      (withServer scheme authority (cs ++ tailOf text names)).query =
        some (String.ofList (query ++ tailOf text names)) := by
  obtain ⟨path, mark, rest, hmark, hsuffix, -, hcut⟩ := cutPath_append hquery (.inl rfl)
  obtain rfl : mark = '?' :=
    hmark.resolve_right fun e ↦ hfragment (e ▸ hsuffix.subset List.mem_cons_self)
  refine ⟨Percent.encode (escapedInQuery true) rest, fun names hplain ↦ ?_⟩
  have hno : '#' ∉ rest ++ tailOf text names := by
    intro hmem
    rcases List.mem_append.mp hmem with hmem | hmem
    · exact hfragment (hsuffix.subset (List.mem_cons_of_mem _ hmem))
    · rcases of_mem_tailOf hplain hmem with hc | hc <;> exact absurd hc (by decide)
  have htail : Percent.encode (escapedInQuery true) (tailOf text names) = tailOf text names := by
    refine Percent.encode_eq_self fun c hc ↦ ?_
    rcases of_mem_tailOf hplain hc with hc | rfl
    · exact ⟨ascii_of_isPlainChar hc, (of_isPlainChar hc).2.1⟩
    · decide
  show (readSuffix (isSpecial scheme) (cutPath (cs ++ tailOf text names)).2).1 = _
  rw [hcut, hspecial, readSuffix, splitFirst_of_notMem hno]
  dsimp only
  rw [Percent.encode_append, htail]

end RegionClient.Url
