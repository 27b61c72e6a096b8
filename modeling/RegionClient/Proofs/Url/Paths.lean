import RegionClient.Proofs.Url.Segments

/-!
# Paths of parsed URLs

A URL is read in two steps: what stands before the path, and the path with what stands behind it.
Main statements: the two steps give what the readers give (`readAuthority_eq`, `readFile_eq`), a
URL that was read has a list of segments if its scheme is special, none of which holds a slash
(`exists_segments_of_parse`), so that the text of a path tells its segments (`print_prefix_iff`).
-/

namespace RegionClient.Url

open Text

/-! ## The two steps of reading -/

/-- The segments of a path text behind an authority. -/
def segmentsOf (special : Bool) : List Char → List String
  | [] => if special then [""] else []
  | c :: rest =>
    placeSegments false []
      (pathSegments special (if c = '/' ∨ (special ∧ c = '\\') then rest else c :: rest))

/-- The URL with an authority and the text behind it. -/
def withServer (scheme : String) (authority : Authority) (cs : List Char) : Url :=
  let suffix := readSuffix (isSpecial scheme) (cutPath cs).2
  ⟨scheme, some authority, .segments (segmentsOf (isSpecial scheme) (cutPath cs).1), suffix.1,
    suffix.2⟩

/-- The host that a text spells; the text may be empty if the scheme is not special. -/
def readHost (special : Bool) (cs : List Char) : Except ParseError (Option Host) :=
  if special then if cs.isEmpty then .error .emptyHost else some <$> parseHost cs
  else if cs.isEmpty then .ok none
  else some <$> parseHostVerbatim cs

/-- The port behind a colon, if there is one, and the text behind it. -/
def readPortPart : List Char → Except ParseError (Option Nat × List Char)
  | ':' :: rest => readPort 0 false rest
  | cs => .ok (none, cs)

/-- The authority that starts here, and the text behind it. -/
def readServer (scheme : String) (cs : List Char) : Except ParseError (Authority × List Char) :=
  (readUser (isSpecial scheme) cs).bind fun (username, password, cs) ↦
    let (hostText, cs) := cutHost (isSpecial scheme) false cs
    (readHost (isSpecial scheme) hostText).bind fun host ↦
      if host.isNone ∧ (cs.head? = some ':' ∨ username ≠ "" ∨ password ≠ "") then .error .emptyHost
      else (readPortPart cs).map fun (port, cs) ↦
        (⟨username, password, host, if port = defaultPort? scheme then none else port⟩, cs)

/-- What is done with the outcome of two steps is done with that of the second. -/
private theorem map_bind {ε α β γ : Type} (x : Except ε α) (f : α → Except ε β) (g : β → γ) :
    (x.bind f).map g = x.bind fun a ↦ (f a).map g := by
  cases x with
  | error e => rfl
  | ok a => rfl

/-- A URL with an authority is read in two steps. -/
theorem readAuthority_eq (scheme : String) (cs : List Char) :
    readAuthority scheme cs =
      (readServer scheme cs).map fun (authority, rest) ↦ withServer scheme authority rest := by
  have hhost : ∀ (hostText : List Char) (next : Option Host → Except ParseError Url),
      (if isSpecial scheme = true then
        if hostText.isEmpty = true then Except.bind (.error .emptyHost) next
        else Except.bind (some <$> parseHost hostText) next
      else if hostText.isEmpty = true then Except.bind (.ok none) next
      else Except.bind (some <$> parseHostVerbatim hostText) next) =
        (readHost (isSpecial scheme) hostText).bind next := by
    intro hostText next
    unfold readHost
    split <;> split <;> rfl
  unfold readAuthority readServer
  dsimp only [bind]
  rw [map_bind]
  refine congrArg _ (funext fun user ↦ ?_)
  obtain ⟨username, password, cs⟩ := user
  dsimp only
  refine (hhost _ _).trans ?_
  rw [map_bind]
  refine congrArg _ (funext fun host ↦ ?_)
  generalize (cutHost (isSpecial scheme) false cs).2 = behind
  split
  · rfl
  · split
    · next rest _ =>
      rw [readPortPart]
      cases readPort 0 false rest <;> rfl
    · next hcolon =>
      rw [readPortPart]
      · rfl
      · exact hcolon

/-- Both slashes of paths. -/
def isSlash (c : Char) : Bool := c == '/' || c == '\\'

/-- The `file` URL with a host and the text behind it. A drive letter leaves no host. -/
def withFileHost (host : Option Host) (cs : List Char) : Url :=
  let path := placeSegments true [] (pathSegments true (match (cutPath cs).1 with
    | c :: rest => if isSlash c then rest else c :: rest
    | [] => []))
  let suffix := readSuffix true (cutPath cs).2
  let host := if (path.head?.map (isDriveLetter ·.toList)).getD false then none else host
  ⟨"file", some { host }, .segments path, suffix.1, suffix.2⟩

/-- The host of a `file` URL, and the text behind it. -/
def readFileHost (cs : List Char) : Except ParseError (Option Host × List Char) :=
  match cs with
  | a :: b :: rest =>
    if isSlash a ∧ isSlash b then
      let (hostText, behind) := rest.span (!endsAuthority true ·)
      if hostText.isEmpty then .ok (none, behind)
      else if isDriveLetter hostText then .ok (none, rest)
      else (parseHost hostText).map fun host ↦
        (if host = .domain "localhost" then none else some host, behind)
    else .ok (none, a :: b :: rest)
  | cs => .ok (none, cs)

/-- A `file` URL is read in two steps. -/
theorem readFile_eq (cs : List Char) :
    readFile cs = (readFileHost cs).map fun (host, rest) ↦ withFileHost host rest := by
  match cs with
  | [] => rfl
  | [a] => rfl
  | a :: b :: rest =>
    unfold readFile readFileHost
    by_cases hslashes : isSlash a = true ∧ isSlash b = true
    · have hslashes' : (a == '/' || a == '\\') = true ∧ (b == '/' || b == '\\') = true := hslashes
      simp only [if_pos hslashes, if_pos hslashes']
      generalize rest.span (!endsAuthority true ·) = cut
      by_cases hempty : cut.1.isEmpty = true
      · simp only [if_pos hempty]
        rfl
      · simp only [if_neg hempty]
        by_cases hdrive : isDriveLetter cut.1 = true
        · simp only [if_pos hdrive]
          rfl
        · simp only [if_neg hdrive]
          cases parseHost cut.1 with
          | error e => rfl
          | ok host =>
            dsimp only [bind, Except.bind, Except.map]
            split
            · rfl
            · next hlocal =>
              have : host ≠ .domain "localhost" := hlocal
              rw [if_neg this]
              rfl
    · simp only [if_neg hslashes]
      exact if_neg hslashes

/-! ## What segments do not hold -/

/-- No segment holds a character. -/
def Avoids (c : Char) (path : List String) : Prop := ∀ segment ∈ path, c ∉ segment.toList

variable {c : Char} {path path' : List String}

/-- The empty path holds nothing. -/
theorem avoids_nil (c : Char) : Avoids c [] := fun _ h ↦ absurd h List.not_mem_nil

private theorem avoids_append : Avoids c (path ++ path') ↔ Avoids c path ∧ Avoids c path' := by
  constructor
  · intro h
    exact ⟨fun s hs ↦ h s (List.mem_append_left _ hs), fun s hs ↦ h s (List.mem_append_right _ hs)⟩
  · rintro ⟨h, h'⟩ s hs
    rcases List.mem_append.mp hs with hs | hs
    · exact h s hs
    · exact h' s hs

private theorem avoids_singleton {segment : String} : Avoids c [segment] ↔ c ∉ segment.toList := by
  simp [Avoids]

/-- What is left of a path avoids what the path does. -/
theorem Avoids.dropLast (h : Avoids c path) : Avoids c path.dropLast :=
  fun s hs ↦ h s (List.dropLast_subset path hs)

private theorem Avoids.shorten (h : Avoids c path) : Avoids c (shorten path) := by
  unfold Url.shorten
  split
  · split
    · exact h
    · exact h.dropLast
  · exact avoids_nil c

/-- A segment is placed without a character that it does not hold, the colon of drive letters
aside. -/
theorem Avoids.placeSegment {segment : List Char} (h : Avoids c path) (hsegment : c ∉ segment)
    (hcolon : c ≠ ':') (isFile last : Bool) :
    Avoids c (placeSegment isFile last path segment) := by
  have hended : ∀ path', Avoids c path' → Avoids c (if last then path' ++ [""] else path') := by
    intro path' h'
    split
    · exact avoids_append.mpr ⟨h', avoids_singleton.mpr (by simp)⟩
    · exact h'
  have hsingle : ∀ {cs : List Char}, c ∉ cs → Avoids c [String.ofList cs] := by
    intro cs hcs
    rw [avoids_singleton, String.toList_ofList]
    exact hcs
  unfold Url.placeSegment
  dsimp only
  split
  · exact hended _ h.shorten
  · split
    · exact hended _ h
    · split
      · -- A drive letter gets a colon, and what stands behind it is a segment of its own.
        split
        · split
          · simp only [List.mem_cons, not_or] at hsegment
            exact hsingle (by simp [hsegment.1, hcolon])
          · exact hsingle hsegment
        · split
          · simp only [List.mem_cons, not_or] at hsegment
            refine avoids_append.mpr ⟨hsingle ?_, hsingle ?_⟩
            · simp [hsegment.1, hcolon]
            · simp [hsegment.2.2.1, hsegment.2.2.2]
          · exact hsingle hsegment
        · exact hsingle hsegment
      · exact avoids_append.mpr ⟨h, hsingle hsegment⟩

/-- Pieces are placed without a character that they do not hold once they are escaped. -/
theorem Avoids.placeSegments {segments : List (List Char)} (h : Avoids c path)
    (hsegments : ∀ segment ∈ segments, c ∉ Percent.encode escapedInPath segment) (hcolon : c ≠ ':')
    (isFile : Bool) : Avoids c (placeSegments isFile path segments) := by
  induction segments generalizing path with
  | nil => exact h
  | cons segment rest ih =>
    exact ih (h.placeSegment (hsegments segment List.mem_cons_self) hcolon isFile rest.isEmpty)
      fun segment' h' ↦ hsegments segment' (List.mem_cons_of_mem segment h')

/-- The pieces of a path text hold no slash and no question mark once they are escaped. -/
theorem notMem_encode_pathSegments (special : Bool) (cs : List Char) (hc : c = '/' ∨ c = '?') :
    ∀ segment ∈ pathSegments special cs, c ∉ Percent.encode escapedInPath segment := by
  intro segment hsegment
  rcases hc with rfl | rfl
  · exact Percent.slash_notMem_encode (separator_notMem_of_mem_splitOn hsegment)
  · exact Percent.notMem_encode (by decide) (by decide) (by decide) segment

/-- The segments of a path text hold no slash and no question mark. -/
theorem avoids_segmentsOf (special : Bool) (cs : List Char) (hc : c = '/' ∨ c = '?') :
    Avoids c (segmentsOf special cs) := by
  have hcolon : c ≠ ':' := by rcases hc with rfl | rfl <;> decide
  unfold segmentsOf
  split
  · split
    · exact avoids_singleton.mpr (by simp)
    · exact avoids_nil c
  · exact (avoids_nil c).placeSegments (notMem_encode_pathSegments _ _ hc) hcolon false

private theorem of_readAuthority {scheme : String} {cs : List Char} {url : Url}
    (h : readAuthority scheme cs = .ok url) :
    url.scheme = scheme ∧
      ∃ path, url.path = .segments path ∧ Avoids '/' path ∧ Avoids '?' path := by
  rw [readAuthority_eq] at h
  cases hserver : readServer scheme cs with
  | error e =>
    rw [hserver] at h
    cases h
  | ok server =>
    rw [hserver] at h
    rw [← Except.ok.inj h]
    exact ⟨rfl, _, rfl, avoids_segmentsOf _ _ (.inl rfl), avoids_segmentsOf _ _ (.inr rfl)⟩

/-- A URL that is read behind a scheme has that scheme. -/
theorem scheme_of_readAfterScheme {scheme : String} {cs : List Char} {url : Url}
    (h : readAfterScheme scheme cs = .ok url) : url.scheme = scheme := by
  unfold readAfterScheme at h
  by_cases hfile : scheme = "file"
  · rw [if_pos hfile, readFile_eq] at h
    cases hhost : readFileHost cs with
    | error e =>
      rw [hhost] at h
      cases h
    | ok host =>
      rw [hhost] at h
      rw [← Except.ok.inj h, hfile]
      rfl
  · rw [if_neg hfile] at h
    split at h
    · exact (of_readAuthority h).1
    · split at h
      · exact (of_readAuthority h).1
      · rw [← Except.ok.inj h]
      · rw [← Except.ok.inj h]

/-- A URL with a special scheme other than `file` has segments, and none of them holds a slash or a
question mark. -/
theorem exists_segments_of_parse {text : String} {url : Url} (h : parse text = .ok url)
    (hspecial : isSpecial url.scheme = true) (hfile : url.scheme ≠ "file") :
    ∃ path, url.path = .segments path ∧ Avoids '/' path ∧ Avoids '?' path := by
  unfold parse at h
  split at h
  · next scheme cs _ =>
    rw [scheme_of_readAfterScheme h] at hspecial hfile
    unfold readAfterScheme at h
    rw [if_neg hfile, if_pos hspecial] at h
    exact (of_readAuthority h).2
  · cases h

/-! ## The text of a path -/

private theorem print_eq_nil_or_slash (path : List String) :
    (Path.segments path).print = [] ∨ ∃ rest, (Path.segments path).print = '/' :: rest := by
  cases path with
  | nil => exact .inl rfl
  | cons segment rest => exact .inr ⟨_, rfl⟩

private theorem eq_of_append_prefix {c : Char} {cs cs' rest rest' : List Char} (h : c ∉ cs)
    (h' : c ∉ cs') (hrest : rest' = [] ∨ ∃ behind, rest' = c :: behind)
    (hbegins : cs ++ c :: rest <+: cs' ++ rest') : cs = cs' ∧ c :: rest <+: rest' := by
  obtain ⟨tail, htail⟩ := hbegins
  rw [List.append_assoc] at htail
  rcases List.append_eq_append_iff.mp htail with ⟨between, rfl, hbehind⟩ | ⟨between, rfl, hbehind⟩
  · cases between with
    | nil => exact ⟨(List.append_nil cs).symm, tail, hbehind⟩
    | cons c' between =>
      obtain rfl : c = c' := (List.cons.inj hbehind).1
      exact absurd (List.mem_append_right cs List.mem_cons_self) h'
  · cases between with
    | nil => exact ⟨List.append_nil cs', tail, hbehind.symm⟩
    | cons c' between =>
      rcases hrest with hnil | ⟨behind, hmark⟩
      · rw [hnil] at hbehind
        cases hbehind
      · rw [hmark] at hbehind
        obtain rfl : c = c' := (List.cons.inj hbehind).1
        exact absurd (List.mem_append_right cs' List.mem_cons_self) h

/-- What stands behind the first occurrence of a character is told by the text. -/
theorem eq_of_append_cons {c : Char} {cs cs' rest rest' : List Char} (h : c ∉ cs) (h' : c ∉ cs')
    (hsame : cs ++ c :: rest = cs' ++ c :: rest') : cs = cs' ∧ rest = rest' := by
  obtain ⟨hfront, -⟩ := eq_of_append_prefix h h' (.inr ⟨rest', rfl⟩)
    (hsame ▸ List.prefix_rfl : cs ++ c :: rest <+: cs' ++ c :: rest')
  rw [hfront] at hsame
  exact ⟨hfront, (List.cons.inj (List.append_cancel_left hsame)).2⟩

/-- The text of a path begins with the text of another and a slash, just if the path goes on
behind the other. -/
theorem print_prefix_iff {path path' : List String} (h : Avoids '/' path)
    (h' : Avoids '/' path') :
    (Path.segments path).print ++ ['/'] <+: (Path.segments path').print ↔
      ∃ behind, behind ≠ [] ∧ path' = path ++ behind := by
  constructor
  · intro hbegins
    -- No segment holds a slash, so that segments in the same place end together.
    induction path generalizing path' with
    | nil =>
      refine ⟨path', ?_, rfl⟩
      rintro rfl
      simp [Path.print] at hbegins
    | cons segment path ih =>
      cases path' with
      | nil => simp [Path.print] at hbegins
      | cons segment' path' =>
        have hsegment : '/' ∉ segment.toList := h segment List.mem_cons_self
        have hsegment' : '/' ∉ segment'.toList := h' segment' List.mem_cons_self
        have hslash : ∃ rest, (Path.segments path).print ++ ['/'] = '/' :: rest := by
          rcases print_eq_nil_or_slash path with hnil | ⟨rest, hrest⟩
          · exact ⟨[], by rw [hnil]; rfl⟩
          · exact ⟨rest ++ ['/'], by rw [hrest]; rfl⟩
        obtain ⟨rest, hrest⟩ := hslash
        have htext : segment.toList ++ ((Path.segments path).print ++ ['/']) <+:
            segment'.toList ++ (Path.segments path').print := by
          rw [← List.append_assoc]
          exact (List.cons_prefix_cons.mp hbegins).2
        rw [hrest] at htext
        obtain ⟨hsame, hbehind⟩ :=
          eq_of_append_prefix hsegment hsegment' (print_eq_nil_or_slash path') htext
        rw [← hrest] at hbehind
        obtain ⟨behind, hne, rfl⟩ := ih (fun s hs ↦ h s (List.mem_cons_of_mem segment hs))
          (fun s hs ↦ h' s (List.mem_cons_of_mem segment' hs)) hbehind
        exact ⟨behind, hne, by rw [String.toList_injective hsame]; rfl⟩
  · rintro ⟨behind, hne, rfl⟩
    rw [print_append, List.prefix_append_right_inj]
    cases behind with
    | nil => exact absurd rfl hne
    | cons segment rest => exact ⟨_, rfl⟩

/-- A text without the slash at its end. -/
def withoutSlash (cs : List Char) : List Char :=
  if cs.getLast? = some '/' then cs.dropLast else cs

/-- The text of a path without its slash is the text of the trunk. -/
theorem withoutSlash_print {root : Url} {path : List String} (hpath : root.path = .segments path)
    (h : Avoids '/' path) : withoutSlash root.path.print = (Path.segments root.trunk).print := by
  unfold trunk
  rw [hpath]
  dsimp only
  rcases List.eq_nil_or_concat path with rfl | ⟨front, last, rfl⟩
  · rfl
  · rw [List.concat_eq_append] at h ⊢
    have hprint : (Path.segments (front ++ [last])).print =
        (Path.segments front).print ++ '/' :: last.toList := by
      rw [print_append]
      simp [Path.print]
    rw [List.getLast?_concat, List.dropLast_concat, hprint]
    by_cases hempty : last = ""
    · rw [hempty, if_pos rfl]
      show withoutSlash ((Path.segments front).print ++ ['/']) = _
      rw [withoutSlash, List.getLast?_concat, if_pos rfl, List.dropLast_concat]
    · rw [if_neg (fun h ↦ hempty (Option.some.inj h)), hprint, withoutSlash, if_neg]
      intro hslash
      have hsegment : '/' ∉ last.toList := avoids_singleton.mp (avoids_append.mp h).2
      rcases List.eq_nil_or_concat last.toList with hnil | ⟨cs, c, hcs⟩
      · exact hempty (String.toList_injective hnil)
      · rw [hcs, List.concat_eq_append, ← List.cons_append, ← List.append_assoc,
          List.getLast?_concat] at hslash
        rw [hcs, Option.some.inj hslash] at hsegment
        exact hsegment (by simp)

end RegionClient.Url
