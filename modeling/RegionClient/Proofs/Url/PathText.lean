import RegionClient.Proofs.Url.Authority

/-!
# Text behind paths

What becomes of the path of a URL when names with slashes behind them are written behind its text.
Main statements: behind the slash at the end of the text, or behind a slash of their own if there is
none, the names come behind the segments of the path (`pathOf_append`); behind blanks, or behind a
second slash, they do not (`length_print_lt`).
-/

namespace RegionClient.Url

open Text

variable {special isFile : Bool} {cs tail rest name : List Char} {names : List (List Char)}

/-! ## Plain names -/

/-- A letter, a digit or a dot. -/
def isPlainChar (c : Char) : Bool := c.isAlphanum || c == '.'

/-- A name that is a segment as it stands: plain characters, no dot at the front. -/
structure IsPlain (name : List Char) : Prop where
  chars : ∀ c ∈ name, isPlainChar c = true
  head : ∃ c rest, name = c :: rest ∧ c ≠ '.'

/-- Plain characters are ASCII. -/
theorem ascii_of_isPlainChar {c : Char} (h : isPlainChar c = true) : c.toNat < 0x80 := by
  have hbound : ∀ {high : UInt32}, c.val ≤ high → high.toNat < 0x80 → c.toNat < 0x80 :=
    fun hle ↦ Nat.lt_of_le_of_lt (UInt32.le_iff_toNat_le.mp hle)
  rcases Bool.or_eq_true_iff.mp h with h | h
  · rcases Bool.or_eq_true_iff.mp h with hletter | hdigit
    · rcases Bool.or_eq_true_iff.mp hletter with hupper | hlower
      · exact hbound (of_decide_eq_true hupper).2 (by decide)
      · exact hbound (of_decide_eq_true (Bool.and_eq_true_iff.mp hlower).2) (by decide)
    · exact hbound (of_decide_eq_true (Bool.and_eq_true_iff.mp hdigit).2) (by decide)
  · rw [beq_iff_eq.mp h]
    decide

/-- What a plain character is not. -/
theorem of_isPlainChar {c : Char} (h : isPlainChar c = true) :
    escapedInPath c = false ∧ escapedInQuery true c = false ∧ isLow c = false ∧
      c ∉ ['/', '\\', '?', '#', ':', '|', '%'] := by
  have hall : ∀ n ∈ List.range 0x80, isPlainChar (Char.ofNat n) = true →
      escapedInPath (Char.ofNat n) = false ∧ escapedInQuery true (Char.ofNat n) = false ∧
        isLow (Char.ofNat n) = false ∧
        Char.ofNat n ∉ ['/', '\\', '?', '#', ':', '|', '%'] := by decide +kernel
  have hc := hall c.toNat (List.mem_range.mpr (ascii_of_isPlainChar h))
  rw [Char.ofNat_toNat] at hc
  exact hc h

/-- A plain name does not hold what is no plain character. -/
theorem IsPlain.notMem (h : IsPlain name) {c : Char} (hc : isPlainChar c = false) : c ∉ name := by
  intro hmem
  rw [h.chars c hmem] at hc
  cases hc

private theorem IsPlain.encode_eq (h : IsPlain name) : Percent.encode escapedInPath name = name :=
  Percent.encode_eq_self fun c hc ↦
    ⟨ascii_of_isPlainChar (h.chars c hc), (of_isPlainChar (h.chars c hc)).1⟩

private theorem IsPlain.decode_ne (h : IsPlain name) (rest : Bytes) :
    Percent.decode name ≠ 0x2E :: rest := by
  obtain ⟨c, behind, rfl, hdot⟩ := h.head
  have hc := h.chars c List.mem_cons_self
  have hascii := ascii_of_isPlainChar hc
  have hmark : c ≠ '%' := by
    rintro rfl
    exact absurd hc (by decide)
  rw [Percent.decode_cons_of_ne hmark, Utf8.encodeChar_of_ascii hascii]
  intro hbytes
  have hbyte := congrArg UInt8.toNat (List.cons.inj hbytes).1
  rw [UInt8.toNat_ofNat'] at hbyte
  apply hdot
  apply Char.toNat_inj.mp
  have hdot' : '.'.toNat = 46 := rfl
  have hbyte' : (0x2E : UInt8).toNat = 46 := rfl
  omega

private theorem IsPlain.placeSegment_eq (h : IsPlain name) (isFile last : Bool)
    (done : List String) :
    placeSegment isFile last done name = done ++ [String.ofList name] := by
  have hdouble : isDoubleDot name = false :=
    Bool.eq_false_iff.mpr fun hdots ↦ h.decode_ne _ (decode_of_isDoubleDot hdots)
  have hsingle : isSingleDot name = false :=
    Bool.eq_false_iff.mpr fun hdot ↦ h.decode_ne _ (decode_of_isSingleDot hdot)
  unfold placeSegment
  dsimp only
  rw [hdouble, if_neg Bool.false_ne_true, hsingle, if_neg Bool.false_ne_true]
  split
  · next hfirst =>
    -- A plain name holds neither the colon nor the bar of a drive letter.
    have hcolon : ':' ∉ name := h.notMem (by decide)
    have hbar : '|' ∉ name := h.notMem (by decide)
    rw [List.isEmpty_iff.mp hfirst.2, List.nil_append]
    split
    · next a b =>
      rw [if_neg]
      simp only [isDriveLetter, Bool.and_eq_true, Bool.or_eq_true, beq_iff_eq, not_and, not_or]
      simp only [List.mem_cons, not_or] at hcolon hbar
      exact fun _ ↦ ⟨Ne.symm hcolon.2.1, Ne.symm hbar.2.1⟩
    · simp at hcolon
    · rfl
  · rfl

/-! ## Names behind a path -/

/-- The text of names with a slash behind each. -/
def namesText (names : List (List Char)) : List Char := names.flatMap (· ++ ['/'])

/-- The segments of names with a slash behind each. -/
def namesPath (names : List (List Char)) : List String := names.map String.ofList ++ [""]

/-- The text of plain names is made of plain characters and slashes. -/
theorem of_mem_namesText (h : ∀ name ∈ names, IsPlain name) {c : Char} (hc : c ∈ namesText names) :
    isPlainChar c = true ∨ c = '/' := by
  obtain ⟨name, hname, hc⟩ := List.mem_flatMap.mp hc
  rcases List.mem_append.mp hc with hc | hc
  · exact .inl ((h name hname).chars c hc)
  · exact .inr (List.mem_singleton.mp hc)

/-- The text of names is that of their segments behind a slash. -/
theorem print_namesPath (names : List (List Char)) :
    (Path.segments (namesPath names)).print = '/' :: namesText names := by
  induction names with
  | nil => rfl
  | cons name names ih =>
    have hcons : namesPath (name :: names) = String.ofList name :: namesPath names := rfl
    have htext : namesText (name :: names) = name ++ '/' :: namesText names := by
      simp [namesText]
    rw [hcons, htext, ← ih]
    simp [Path.print]

private theorem splitOn_namesText (h : ∀ name ∈ names, IsPlain name) :
    splitOn '/' (namesText names) = names ++ [[]] := by
  induction names with
  | nil => rfl
  | cons name names ih =>
    have hslash : '/' ∉ name := (h name List.mem_cons_self).notMem (by decide)
    have htext : namesText (name :: names) = name ++ '/' :: namesText names := by
      simp [namesText]
    rw [htext, splitOn_append_cons hslash, ih fun name' h' ↦ h name' (List.mem_cons_of_mem name h')]
    rfl

/-- The path after segments with more of them to come. -/
def settle (isFile : Bool) (segments : List (List Char)) (done : List String) : List String :=
  segments.foldl
    (fun done segment ↦ placeSegment isFile false done (Percent.encode escapedInPath segment)) done

/-- Segments are placed behind those in front of them. -/
theorem placeSegments_append (isFile : Bool) (done : List String) (front : List (List Char))
    {segments : List (List Char)} (h : segments ≠ []) :
    placeSegments isFile done (front ++ segments) =
      placeSegments isFile (settle isFile front done) segments := by
  induction front generalizing done with
  | nil => rfl
  | cons segment front ih =>
    have hmore : (front ++ segments).isEmpty = false := by simp [h]
    rw [List.cons_append, placeSegments, hmore]
    exact ih _

private theorem placeSegment_nil (isFile last : Bool) (done : List String) :
    placeSegment isFile last done [] = done ++ [""] := by
  have hdouble : isDoubleDot [] = false := by decide
  have hsingle : isSingleDot [] = false := by decide
  unfold placeSegment
  dsimp only
  rw [hdouble, if_neg Bool.false_ne_true, hsingle, if_neg Bool.false_ne_true]
  split
  · next hfirst => rw [List.isEmpty_iff.mp hfirst.2]; rfl
  · rfl

/-- Plain names are placed as they are. -/
theorem placeSegments_names (h : ∀ name ∈ names, IsPlain name) (isFile : Bool)
    (done : List String) : placeSegments isFile done (names ++ [[]]) = done ++ namesPath names := by
  induction names generalizing done with
  | nil => exact placeSegment_nil isFile true done
  | cons name names ih =>
    have hname := h name List.mem_cons_self
    rw [List.cons_append, placeSegments, hname.encode_eq, hname.placeSegment_eq,
      ih fun name' h' ↦ h name' (List.mem_cons_of_mem name h'), List.append_assoc]
    rfl

/-! ## Text behind a path -/

/-- The characters that separate the segments of a path. -/
def isPathSlash (special : Bool) (c : Char) : Bool := c == '/' || (special && c == '\\')

/-- A path text without the slash at its front. -/
def dropSlash (special : Bool) : List Char → List Char
  | [] => []
  | c :: rest => if isPathSlash special c then rest else c :: rest

/-- The pieces of a path text between its slashes. -/
def piecesOf (special : Bool) (cs : List Char) : List (List Char) :=
  pathSegments special (dropSlash special cs)

/-- The segments of a path text. -/
def pathOf (isFile special : Bool) (cs : List Char) : List String :=
  placeSegments isFile [] (piecesOf special cs)

/-- The segments of a path before a slash at its end. -/
def trunkOf (path : List String) : List String :=
  if path.getLast? = some "" then path.dropLast else path

/-- Names are written behind a text: behind the slash at its end, or behind a slash of their own. -/
def Joins (special : Bool) (cs tail : List Char) (names : List (List Char)) : Prop :=
  (cs.getLast? = some '/' ∧ tail = namesText names) ∨
    ((∀ c, cs.getLast? = some c → isPathSlash special c = false) ∧ tail = '/' :: namesText names)

/-- A path text with slashes only. -/
def slashed (special : Bool) (cs : List Char) : List Char :=
  if special then cs.map fun c ↦ if c = '\\' then '/' else c else cs

private theorem slashed_append (special : Bool) (cs tail : List Char) :
    slashed special (cs ++ tail) = slashed special cs ++ slashed special tail := by
  cases special with
  | false => rfl
  | true => exact List.map_append

private theorem slashed_eq_self (h : '\\' ∉ cs) : slashed special cs = cs := by
  cases special with
  | false => rfl
  | true =>
    show cs.map (fun c ↦ if c = '\\' then '/' else c) = cs
    refine (List.map_congr_left fun c hc ↦ ?_).trans (List.map_id cs)
    rw [if_neg]
    · rfl
    · rintro rfl
      exact h hc

private theorem getLast?_slashed : (slashed special cs).getLast? = some '/' ↔
    ∃ c, cs.getLast? = some c ∧ isPathSlash special c = true := by
  cases special with
  | false => simp [slashed, isPathSlash]
  | true =>
    simp only [slashed, if_true, List.getLast?_map, Option.map_eq_some_iff, isPathSlash,
      Bool.true_and, Bool.or_eq_true, beq_iff_eq]
    refine exists_congr fun c ↦ and_congr_right fun _ ↦ ?_
    by_cases hc : c = '\\'
    · simp [hc]
    · simp [hc]

private theorem backslash_notMem_namesText (h : ∀ name ∈ names, IsPlain name) :
    '\\' ∉ namesText names := by
  intro hmem
  rcases of_mem_namesText h hmem with hc | hc
  · exact absurd hc (by decide)
  · exact absurd hc (by decide)

/-- An empty segment at the end is left out. -/
theorem trunkOf_append_nil (path : List String) : trunkOf (path ++ [""]) = path := by
  rw [trunkOf, List.getLast?_concat, if_pos rfl, List.dropLast_concat]

/-- A path with a name at its end is its own trunk. -/
theorem trunkOf_append (path : List String) {segment : String} (h : segment ≠ "") :
    trunkOf (path ++ [segment]) = path ++ [segment] := by
  rw [trunkOf, List.getLast?_concat, if_neg]
  exact fun e ↦ h (Option.some.inj e)

private theorem trunkOf_placeSegment (isFile : Bool) (done : List String) {segment : List Char}
    (h : segment ≠ []) :
    trunkOf (placeSegment isFile true done segment) = placeSegment isFile false done segment := by
  have hname : ∀ {cs : List Char}, cs ≠ [] → String.ofList cs ≠ "" := by
    intro cs hcs hempty
    exact hcs (by rw [← String.toList_ofList (l := cs), hempty]; rfl)
  unfold placeSegment
  dsimp only
  split
  · exact trunkOf_append_nil _
  · split
    · exact trunkOf_append_nil _
    · split
      · split
        · split
          · exact trunkOf_append [] (hname (List.cons_ne_nil _ _))
          · exact trunkOf_append [] (hname h)
        · split
          · exact trunkOf_append [_] (hname (List.cons_ne_nil _ _))
          · exact trunkOf_append [] (hname h)
        · exact trunkOf_append [] (hname h)
      · exact trunkOf_append done (hname h)

private theorem exists_last_pieceOf (special : Bool) (cs : List Char) :
    ∃ front last, piecesOf special cs = front ++ [last] ∧
      (last = [] ↔ cs = [] ∨ ∃ c, cs.getLast? = some c ∧ isPathSlash special c = true) := by
  obtain ⟨front, last, hsplit⟩ := exists_last_piece '/' (slashed special (dropSlash special cs))
  refine ⟨front, last, hsplit, ?_⟩
  have hnil : slashed special (dropSlash special cs) = [] ↔ dropSlash special cs = [] := by
    cases special <;> simp [slashed]
  rw [last_eq_nil_iff hsplit, hnil, getLast?_slashed]
  cases cs with
  | nil => simp [dropSlash]
  | cons c rest =>
    rw [dropSlash]
    split
    · next hslash =>
      -- The slash at the front is the last character if nothing else is there.
      cases rest with
      | nil => simp [hslash]
      | cons c' rest => simp [List.getLast?_cons]
    · simp

/-- Where a path text goes on, its last piece and the first piece of what follows are one. -/
theorem piecesOf_append {front pieces : List (List Char)} {last first : List Char} (h : cs ≠ [])
    (hsplit : piecesOf special cs = front ++ [last]) (hback : '\\' ∉ tail)
    (htail : splitOn '/' tail = first :: pieces) :
    piecesOf special (cs ++ tail) = front ++ (last ++ first) :: pieces := by
  have hdrop : dropSlash special (cs ++ tail) = dropSlash special cs ++ tail := by
    obtain ⟨c, rest, rfl⟩ := List.exists_cons_of_ne_nil h
    rw [List.cons_append, dropSlash, dropSlash]
    split <;> rfl
  show splitOn '/' (slashed special (dropSlash special (cs ++ tail))) = _
  rw [hdrop, slashed_append, slashed_eq_self hback]
  exact splitOn_append hsplit htail

/-- Names behind a slash of their own come behind all pieces of a path text. -/
theorem pathOf_slash (isFile : Bool) {front : List (List Char)} {last : List Char} (h : cs ≠ [])
    (hsplit : piecesOf special cs = front ++ [last]) (hplain : ∀ name ∈ names, IsPlain name) :
    pathOf isFile special (cs ++ '/' :: namesText names) =
      settle isFile (front ++ [last]) [] ++ namesPath names := by
  have hback : '\\' ∉ '/' :: namesText names := by
    simp only [List.mem_cons, not_or]
    exact ⟨by decide, backslash_notMem_namesText hplain⟩
  have hpieces : splitOn '/' ('/' :: namesText names) = [] :: (names ++ [[]]) := by
    rw [← splitOn_namesText hplain]
    exact splitOn_append_cons List.not_mem_nil _
  rw [pathOf, piecesOf_append h hsplit hback hpieces, List.append_nil, List.append_cons,
    placeSegments_append _ _ _ (by simp), placeSegments_names hplain]

private theorem pathOf_slash_nil (isFile special : Bool) (hplain : ∀ name ∈ names, IsPlain name) :
    pathOf isFile special ('/' :: namesText names) = namesPath names := by
  have hpieces : piecesOf special ('/' :: namesText names) = names ++ [[]] := by
    show splitOn '/' (slashed special (namesText names)) = _
    rw [slashed_eq_self (backslash_notMem_namesText hplain), splitOn_namesText hplain]
  rw [pathOf, hpieces, placeSegments_names hplain]
  rfl

/-- Names behind a path text come behind the trunk of its path. -/
theorem pathOf_append (isFile : Bool) (hjoins : Joins special cs tail names)
    (hplain : ∀ name ∈ names, IsPlain name) :
    pathOf isFile special (cs ++ tail) = trunkOf (pathOf isFile special cs) ++ namesPath names := by
  obtain ⟨front, last, hsplit, hlast⟩ := exists_last_pieceOf special cs
  have hpath : pathOf isFile special cs =
      placeSegment isFile true (settle isFile front []) (Percent.encode escapedInPath last) := by
    rw [pathOf, hsplit, placeSegments_append _ _ _ (List.cons_ne_nil last [])]
    rfl
  rcases hjoins with ⟨hslash, rfl⟩ | ⟨hslash, rfl⟩
  · -- Behind a slash there is an empty last piece, and the first name fills it.
    have hne : cs ≠ [] := by
      rintro rfl
      cases hslash
    obtain rfl : last = [] := hlast.mpr (.inr ⟨'/', hslash, rfl⟩)
    obtain ⟨first, rest, hcons⟩ : ∃ first rest, names ++ [[]] = first :: rest :=
      List.exists_cons_of_ne_nil (by simp)
    have htrunk : trunkOf (pathOf isFile special cs) = settle isFile front [] := by
      rw [hpath]
      exact (congrArg trunkOf (placeSegment_nil isFile true _)).trans (trunkOf_append_nil _)
    rw [htrunk, pathOf, piecesOf_append hne hsplit (backslash_notMem_namesText hplain)
      ((splitOn_namesText hplain).trans hcons), List.nil_append, ← hcons,
      placeSegments_append _ _ _ (by simp), placeSegments_names hplain]
  · by_cases hne : cs = []
    · have hnil : trunkOf (pathOf isFile special []) = [] := by
        cases special <;> cases isFile <;> decide
      rw [hne, List.nil_append, hnil, pathOf_slash_nil _ _ hplain, List.nil_append]
    · have hsome : last ≠ [] := by
        intro hnil
        rcases hlast.mp hnil with hempty | ⟨c, hc, hend⟩
        · exact hne hempty
        · rw [hslash c hc] at hend
          cases hend
      have hsettle : settle isFile (front ++ [last]) [] = trunkOf (pathOf isFile special cs) := by
        rw [hpath, trunkOf_placeSegment isFile _ (Percent.encode_ne_nil hsome)]
        exact List.foldl_append
      rw [pathOf_slash isFile hne hsplit hplain, hsettle]

/-- Whatever a path text is, names behind a slash of their own come behind the same segments. -/
theorem exists_pathOf_slash (isFile special : Bool) (cs : List Char) :
    ∃ trunk, ∀ names : List (List Char), (∀ name ∈ names, IsPlain name) →
      pathOf isFile special (cs ++ '/' :: namesText names) = trunk ++ namesPath names := by
  by_cases hne : cs = []
  · exact ⟨[], fun names hplain ↦ by rw [hne]; exact pathOf_slash_nil isFile special hplain⟩
  · obtain ⟨front, last, hsplit, -⟩ := exists_last_pieceOf special cs
    exact ⟨_, fun names hplain ↦ pathOf_slash isFile hne hsplit hplain⟩

/-- The pieces of a path text make a path without slashes. -/
theorem avoids_pathOf (isFile special : Bool) (cs : List Char) :
    Avoids '/' (pathOf isFile special cs) :=
  (avoids_nil '/').placeSegments (notMem_encode_pathSegments _ _ (.inl rfl)) (by decide) isFile

/-! ## Blanks behind a path -/

private theorem encodeChar_of_isLow {c : Char} (h : isLow c = true) :
    Percent.encodeChar escapedInPath c = Percent.escapeByte (UInt8.ofNat c.toNat) := by
  have hlow : c.toNat ≤ 0x20 := of_decide_eq_true h
  have hescaped : escapedInPath c = true := by
    by_cases hblank : c.toNat = 0x20
    · have hc : c = ' ' := Char.toNat_inj.mp hblank
      rw [hc]
      decide
    · have hcontrol : isControl c = true := by
        simp only [isControl, Bool.or_eq_true, decide_eq_true_iff]
        left
        omega
      simp [escapedInPath, escapedInFragment, hcontrol]
  rw [Percent.encodeChar, if_neg (by simp [hescaped]), Percent.escape,
    Utf8.encodeChar_of_ascii (by omega)]
  exact List.append_nil _

private theorem not_dots_of_isLow (cs : List Char) {c : Char} (h : isLow c = true)
    (rest : List Char) :
    isSingleDot (Percent.encode escapedInPath (cs ++ c :: rest)) = false ∧
      isDoubleDot (Percent.encode escapedInPath (cs ++ c :: rest)) = false := by
  have hlow : c.toNat ≤ 0x20 := of_decide_eq_true h
  have hmem : UInt8.ofNat c.toNat ∈
      Percent.decode (Percent.encode escapedInPath (cs ++ c :: rest)) := by
    have hmark : Hex.value? '%' = none := by decide
    have hcons : Percent.encode escapedInPath (c :: rest) =
        Percent.escapeByte (UInt8.ofNat c.toNat) ++ Percent.encode escapedInPath rest := by
      rw [Percent.encode, List.flatMap_cons, encodeChar_of_isLow h]
      rfl
    rw [Percent.encode_append, hcons]
    refine (Percent.decode_append hmark _ _).symm ▸ List.mem_append_right _ ?_
    exact (Percent.decode_escapeByte _ _).symm ▸ List.mem_cons_self
  have hdot : UInt8.ofNat c.toNat ≠ 0x2E := by
    intro hbyte
    have hnat := congrArg UInt8.toNat hbyte
    rw [UInt8.toNat_ofNat'] at hnat
    have hdot : (0x2E : UInt8).toNat = 46 := rfl
    omega
  constructor
  · apply Bool.eq_false_iff.mpr
    intro hdots
    rw [decode_of_isSingleDot hdots] at hmem
    simp [hdot] at hmem
  · apply Bool.eq_false_iff.mpr
    intro hdots
    rw [decode_of_isDoubleDot hdots] at hmem
    simp [hdot] at hmem

private theorem length_print_concat (path : List String) (segment : List Char) :
    (Path.segments (path ++ [String.ofList segment])).print.length =
      (Path.segments path).print.length + (1 + segment.length) := by
  rw [print_append, List.length_append]
  simp [Path.print, Nat.add_comm]

private theorem length_print_shorten_le (path : List String) :
    (Path.segments (shorten path)).print.length ≤ (Path.segments path).print.length := by
  rcases List.eq_nil_or_concat path with rfl | ⟨front, last, rfl⟩
  · exact Nat.le_refl _
  · rw [List.concat_eq_append, shorten, List.getLast?_concat]
    dsimp only
    split
    · exact Nat.le_refl _
    · rw [List.dropLast_concat, print_append, List.length_append]
      exact Nat.le_add_right _ _

private theorem length_print_trunkOf_le (done : List String) (segment : List Char) :
    (Path.segments (trunkOf (placeSegment false true done segment))).print.length ≤
      (Path.segments done).print.length + (if segment = [] then 0 else 1 + segment.length) := by
  by_cases hempty : segment = []
  · rw [hempty, placeSegment_nil, trunkOf_append_nil]
    exact Nat.le_refl _
  · rw [trunkOf_placeSegment false done hempty, if_neg hempty]
    unfold placeSegment
    dsimp only
    split
    · exact Nat.le_add_right_of_le (length_print_shorten_le done)
    · split
      · exact Nat.le_add_right _ _
      · rw [if_neg (fun h ↦ Bool.false_ne_true h.1), length_print_concat]

private theorem settle_concat (front : List (List Char)) {last : List Char} (hlow : IsLow tail)
    (hplaced : tail = [] → last = []) :
    settle false (front ++ [last ++ tail]) [] =
      settle false front [] ++ [String.ofList (Percent.encode escapedInPath (last ++ tail))] := by
  refine List.foldl_append.trans ?_
  show placeSegment false false (settle false front []) _ = _
  rcases List.eq_nil_or_concat tail with rfl | ⟨cs', c, htail⟩
  · obtain rfl : last = [] := hplaced rfl
    exact placeSegment_nil false false _
  · have hc : isLow c = true := hlow c (by rw [htail]; simp)
    have hdots := not_dots_of_isLow (last ++ cs') hc []
    rw [htail, List.concat_eq_append, ← List.append_assoc]
    unfold placeSegment
    dsimp only
    rw [hdots.1, hdots.2, if_neg Bool.false_ne_true, if_neg Bool.false_ne_true,
      if_neg (fun h ↦ Bool.false_ne_true h.1)]

/-- Behind blanks or behind a second slash, names make the path longer than they do behind its
segments. -/
theorem length_print_lt (hlow : IsLow tail)
    (hmore : tail ≠ [] ∨ ∃ c, cs.getLast? = some c ∧ isPathSlash special c = true) (hne : cs ≠ [])
    (hplain : ∀ name ∈ names, IsPlain name) :
    (Path.segments (trunkOf (pathOf false special cs) ++ namesPath names)).print.length <
      (Path.segments
        (pathOf false special (cs ++ (tail ++ '/' :: namesText names)))).print.length := by
  obtain ⟨front, last, hsplit, hlast⟩ := exists_last_pieceOf special cs
  have hpath : pathOf false special cs =
      placeSegment false true (settle false front []) (Percent.encode escapedInPath last) := by
    rw [pathOf, hsplit, placeSegments_append _ _ _ (List.cons_ne_nil last [])]
    rfl
  have hplaced : tail = [] → last = [] :=
    fun htail ↦ hlast.mpr (.inr (hmore.resolve_left fun h ↦ h htail))
  have hmorePath : pathOf false special (cs ++ (tail ++ '/' :: namesText names)) =
      settle false front [] ++ [String.ofList (Percent.encode escapedInPath (last ++ tail))] ++
        namesPath names := by
    have hpieces : piecesOf special (cs ++ tail) = front ++ [last ++ tail] :=
      piecesOf_append hne hsplit (hlow.notMem (by decide))
        (splitOn_of_notMem (hlow.notMem (by decide)))
    rw [← List.append_assoc, pathOf_slash false (List.append_ne_nil_of_left_ne_nil hne tail) hpieces
      hplain, settle_concat front hlow hplaced]
  rw [hpath, hmorePath, print_append, print_append _ (namesPath names), List.length_append,
    List.length_append, length_print_concat]
  have hle := length_print_trunkOf_le (settle false front []) (Percent.encode escapedInPath last)
  by_cases hempty : last = []
  · have hnil : Percent.encode escapedInPath last = [] := by
      rw [hempty]
      rfl
    rw [if_pos hnil] at hle
    omega
  · have htail : tail ≠ [] := fun htail ↦ hempty (hplaced htail)
    have hlonger := List.length_pos_iff.mpr (@Percent.encode_ne_nil escapedInPath _ htail)
    rw [if_neg (Percent.encode_ne_nil hempty)] at hle
    rw [Percent.encode_append, List.length_append]
    omega

end RegionClient.Url
