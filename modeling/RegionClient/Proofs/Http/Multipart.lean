import Mathlib.Data.List.Basic
import RegionClient.Proofs.Http.Exchange
import RegionClient.Proofs.Text.Utf8

/-!
# Reading multipart bodies

What a server reads from the body of an upload. The reader knows the boundary only: a part reaches
from a line with the boundary to the next, and its header tells its name and the name of its file.
Main statements: if the boundary does not stand at the start of a line of what is uploaded, the
parts are the parameters and the file, whatever their names hold (`read?_body`), and so they reach
the server (`readsUpload_of_begins`).
-/

namespace RegionClient.Http

open Text

namespace Multipart

/-! ## The reader -/

/-- A part as a server tells it. -/
structure Part where
  name : String
  fileName : Option String
  content : Bytes
  deriving DecidableEq, Repr

/-- What stands in front of a name that has no mark. -/
def plainMark : List Char := "name=\x22".toList

/-- What stands in front of a name that is marked as escaped. -/
def escapedMark : List Char := "name*=utf-8\x27\x27".toList

/-- What stands between two parameters of a header. -/
def parameterMark : List Char := "; ".toList

/-- What stands in front of a file name. -/
def fileMark : List Char := parameterMark ++ "filename=\x22".toList

/-- The text up to the quote that closes it, with its backslashes undone, and the text behind. -/
def readQuoted : List Char → Option (List Char × List Char)
  | [] => none
  | '\x22' :: rest => some ([], rest)
  | '\\' :: c :: rest => (readQuoted rest).map fun r ↦ (c :: r.1, r.2)
  | c :: rest => (readQuoted rest).map fun r ↦ (c :: r.1, r.2)

/-- The text in front of the next parameter, and the rest with the mark. -/
def cutParameter (cs : List Char) : List Char × List Char :=
  match cs.dropInfix? parameterMark with
  | some (front, rest) => (front, parameterMark ++ rest)
  | none => (cs, [])

/-- The name at the start of the parameters of a header, with its escapes undone, and what stands
behind it. A plain name reaches to the next quote, a marked one to the next parameter. -/
def readName? (cs : List Char) : Option (String × List Char) := do
  let (name, rest) ← match cs.dropPrefix? plainMark, cs.dropPrefix? escapedMark with
    | some quoted, _ => (splitFirst '\x22' quoted).2.map ((splitFirst '\x22' quoted).1, ·)
    | none, some escaped => some (cutParameter escaped)
    | none, none => none
  return (← unescape? (String.ofList name), rest)

/-- The file name behind the name, if there is one. Nothing may stand behind it. -/
def readFileName? : List Char → Option (Option String)
  | [] => some none
  | cs => do
    let (name, rest) ← readQuoted (← cs.dropPrefix? fileMark)
    if rest = [] then some (some (String.ofList name)) else none

/-- The name and the file name that a line tells. -/
def readDisposition? (line : Bytes) : Option (String × Option String) := do
  let text ← Utf8.decode? line
  let (name, rest) ← readName? (← text.dropPrefix? "Content-Disposition: form-data; ".toList)
  return (name, ← readFileName? rest)

/-- The boundary as it stands at the start of a line. -/
def dashes (boundary : String) : Bytes := Utf8.ofString ("--" ++ boundary)

/-- What ends a part: a line that starts with the boundary. -/
def separator (boundary : String) : Bytes := lineEnd ++ dashes boundary

/-- The part behind a boundary, and what stands behind the boundary that ends it. -/
def readPart? (boundary : String) (bytes : Bytes) : Option (Part × Bytes) := do
  let (line, rest) ← (← bytes.dropPrefix? lineEnd).dropInfix? lineEnd
  let (name, fileName) ← readDisposition? line
  let (content, rest) ← (← rest.dropPrefix? lineEnd).dropInfix? (separator boundary)
  return (⟨name, fileName, content⟩, rest)

private theorem length_of_dropPrefix? {front bytes rest : Bytes}
    (h : bytes.dropPrefix? front = some rest) :
    rest.length ≤ bytes.length := by
  obtain ⟨front', rfl, -⟩ := List.dropPrefix?_eq_some_iff.mp h
  simp

private theorem length_of_dropInfix? {mark bytes front rest : Bytes}
    (h : bytes.dropInfix? mark = some (front, rest)) :
    mark.length + rest.length ≤ bytes.length := by
  obtain ⟨⟨mark', rfl, hmark⟩, -⟩ := List.dropInfix?_eq_some_iff.mp h
  obtain rfl := eq_of_beq hmark
  simp only [List.length_append]
  omega

private theorem length_of_readPart? {boundary : String} {bytes rest : Bytes} {part : Part}
    (h : readPart? boundary bytes = some (part, rest)) : rest.length < bytes.length := by
  unfold readPart? at h
  simp only [bind, Option.bind_eq_some_iff, Prod.exists] at h
  obtain ⟨_, hhead, _, _, hline, _, _, -, _, htail, _, _, hcut, hpart⟩ := h
  obtain ⟨-, rfl⟩ := Prod.mk.inj (Option.some.inj hpart)
  have h1 := length_of_dropPrefix? hhead
  have h2 := length_of_dropInfix? hline
  have h3 := length_of_dropPrefix? htail
  have h4 := length_of_dropInfix? hcut
  have hmark : lineEnd.length = 2 := rfl
  omega

/-- The parts behind a boundary, up to the one that ends the body. -/
def readParts? (boundary : String) (bytes : Bytes) : Option (List Part) :=
  if bytes = Utf8.ofString "--" ++ lineEnd then some []
  else match h : readPart? boundary bytes with
    | none => none
    | some (part, rest) =>
      have : rest.length < bytes.length := length_of_readPart? h
      (readParts? boundary rest).map (part :: ·)
  termination_by bytes.length

/-- The parts of a body, unless it is none. -/
def read? (boundary : String) (body : Bytes) : Option (List Part) :=
  (body.dropPrefix? (dashes boundary)).bind (readParts? boundary)

/-! ## Names -/

private theorem notMem_escaped {c : Char} (h : escapedInName c = true)
    (hdigit : c ≠ '%' ∧ ∀ n < 16, c ≠ Hex.upper n) (name : String) :
    c ∉ Percent.encode escapedInName name.toList :=
  Percent.notMem_encode h hdigit.1 hdigit.2 _

private theorem unescape?_escaped (name : String) :
    unescape? (String.ofList (Percent.encode escapedInName name.toList)) = some name := by
  have hmark : escapedInName '%' = true := by decide
  rw [unescape?, String.toList_ofList, Percent.decode_encode hmark, Utf8.decode?_encode,
    Option.map_some, String.ofList_toList]

private theorem printName_eq (name : String) :
    printName name = plainMark ++ Percent.encode escapedInName name.toList ++ ['\x22'] ∨
      printName name = escapedMark ++ Percent.encode escapedInName name.toList := by
  unfold printName
  dsimp only
  split
  · split
    · exact .inl rfl
    · exact .inr rfl
  · split
    · next hplain =>
      left
      rw [hplain]
      rfl
    · exact .inr rfl

private theorem cutParameter_append {cs rest : List Char} (hspace : ' ' ∉ cs)
    (h : rest = [] ∨ ∃ behind, rest = parameterMark ++ behind) :
    cutParameter (cs ++ rest) = (cs, rest) := by
  have hstands : ¬ parameterMark <:+: cs := by
    intro hstands
    exact hspace (hstands.subset (by decide))
  unfold cutParameter
  rcases h with rfl | ⟨behind, rfl⟩
  · rw [List.append_nil, dropInfix?_eq_none hstands]
  · have hcut : (cs ++ (parameterMark ++ behind)).dropInfix? parameterMark = some (cs, behind) :=
      dropInfix?_append_mark (by decide) hstands
    rw [hcut]

/-- A name that is printed is read as it was, at the end of a header and in front of another
parameter. -/
theorem readName?_printName (name : String) {rest : List Char}
    (h : rest = [] ∨ ∃ behind, rest = parameterMark ++ behind) :
    readName? (printName name ++ rest) = some (name, rest) := by
  have hspells := unescape?_escaped name
  have hquote : '\x22' ∉ Percent.encode escapedInName name.toList :=
    notMem_escaped (by decide) (by decide) name
  have hspace : ' ' ∉ Percent.encode escapedInName name.toList :=
    notMem_escaped (by decide) (by decide) name
  have hname := printName_eq name
  generalize Percent.encode escapedInName name.toList = escaped at hspells hquote hspace hname
  rcases hname with hname | hname
  · rw [hname, List.append_assoc, List.append_assoc, List.singleton_append, readName?,
      dropPrefix?_append]
    simp [splitFirst_append_cons hquote, hspells]
  · have hplain : (escapedMark ++ (escaped ++ rest)).dropPrefix? plainMark = none := rfl
    rw [hname, List.append_assoc, readName?, hplain, dropPrefix?_append]
    simp [cutParameter_append hspace h, hspells]

private theorem return_notMem_printName (name : String) : '\r' ∉ printName name := by
  have hreturn : '\r' ∉ Percent.encode escapedInName name.toList :=
    notMem_escaped (by decide) (by decide) name
  have hplain : '\r' ∉ plainMark := by decide
  have hescaped : '\r' ∉ escapedMark := by decide
  rcases printName_eq name with hname | hname <;> rw [hname] <;> simp_all

/-! ## File names -/

private theorem readQuoted_escapeFileChar (c : Char) (rest : List Char) :
    readQuoted (escapeFileChar c ++ rest) = (readQuoted rest).map fun r ↦ (c :: r.1, r.2) := by
  unfold escapeFileChar
  split
  · rfl
  · next h =>
    simp only [not_or] at h
    rw [List.singleton_append, readQuoted]
    · exact h.2.1
    · exact fun _ _ hc _ ↦ h.1 hc

private theorem readQuoted_flatMap (cs rest : List Char) :
    readQuoted (cs.flatMap escapeFileChar ++ '\x22' :: rest) = some (cs, rest) := by
  induction cs with
  | nil => rfl
  | cons c cs ih =>
    rw [List.flatMap_cons, List.append_assoc, readQuoted_escapeFileChar, ih]
    rfl

private theorem parameterMark_printFileName (name : String) :
    parameterMark ++ printFileName name =
      fileMark ++ (name.toList.flatMap escapeFileChar ++ ['\x22']) := by
  unfold printFileName fileMark
  rw [List.append_assoc, List.append_assoc]

/-- A file name that is printed behind a name is read as it was. -/
theorem readFileName?_printFileName (name : String) :
    readFileName? (parameterMark ++ printFileName name) = some (some name) := by
  rw [parameterMark_printFileName, readFileName?, dropPrefix?_append]
  · simp [readQuoted_flatMap]
  · simp [fileMark]

private theorem head?_flatMap_escapeFileChar (cs : List Char) :
    (cs.flatMap escapeFileChar ++ ['\x22']).head? ≠ some '\n' := by
  cases cs with
  | nil => decide
  | cons c cs =>
    rw [List.flatMap_cons, escapeFileChar]
    split
    · simp
    · next h =>
      simp only [not_or] at h
      simpa using h.2.2.2

private theorem not_infix_flatMap_escapeFileChar (cs : List Char) :
    ¬ ['\r', '\n'] <:+: cs.flatMap escapeFileChar ++ ['\x22'] := by
  induction cs with
  | nil => decide
  | cons c cs ih =>
    intro hstands
    rw [List.flatMap_cons, List.append_assoc, escapeFileChar] at hstands
    split at hstands
    · -- The backslash ends no line; what it escapes could, but no line feed follows it.
      rw [List.cons_append, List.singleton_append, List.infix_cons_iff, List.infix_cons_iff]
        at hstands
      rcases hstands with hprefix | hprefix | hstands
      · exact absurd (List.cons_prefix_cons.mp hprefix).1 (by decide)
      · obtain ⟨behind, hbehind⟩ := (List.cons_prefix_cons.mp hprefix).2
        refine head?_flatMap_escapeFileChar cs ?_
        rw [← hbehind]
        rfl
      · exact ih hstands
    · next h =>
      simp only [not_or] at h
      refine ih (infix_of_infix_append ?_ hstands)
      rw [List.mem_singleton]
      exact Ne.symm h.2.2.1

/-! ## Headers -/

/-- A line with a header. -/
def dispositionLine (header : List Char) : Bytes :=
  Utf8.encode ("Content-Disposition: form-data; ".toList ++ header)

private theorem not_infix_dispositionLine {header : List Char} (h : ¬ ['\r', '\n'] <:+: header) :
    ¬ lineEnd <:+: dispositionLine header := by
  intro hstands
  have htext : ['\r', '\n'] <:+: "Content-Disposition: form-data; ".toList ++ header :=
    Utf8.infix_of_encode (by decide) hstands
  exact h (infix_of_infix_append (by decide) htext)

/-- A line is read as its header tells. -/
theorem readDisposition?_dispositionLine (header : List Char) :
    readDisposition? (dispositionLine header) =
      (readName? header).bind fun r ↦ (readFileName? r.2).map (r.1, ·) := by
  unfold readDisposition? dispositionLine
  rw [Utf8.decode?_encode]
  simp only [bind, Option.bind_some, dropPrefix?_append]
  congr 1
  funext ⟨name, rest⟩
  cases readFileName? rest <;> rfl

/-! ## Parts -/

/-- The parameters and the file as parts: each parameter under its name, and the file behind them
under its name and with its name. -/
def partsOf (params : Params) (file : FilePart) : List Part :=
  params.toList.map (fun p ↦ ⟨p.1, none, Utf8.ofString p.2⟩) ++
    [⟨file.name, some file.name, file.content⟩]

/-- A boundary separates what is uploaded: it has no end of a line in it, and no line inside a value
or the content starts with it. It may stand elsewhere in them, and anywhere in names. -/
structure Separates (boundary : String) (params : Params) (file : FilePart) : Prop where
  oneLine : '\r' ∉ boundary.toList
  values : ∀ p ∈ params.toList, ¬ separator boundary <:+: Utf8.ofString p.2
  content : ¬ separator boundary <:+: file.content

private theorem notMem_separator {boundary : String} (h : '\r' ∉ boundary.toList) :
    0x0D ∉ (0x0A : UInt8) :: dashes boundary := by
  intro hmem
  have hdashes : (0x0D : UInt8) ∈ dashes boundary :=
    (List.mem_cons.mp hmem).resolve_left (by decide)
  have hreturn : '\r' ∈ ("--" ++ boundary).toList :=
    Utf8.mem_of_decode? (Utf8.decode?_encode _) hdashes (by decide)
  rw [String.toList_append] at hreturn
  exact h ((List.mem_append.mp hreturn).resolve_left (by decide))

private theorem readPart?_append {boundary : String} (hboundary : '\r' ∉ boundary.toList)
    {header : List Char} (hheader : ¬ ['\r', '\n'] <:+: header) {content : Bytes}
    (hcontent : ¬ separator boundary <:+: content) (rest : Bytes) :
    readPart? boundary (lineEnd ++ (dispositionLine header ++
        (lineEnd ++ (lineEnd ++ (content ++ (separator boundary ++ rest)))))) =
      (readDisposition? (dispositionLine header)).map fun r ↦ (⟨r.1, r.2, content⟩, rest) := by
  have hline : ∀ bytes : Bytes, (dispositionLine header ++ (lineEnd ++ bytes)).dropInfix? lineEnd =
      some (dispositionLine header, bytes) := by
    intro bytes
    exact dropInfix?_append_mark (by decide) (not_infix_dispositionLine hheader)
  have hcut : (content ++ (separator boundary ++ rest)).dropInfix? (separator boundary) =
      some (content, rest) := dropInfix?_append_mark (notMem_separator hboundary) hcontent
  simp only [readPart?, dropPrefix?_append, hline, hcut, Option.bind_eq_bind, Option.bind_some]
  cases readDisposition? (dispositionLine header) <;> rfl

private theorem read?_dashes_append (boundary : String) (bytes : Bytes) :
    read? boundary (dashes boundary ++ bytes) = readParts? boundary bytes := by
  rw [read?, dropPrefix?_append, Option.bind_some]

private theorem read?_part_append {boundary : String} (hboundary : '\r' ∉ boundary.toList)
    {header : List Char} (hheader : ¬ ['\r', '\n'] <:+: header) {content : Bytes}
    (hcontent : ¬ separator boundary <:+: content) {name : String} {fileName : Option String}
    (hname : readDisposition? (dispositionLine header) = some (name, fileName)) {body : Bytes}
    {parts : List Part} (hbody : read? boundary body = some parts) :
    read? boundary (part boundary header content ++ body) =
      some (⟨name, fileName, content⟩ :: parts) := by
  obtain ⟨rest, hdrop, hparts⟩ := Option.bind_eq_some_iff.mp hbody
  obtain ⟨front, rfl, hfront⟩ := List.dropPrefix?_eq_some_iff.mp hdrop
  obtain rfl := eq_of_beq hfront
  have hpart : part boundary header content ++ (dashes boundary ++ rest) =
      dashes boundary ++ (lineEnd ++ (dispositionLine header ++
        (lineEnd ++ (lineEnd ++ (content ++ (separator boundary ++ rest)))))) := by
    simp only [part, delimiter, dispositionLine, separator, dashes, List.append_assoc]
  have hread := readPart?_append hboundary hheader hcontent rest
  rw [hname, Option.map_some] at hread
  rw [hpart, read?_dashes_append, readParts?, if_neg]
  · split
    · next hnone =>
      rw [hread] at hnone
      cases hnone
    · next hsome =>
      rw [hread] at hsome
      obtain ⟨rfl, rfl⟩ := Prod.mk.inj (Option.some.inj hsome)
      rw [hparts, Option.map_some]
  · -- A line ends here, and no dashes close the body.
    intro hclose
    exact absurd (List.cons.inj hclose).1 (by decide)

private theorem read?_close (boundary : String) :
    read? boundary (Utf8.ofString ("--" ++ boundary ++ "--") ++ lineEnd) = some [] := by
  have hclose : Utf8.ofString ("--" ++ boundary ++ "--") ++ lineEnd =
      dashes boundary ++ (Utf8.ofString "--" ++ lineEnd) := by
    rw [dashes, Utf8.ofString, String.toList_append, Utf8.encode_append, List.append_assoc]
    rfl
  rw [hclose, read?_dashes_append, readParts?, if_pos rfl]

private theorem read?_paramPart_append {boundary : String} (hboundary : '\r' ∉ boundary.toList)
    {p : String × String} (hvalue : ¬ separator boundary <:+: Utf8.ofString p.2) {body : Bytes}
    {parts : List Part} (hbody : read? boundary body = some parts) :
    read? boundary (paramPart boundary p ++ body) =
      some (⟨p.1, none, Utf8.ofString p.2⟩ :: parts) := by
  have hline : ¬ ['\r', '\n'] <:+: printName p.1 := by
    intro hstands
    exact return_notMem_printName p.1 (hstands.subset List.mem_cons_self)
  have hname : readDisposition? (dispositionLine (printName p.1)) = some (p.1, none) := by
    have hread := readName?_printName p.1 (.inl rfl)
    rw [List.append_nil] at hread
    rw [readDisposition?_dispositionLine, hread]
    rfl
  exact read?_part_append hboundary hline hvalue hname hbody

private theorem read?_filePart_append {boundary : String} (hboundary : '\r' ∉ boundary.toList)
    {file : FilePart} (hcontent : ¬ separator boundary <:+: file.content) {body : Bytes}
    {parts : List Part} (hbody : read? boundary body = some parts) :
    read? boundary (filePart boundary file ++ body) =
      some (⟨file.name, some file.name, file.content⟩ :: parts) := by
  have hheader : printName file.name ++ [';', ' '] ++ printFileName file.name =
      printName file.name ++ (parameterMark ++ printFileName file.name) := List.append_assoc _ _ _
  have hline :
      ¬ ['\r', '\n'] <:+: printName file.name ++ [';', ' '] ++ printFileName file.name := by
    intro hstands
    rw [hheader, parameterMark_printFileName] at hstands
    have hquoted := infix_of_infix_append (return_notMem_printName file.name) hstands
    exact not_infix_flatMap_escapeFileChar _ (infix_of_infix_append (by decide) hquoted)
  have hname : readDisposition? (dispositionLine
      (printName file.name ++ [';', ' '] ++ printFileName file.name)) =
      some (file.name, some file.name) := by
    rw [readDisposition?_dispositionLine, hheader, readName?_printName file.name (.inr ⟨_, rfl⟩),
      Option.bind_some, readFileName?_printFileName]
    rfl
  exact read?_part_append hboundary hline hcontent hname hbody

/-- A body whose boundary separates it is read as its parameters, in order, and its file. No name
and no value adds, removes or joins parts. -/
theorem read?_body {boundary : String} {params : Params} {file : FilePart}
    (h : Separates boundary params file) :
    read? boundary (body boundary params file) = some (partsOf params file) := by
  obtain ⟨hboundary, hvalues, hcontent⟩ := h
  have hfile := read?_filePart_append hboundary hcontent (read?_close boundary)
  unfold body partsOf
  rw [List.append_assoc, List.append_assoc]
  generalize params.toList = pairs at hvalues ⊢
  -- The file and the closing boundary are the body behind the last parameter.
  induction pairs with
  | nil => exact hfile
  | cons p pairs ih =>
    have hrest := ih fun p' hp' ↦ hvalues p' (List.mem_cons_of_mem p hp')
    rw [List.flatMap_cons, List.append_assoc, List.map_cons, List.cons_append]
    exact read?_paramPart_append hboundary (hvalues p List.mem_cons_self) hrest

end Multipart

/-! ## Uploads -/

private theorem headerValues_contentType (method : Method) (url : Url) (settings : ClientSettings)
    (user : Option (String × Option String)) (authorization : String) (payload : Payload) :
    WireRequest.headerValues ⟨method, url, headers settings user authorization payload, payload⟩
      "content-type" = payload.contentType.map Prod.snd := by
  unfold WireRequest.headerValues headers
  rcases payload with _ | _ | _ <;> cases user <;> cases settings.compression <;>
    simp [Payload.contentType]

/-- The first request of an exchange that uploads a file announces its boundary, and what a server
reads from its body by that boundary are the parameters and the file. -/
theorem readsUpload_of_begins {e : Endpoint} {request : Request} {n : Network} {r : WireRequest}
    (hbegins : e.Begins .post request n r) {file : FilePart} (hfile : request.file = some file)
    (hseparates : Multipart.Separates n.takeFresh.1.boundary request.params file) :
    ∃ boundary, r.headerValues "content-type" = ["multipart/form-data; boundary=" ++ boundary] ∧
      Multipart.read? boundary r.payload.bytes = some (Multipart.partsOf request.params file) := by
  have hpayload : payload n.takeFresh.1 .post request =
      .multipart n.takeFresh.1.boundary request.params file := by
    unfold payload
    rw [hfile]
  obtain ⟨url, -, -, -, rfl⟩ := compose_eq_ok_iff.mp hbegins.compose_eq
  refine ⟨n.takeFresh.1.boundary, ?_, ?_⟩
  · rw [headerValues_contentType, hpayload]
    rfl
  · dsimp only
    rw [hpayload]
    exact Multipart.read?_body hseparates

/-- Names that hold quotes, ends of lines, escapes and marks of parameters arrive as they are, and
so does a value that looks like the start of a part. -/
theorem readsUpload_region :
    let file : FilePart := ⟨"a\x22; b\r\n\\", [0x2D, 0x2D, 0xFF]⟩
    let params : Params := ⟨[("\x22", "--boundary"), ("é;%22\r\n", ""), ("é;%22\r\n", "\r\n--")]⟩
    let request : Request := { path := "files/", op := some "add", params, file := some file }
    ∃ r boundary, Endpoint.region.Begins .post request (.region []) r ∧
      request.file = some file ∧ Multipart.Separates "boundary" params file ∧
      r.headerValues "content-type" = ["multipart/form-data; boundary=" ++ boundary] ∧
      Multipart.read? boundary r.payload.bytes = some
        [⟨"\x22", none, Utf8.ofString "--boundary"⟩, ⟨"é;%22\r\n", none, []⟩,
          ⟨"é;%22\r\n", none, Utf8.ofString "\r\n--"⟩,
          ⟨file.name, some file.name, file.content⟩] := by
  intro file params request
  obtain ⟨r, hbegins⟩ := Endpoint.exists_begins_region .post request []
  have hseparates : Multipart.Separates "boundary" params file := by
    refine ⟨by decide +kernel, by decide +kernel, by decide +kernel⟩
  obtain ⟨boundary, htype, hparts⟩ := readsUpload_of_begins hbegins rfl hseparates
  exact ⟨r, boundary, hbegins, rfl, hseparates, htype, hparts⟩

end RegionClient.Http
