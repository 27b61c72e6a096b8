import RegionClient.Request.Basic
import RegionClient.Text.Percent

/-!
# Multipart bodies

Parameters and a file as parts between lines that hold a boundary. Names are escaped so that none
can end its header.
-/

namespace RegionClient.Http.Multipart

/-- The characters that are escaped in names, apart from control characters. -/
def isReserved (c : Char) : Bool :=
  c == ' ' || c == '\x22' || c == '#' || c == '<' || c == '>' || c == '\x60' || c == '?' ||
    c == '\x7b' || c == '\x7d' || c == '/' || c == '%'

/-- The set of characters that are escaped in names. -/
def escapedInName (c : Char) : Bool := c.toNat < 0x20 || c.toNat == 0x7F || isReserved c

/-- A part's name. A name that needs escapes is marked so, unless it is a single character. -/
def printName (name : String) : List Char :=
  let plain := name.toList
  let escaped := Text.Percent.encode escapedInName plain
  match plain with
  | [c] =>
    if c.toNat < 0x80 then "name=\x22".toList ++ escaped ++ ['\x22']
    else "name*=utf-8\x27\x27".toList ++ escaped
  | plain =>
    if escaped = plain then "name=\x22".toList ++ plain ++ ['\x22']
    else "name*=utf-8\x27\x27".toList ++ escaped

/-- A character of a file name; those that could end the header have a backslash before them. -/
def escapeFileChar (c : Char) : List Char :=
  if c = '\\' ∨ c = '\x22' ∨ c = '\r' ∨ c = '\n' then ['\\', c] else [c]

/-- A part's file name. -/
def printFileName (name : String) : List Char :=
  "filename=\x22".toList ++ name.toList.flatMap escapeFileChar ++ ['\x22']

/-- The end of a line. -/
def lineEnd : Bytes := [0x0D, 0x0A]

/-- The line before a part. -/
def delimiter (boundary : String) : Bytes := Text.Utf8.ofString ("--" ++ boundary) ++ lineEnd

/-- One part: its header, an empty line and its content. -/
def part (boundary : String) (header : List Char) (content : Bytes) : Bytes :=
  delimiter boundary ++
    Text.Utf8.encode ("Content-Disposition: form-data; ".toList ++ header) ++
    lineEnd ++ lineEnd ++ content ++ lineEnd

/-- The part of a parameter. -/
def paramPart (boundary : String) (param : String × String) : Bytes :=
  part boundary (printName param.1) (Text.Utf8.ofString param.2)

/-- The part of a file. -/
def filePart (boundary : String) (file : FilePart) : Bytes :=
  part boundary (printName file.name ++ [';', ' '] ++ printFileName file.name) file.content

/-- The body: the parameters in order, and the file behind them. Models `multipart.Form` of
`reqwest`. -/
def body (boundary : String) (params : Params) (file : FilePart) : Bytes :=
  params.toList.flatMap (paramPart boundary) ++ filePart boundary file ++
    Text.Utf8.ofString ("--" ++ boundary ++ "--") ++ lineEnd

end RegionClient.Http.Multipart
