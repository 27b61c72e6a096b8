import RegionClient.Failure.Error
import RegionClient.Json.Codec
import RegionClient.Text.Blank
import RegionClient.Text.Quoted
import RegionClient.Text.Split

/-!
# Protocol versions

Versions of the controller's API. They are ordered by their numbers, the first difference
deciding.
-/

namespace RegionClient

/-- A version of the API. Models `ProtocolVersion`. -/
structure Version where
  major : UInt32
  minor : UInt32
  patch : UInt32 := 0
  deriving DecidableEq, Repr

namespace Version

/-- The versions that a session asks for when none are given. Models `SUPPORTED_API_VERSIONS`. -/
def supported : List String := ["2.0"]

/-- The version 2.0. Models `TWO_DOT_OH`. -/
def twoDotOh : Version := ⟨2, 0, 0⟩

/-- The number that a part of a version spells. -/
def readPart? (cs : List Char) : Option UInt32 :=
  (Text.Numeral.readBelow? (Nat.pow 2 32) cs).map UInt32.ofNat

/-- The version that a text spells: two or three numbers with dots between them, surrounding
blanks aside. -/
def parse? (s : String) : Option Version :=
  match (Text.splitOn '.' (Text.trim s.toList)).map readPart? with
  | [some major, some minor] => some ⟨major, minor, 0⟩
  | [some major, some minor, some patch] => some ⟨major, minor, patch⟩
  | _ => none

/-- The version that a text spells; other texts are not valid. Models `ProtocolVersion.parse`. -/
def parse (s : String) : Except Error Version :=
  match parse? s with
  | some version => .ok version
  | none => .error (.notValid ("invalid protocol version " ++ Text.quote s))

/-- The numbers with dots between them; a patch of zero is left out. Models
`ProtocolVersion.fmt`. -/
def print (v : Version) : List Char :=
  let number (n : UInt32) := Text.Numeral.decimal n.toNat
  number v.major ++ '.' :: number v.minor ++ if v.patch = 0 then [] else '.' :: number v.patch

/-- The text of a version. -/
def toText (v : Version) : String := String.ofList v.print

/-- The order of versions. Models the derived order of `ProtocolVersion`. -/
def compare (a b : Version) : Ordering :=
  (Ord.compare a.major b.major).then
    ((Ord.compare a.minor b.minor).then (Ord.compare a.patch b.patch))

/-- All fields of a version. -/
def describe (v : Version) : String :=
  "ProtocolVersion \x7b major: " ++ toString v.major ++ ", minor: " ++ toString v.minor ++
    ", patch: " ++ toString v.patch ++ " \x7d"

instance : Json.Record Version where
  shape := ⟨"ProtocolVersion", [
    { name := "major", kind := .natural 32 },
    { name := "minor", kind := .natural 32 },
    { name := "patch", kind := .natural 32, fallback := some (.natural 0) }]⟩
  toData v := [.natural v.major.toNat, .natural v.minor.toNat, .natural v.patch.toNat]
  ofData?
    | [.natural major, .natural minor, .natural patch] =>
      some ⟨.ofNat major, .ofNat minor, .ofNat patch⟩
    | _ => none

end Version

end RegionClient
