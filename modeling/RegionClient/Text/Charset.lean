import RegionClient.Text.Utf8

/-!
# Charsets

Text in the charset that a label names. A byte order mark at the front of the bytes decides
against the label and is not part of the text. Reading never fails: what a charset cannot read
becomes U+FFFD. The charsets that need tables of their own, other than windows-1252, are not read:
the message of a failure whose body is in one of them is right in ASCII only.
-/

namespace RegionClient.Text

/-- The charsets that can be read. -/
inductive Charset where
  | utf8
  | utf16 (bigEndian : Bool)
  | windows1252
  deriving DecidableEq, Repr

namespace Charset

/-- The characters that bytes from 0x80 to 0x9F stand for in windows-1252. -/
private def windowsTable : List Nat := [
    0x20AC, 0x0081, 0x201A, 0x0192, 0x201E, 0x2026, 0x2020, 0x2021, 0x02C6, 0x2030, 0x0160,
    0x2039, 0x0152, 0x008D, 0x017D, 0x008F, 0x0090, 0x2018, 0x2019, 0x201C, 0x201D, 0x2022,
    0x2013, 0x2014, 0x02DC, 0x2122, 0x0161, 0x203A, 0x0153, 0x009D, 0x017E, 0x0178]

/-- Each byte is one character; only those from 0x80 to 0x9F differ from their number. -/
def decodeWindows1252 (bytes : Bytes) : List Char :=
  bytes.map fun b ↦
    let n := b.toNat
    Char.ofNat (if 0x80 ≤ n ∧ n < 0xA0 then windowsTable.getD (n - 0x80) n else n)

/-- The 16-bit units of the bytes; an odd byte at the end is the absent unit. -/
def units (bigEndian : Bool) : Bytes → List (Option Nat)
  | [] => []
  | [_] => [none]
  | a :: b :: rest =>
    some (if bigEndian then 256 * a.toNat + b.toNat else 256 * b.toNat + a.toNat) ::
      units bigEndian rest

/-- The text of 16-bit units; a surrogate without its partner is U+FFFD. -/
def decodeUnits : List (Option Nat) → List Char
  | [] => []
  | none :: rest => '\uFFFD' :: decodeUnits rest
  | some u :: rest =>
    if 0xD800 ≤ u ∧ u < 0xDC00 then
      match rest with
      | some v :: rest' =>
        if 0xDC00 ≤ v ∧ v < 0xE000 then
          Char.ofNat (0x10000 + 0x400 * (u - 0xD800) + (v - 0xDC00)) :: decodeUnits rest'
        else '\uFFFD' :: decodeUnits (some v :: rest')
      | [none] => ['\uFFFD']
      | rest => '\uFFFD' :: decodeUnits rest
    else if 0xDC00 ≤ u ∧ u < 0xE000 then '\uFFFD' :: decodeUnits rest
    else Char.ofNat u :: decodeUnits rest
  termination_by us => us.length

/-- The labels of windows-1252; those of ASCII and Latin-1 are among them. -/
private def windowsLabels : List String := [
  "ansi_x3.4-1968", "ascii", "cp1252", "cp819", "csisolatin1", "ibm819", "iso-8859-1",
  "iso-ir-100", "iso8859-1", "iso88591", "iso_8859-1", "iso_8859-1:1987", "l1", "latin1",
  "us-ascii", "windows-1252", "x-cp1252"]

/-- The charset a label names; case does not matter. A label that is unknown means UTF-8, and here
so do the labels of charsets that are not read, such as `iso-8859-2` and `shift_jis`. -/
def ofLabel (label : String) : Charset :=
  let label := String.ofList (label.toList.map Char.toLower)
  if windowsLabels.contains label then .windows1252
  else if label = "utf-16be" then .utf16 true
  else if label = "utf-16" ∨ label = "utf-16le" then .utf16 false
  else .utf8

/-- The text of bytes without a byte order mark. -/
def decodePlain : Charset → Bytes → List Char
  | .utf8, bytes => Utf8.decodeReplacing bytes
  | .utf16 bigEndian, bytes => decodeUnits (units bigEndian bytes)
  | .windows1252, bytes => decodeWindows1252 bytes

/-- The text of bytes; a byte order mark decides against the charset. -/
def decode (charset : Charset) (bytes : Bytes) : List Char :=
  match bytes with
  | 0xEF :: 0xBB :: 0xBF :: rest => decodePlain .utf8 rest
  | 0xFE :: 0xFF :: rest => decodePlain (.utf16 true) rest
  | 0xFF :: 0xFE :: rest => decodePlain (.utf16 false) rest
  | bytes => decodePlain charset bytes

end Charset

end RegionClient.Text
