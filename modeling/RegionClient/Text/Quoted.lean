import RegionClient.Text.Numeral
import RegionClient.Text.Unprintable

/-!
# Quoted text

Text between double quotes as messages show it: the quote, the backslash and four control
characters have short escapes, and a character without a glyph is shown by its number.
-/

namespace RegionClient.Text

/-- How one character stands between the quotes. -/
def escapeChar (c : Char) : List Char :=
  match c.toNat with
  | 0x00 => ['\\', '0']
  | 0x09 => ['\\', 't']
  | 0x0A => ['\\', 'n']
  | 0x0D => ['\\', 'r']
  | 0x22 => ['\\', '\x22']
  | 0x5C => ['\\', '\\']
  | n => if isUnprintable c then ['\\', 'u', '\x7b'] ++ Numeral.hexadecimal n ++ ['\x7d'] else [c]

/-- A text between quotes. -/
def quote (s : String) : String :=
  String.ofList ('\x22' :: s.toList.flatMap escapeChar ++ ['\x22'])

/-- An optional text, quoted inside `Some(…)`, or `None`. -/
def quoteOption : Option String → String
  | none => "None"
  | some s => "Some(" ++ quote s ++ ")"

/-- Quoted texts in brackets, or in whatever else opens and closes a group. -/
def quoteList (opening closing : String) (texts : List String) : String :=
  opening ++ ", ".intercalate (texts.map quote) ++ closing

end RegionClient.Text
