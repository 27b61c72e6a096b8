import RegionClient.Json.Value
import RegionClient.Number.Shortest
import RegionClient.Text.Hex

/-!
# Printing JSON

Compact text of values: no blanks, entries in the order they are held, and in strings only the
quote, the backslash and control characters escaped.
-/

namespace RegionClient.Json

/-- How one character stands in a string. -/
def escapeChar (c : Char) : List Char :=
  match c.toNat with
  | 0x08 => ['\\', 'b']
  | 0x09 => ['\\', 't']
  | 0x0A => ['\\', 'n']
  | 0x0C => ['\\', 'f']
  | 0x0D => ['\\', 'r']
  | 0x22 => ['\\', '\x22']
  | 0x5C => ['\\', '\\']
  | n =>
    if n < 0x20 then ['\\', 'u', '0', '0', Text.Hex.lower (n / 16), Text.Hex.lower (n % 16)]
    else [c]

/-- A string between quotes. -/
def printString (s : String) : List Char := '\x22' :: s.toList.flatMap escapeChar ++ ['\x22']

/-- Printed items with commas between them. -/
def commaSeparated (items : List (List Char)) : List Char := [','].intercalate items

/-- A number; an integer in digits, a float in its shortest text. -/
def Number.print : Number → List Char
  | .integer n => Text.Numeral.signed n.value
  | .float x => x.text.toList

mutual

/-- The compact text of a value. -/
def Value.print : Value → List Char
  | .null => "null".toList
  | .bool b => (toString b).toList
  | .number n => n.print
  | .string s => printString s
  | .array items => '[' :: commaSeparated (printItems items) ++ [']']
  | .object entries => '\x7b' :: commaSeparated (printEntries entries) ++ ['\x7d']

/-- The texts of a list's items. -/
def printItems : List Value → List (List Char)
  | [] => []
  | v :: rest => v.print :: printItems rest

/-- The texts of an object's entries. -/
def printEntries : List (String × Value) → List (List Char)
  | [] => []
  | (k, v) :: rest => (printString k ++ ':' :: v.print) :: printEntries rest

end

/-- The compact text of a value. -/
def Value.toText (v : Value) : String := String.ofList v.print

end RegionClient.Json
