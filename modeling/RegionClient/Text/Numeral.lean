/-!
# Numerals

Natural numbers written in decimal and in hexadecimal digits, and the bounded decimal numerals
that version texts are made of. Main statement: a written number reads back (`read?_decimal`).
-/

namespace RegionClient.Text.Numeral

/-- The decimal digits of a number, without leading zeros. -/
def decimal (n : Nat) : List Char := Nat.toDigits 10 n

/-- The lower-case hexadecimal digits of a number, without leading zeros. -/
def hexadecimal (n : Nat) : List Char := Nat.toDigits 16 n

/-- The decimal text of an integer, with a minus sign before a negative one. -/
def signed : Int → List Char
  | .ofNat n => decimal n
  | .negSucc n => '-' :: decimal (n + 1)

/-- The number that one or more decimal digits spell; leading zeros are allowed. -/
def read? (cs : List Char) : Option Nat :=
  if cs ≠ [] ∧ cs.all Char.isDigit then some (Nat.ofDigitChars 10 cs 0) else none

/-- The number below `bound` that decimal digits after an optional plus sign spell. -/
def readBelow? (bound : Nat) (cs : List Char) : Option Nat :=
  let digits := match cs with
    | '+' :: rest => rest
    | cs => cs
  (read? digits).filter (· < bound)

/-- A written number reads back. -/
theorem read?_decimal (n : Nat) : read? (decimal n) = some n := by
  have hne : decimal n ≠ [] := Nat.toDigits_ne_nil
  have hdigits : (decimal n).all Char.isDigit = true :=
    List.all_eq_true.mpr fun c hc ↦ Nat.isDigit_of_mem_toDigits (by decide) (by decide) hc
  have hvalue : Nat.ofDigitChars 10 (decimal n) 0 = n := Nat.ofDigitChars_ten_toDigits
  rw [read?, if_pos ⟨hne, hdigits⟩, hvalue]

end RegionClient.Text.Numeral
