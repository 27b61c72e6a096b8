/-!
# Hexadecimal digits

The values of digits in either case, and the digits of values.
-/

namespace RegionClient.Text.Hex

/-- The value of a hexadecimal digit of either case. -/
def value? (c : Char) : Option Nat :=
  let n := c.toNat
  if 0x30 ≤ n ∧ n ≤ 0x39 then some (n - 0x30)
  else if 0x41 ≤ n ∧ n ≤ 0x46 then some (n - 0x37)
  else if 0x61 ≤ n ∧ n ≤ 0x66 then some (n - 0x57)
  else none

/-- The upper-case digit of a value below sixteen. -/
def upper (n : Nat) : Char := if n < 10 then Char.ofNat (0x30 + n) else Char.ofNat (0x37 + n)

/-- The lower-case digit of a value below sixteen. -/
def lower (n : Nat) : Char := if n < 10 then Char.ofNat (0x30 + n) else Char.ofNat (0x57 + n)

/-- A lower-case digit has its value. -/
theorem value?_lower {n : Nat} (h : n < 16) : value? (lower n) = some n :=
  (by decide : ∀ m ∈ List.range 16, value? (lower m) = some m) n (List.mem_range.mpr h)

/-- An upper-case digit has its value. -/
theorem value?_upper {n : Nat} (h : n < 16) : value? (upper n) = some n :=
  (by decide : ∀ m ∈ List.range 16, value? (upper m) = some m) n (List.mem_range.mpr h)

end RegionClient.Text.Hex
