/-!
# Binary floating point of 64 bits

The finite numbers `m · 2^e` of the format, held as their bits, and the rounding of a quotient of
natural numbers to the nearest of them, halves to the even one.
-/

namespace RegionClient

/-- A number of the 64-bit binary format, as its sign, exponent and fraction bits. -/
structure Binary64 where
  bits : UInt64
  deriving DecidableEq, Repr

namespace Binary64

/-- Whether the sign bit is set. -/
def isNegative (x : Binary64) : Bool := x.bits.toNat / Nat.pow 2 63 == 1

/-- The bits without the sign. -/
def magnitude (x : Binary64) : Nat := x.bits.toNat % Nat.pow 2 63

/-- The number with the given magnitude bits and sign. -/
def ofMagnitude (negative : Bool) (magnitude : Nat) : Binary64 :=
  ⟨UInt64.ofNat (magnitude + if negative then Nat.pow 2 63 else 0)⟩

/-- The integer significand of a finite number's magnitude. -/
def significand (x : Binary64) : Nat :=
  let biased := x.magnitude / Nat.pow 2 52
  x.magnitude % Nat.pow 2 52 + if biased = 0 then 0 else Nat.pow 2 52

/-- The binary exponent that belongs to `significand`. -/
def exponent (x : Binary64) : Int :=
  let biased := x.magnitude / Nat.pow 2 52
  (max biased 1 : Nat) - 1075

/-- The magnitude bits of infinity; all finite numbers have smaller ones. -/
def infinity : Nat := 0x7FF * Nat.pow 2 52

/-- `numerator / denominator` rounded to an integer, halves to the even one. -/
def roundQuotient (numerator denominator : Nat) : Nat :=
  let quotient := numerator / denominator
  let twice := 2 * (numerator % denominator)
  if twice < denominator then quotient
  else if denominator < twice then quotient + 1
  else quotient + quotient % 2

/-- `numerator / denominator / 2^e` as a quotient of natural numbers. -/
def scale (numerator denominator : Nat) (e : Int) : Nat × Nat :=
  match e with
  | .ofNat n => (numerator, denominator * Nat.pow 2 n)
  | .negSucc n => (numerator * Nat.pow 2 (n + 1), denominator)

/-- The exponent at which `numerator / denominator` has a significand of 53 bits, but none below
that of the smallest numbers. -/
def exponentFor (numerator denominator : Nat) : Int :=
  let guess : Int := (numerator.log2 : Int) - denominator.log2 - 52
  let scaled := scale numerator denominator guess
  max (if scaled.1 < scaled.2 * Nat.pow 2 52 then guess - 1 else guess) (-1074)

/-- The magnitude bits of the number nearest to `numerator / denominator`, absent if that is
beyond all finite numbers. -/
def nearest? (numerator denominator : Nat) : Option Nat :=
  if numerator = 0 then some 0
  else
    let e := exponentFor numerator denominator
    let scaled := scale numerator denominator e
    let bits := (e + 1074).toNat * Nat.pow 2 52 + roundQuotient scaled.1 scaled.2
    if bits < infinity then some bits else none

/-- The magnitude as a quotient of natural numbers. -/
def toQuotient (magnitude : Nat) : Nat × Nat :=
  let x := ofMagnitude false magnitude
  match x.exponent with
  | .ofNat n => (x.significand * Nat.pow 2 n, 1)
  | .negSucc n => (x.significand, Nat.pow 2 (n + 1))

/-- The nearest number to the product of two. -/
def multiply? (a b : Nat) : Option Nat :=
  let p := toQuotient a
  let q := toQuotient b
  nearest? (p.1 * q.1) (p.2 * q.2)

/-- The nearest number to the quotient of two, the second of them not zero. -/
def divide? (a b : Nat) : Option Nat :=
  let p := toQuotient a
  let q := toQuotient b
  nearest? (p.1 * q.2) (p.2 * q.1)

end Binary64

end RegionClient
