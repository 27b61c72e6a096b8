import RegionClient.Json.Error
import RegionClient.Json.Value

/-!
# JSON numbers

Reading a number. Digits are gathered into a significand of 64 bits; those beyond it only raise
the exponent. A float is the significand, rounded to a binary number, then multiplied or divided
by the binary number nearest to its power of ten.
-/

namespace RegionClient.Json

/-- The value of a decimal digit. -/
def digit? (b : UInt8) : Option Nat :=
  if 0x30 ≤ b.toNat ∧ b.toNat ≤ 0x39 then some (b.toNat - 0x30) else none

/-- Whether a number goes on after its integer digits with an exponent. -/
def isExponentMark (b : UInt8) : Bool := b == 0x65 || b == 0x45

/-- Appends digits to `value` while it stays below 2^64: the new value, the number of digits
taken, and the rest. -/
def takeDigits (value count : Nat) : Bytes → Nat × Nat × Bytes
  | [] => (value, count, [])
  | b :: rest =>
    match digit? b with
    | some d =>
      if value * 10 + d < Nat.pow 2 64 then takeDigits (value * 10 + d) (count + 1) rest
      else (value, count, b :: rest)
    | none => (value, count, b :: rest)

/-- The bytes after the digits at the front. -/
def dropDigits (bytes : Bytes) : Bytes := bytes.dropWhile fun b ↦ (digit? b).isSome

/-- The number of digits at the front. -/
def countDigits (bytes : Bytes) : Nat := (bytes.takeWhile fun b ↦ (digit? b).isSome).length

/-- The magnitude bits of the binary number nearest to a power of ten up to 308. -/
def powerOfTen (n : Nat) : Nat := (Binary64.nearest? (Nat.pow 10 n) 1).getD 0

/-- The number `value · 10^exponent`, computed on binary numbers: one multiplication or division,
after as many divisions by 10^308 as a very small exponent needs. -/
def applyExponent : (steps value : Nat) → (exponent : Int) → Option Nat
  | 0, value, _ => some value
  | steps + 1, value, exponent =>
    if exponent.natAbs ≤ 308 then
      if 0 ≤ exponent then Binary64.multiply? value (powerOfTen exponent.natAbs)
      else Binary64.divide? value (powerOfTen exponent.natAbs)
    else if value = 0 then some 0
    else if 0 ≤ exponent then none
    else
      match Binary64.divide? value (powerOfTen 308) with
      | some smaller => applyExponent steps smaller (exponent + 308)
      | none => none

/-- The float of a sign, a significand and a decimal exponent; absent beyond the finite ones. -/
def floatOf? (negative : Bool) (significand : Nat) (exponent : Int) : Option Binary64 :=
  match Binary64.nearest? significand 1 with
  | none => none
  | some value =>
    (applyExponent (exponent.natAbs / 308 + 1) value exponent).map (Binary64.ofMagnitude negative)

/-- A float at the front of `rest`, refused if it is out of range. -/
def finishFloat (negative : Bool) (significand : Nat) (exponent : Int) (rest : Bytes) :
    Except Fault (Number × Bytes) :=
  match floatOf? negative significand exponent with
  | some x => .ok (.float x, rest)
  | none => .error (.here .numberOutOfRange rest)

/-- The largest exponent that can be written. -/
def exponentLimit : Int := Nat.pow 2 31

/-- Keeps an exponent within 32 bits. -/
def clampExponent (e : Int) : Int := max (-exponentLimit) (min (exponentLimit - 1) e)

/-- Appends exponent digits while the exponent stays within 32 bits; otherwise the absent value,
and the bytes after the digit that went too far. -/
def takeExponent (value : Nat) : Bytes → Option Nat × Bytes
  | [] => (some value, [])
  | b :: rest =>
    match digit? b with
    | some d =>
      if ((value * 10 + d : Nat) : Int) < exponentLimit then takeExponent (value * 10 + d) rest
      else (none, rest)
    | none => (some value, b :: rest)

/-- Reads what follows the exponent mark. -/
def readExponent (negative : Bool) (significand : Nat) (start : Int) (bytes : Bytes) :
    Except Fault (Number × Bytes) :=
  let (raises, bytes) := match bytes with
    | 0x2B :: rest => (true, rest)
    | 0x2D :: rest => (false, rest)
    | bytes => (true, bytes)
  match bytes with
  | [] => .error (.here .unfinishedValue [])
  | b :: rest =>
    match digit? b with
    | none => .error (.here .invalidNumber rest)
    | some d =>
      match takeExponent d rest with
      | (some e, rest) =>
        let exponent := if raises then start + e else start - e
        finishFloat negative significand (clampExponent exponent) rest
      | (none, rest) =>
        if significand ≠ 0 ∧ raises then .error (.here .numberOutOfRange rest)
        else .ok (.float (.ofMagnitude negative 0), dropDigits rest)

/-- Reads an exponent if there is one. -/
def finishDecimal (negative : Bool) (significand : Nat) (exponent : Int) (bytes : Bytes) :
    Except Fault (Number × Bytes) :=
  match bytes with
  | b :: rest =>
    if isExponentMark b then readExponent negative significand exponent rest
    else finishFloat negative significand exponent bytes
  | [] => finishFloat negative significand exponent []

/-- Reads what follows the decimal point. -/
def readFraction (negative : Bool) (significand : Nat) (start : Int) (bytes : Bytes) :
    Except Fault (Number × Bytes) :=
  let (value, count, rest) := takeDigits significand 0 bytes
  let exponent := start - count
  if 0 < countDigits rest then finishDecimal negative value exponent (dropDigits rest)
  else if count = 0 then
    .error (.next (if rest = [] then .unfinishedValue else .invalidNumber) rest)
  else finishDecimal negative value exponent rest

/-- The integer that digits alone spell; a negative one that does not fit, and minus zero, are
floats. -/
def finishInteger (negative : Bool) (significand : Nat) : Number :=
  let n : Int := if negative then -significand else significand
  let float : Number := .float (.ofMagnitude negative ((Binary64.nearest? significand 1).getD 0))
  if negative ∧ significand = 0 then float
  else match Integer.ofInt? n with
    | some i => .integer i
    | none => float

/-- Reads what follows the integer digits. -/
def afterInteger (negative : Bool) (significand : Nat) (bytes : Bytes) :
    Except Fault (Number × Bytes) :=
  let beyond := countDigits bytes
  match dropDigits bytes with
  | 0x2E :: rest => readFraction negative significand beyond rest
  | b :: rest =>
    if isExponentMark b then readExponent negative significand beyond rest
    else if beyond = 0 then .ok (finishInteger negative significand, b :: rest)
    else finishFloat negative significand beyond (b :: rest)
  | [] =>
    if beyond = 0 then .ok (finishInteger negative significand, [])
    else finishFloat negative significand beyond []

/-- Reads a number after its minus sign, if it has one. Zero has no digits after it. -/
def readNumber (negative : Bool) (bytes : Bytes) : Except Fault (Number × Bytes) :=
  match bytes with
  | [] => .error (.here .unfinishedValue [])
  | b :: rest =>
    match digit? b with
    | none => .error (.here .invalidNumber rest)
    | some 0 =>
      if 0 < countDigits rest then .error (.next .invalidNumber rest)
      else afterInteger negative 0 rest
    | some d =>
      let (significand, _, rest) := takeDigits d 0 rest
      afterInteger negative significand rest

end RegionClient.Json
