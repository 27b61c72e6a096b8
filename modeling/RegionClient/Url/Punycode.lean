/-!
# Punycode

Reading the compact form in which a domain label spells characters outside ASCII: the ASCII
characters first, then the places and numbers of the others as digits of a varying base.
-/

namespace RegionClient.Url.Punycode

/-- The value of a digit of base 36, letters first. -/
def digit? (c : Char) : Option Nat :=
  let n := c.toNat
  if 0x61 ≤ n ∧ n ≤ 0x7A then some (n - 0x61)
  else if 0x41 ≤ n ∧ n ≤ 0x5A then some (n - 0x41)
  else if 0x30 ≤ n ∧ n ≤ 0x39 then some (n - 0x30 + 26)
  else none

/-- Divides by 35 until the value is small, and counts 36 for each division. -/
def reduceDelta : (steps value count : Nat) → Nat × Nat
  | 0, value, count => (value, count)
  | steps + 1, value, count =>
    if 455 < value then reduceDelta steps (value / 35) (count + 36) else (value, count)

/-- The bias for the next number, after one of size `delta` was read as the `points`-th. -/
def adapt (delta points : Nat) (first : Bool) : Nat :=
  let delta := if first then delta / 700 else delta / 2
  let r := reduceDelta delta (delta + delta / points) 0
  r.2 + 36 * r.1 / (r.1 + 38)

/-- The threshold of the digit at weight position `k`. -/
def threshold (k bias : Nat) : Nat :=
  if k ≤ bias then 1 else if bias + 26 ≤ k then 26 else k - bias

/-- Reads one number of varying base: its value and the digits after it. -/
def readNumber (bias : Nat) : (k weight value : Nat) → List Char → Option (Nat × List Char)
  | _, _, _, [] => none
  | k, weight, value, c :: rest =>
    match digit? c with
    | none => none
    | some d =>
      let value := value + d * weight
      let t := threshold k bias
      if d < t then some (value, rest)
      else readNumber bias (k + 36) (weight * (36 - t)) value rest

/-- Inserts the characters that the digits describe into those read before. -/
def insertAll : (steps : Nat) → (digits : List Char) → (code place bias : Nat) → List Nat →
    Option (List Nat)
  | 0, _, _, _, _, _ => none
  | steps + 1, digits, code, place, bias, out =>
    if digits.isEmpty then some out
    else
      match readNumber bias 36 1 0 digits with
      | none => none
      | some (delta, digits) =>
        let points := out.length + 1
        let total := place + delta
        let code := code + total / points
        let place := total % points
        if 0x10FFFF < code ∨ (0xD800 ≤ code ∧ code < 0xE000) then none
        else
          insertAll steps digits code (place + 1) (adapt delta points (out.length + 1 = 1))
            (out.take place ++ code :: out.drop place)

/-- The code points that a label's text after `xn--` spells. -/
def decode? (label : List Char) : Option (List Nat) :=
  let afterHyphen := (label.reverse.takeWhile (· ≠ '-')).reverse
  let basic := label.take (label.length - afterHyphen.length - 1)
  if basic.isEmpty ∧ label.contains '-' then none
  else
    let digits := if label.contains '-' then afterHyphen else label
    insertAll (label.length + 1) digits 0x80 0 72 (basic.map Char.toNat)

end RegionClient.Url.Punycode
