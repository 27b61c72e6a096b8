import RegionClient.Number.Binary64
import RegionClient.Text.Numeral

/-!
# Shortest decimals

The decimal with the fewest digits that still reads back as a given binary number, and its text.
`shortest` is the rule for all numbers, `text` the layout that messages use.
-/

namespace RegionClient.Binary64

/-- A decimal `digits · 10^exponent`. -/
structure Decimal where
  digits : Nat
  exponent : Int
  deriving DecidableEq, Repr

/-- `numerator / denominator · 10^(-e)` as a quotient of natural numbers. -/
private def scaleTen (numerator denominator : Nat) (e : Int) : Nat × Nat :=
  match e with
  | .ofNat n => (numerator, denominator * Nat.pow 10 n)
  | .negSucc n => (numerator * Nat.pow 10 (n + 1), denominator)

/-- The decimal as a quotient of natural numbers. -/
private def Decimal.toQuotient (d : Decimal) : Nat × Nat :=
  match d.exponent with
  | .ofNat n => (d.digits * Nat.pow 10 n, 1)
  | .negSucc n => (d.digits, Nat.pow 10 (n + 1))

/-- Whether a decimal reads back as the number with these magnitude bits. -/
def Decimal.readsAs (d : Decimal) (magnitude : Nat) : Bool :=
  let q := d.toQuotient
  nearest? q.1 q.2 == some magnitude

/-- The power of ten of the first digit of `numerator / denominator`. -/
private def firstPower (numerator denominator : Nat) : Int :=
  let guess : Int := ((Text.Numeral.decimal numerator).length : Int)
    - (Text.Numeral.decimal denominator).length
  let scaled := scaleTen numerator denominator guess
  if scaled.1 < scaled.2 then guess - 1 else guess

/-- The candidate with `count` digits: of the number's two neighbours on that decimal grid that
read back the nearer one, the even one if both are equally near. -/
private def candidate? (magnitude count : Nat) : Option Decimal :=
  let q := toQuotient magnitude
  let e : Int := firstPower q.1 q.2 - (count : Int) + 1
  let scaled := scaleTen q.1 q.2 e
  let below := scaled.1 / scaled.2
  let nearer := roundQuotient scaled.1 scaled.2
  let farther := if nearer = below then below + 1 else below
  if (Decimal.mk nearer e).readsAs magnitude then some ⟨nearer, e⟩
  else if (Decimal.mk farther e).readsAs magnitude then some ⟨farther, e⟩
  else none

/-- The digits without trailing zeros. -/
private def stripZeros : Nat → Decimal → Decimal
  | 0, d => d
  | fuel + 1, d =>
    if d.digits ≠ 0 ∧ d.digits % 10 = 0 then stripZeros fuel ⟨d.digits / 10, d.exponent + 1⟩ else d

/-- The shortest decimal of a finite number's magnitude. -/
def shortest (magnitude : Nat) : Decimal :=
  if magnitude = 0 then ⟨0, 0⟩
  else
    let found := (List.range 17).findSome? fun i ↦ candidate? magnitude (i + 1)
    stripZeros 20 (found.getD ⟨0, 0⟩)

/-- The text of a finite number: positional if the first digit stands between the fifth place
after the point and the sixteenth before it, else with an exponent of sign and two digits at
least. A positional text always has a point. -/
def text (x : Binary64) : String :=
  let d := shortest x.magnitude
  let digits := Text.Numeral.decimal d.digits
  let first : Int := d.exponent + digits.length - 1
  let zeros (n : Nat) := List.replicate n '0'
  let body : List Char :=
    if d.digits = 0 then ['0', '.', '0']
    else if 0 ≤ d.exponent ∧ first ≤ 15 then digits ++ zeros d.exponent.toNat ++ ['.', '0']
    else if 0 ≤ first ∧ first ≤ 15 then
      digits.take (first.toNat + 1) ++ '.' :: digits.drop (first.toNat + 1)
    else if -5 ≤ first ∧ first < 0 then ['0', '.'] ++ zeros ((-first).toNat - 1) ++ digits
    else
      let places := Text.Numeral.decimal first.natAbs
      let places := if places.length < 2 then '0' :: places else places
      let fraction := if digits.length = 1 then [] else '.' :: digits.drop 1
      digits.take 1 ++ fraction ++ 'e' :: (if first < 0 then '-' else '+') :: places
  String.ofList (if x.isNegative then '-' :: body else body)

end RegionClient.Binary64
