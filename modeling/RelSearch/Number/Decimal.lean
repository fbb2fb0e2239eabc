import RelSearch.Number.Binary64
import RelSearch.Number.Limbs
import RelSearch.Text.Digits

/-!
# RelSearch.Number.Decimal

Exact decimal numbers `coefficient · 10 ^ (-scale)`.

The scale belongs to the value: `1.5` and `1.50` are equal numbers with
different texts. The text of a nonzero decimal with `n` digits is

1. scientific, `d.ddd` and `E-k`, if more than five zeros would stand between
   the point and the first digit;
2. the digits and `e+k`, if more than fifteen zeros would follow the last digit;
3. positional otherwise.

Zero is always `0`.
-/

namespace RelSearch

/-- The number `coefficient · 10 ^ (-scale)`. -/
structure Decimal where
  coefficient : Int
  scale : Int64
deriving DecidableEq

namespace Decimal

/-! ## Normal form -/

/-- The number of zeros at the end of the digits of `n`. -/
def trailingZeros (n : Nat) : Nat := ((Text.digits n).reverse.takeWhile (· == '0')).length

/-- The same number without trailing zeros in the coefficient. Each zero taken
off lowers the scale by one, in 64-bit arithmetic. -/
def normalized (d : Decimal) : Decimal :=
  if d.coefficient = 0 then ⟨0, 0⟩
  else
    let k := trailingZeros d.coefficient.natAbs
    ⟨d.coefficient / (pow10 k : Nat), d.scale - Int64.ofNat k⟩

/-! ## Equality -/

/-- Whether the positive number `a` counts as `b · 10 ^ k`. The place of the
highest bit decides first. A power of ten below `2 ^ 64` is then multiplied limb
by limb, and any other one exactly, as is one that does not fit a limb of `b`. -/
def isShifted (a b k : Nat) : Bool :=
  if a.log2 < k then false
  else if a.log2 < b.log2 + (pow10 k).log2 then false
  else
    let isExact := a == b * pow10 k
    if k < 20 then (Limbs.isMultiple? (pow10 k) (Limbs.ofNat a) (Limbs.ofNat b) 0).getD isExact
    else isExact

/-- Whether two decimals compare equal, whatever their scales: the coefficient
at the greater scale has to be the other one, shifted by the difference. -/
def comparesEqual (x y : Decimal) : Bool :=
  let a := x.coefficient.natAbs
  let b := y.coefficient.natAbs
  let k := (x.scale.toInt - y.scale.toInt).natAbs
  if x.coefficient.sign ≠ y.coefficient.sign then false
  else if x.coefficient = 0 then true
  else if y.scale.toInt ≤ x.scale.toInt then isShifted a b k
  else isShifted b a k

/-! ## Text -/

/-- The text of the digits `ds`, which are not a zero, at the given scale. -/
def magnitudeText (ds : List Char) (scale : Int) : List Char :=
  if 5 < scale - ds.length then
    Text.pointed ds ++ 'E' :: '-' :: Text.digits (scale - ds.length + 1).toNat
  else if 15 < -scale then ds ++ 'e' :: '+' :: Text.digits (-scale).toNat
  else Text.positional ds (ds.length - scale)

/-- The text of a decimal at its own scale. -/
def text (d : Decimal) : List Char :=
  if d.coefficient = 0 then ['0']
  else
    let magnitude := magnitudeText (Text.digits d.coefficient.natAbs) d.scale.toInt
    if d.coefficient < 0 then '-' :: magnitude else magnitude

/-! ## Reading -/

/-- The decimal with the given coefficient and scale, if the scale has 64 bits. -/
def of? (coefficient scale : Int) : Option Decimal :=
  if Int64.minValue.toInt ≤ scale ∧ scale ≤ Int64.maxValue.toInt then
    some ⟨coefficient, Int64.ofInt scale⟩
  else none

/-- A nonempty run of decimal digits. -/
def wholeDigits? (cs : List Char) : Option Nat :=
  if cs ≠ [] ∧ cs.all Char.isDigit then some (Text.ofDigits cs) else none

/-- A run of decimal digits that starts with a digit and may be divided by `_`. -/
def dividedDigits? (cs : List Char) : Option Nat :=
  if cs.head? = some '_' then none else wholeDigits? (cs.filter (· != '_'))

/-- An integer with an optional sign, its digits read by `unsigned`. -/
def signed? (unsigned : List Char → Option Nat) : List Char → Option Int
  | '-' :: cs => (unsigned cs).map fun n => -(n : Int)
  | '+' :: cs => (unsigned cs).map fun n => (n : Int)
  | cs => (unsigned cs).map fun n => (n : Int)

/-- Reads `digits[.digits][(e|E)exponent]`. The point is taken out, and what is
left has to be an integer with an optional sign, its digits divided by `_` or
not. The scale is the number of characters behind the point, `_` apart, less
the exponent. -/
def ofText? (cs : List Char) : Option Decimal := do
  let isMark (c : Char) : Bool := c == 'e' || c == 'E'
  let base := cs.takeWhile fun c => !isMark c
  let exponent ← match cs.dropWhile fun c => !isMark c with
    | [] => some 0
    | _ :: e => signed? wholeDigits? e
  let behind := (base.dropWhile (· != '.')).drop 1
  let coefficient ← signed? dividedDigits? (base.takeWhile (· != '.') ++ behind)
  of? coefficient ((behind.filter (· != '_')).length - exponent)

/-- An integer, at scale zero. -/
def ofInt (n : Int) : Decimal := ⟨n, 0⟩

/-- The number of factors two in `n`, at most `bound`. -/
def factorsOfTwo (n : Nat) : Nat → Nat
  | 0 => 0
  | bound + 1 => if n % 2 = 0 then factorsOfTwo (n / 2) bound + 1 else 0

/-- The exact value of a finite binary64 number: `m / 2 ^ k` is `m · 5 ^ k` at
scale `k`. The quotient of a normal number is taken in lowest terms, that of a
subnormal one over the denominator that all of them have. -/
def ofBinary64 (x : Binary64) : Decimal :=
  let depth := (-x.exponent).toNat
  let shared := if x.isNormal then factorsOfTwo x.significand depth else 0
  let k := if x.isZero then 0 else depth - shared
  let m := x.significand * pow2 x.exponent.toNat / pow2 (depth - k) * Nat.pow 5 k
  ⟨if x.isNegative then -(m : Int) else m, Int64.ofNat k⟩

end Decimal

end RelSearch
