import RelSearch.Number.Binary64
import RelSearch.Text.Digits

/-!
# RelSearch.Number.Shortest

The fewest decimal digits that read back as a given binary64 value.

A finite value owns the interval of reals that round to it: half a step up and
half a step down, where the step down is half as wide below a power of two.
The ends belong to it when its significand is even. For one digit, two digits
and so on, the value's two neighbours among the decimals with that many digits
are tested against the interval; the first number of digits with a hit wins,
and of two hits the nearer one. Seventeen digits always suffice.

A `FloatStyle` says how those digits become text.
-/

namespace RelSearch

/-- Which of two equally near decimals is taken. -/
inductive Tie where
  | up
  | even
deriving DecidableEq

/-- The decimal number `coefficient · 10 ^ exponent`. -/
structure Scientific where
  coefficient : Nat
  exponent : Int
deriving DecidableEq

namespace Binary64

/-- The power of ten of the leading digit of `n / d`, for positive `n` and `d`. -/
def leadingPower (n d : Nat) : Int :=
  if d ≤ n then (Text.digits (n / d)).length - 1
  else -(Text.digits ((d - 1) / n)).length

/-- The multiple `c` of `10 ^ g` that reads back as the finite, nonzero `x` and
is nearest to it, if there is one. Both sides are brought to integers:
`c · 10 ^ g` stands at `c * ten`, the value at `4 * significand * two`. -/
def onGrid? (tie : Tie) (x : Binary64) (g : Int) : Option Nat :=
  let m := x.significand
  let p := x.exponent - 2
  let ten := pow10 g.toNat * pow2 (-p).toNat
  let two := pow2 p.toNat * pow10 (-g).toNat
  let value := 4 * m * two
  let below := if x.fraction = 0 ∧ 1 < x.biasedExponent then 1 else 2
  let low := (4 * m - below) * two
  let high := (4 * m + 2) * two
  let reads (c : Nat) : Bool :=
    if m % 2 = 0 then low ≤ c * ten && c * ten ≤ high else low < c * ten && c * ten < high
  let down := value / ten
  let up := down + 1
  let takeUp : Bool :=
    if value - down * ten = up * ten - value then
      match tie with
      | .up => true
      | .even => down % 2 = 1
    else up * ten - value < value - down * ten
  if reads down && !(reads up && takeUp) then some down
  else if reads up then some up
  else none

/-- The shortest decimal that reads back as the finite, nonzero `x`, without
trailing zeros: only the step from `99…9` to a power of ten leaves any. -/
def shortest (tie : Tie) (x : Binary64) : Scientific :=
  let top := leadingPower x.ratio.1 x.ratio.2
  let hit := (List.range 17).findSome? fun (k : Nat) =>
    let g := top - (k : Int)
    (onGrid? tie x g).map fun c => (c, g, k)
  match hit with
  | none => ⟨0, 0⟩
  | some (c, g, k) => if c = pow10 (k + 1) then ⟨1, g + (k + 1)⟩ else ⟨c, g⟩

end Binary64

/-! ## Text -/

/-- How a finite value is written: the tie rule for its digits, the powers of
ten of the leading digit that are written positionally (all of them when
`none`), and whether a whole number keeps a `.0`. -/
structure FloatStyle where
  tie : Tie
  positional : Option (Int × Int)
  keepsPoint : Bool

namespace FloatStyle

/-- Whether a value with leading power `x` is written positionally. -/
def isPositional (style : FloatStyle) (x : Int) : Bool :=
  match style.positional with
  | none => true
  | some (least, greatest) => least ≤ x && x ≤ greatest

/-- The magnitude `digits · 10 ^ exponent`, `d.ddd · 10 ^ x` in scientific form. -/
def writeMagnitude (style : FloatStyle) (ds : List Char) (exponent : Int) : List Char :=
  let x := exponent + ds.length - 1
  if style.isPositional x then
    let text := Text.positional ds (x + 1)
    if style.keepsPoint && 0 ≤ exponent then text ++ ['.', '0'] else text
  else
    Text.pointed ds ++ 'e' :: (if x < 0 then '-' else '+') :: Text.digits x.natAbs

/-- The text of a finite value; a negative zero keeps its sign. -/
def write (style : FloatStyle) (x : Binary64) : List Char :=
  let magnitude :=
    if x.isZero then style.writeMagnitude ['0'] 0
    else
      let s := x.shortest style.tie
      style.writeMagnitude (Text.digits s.coefficient) s.exponent
  if x.isNegative then '-' :: magnitude else magnitude

end FloatStyle

end RelSearch
