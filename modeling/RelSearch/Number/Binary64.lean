import RelSearch.Number.Power

/-!
# RelSearch.Number.Binary64

The IEEE 754 format binary64, as its 64 bits:

```
sign (1) | biased exponent (11) | fraction (52)
```

A finite value is `± significand · 2 ^ exponent` with natural significand, so
reading it, comparing it and rounding to it are exact integer arithmetic.
-/

namespace RelSearch

/-- A binary64 value, NaNs and both zeros included. -/
structure Binary64 where
  bits : UInt64
deriving DecidableEq

namespace Binary64

/-! ## Fields -/

def isNegative (x : Binary64) : Bool := pow2 63 ≤ x.bits.toNat

def biasedExponent (x : Binary64) : Nat := x.bits.toNat / pow2 52 % pow2 11

def fraction (x : Binary64) : Nat := x.bits.toNat % pow2 52

def isFinite (x : Binary64) : Bool := x.biasedExponent < 2047

def isNaN (x : Binary64) : Bool := x.biasedExponent == 2047 && x.fraction != 0

def isZero (x : Binary64) : Bool := x.biasedExponent == 0 && x.fraction == 0

/-- Whether a finite value has its hidden bit. -/
def isNormal (x : Binary64) : Bool := x.biasedExponent != 0

/-- The significand of a finite value: the fraction, with its hidden bit
unless the value is zero or subnormal. -/
def significand (x : Binary64) : Nat :=
  if x.biasedExponent = 0 then x.fraction else pow2 52 + x.fraction

/-- The power of two that scales the significand. -/
def exponent (x : Binary64) : Int := max (x.biasedExponent : Int) 1 - 1075

/-- The magnitude of a finite value, as numerator and denominator. -/
def ratio (x : Binary64) : Nat × Nat :=
  (x.significand * pow2 x.exponent.toNat, pow2 (-x.exponent).toNat)

/-! ## Equality -/

/-- Equality of numbers: a NaN equals nothing, and the two zeros are equal. -/
def sameNumber (x y : Binary64) : Bool :=
  !x.isNaN && !y.isNaN && (x == y || (x.isZero && y.isZero))

/-! ## Rounding -/

/-- The quotient `n / d` rounded to the nearest natural, a half to the even one. -/
def roundDiv (n d : Nat) : Nat :=
  let q := n / d
  let r := n % d
  if 2 * r < d ∨ (2 * r = d ∧ q % 2 = 0) then q else q + 1

/-- The exponent `e` with `2 ^ e ≤ n / d < 2 ^ (e + 1)`, for positive `n` and `d`. -/
def binade (n d : Nat) : Int :=
  let e : Int := (n.log2 : Int) - d.log2
  if d * pow2 e.toNat ≤ n * pow2 (-e).toNat then e else e - 1

/-- The value with the given sign whose other 63 bits are `magnitude`. -/
def ofMagnitude (negative : Bool) (magnitude : Nat) : Binary64 :=
  ⟨UInt64.ofNat (if negative then pow2 63 + magnitude else magnitude)⟩

/-- The magnitude bits of the infinities. -/
def infinityMagnitude : Nat := 2047 * pow2 52

/-- The value nearest to `± n / d`, a half to the even significand; infinite
beyond the largest finite value. A carry out of the significand runs into the
exponent, which is the right result. -/
def ofRatio (negative : Bool) (n d : Nat) : Binary64 :=
  if n = 0 then ofMagnitude negative 0
  else
    let q := max (binade n d - 52) (-1074)
    let m := roundDiv (n * pow2 (-q).toNat) (d * pow2 q.toNat)
    ofMagnitude negative (min ((q + 1074).toNat * pow2 52 + m) infinityMagnitude)

/-- The value nearest to an integer. -/
def ofInt (n : Int) : Binary64 := ofRatio (n < 0) n.natAbs 1

/-- The rounded product of two finite values. -/
def mul (x y : Binary64) : Binary64 :=
  ofRatio (x.isNegative != y.isNegative) (x.ratio.1 * y.ratio.1) (x.ratio.2 * y.ratio.2)

/-- The rounded quotient of two finite values, the second one not zero. -/
def div (x y : Binary64) : Binary64 :=
  ofRatio (x.isNegative != y.isNegative) (x.ratio.1 * y.ratio.2) (x.ratio.2 * y.ratio.1)

end Binary64

end RelSearch
