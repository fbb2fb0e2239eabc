import RelSearch.Json.Basic
import RelSearch.Number.Power
import RelSearch.Text.Scan

/-!
# RelSearch.Json.Numeral

Number literals of JSON texts, and the numbers they stand for.

A literal without fraction and exponent is an integer if it has 64 bits, signed
below zero and unsigned above, and is not `-0`. Every other literal is a float.
Its digits are taken in as long as they fit in 64 bits; the rest only moves the
point. The significand so found is rounded to a float and then multiplied or
divided by a power of ten, each step rounded. A literal beyond the largest float
stands for nothing.
-/

namespace RelSearch

/-- A number literal: sign, digits before and behind the point, and exponent. -/
structure Numeral where
  negative : Bool
  whole : List Char
  fraction : List Char
  exponent : Option Int
deriving DecidableEq

namespace Numeral

open Text

/-! ## Reading -/

/-- The digits behind a point, if a point is next; there has to be one then. -/
def scanFraction : Scan (List Char) := do
  match ← Scan.peek with
  | some '.' =>
    let _ ← Scan.next
    Scan.digits none
  | _ => return []

/-- The exponent behind an `e`, if an `e` is next. -/
def scanExponent : Scan (Option Int) := do
  match ← Scan.peek with
  | some 'e' | some 'E' =>
    let _ ← Scan.next
    match ← Scan.peek with
    | some '-' =>
      let _ ← Scan.next
      return some (-(← Scan.number none : Nat))
    | some '+' =>
      let _ ← Scan.next
      return some (← Scan.number none : Nat)
    | _ => return some (← Scan.number none : Nat)
  | _ => return none

/-- Digits of which only a single one may be a leading zero. -/
def scanWhole : Scan (List Char) := do
  let ds ← Scan.digits none
  fun cs => if ds.head? = some '0' ∧ ds ≠ ['0'] then none else some (ds, cs)

/-- A literal behind its sign. -/
def scanUnsigned (negative : Bool) : Scan Numeral := do
  let whole ← scanWhole
  let fraction ← scanFraction
  let exponent ← scanExponent
  return ⟨negative, whole, fraction, exponent⟩

/-! ## Value -/

/-- Takes digits into a significand as long as it stays below `2 ^ 64`, and
counts them. -/
def absorb (significand : Nat) : List Char → Nat × Nat
  | [] => (significand, 0)
  | d :: ds =>
    let wider := 10 * significand + (d.toNat - '0'.toNat)
    if wider < UInt64.size then
      let (s, count) := absorb wider ds
      (s, count + 1)
    else (significand, 0)

/-- The float nearest to `10 ^ k`. -/
def powerOfTen (k : Nat) : Binary64 := Binary64.ofRatio false (pow10 k) 1

/-- Divides by `10 ^ k`, in steps of at most `10 ^ 308`. -/
def scaleDown (x : Binary64) (k : Nat) : Binary64 :=
  if k ≤ 308 then x.div (powerOfTen k)
  else if x.isZero then x
  else scaleDown (x.div (powerOfTen 308)) (k - 308)
termination_by k

/-- Multiplies by `10 ^ k`, if the result is finite. -/
def scaleUp? (x : Binary64) (k : Nat) : Option Binary64 :=
  if x.isZero then some x
  else if 308 < k then none
  else
    let y := x.mul (powerOfTen k)
    if y.isFinite then some y else none

/-- The float that a literal stands for, its sign apart. -/
def magnitude? (n : Numeral) : Option Binary64 :=
  let (head, taken) := absorb 0 n.whole
  let (significand, behind) := absorb head n.fraction
  let power := (n.whole.length - taken : Nat) - (behind : Int) + n.exponent.getD 0
  let x := Binary64.ofRatio false significand 1
  if 0 ≤ power then scaleUp? x power.toNat else some (scaleDown x power.natAbs)

/-- The float that a literal stands for. -/
def float? (n : Numeral) : Option Binary64 :=
  n.magnitude?.map fun x => Binary64.ofMagnitude n.negative x.bits.toNat

/-- The integer that a literal stands for, if it is one. -/
def int? (n : Numeral) : Option Int :=
  let m := ofDigits n.whole
  if n.fraction ≠ [] ∨ n.exponent.isSome then none
  else if n.negative then
    if 0 < m ∧ m ≤ pow2 63 then some (-(m : Int)) else none
  else if m < UInt64.size then some m
  else none

/-- The number that a literal stands for. -/
def number? (n : Numeral) : Option Number :=
  match n.int? with
  | some i => some (.int i)
  | none => n.float?.map .float

end Numeral

end RelSearch
