import RelSearch.Number.Power

/-!
# RelSearch.Number.Limbs

Naturals as limbs of 32 bits, the least significant first, and a comparison of
one natural with a multiple of another that does not build the multiple.

The limbs of the multiple are formed in 64-bit arithmetic: a limb times the
factor, plus the carry, has the next limb in its low half and the next carry in
its high half.

1. The comparison gives up at a limb whose product alone does not fit 64 bits.
2. A sum that does not fit 64 bits wraps around, and the bit that is lost is
   missing from the next carry. The answer is about the product without it.
-/

namespace RelSearch.Limbs

/-- The number of limbs of `n`; zero has none. -/
def count (n : Nat) : Nat := if n = 0 then 0 else n.log2 / 32 + 1

/-- The limbs of `n`. -/
def ofNat (n : Nat) : List Nat :=
  (List.range (count n)).map fun (i : Nat) => n / pow2 (32 * i) % pow2 32

/-- Whether the first limbs are those of `p` times the second ones, plus
`carry`; `none` if the comparison gives up. -/
def isMultiple? (p : Nat) : List Nat → List Nat → (carry : Nat) → Option Bool
  | a :: as, b :: bs, carry =>
    if pow2 64 ≤ b * p then none
    else
      let wide := (b * p + carry) % pow2 64
      if wide % pow2 32 = a then isMultiple? p as bs (wide / pow2 32) else some false
  | a :: as, [], carry =>
    if carry % pow2 32 = a then isMultiple? p as [] (carry / pow2 32) else some false
  | [], _ :: _, _ => some false
  | [], [], carry => some (carry == 0)

end RelSearch.Limbs
