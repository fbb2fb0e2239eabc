/-!
# RelSearch.Number.Power

The powers of two and of ten, as naturals.
-/

namespace RelSearch

/-- Two to the power `k`. -/
def pow2 (k : Nat) : Nat := Nat.pow 2 k

/-- Ten to the power `k`. -/
def pow10 (k : Nat) : Nat := Nat.pow 10 k

theorem pow2_pos (k : Nat) : 0 < pow2 k := Nat.pow_pos (by decide)

theorem pow10_zero : pow10 0 = 1 := rfl

theorem pow10_succ (k : Nat) : pow10 (k + 1) = pow10 k * 10 := rfl

theorem pow10_pos (k : Nat) : 0 < pow10 k := Nat.pow_pos (by decide)

end RelSearch
