import Mathlib.Tactic.NormNum
import Mathlib.Tactic.Ring
import RelSearch.Number.Binary64

/-!
# RelSearch.Proofs.FloatValue

The number that a float stands for, and that floats are compared by it.

A finite float is a whole number of units `2 ^ -1074`. The units grow with the biased exponent
and the fraction (`Binary64.units_lt`, `Binary64.le_units`), so they determine both, and with
the sign the float, zero apart (`Binary64.sameNumber_iff`).
-/

namespace RelSearch

namespace Binary64

/-! ## Fields -/

/-- A float is its sign, its exponent and its fraction. -/
theorem eq_of_fields {x y : Binary64} (hsign : x.isNegative = y.isNegative)
    (hexponent : x.biasedExponent = y.biasedExponent) (hfraction : x.fraction = y.fraction) :
    x = y := by
  obtain ⟨b⟩ := x
  obtain ⟨c⟩ := y
  simp only [isNegative, biasedExponent, fraction, decide_eq_decide] at hsign hexponent hfraction
  have h11 : pow2 11 = 2048 := rfl
  have h52 : pow2 52 = 4503599627370496 := rfl
  have h63 : pow2 63 = 9223372036854775808 := rfl
  rw [h63] at hsign
  rw [h11, h52] at hexponent
  rw [h52] at hfraction
  have hb := b.toNat_lt
  have hc := c.toNat_lt
  rw [mk.injEq, ← UInt64.toNat_inj]
  omega

/-! ## Units -/

/-- The magnitude of a finite float, in units of `2 ^ -1074`. -/
def units (x : Binary64) : Nat := x.significand * pow2 (x.biasedExponent - 1)

theorem fraction_lt (x : Binary64) : x.fraction < pow2 52 := Nat.mod_lt _ (pow2_pos 52)

/-- The units of a float are below those of the next exponent. -/
theorem units_lt (x : Binary64) : x.units < pow2 52 * pow2 x.biasedExponent := by
  have hfraction := x.fraction_lt
  rw [units, significand]
  split
  · next hzero =>
      rw [hzero]
      exact Nat.mul_lt_mul_of_pos_right hfraction (pow2_pos 0)
  · next hnormal =>
      obtain ⟨e, he⟩ := Nat.exists_eq_succ_of_ne_zero hnormal
      have hdouble : pow2 52 * pow2 (e + 1) = (pow2 52 + pow2 52) * pow2 e := by
        simp only [pow2, Nat.pow_eq, pow_succ]
        ring
      rw [he, Nat.succ_eq_add_one, hdouble, Nat.add_sub_cancel]
      exact Nat.mul_lt_mul_of_pos_right (Nat.add_lt_add_left hfraction _) (pow2_pos e)

/-- A normal float has at least the units that its exponent gives it. -/
theorem le_units {x : Binary64} (h : x.biasedExponent ≠ 0) :
    pow2 52 * pow2 (x.biasedExponent - 1) ≤ x.units := by
  rw [units, significand, if_neg h]
  exact Nat.mul_le_mul_right _ (Nat.le_add_right _ _)

/-- A float with a lower exponent has fewer units. -/
theorem units_lt_units {x y : Binary64} (h : x.biasedExponent < y.biasedExponent) :
    x.units < y.units := by
  have hpow : pow2 x.biasedExponent ≤ pow2 (y.biasedExponent - 1) :=
    Nat.pow_le_pow_right (by decide) (by omega)
  calc x.units < pow2 52 * pow2 x.biasedExponent := units_lt x
    _ ≤ pow2 52 * pow2 (y.biasedExponent - 1) := Nat.mul_le_mul_left _ hpow
    _ ≤ y.units := le_units (by omega)

/-- The units determine the exponent and the fraction. -/
theorem fields_eq_of_units_eq {x y : Binary64} (h : x.units = y.units) :
    x.biasedExponent = y.biasedExponent ∧ x.fraction = y.fraction := by
  have hexponent : x.biasedExponent = y.biasedExponent := by
    rcases Nat.lt_trichotomy x.biasedExponent y.biasedExponent with hlt | heq | hlt
    · exact absurd h (Nat.ne_of_lt (units_lt_units hlt))
    · exact heq
    · exact absurd h.symm (Nat.ne_of_lt (units_lt_units hlt))
  refine ⟨hexponent, ?_⟩
  rw [units, units, hexponent] at h
  have hsignificand := Nat.eq_of_mul_eq_mul_right (pow2_pos _) h
  simp only [significand, hexponent] at hsignificand
  split at hsignificand
  · exact hsignificand
  · exact Nat.add_left_cancel hsignificand

/-- Only the zeros have no units. -/
theorem units_eq_zero_iff (x : Binary64) : x.units = 0 ↔ x.isZero = true := by
  have hpos := pow2_pos 52
  by_cases h : x.biasedExponent = 0
  · simp [units, significand, isZero, h, Nat.ne_of_gt (pow2_pos 0)]
  · simp [units, significand, isZero, h, Nat.ne_of_gt (pow2_pos _)]

/-! ## Numbers -/

/-- The numbers that floats stand for: the rationals, and an infinity of each sign. -/
inductive Extended where
  | finite (q : ℚ)
  | infinite (negative : Bool)

/-- The magnitude of a finite float. -/
def magnitude (x : Binary64) : ℚ := x.significand * 2 ^ x.exponent

/-- The number that a float stands for; NaN is none. -/
def extended? (x : Binary64) : Option Extended :=
  if x.isNaN then none
  else if x.isFinite then some (.finite (if x.isNegative then -x.magnitude else x.magnitude))
  else some (.infinite x.isNegative)

/-- A magnitude is a number of units, each of which is the smallest float. -/
theorem magnitude_eq (x : Binary64) : x.magnitude = x.units * 2 ^ (-1074 : ℤ) := by
  have hexponent : x.exponent = ((x.biasedExponent - 1 : Nat) : ℤ) + -1074 := by
    rw [exponent]
    omega
  have hpow : ∀ k : Nat, ((pow2 k : Nat) : ℚ) = 2 ^ (k : ℤ) := by simp [pow2]
  rw [magnitude, hexponent, zpow_add₀ (by norm_num), units, Nat.cast_mul, hpow, mul_assoc]

/-- Magnitudes tell units apart. -/
theorem magnitude_inj {x y : Binary64} : x.magnitude = y.magnitude ↔ x.units = y.units := by
  have hunit : (2 : ℚ) ^ (-1074 : ℤ) ≠ 0 := zpow_ne_zero _ (by norm_num)
  rw [magnitude_eq, magnitude_eq, mul_left_inj' hunit, Nat.cast_inj]

theorem magnitude_of_isZero {x : Binary64} (h : x.isZero = true) : x.magnitude = 0 := by
  rw [magnitude_eq, (units_eq_zero_iff x).mpr h, Nat.cast_zero, zero_mul]

/-- Magnitudes have no signs, so that only zero is the opposite of one. -/
theorem isZero_of_magnitude_eq_neg {x y : Binary64} (h : x.magnitude = -y.magnitude) :
    x.isZero = true ∧ y.isZero = true := by
  have hunit : (2 : ℚ) ^ (-1074 : ℤ) ≠ 0 := zpow_ne_zero _ (by norm_num)
  rw [eq_neg_iff_add_eq_zero, magnitude_eq, magnitude_eq, ← add_mul, mul_eq_zero,
    or_iff_left hunit, ← Nat.cast_add, Nat.cast_eq_zero, Nat.add_eq_zero_iff,
    units_eq_zero_iff, units_eq_zero_iff] at h
  exact h

/-- A float is determined by its sign and its magnitude. -/
theorem eq_of_magnitude_eq {x y : Binary64} (hsign : x.isNegative = y.isNegative)
    (h : x.magnitude = y.magnitude) : x = y := by
  obtain ⟨hexponent, hfraction⟩ := fields_eq_of_units_eq (magnitude_inj.mp h)
  exact eq_of_fields hsign hexponent hfraction

/-- Only a float that is no number has no value. -/
theorem extended?_eq_none_iff (x : Binary64) : x.extended? = none ↔ x.isNaN = true := by
  rw [extended?]
  split
  · simp_all
  · split <;> simp_all

theorem eq_of_extended?_eq_finite {x : Binary64} {q : ℚ} (h : x.extended? = some (.finite q)) :
    q = if x.isNegative then -x.magnitude else x.magnitude := by
  rw [extended?] at h
  split at h
  · cases h
  · split at h
    · exact (Extended.finite.inj (Option.some.inj h)).symm
    · cases h

/-- A float that is neither NaN nor finite has nothing in its fraction. -/
theorem fields_of_extended?_eq_infinite {x : Binary64} {negative : Bool}
    (h : x.extended? = some (.infinite negative)) :
    x.isNegative = negative ∧ x.biasedExponent = 2047 ∧ x.fraction = 0 := by
  rw [extended?] at h
  split at h
  · cases h
  · next hnan =>
      split at h
      · cases h
      · next hfinite =>
          have hexponent : x.biasedExponent < 2048 := Nat.mod_lt _ (pow2_pos 11)
          have htop : x.biasedExponent = 2047 := by
            simp only [isFinite, decide_eq_true_eq] at hfinite
            omega
          have hfraction : x.fraction = 0 := by simpa [isNaN, htop] using hnan
          exact ⟨Extended.infinite.inj (Option.some.inj h), htop, hfraction⟩

theorem extended?_of_isZero {x : Binary64} (h : x.isZero = true) :
    x.extended? = some (.finite 0) := by
  have hexponent : x.biasedExponent = 0 := by
    simp only [isZero, Bool.and_eq_true, beq_iff_eq] at h
    exact h.1
  simp [extended?, isNaN, isFinite, hexponent, magnitude_of_isZero h]

/-- Floats that stand for the same number are the same, or two zeros. -/
theorem eq_or_isZero_of_extended? {x y : Binary64} {v : Extended} (hx : x.extended? = some v)
    (hy : y.extended? = some v) : x = y ∨ x.isZero = true ∧ y.isZero = true := by
  cases v with
  | finite q =>
      have hq := eq_of_extended?_eq_finite hx
      rw [eq_of_extended?_eq_finite hy] at hq
      cases hxsign : x.isNegative <;> cases hysign : y.isNegative <;>
        simp only [hxsign, hysign, if_true, if_false, Bool.false_eq_true] at hq
      · exact .inl (eq_of_magnitude_eq (hxsign.trans hysign.symm) hq.symm)
      · exact .inr (isZero_of_magnitude_eq_neg hq.symm)
      · exact .inr (isZero_of_magnitude_eq_neg hq).symm
      · exact .inl (eq_of_magnitude_eq (hxsign.trans hysign.symm) (neg_inj.mp hq).symm)
  | infinite negative =>
      obtain ⟨hsign, hexponent, hfraction⟩ := fields_of_extended?_eq_infinite hx
      obtain ⟨hsign', hexponent', hfraction'⟩ := fields_of_extended?_eq_infinite hy
      exact .inl (eq_of_fields (hsign.trans hsign'.symm) (hexponent.trans hexponent'.symm)
        (hfraction.trans hfraction'.symm))

/-- **Floats are compared as numbers**: two floats are equal exactly if they stand for the
same number. -/
theorem sameNumber_iff (x y : Binary64) :
    x.sameNumber y = true ↔ ∃ v, x.extended? = some v ∧ y.extended? = some v := by
  have hsome : ∀ z : Binary64, z.isNaN = false ↔ ∃ v, z.extended? = some v := by
    intro z
    rw [← Option.ne_none_iff_exists', ne_eq, extended?_eq_none_iff, Bool.not_eq_true]
  simp only [sameNumber, Bool.and_eq_true, Bool.or_eq_true, Bool.not_eq_true', beq_iff_eq]
  constructor
  · rintro ⟨⟨hx, -⟩, rfl | ⟨hxzero, hyzero⟩⟩
    · obtain ⟨v, hv⟩ := (hsome x).mp hx
      exact ⟨v, hv, hv⟩
    · exact ⟨_, extended?_of_isZero hxzero, extended?_of_isZero hyzero⟩
  · rintro ⟨v, hx, hy⟩
    exact ⟨⟨(hsome x).mpr ⟨v, hx⟩, (hsome y).mpr ⟨v, hy⟩⟩, eq_or_isZero_of_extended? hx hy⟩

/-- The comparison of floats is symmetric. -/
theorem sameNumber_comm (x y : Binary64) : x.sameNumber y = y.sameNumber x := by
  rw [Bool.eq_iff_iff, sameNumber_iff, sameNumber_iff]
  exact exists_congr fun _ => and_comm

end Binary64

end RelSearch
