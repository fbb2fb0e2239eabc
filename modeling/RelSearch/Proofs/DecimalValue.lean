import Mathlib.Data.Nat.Factorization.Basic
import Mathlib.Tactic.NormNum
import Mathlib.Tactic.Ring
import RelSearch.Proofs.Carry

/-!
# RelSearch.Proofs.DecimalValue

The number that a decimal stands for, and what depends on it alone.

Decimals have the same normal form, and so the same text, exactly if they are the same
number (`Decimal.normalized_eq_iff`). This holds beyond the scales of 64 bits too, if
numbers count as the same whose scales wrap around to the same.
-/

namespace RelSearch

namespace Decimal

/-! ## Values -/

/-- The number that a decimal stands for. -/
def value (d : Decimal) : ℚ := d.coefficient * 10 ^ (-d.scale.toInt)

theorem value_of_coefficient_eq_zero {d : Decimal} (h : d.coefficient = 0) : d.value = 0 := by
  simp [value, h]

/-- A decimal is zero if its coefficient is. -/
theorem value_eq_zero_iff (d : Decimal) : d.value = 0 ↔ d.coefficient = 0 := by
  simp [value, zpow_ne_zero]

/-- Zeros behind the digits go into the power of ten. -/
theorem value_mul_pow10 (m : Int) (k : Nat) (scale : Int64) :
    value ⟨m * (pow10 k : Nat), scale⟩ = m * 10 ^ (k - scale.toInt) := by
  have hpow : ((pow10 k : Nat) : ℚ) = 10 ^ (k : ℤ) := by simp [pow10]
  rw [value, Int.cast_mul, Int.cast_natCast, hpow, mul_assoc, ← zpow_add₀ (by norm_num),
    sub_eq_add_neg]

/-! ## Normal forms -/

/-- The last digit of a number. -/
theorem head?_reverse_digits (m : Nat) :
    (Text.digits m).reverse.head? = some (m % 10).digitChar := by
  rw [Text.digits, Nat.toDigits_eq_if (by decide)]
  split
  · next hlt => simp [Nat.mod_eq_of_lt hlt]
  · simp

/-- Behind digits that do not end in a zero, the trailing zeros are those that were
added. -/
theorem trailingZeros_mul_pow10 {m : Nat} (hm : ¬ 10 ∣ m) (k : Nat) :
    trailingZeros (m * pow10 k) = k := by
  have hne : m ≠ 0 := fun h => hm (h ▸ dvd_zero 10)
  have hlast : ∀ c ∈ (Text.digits m).reverse.head?, (c == '0') = false := by
    rw [head?_reverse_digits]
    simpa [Nat.digitChar_eq_zero, Nat.dvd_iff_mod_eq_zero] using hm
  rw [trailingZeros, Text.digits_mul_pow10 hne, List.reverse_append, Text.zeros,
    List.reverse_replicate, Text.takeWhile_append_of_stop (by simp) hlast, List.length_replicate]

/-- The zeros that a power of ten puts behind a coefficient are its trailing zeros. -/
theorem trailingZeros_natAbs_mul_pow10 {m : Int} (hm : ¬ 10 ∣ m) (k : Nat) :
    trailingZeros (m * (pow10 k : Nat)).natAbs = k := by
  rw [Int.natAbs_mul, Int.natAbs_natCast]
  exact trailingZeros_mul_pow10 (fun h => hm (Int.natCast_dvd.mpr h)) k

/-- The normal form of digits that do not end in a zero, with zeros behind them. -/
theorem normalized_mul_pow10 {m : Int} (hm : ¬ 10 ∣ m) (k : Nat) (scale : Int64) :
    normalized ⟨m * (pow10 k : Nat), scale⟩ = ⟨m, scale - Int64.ofNat k⟩ := by
  have hpos : (0 : Int) < (pow10 k : Nat) := Int.natCast_pos.mpr (pow10_pos k)
  have hne : m * (pow10 k : Nat) ≠ 0 :=
    mul_ne_zero (fun h => hm (h ▸ dvd_zero 10)) hpos.ne'
  simp only [normalized, hne, if_false, trailingZeros_natAbs_mul_pow10 hm,
    Int.mul_ediv_cancel _ hpos.ne']

/-- A decimal other than zero is digits that do not end in a zero, with zeros behind. -/
theorem exists_eq_mul_pow10 {c : Int} (hc : c ≠ 0) :
    ∃ (m : Int) (k : Nat), ¬ 10 ∣ m ∧ c = m * (pow10 k : Nat) := by
  obtain ⟨k, m, hm, hck⟩ :=
    Nat.exists_eq_pow_mul_and_not_dvd (Int.natAbs_ne_zero.mpr hc) 10 (by decide)
  refine ⟨c.sign * m, k, fun h => hm ?_, ?_⟩
  · have habs := Int.natCast_dvd.mp h
    rwa [Int.natAbs_mul, Int.natAbs_sign_of_ne_zero hc, Int.natAbs_natCast, one_mul] at habs
  · rw [mul_assoc, ← Nat.cast_mul, mul_comm m, show pow10 k * m = c.natAbs from hck.symm,
      Int.sign_mul_natAbs]

/-- Digits that do not end in a zero are determined by the number they make with a power
of ten, and so is the power. -/
theorem eq_of_mul_zpow_eq {m n : Int} {d e : Int} (hm : ¬ 10 ∣ m) (hn : ¬ 10 ∣ n)
    (h : (m : ℚ) * 10 ^ d = n * 10 ^ e) : m = n ∧ d = e := by
  have hle : ∀ {m n d e : Int}, ¬ 10 ∣ m → (m : ℚ) * 10 ^ d = n * 10 ^ e → e ≤ d := by
    intro m n d e hm h
    by_contra hlt
    obtain ⟨k, hk⟩ := Int.eq_ofNat_of_zero_le (show 0 ≤ e - d - 1 by omega)
    refine hm ⟨n * 10 ^ k, ?_⟩
    have he : e = d + (k + 1 : Nat) := by omega
    rw [he, zpow_add₀ (by norm_num), zpow_natCast, mul_comm ((10 : ℚ) ^ d), ← mul_assoc] at h
    have hq := mul_right_cancel₀ (zpow_ne_zero d (by norm_num : (10 : ℚ) ≠ 0)) h
    have hz : m = n * 10 ^ (k + 1) := by exact_mod_cast hq
    rw [hz]
    ring
  have hde : d = e := le_antisymm (hle hn h.symm) (hle hm h)
  subst hde
  refine ⟨?_, rfl⟩
  exact_mod_cast mul_right_cancel₀ (zpow_ne_zero d (by norm_num : (10 : ℚ) ≠ 0)) h

/-- Scales are reduced with a wrap around at the end of their range. -/
theorem sub_ofNat (s : Int64) (k : Nat) : s - Int64.ofNat k = Int64.ofInt (s.toInt - k) := by
  rw [Int64.ofInt_sub, Int64.ofInt_toInt, Int64.ofInt_eq_ofNat]

theorem ofInt_eq_ofInt_iff (a b : Int) :
    Int64.ofInt a = Int64.ofInt b ↔ (Int64.size : Int) ∣ a - b := by
  rw [← Int64.toInt_inj, Int64.toInt_ofInt, Int64.toInt_ofInt,
    Int.bmod_eq_bmod_iff_bmod_sub_eq_zero, Int.dvd_iff_bmod_eq_zero]

/-- Only zero is normalized to the zero at scale zero. -/
theorem normalized_eq_zero_iff (d : Decimal) : d.normalized = ⟨0, 0⟩ ↔ d.coefficient = 0 := by
  obtain ⟨c, s⟩ := d
  constructor
  · intro h
    by_contra hc
    obtain ⟨m, k, hm, rfl⟩ := exists_eq_mul_pow10 hc
    rw [normalized_mul_pow10 hm] at h
    have hzero : m = 0 := congrArg coefficient h
    exact hm (hzero ▸ dvd_zero 10)
  · intro h
    rw [normalized, if_pos h]

/-- **Normal form**: decimals have the same normal form exactly if they are the same number,
up to a power of ten by which the scale wraps around. -/
theorem normalized_eq_iff (x y : Decimal) :
    x.normalized = y.normalized ↔ ∃ j : ℤ, x.value = y.value * 10 ^ (Int64.size * j) := by
  have hten : (10 : ℚ) ≠ 0 := by norm_num
  by_cases hx : x.coefficient = 0
  · rw [(normalized_eq_zero_iff x).mpr hx, value_of_coefficient_eq_zero hx, eq_comm,
      normalized_eq_zero_iff, ← value_eq_zero_iff]
    simp [@eq_comm ℚ 0, zpow_ne_zero]
  by_cases hy : y.coefficient = 0
  · rw [(normalized_eq_zero_iff y).mpr hy, value_of_coefficient_eq_zero hy,
      normalized_eq_zero_iff, ← value_eq_zero_iff]
    simp
  obtain ⟨c, s⟩ := x
  obtain ⟨c', s'⟩ := y
  obtain ⟨m, k, hm, rfl⟩ := exists_eq_mul_pow10 hx
  obtain ⟨m', k', hm', rfl⟩ := exists_eq_mul_pow10 hy
  rw [normalized_mul_pow10 hm, normalized_mul_pow10 hm', mk.injEq, sub_ofNat, sub_ofNat,
    ofInt_eq_ofInt_iff]
  simp only [value_mul_pow10, mul_assoc, ← zpow_add₀ hten]
  constructor
  · rintro ⟨rfl, j, hj⟩
    refine ⟨-j, ?_⟩
    congr 2
    rw [mul_neg, ← hj]
    ring
  · rintro ⟨j, hj⟩
    obtain ⟨rfl, hexponent⟩ := eq_of_mul_zpow_eq hm hm' hj
    exact ⟨rfl, -j, by rw [mul_neg]; omega⟩

/-- Decimals that are the same number have one normal form. -/
theorem normalized_eq_of_value_eq {x y : Decimal} (h : x.value = y.value) :
    x.normalized = y.normalized :=
  (normalized_eq_iff x y).mpr ⟨0, by simp [h]⟩

end Decimal

end RelSearch
