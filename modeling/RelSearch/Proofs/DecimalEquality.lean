import RelSearch.Proofs.DecimalValue

/-!
# RelSearch.Proofs.DecimalEquality

When two decimals compare equal.

The comparison is meant to be one of numbers, and it is, unless the scales differ by ten
and the product that is formed limb by limb overflows (`Decimal.KeepsCarry`):

1. what is taken for a multiple is one, or a sum of a product and a carry has overflowed
   (`Limbs.eq_or_overflows_of_isMultiple?`);
2. so decimals that keep their carries compare equal exactly if they are the same number
   (`Decimal.comparesEqual_iff_value_eq`);
3. decimals that are the same number compare equal exactly if they keep their carries
   (`Decimal.comparesEqual_iff_keepsCarry`).

The comparison is symmetric in any case, since it goes by the scales which of the
two decimals is multiplied.
-/

namespace RelSearch

/-! ## Multiples -/

namespace Limbs

/-- Zero is a multiple only of zero, and only without a carry. -/
theorem eq_zero_of_isMultiple?_zero {p b c : Nat}
    (h : isMultiple? p (ofNat 0) (ofNat b) c = some true) : b = 0 ∧ c = 0 := by
  by_cases hb : b = 0
  · subst hb
    exact ⟨rfl, by simpa [ofNat_zero, isMultiple?] using h⟩
  · rw [ofNat_zero, ofNat_of_ne_zero hb] at h
    simp [isMultiple?] at h

/-- A comparison that succeeds does so at the lowest limb, and above it. -/
theorem isMultiple?_step {p a b c : Nat} (ha : a ≠ 0) (hc : c < pow2 64)
    (h : isMultiple? p (ofNat a) (ofNat b) c = some true) :
    b % pow2 32 * p < pow2 64 ∧ (b * p + c) % pow2 32 = a % pow2 32 ∧
      isMultiple? p (ofNat (a / pow2 32)) (ofNat (b / pow2 32))
        ((b % pow2 32 * p + c) % pow2 64 / pow2 32) = some true := by
  by_cases hproduct : b % pow2 32 * p < pow2 64
  · rw [isMultiple?_of_lt ha hc hproduct] at h
    split at h
    · next hlow => exact ⟨hproduct, hlow, h⟩
    · cases h
  · rw [isMultiple?_of_le ha (Nat.not_lt.mp hproduct)] at h
    cases h

theorem carry_lt_pow2 (n : Nat) : n % pow2 64 / pow2 32 < pow2 64 :=
  Nat.lt_of_le_of_lt (Nat.div_le_self _ _) (Nat.mod_lt _ (pow2_pos 64))

/-- A comparison that succeeds has not given up at any limb. -/
theorem limb_mul_lt_of_isMultiple? {p a b c : Nat} (hc : c < pow2 64)
    (h : isMultiple? p (ofNat a) (ofNat b) c = some true) (i : Nat) :
    limb b i * p < pow2 64 := by
  induction i generalizing a b c with
  | zero =>
      by_cases ha : a = 0
      · subst ha
        obtain ⟨rfl, -⟩ := eq_zero_of_isMultiple?_zero h
        simp [limb, pow2_pos]
      · rw [limb_zero]
        exact (isMultiple?_step ha hc h).1
  | succ i ih =>
      by_cases ha : a = 0
      · subst ha
        obtain ⟨rfl, -⟩ := eq_zero_of_isMultiple?_zero h
        simp [limb, pow2_pos]
      · rw [limb_succ]
        exact ih (carry_lt_pow2 _) (isMultiple?_step ha hc h).2.2

/-- What is taken for a multiple is one, or the product overflows. -/
theorem eq_or_overflows_of_isMultiple? {p a b c : Nat} (hc : c < pow2 64)
    (h : isMultiple? p (ofNat a) (ofNat b) c = some true) :
    a = b * p + c ∨ Overflows p b c := by
  induction a using Nat.strongRecOn generalizing b c with
  | ind a ih =>
      by_cases ha : a = 0
      · subst ha
        obtain ⟨rfl, rfl⟩ := eq_zero_of_isMultiple?_zero h
        exact .inl (by simp)
      · obtain ⟨hproduct, hlow, hhigh⟩ := isMultiple?_step ha hc h
        rw [overflows_iff]
        by_cases hsum : b % pow2 32 * p + c < pow2 64
        · have hless : a / pow2 32 < a := Nat.div_lt_self (Nat.pos_of_ne_zero ha) (by decide)
          have hcarry := carry_lt_pow2 (b % pow2 32 * p + c)
          rw [Nat.mod_eq_of_lt hsum] at hhigh hcarry
          refine (ih _ hless hcarry hhigh).imp (fun heq => ?_) fun hover => ⟨hproduct, .inr hover⟩
          rw [← mul_add_div] at heq
          rw [← Nat.div_add_mod a (pow2 32), heq, ← hlow, Nat.div_add_mod]
        · exact .inr ⟨hproduct, .inl ⟨Nat.not_lt.mp hsum, limb_mul_lt_of_isMultiple? hc h 1,
            limb_mul_lt_of_isMultiple? hc h 2⟩⟩

end Limbs

namespace Decimal

/-! ## Shifted coefficients -/

/-- Multiplying `b` by `10 ^ k` loses no carry. Only ten zeros can. -/
def KeepsCarryAt (b k : Nat) : Prop := k = 10 → ¬ Limbs.Overflows (pow10 10) b 0

/-- Where the carry is kept, the loop over the limbs does not overflow. -/
theorem KeepsCarryAt.not_overflows {b k : Nat} (h : KeepsCarryAt b k) :
    ¬ Limbs.Overflows (pow10 k) b 0 := by
  by_cases hk : k = 10
  · subst hk
    exact h rfl
  · exact Limbs.not_overflows_of_hasRoom (Limbs.hasRoom_pow10 hk) b

/-- A multiple counts as one exactly if no carry is lost. -/
theorem isShifted_mul_pow10_iff {b : Nat} (hb : b ≠ 0) (k : Nat) :
    isShifted (b * pow10 k) b k = true ↔ KeepsCarryAt b k := by
  by_cases hk : k < 20
  · rw [isShifted_mul_pow10 hb hk]
    refine ⟨fun h hten => ?_, KeepsCarryAt.not_overflows⟩
    rwa [hten] at h
  · refine iff_of_true ?_ fun hten => absurd hten (by omega)
    rw [isShifted, if_neg (Nat.not_lt.mpr (le_log2_mul_pow10 hb k)),
      if_neg (Nat.not_lt.mpr (log2_mul_le hb (Nat.ne_of_gt (pow10_pos k)))), if_neg hk,
      beq_self_eq_true]

/-- What counts as a multiple is one, if no carry is lost. -/
theorem eq_of_isShifted_of_keepsCarryAt {a b k : Nat} (hkeeps : KeepsCarryAt b k)
    (h : isShifted a b k = true) : a = b * pow10 k := by
  unfold isShifted at h
  split at h
  · cases h
  split at h
  · cases h
  split at h
  · cases hmultiple : Limbs.isMultiple? (pow10 k) (Limbs.ofNat a) (Limbs.ofNat b) 0 with
    | none => simpa [hmultiple] using h
    | some answer =>
        obtain rfl : answer = true := by simpa [hmultiple] using h
        rcases Limbs.eq_or_overflows_of_isMultiple? (pow2_pos 64) hmultiple with heq | hover
        · exact heq
        · exact absurd hover hkeeps.not_overflows
  · simpa using h

/-- Where the carry is kept, the comparison of coefficients is multiplication by a power of ten.
-/
theorem isShifted_iff {a b k : Nat} (hb : b ≠ 0) (hkeeps : KeepsCarryAt b k) :
    isShifted a b k = true ↔ a = b * pow10 k := by
  refine ⟨eq_of_isShifted_of_keepsCarryAt hkeeps, ?_⟩
  rintro rfl
  exact (isShifted_mul_pow10_iff hb k).mpr hkeeps

/-! ## Decimals -/

/-- The comparison of two decimals loses no carry: if their scales differ by ten, the product
of the one at the lower scale does not overflow. -/
def KeepsCarry (x y : Decimal) : Prop :=
  (x.scale.toInt = y.scale.toInt + 10 → ¬ Limbs.Overflows (pow10 10) y.coefficient.natAbs 0) ∧
  (y.scale.toInt = x.scale.toInt + 10 → ¬ Limbs.Overflows (pow10 10) x.coefficient.natAbs 0)

theorem KeepsCarry.symm {x y : Decimal} (h : x.KeepsCarry y) : y.KeepsCarry x := ⟨h.2, h.1⟩

/-- Only a difference of ten between the scales can lose a carry. -/
theorem keepsCarry_of_scale {x y : Decimal} (h : (x.scale.toInt - y.scale.toInt).natAbs ≠ 10) :
    x.KeepsCarry y :=
  ⟨fun hscale => absurd hscale (by omega), fun hscale => absurd hscale (by omega)⟩

/-- Of two decimals only the one at the lower scale is multiplied. -/
theorem keepsCarry_iff_of_le {x y : Decimal} (hle : y.scale.toInt ≤ x.scale.toInt) :
    x.KeepsCarry y ↔
      KeepsCarryAt y.coefficient.natAbs (x.scale.toInt - y.scale.toInt).natAbs := by
  constructor
  · intro h hten
    exact h.1 (by omega)
  · intro h
    exact ⟨fun hscale => h (by omega), fun hscale => absurd hscale (by omega)⟩

/-- Zeros behind the coefficient are as good as a higher scale. -/
theorem value_eq_iff_coefficient_eq {x y : Decimal} {k : Nat}
    (hscale : x.scale.toInt = y.scale.toInt + k) :
    x.value = y.value ↔ x.coefficient = y.coefficient * (pow10 k : Nat) := by
  have hy : y.value = value ⟨y.coefficient * (pow10 k : Nat), x.scale⟩ := by
    rw [value_mul_pow10, hscale, value]
    congr 2
    ring
  have hne : (10 : ℚ) ^ (-x.scale.toInt) ≠ 0 := zpow_ne_zero _ (by norm_num)
  rw [hy, value, value, mul_left_inj' hne, Int.cast_inj]

/-- Coefficients are compared by sign and by magnitude. -/
theorem coefficient_eq_iff {c d : Int} (k : Nat) :
    c = d * (pow10 k : Nat) ↔ c.sign = d.sign ∧ c.natAbs = d.natAbs * pow10 k := by
  have hpos : (0 : Int) < (pow10 k : Nat) := Int.natCast_pos.mpr (pow10_pos k)
  constructor
  · rintro rfl
    rw [Int.sign_mul, Int.sign_eq_one_of_pos hpos, Int.mul_one, Int.natAbs_mul, Int.natAbs_natCast]
    exact ⟨rfl, rfl⟩
  · rintro ⟨hsign, habs⟩
    rw [← Int.sign_mul_natAbs c, habs, hsign, Nat.cast_mul, ← mul_assoc, Int.sign_mul_natAbs]

theorem coefficient_eq_zero_iff {c d : Int} (h : c.sign = d.sign) : c = 0 ↔ d = 0 := by
  rw [← Int.sign_eq_zero_iff_zero, h, Int.sign_eq_zero_iff_zero]

/-- The coefficient at the greater scale has to be the other one, shifted. -/
theorem comparesEqual_iff_of_le {x y : Decimal} (hle : y.scale.toInt ≤ x.scale.toInt) :
    x.comparesEqual y = true ↔ x.coefficient.sign = y.coefficient.sign ∧
      (y.coefficient = 0 ∨ isShifted x.coefficient.natAbs y.coefficient.natAbs
        (x.scale.toInt - y.scale.toInt).natAbs = true) := by
  by_cases hsign : x.coefficient.sign = y.coefficient.sign
  · have hzero := coefficient_eq_zero_iff hsign
    by_cases hx : x.coefficient = 0
    · simp [comparesEqual, hx, hzero.mp hx]
    · simp [comparesEqual, hsign, hx, mt hzero.mpr hx, hle]
  · simp [comparesEqual, hsign]

/-- Where the carry is kept, the comparison is numeric. -/
theorem comparesEqual_iff_value_eq_of_le {x y : Decimal} (hle : y.scale.toInt ≤ x.scale.toInt)
    (hkeeps : KeepsCarryAt y.coefficient.natAbs (x.scale.toInt - y.scale.toInt).natAbs) :
    x.comparesEqual y = true ↔ x.value = y.value := by
  rw [comparesEqual_iff_of_le hle, value_eq_iff_coefficient_eq
    (show x.scale.toInt = y.scale.toInt + (x.scale.toInt - y.scale.toInt).natAbs by omega),
    coefficient_eq_iff]
  refine and_congr_right fun hsign => ?_
  by_cases hy : y.coefficient = 0
  · simp [hy, (coefficient_eq_zero_iff hsign).mpr hy]
  · rw [or_iff_right hy, isShifted_iff (Int.natAbs_ne_zero.mpr hy) hkeeps]

/-- Which of two decimals is multiplied does not depend on their order. -/
theorem comparesEqual_comm_of_lt {x y : Decimal} (hlt : y.scale.toInt < x.scale.toInt) :
    y.comparesEqual x = x.comparesEqual y := by
  have hk : (y.scale.toInt - x.scale.toInt).natAbs = (x.scale.toInt - y.scale.toInt).natAbs := by
    omega
  by_cases hsign : x.coefficient.sign = y.coefficient.sign
  · have hzero := coefficient_eq_zero_iff hsign
    by_cases hx : x.coefficient = 0
    · simp [comparesEqual, hx, hzero.mp hx]
    · simp [comparesEqual, hsign, hx, mt hzero.mpr hx, Int.le_of_lt hlt, Int.not_le.mpr hlt, hk]
  · simp [comparesEqual, hsign, Ne.symm hsign]

/-- The comparison is symmetric: both orders multiply the same coefficient. -/
theorem comparesEqual_comm (x y : Decimal) : x.comparesEqual y = y.comparesEqual x := by
  rcases Int.lt_trichotomy x.scale.toInt y.scale.toInt with h | h | h
  · exact comparesEqual_comm_of_lt h
  · -- nothing is shifted, so that both are comparisons of the same numbers
    have hkeeps : ∀ b, KeepsCarryAt b (x.scale.toInt - y.scale.toInt).natAbs := fun b hten =>
      absurd hten (by omega)
    have hkeeps' : ∀ b, KeepsCarryAt b (y.scale.toInt - x.scale.toInt).natAbs := fun b hten =>
      absurd hten (by omega)
    rw [Bool.eq_iff_iff, comparesEqual_iff_value_eq_of_le h.ge (hkeeps _),
      comparesEqual_iff_value_eq_of_le h.le (hkeeps' _)]
    exact eq_comm
  · exact (comparesEqual_comm_of_lt h).symm

/-- Decimals that keep their carries compare equal exactly if they are the same number. -/
theorem comparesEqual_iff_value_eq {x y : Decimal} (h : x.KeepsCarry y) :
    x.comparesEqual y = true ↔ x.value = y.value := by
  rcases Int.le_total y.scale.toInt x.scale.toInt with hle | hle
  · exact comparesEqual_iff_value_eq_of_le hle ((keepsCarry_iff_of_le hle).mp h)
  · rw [comparesEqual_comm,
      comparesEqual_iff_value_eq_of_le hle ((keepsCarry_iff_of_le hle).mp h.symm)]
    exact eq_comm

/-- With ten zeros to add, a carry of `2 ^ 96` is lost here. -/
example : let b := 26369560325387419495
    comparesEqual ⟨b * 10000000000 - 79228162514264337593543950336, 10⟩ ⟨b, 0⟩ = true := by
  decide +kernel

/-- Equal numbers compare equal exactly where the carry is kept. -/
theorem comparesEqual_iff_keepsCarry_of_le {x y : Decimal} (hle : y.scale.toInt ≤ x.scale.toInt)
    (h : x.value = y.value) : x.comparesEqual y = true ↔ x.KeepsCarry y := by
  rw [value_eq_iff_coefficient_eq
    (show x.scale.toInt = y.scale.toInt + (x.scale.toInt - y.scale.toInt).natAbs by omega),
    coefficient_eq_iff] at h
  obtain ⟨hsign, habs⟩ := h
  rw [comparesEqual_iff_of_le hle, keepsCarry_iff_of_le hle]
  by_cases hy : y.coefficient = 0
  · have hnone : KeepsCarryAt y.coefficient.natAbs (x.scale.toInt - y.scale.toInt).natAbs := by
      rw [hy]
      exact fun _ => Limbs.not_overflows_zero (pow2_pos 64)
    exact iff_of_true ⟨hsign, .inl hy⟩ hnone
  · rw [habs, isShifted_mul_pow10_iff (Int.natAbs_ne_zero.mpr hy)]
    simp [hsign, hy]

/-- Decimals that are the same number compare equal exactly if they keep their carries. -/
theorem comparesEqual_iff_keepsCarry {x y : Decimal} (h : x.value = y.value) :
    x.comparesEqual y = true ↔ x.KeepsCarry y := by
  rcases Int.le_total y.scale.toInt x.scale.toInt with hle | hle
  · exact comparesEqual_iff_keepsCarry_of_le hle h
  · rw [comparesEqual_comm, comparesEqual_iff_keepsCarry_of_le hle h.symm]
    exact ⟨.symm, .symm⟩

end Decimal

end RelSearch
