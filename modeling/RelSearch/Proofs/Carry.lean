import RelSearch.Proofs.ScalarText

/-!
# RelSearch.Proofs.Carry

The comparison of a natural with a multiple of another, limb by limb in 64 bits,
and what it makes of a decimal that was written and read back.

1. A natural is taken for the product that it is, unless a sum of a product and a
   carry overflows (`Limbs.Overflows`). The lost bit is missing two limbs above,
   where the comparison fails, if it does not give up before.
2. With a power of ten as factor that happens for `10 ^ 10` alone. For all others,
   every product that fits 64 bits leaves room for a carry of 32 bits.
3. So the decimal that is read back from the text of `d` compares equal to `d`, but
   for some decimals of scale -10 (`Decimal.LosesCarry`).
-/

namespace RelSearch

namespace Limbs

/-! ## Limbs of a natural -/

/-- The limb of `n` at position `i`. -/
def limb (n i : Nat) : Nat := n / pow2 (32 * i) % pow2 32

theorem limb_zero (n : Nat) : limb n 0 = n % pow2 32 := by
  simp [limb, pow2]

theorem limb_lt (n i : Nat) : limb n i < pow2 32 := Nat.mod_lt _ (pow2_pos 32)

theorem pow2_add (m n : Nat) : pow2 (m + n) = pow2 m * pow2 n := Nat.pow_add 2 m n

/-- The limbs of a number without its lowest one. -/
theorem limb_succ (n i : Nat) : limb n (i + 1) = limb (n / pow2 32) i := by
  rw [limb, limb, Nat.mul_succ, Nat.add_comm, pow2_add, Nat.div_div_eq_div_mul]

/-- A number has so many limbs at most if it is below the power of two. -/
theorem count_le {n i : Nat} : count n ≤ i ↔ n < pow2 (32 * i) := by
  rw [count]
  split
  · next h => simp [h, pow2_pos]
  · next h =>
      have hlog : n.log2 < 32 * i ↔ n < pow2 (32 * i) := Nat.log2_lt h
      omega

/-- Without its lowest limb a number has one limb less. -/
theorem count_of_ne_zero {n : Nat} (h : n ≠ 0) : count n = count (n / pow2 32) + 1 := by
  have hpos : count n ≠ 0 := by simp [count, h]
  have hle : ∀ i, count n ≤ i + 1 ↔ count (n / pow2 32) ≤ i := by
    intro i
    rw [count_le, count_le, Nat.mul_succ, pow2_add, Nat.div_lt_iff_lt_mul (pow2_pos 32)]
  have hupper := (hle (count (n / pow2 32))).mpr (Nat.le_refl _)
  have hlower := (hle (count n - 1)).mp (by omega)
  omega

/-- A natural other than zero has its low limb in front of those of the rest. -/
theorem ofNat_of_ne_zero {n : Nat} (h : n ≠ 0) : ofNat n = n % pow2 32 :: ofNat (n / pow2 32) := by
  rw [ofNat, count_of_ne_zero h, List.range_succ_eq_map, List.map_cons, List.map_map, ofNat]
  congr 1
  · exact limb_zero n
  · apply List.map_congr_left
    intro i _
    exact limb_succ n i

/-! ## Carries -/

/-- What the limbs of `b` below position `j`, times `p` and with `c` added, carry
into that position. -/
def carryInto (p b c j : Nat) : Nat := (b % pow2 (32 * j) * p + c) / pow2 (32 * j)

theorem carryInto_zero (p b c : Nat) : carryInto p b c 0 = c := by
  simp [carryInto, pow2, Nat.mod_one]

/-- The carry into a limb is the one that is left after the limbs below it. -/
theorem carryInto_succ (p b c j : Nat) :
    carryInto p b c (j + 1) = carryInto p (b / pow2 32) ((b % pow2 32 * p + c) / pow2 32) j := by
  have hmod : b % pow2 (32 * (j + 1)) = b % pow2 32 + pow2 32 * (b / pow2 32 % pow2 (32 * j)) := by
    rw [Nat.mul_succ, Nat.add_comm, pow2_add, Nat.mod_mul]
  have hsum : (b % pow2 32 + pow2 32 * (b / pow2 32 % pow2 (32 * j))) * p + c =
      b % pow2 32 * p + c + pow2 32 * (b / pow2 32 % pow2 (32 * j) * p) := by
    rw [Nat.add_mul, Nat.mul_assoc, Nat.add_right_comm]
  rw [carryInto, carryInto, hmod, hsum, Nat.mul_succ, Nat.add_comm (32 * j), pow2_add,
    ← Nat.div_div_eq_div_mul, Nat.add_mul_div_left _ _ (pow2_pos 32), Nat.add_comm]

/-- In the product of `b` and `p` plus `c`, formed limb by limb in 64 bits, some
sum of a product and a carry does not fit, while the products themselves do, up
to the second limb above. -/
def Overflows (p b c : Nat) : Prop :=
  ∃ j, pow2 64 ≤ limb b j * p + carryInto p b c j ∧ ∀ i ≤ j + 2, limb b i * p < pow2 64

/-- An overflow is at the lowest limb, or at a higher one. -/
theorem overflows_iff (p b c : Nat) :
    Overflows p b c ↔ b % pow2 32 * p < pow2 64 ∧
      (pow2 64 ≤ b % pow2 32 * p + c ∧ limb b 1 * p < pow2 64 ∧ limb b 2 * p < pow2 64 ∨
        Overflows p (b / pow2 32) ((b % pow2 32 * p + c) / pow2 32)) := by
  constructor
  · rintro ⟨j, hsum, hproducts⟩
    have hlow := hproducts 0 (Nat.zero_le _)
    rw [limb_zero] at hlow
    refine ⟨hlow, ?_⟩
    cases j with
    | zero =>
        rw [limb_zero, carryInto_zero] at hsum
        exact .inl ⟨hsum, hproducts 1 (by decide), hproducts 2 (by decide)⟩
    | succ j =>
        rw [limb_succ, carryInto_succ] at hsum
        refine .inr ⟨j, hsum, fun i hi => ?_⟩
        rw [← limb_succ]
        exact hproducts (i + 1) (by omega)
  · rintro ⟨hlow, ⟨hsum, hone, htwo⟩ | ⟨j, hsum, hproducts⟩⟩
    · refine ⟨0, ?_, fun i hi => ?_⟩
      · rwa [limb_zero, carryInto_zero]
      · match i with
        | 0 => rwa [limb_zero]
        | 1 => exact hone
        | 2 => exact htwo
    · refine ⟨j + 1, ?_, fun i hi => ?_⟩
      · rwa [limb_succ, carryInto_succ]
      · cases i with
        | zero => rwa [limb_zero]
        | succ i =>
            rw [limb_succ]
            exact hproducts i (by omega)

/-! ## The comparison -/

theorem ofNat_zero : ofNat 0 = [] := rfl

theorem pow2_32 : pow2 32 = 4294967296 := rfl

theorem pow2_64 : pow2 64 = 18446744073709551616 := rfl

/-- Where no limbs are left, what is left of the product is the carry. -/
theorem isMultiple?_nil_self (p c : Nat) : isMultiple? p (ofNat c) [] c = some true := by
  induction c using Nat.strongRecOn with
  | ind c ih =>
      by_cases hc : c = 0
      · rw [hc]
        rfl
      · have hless : c / pow2 32 < c := Nat.div_lt_self (Nat.pos_of_ne_zero hc) (by decide)
        rw [ofNat_of_ne_zero hc, isMultiple?, if_pos rfl, ih _ hless]

/-- A product and a carry, taken apart at the lowest limb. -/
theorem mul_add_eq (b p c : Nat) :
    b * p + c = b % pow2 32 * p + c + pow2 32 * (b / pow2 32 * p) := by
  have hb := Nat.mod_add_div b (pow2 32)
  calc b * p + c = (b % pow2 32 + pow2 32 * (b / pow2 32)) * p + c := by rw [hb]
    _ = b % pow2 32 * p + c + pow2 32 * (b / pow2 32 * p) := by
      rw [Nat.add_mul, Nat.mul_assoc, Nat.add_right_comm]

/-- The lowest limb of a product with a carry. -/
theorem mul_add_mod (b p c : Nat) :
    (b * p + c) % pow2 32 = (b % pow2 32 * p + c) % pow2 32 := by
  rw [mul_add_eq, Nat.add_mul_mod_self_left]

/-- The other limbs of a product with a carry. -/
theorem mul_add_div (b p c : Nat) :
    (b * p + c) / pow2 32 = b / pow2 32 * p + (b % pow2 32 * p + c) / pow2 32 := by
  rw [mul_add_eq, Nat.add_mul_div_left _ _ (pow2_pos 32), Nat.add_comm]

/-- The next limb of a sum does not depend on what does not fit 64 bits. -/
theorem mod_mod_pow2 (n : Nat) : n % pow2 64 % pow2 32 = n % pow2 32 := by
  rw [pow2_32, pow2_64]
  omega

/-- A sum that does not fit 64 bits, but 65, loses one bit. -/
theorem div_eq_of_lost {n : Nat} (hlow : pow2 64 ≤ n) (hhigh : n < 2 * pow2 64) :
    n / pow2 32 = n % pow2 64 / pow2 32 + pow2 32 := by
  rw [pow2_64] at hlow hhigh
  rw [pow2_32, pow2_64]
  omega

/-- A step at a limb whose product fits: the limbs are compared, and the
comparison goes on above them. -/
theorem isMultiple?_of_lt {p a b c : Nat} (ha : a ≠ 0) (hc : c < pow2 64)
    (h : b % pow2 32 * p < pow2 64) :
    isMultiple? p (ofNat a) (ofNat b) c =
      if (b * p + c) % pow2 32 = a % pow2 32 then
        isMultiple? p (ofNat (a / pow2 32)) (ofNat (b / pow2 32))
          ((b % pow2 32 * p + c) % pow2 64 / pow2 32)
      else some false := by
  rw [mul_add_mod, ofNat_of_ne_zero ha]
  by_cases hb : b = 0
  · rw [hb, Nat.zero_mod, Nat.zero_mul, Nat.zero_add, Nat.mod_eq_of_lt hc]
    rfl
  · rw [ofNat_of_ne_zero hb, isMultiple?, if_neg (Nat.not_le.mpr h)]
    simp only [mod_mod_pow2]

/-- A product of limbs that does not fit in two of them is given up. -/
theorem isMultiple?_of_le {p a b c : Nat} (ha : a ≠ 0) (h : pow2 64 ≤ b % pow2 32 * p) :
    isMultiple? p (ofNat a) (ofNat b) c = none := by
  have hb : b ≠ 0 := by
    rintro rfl
    rw [Nat.zero_mod, Nat.zero_mul] at h
    exact absurd (pow2_pos 64) (Nat.not_lt.mpr h)
  rw [ofNat_of_ne_zero ha, ofNat_of_ne_zero hb, isMultiple?, if_pos h]

/-- A limb that differs ends the comparison, unless it gives up there. -/
theorem isMultiple?_of_mod_ne {p a b c : Nat} (ha : a ≠ 0) (hc : c < pow2 64)
    (h : (b * p + c) % pow2 32 ≠ a % pow2 32) :
    isMultiple? p (ofNat a) (ofNat b) c =
      if limb b 0 * p < pow2 64 then some false else none := by
  rw [limb_zero]
  split
  · next hproduct => rw [isMultiple?_of_lt ha hc hproduct, if_neg h]
  · next hproduct => exact isMultiple?_of_le ha (Nat.not_lt.mp hproduct)

/-- A carry that lacks the lowest bit of the limb above is found out there, unless
the comparison gives up before. -/
theorem isMultiple?_of_lost {p b c : Nat} (hc : c < pow2 64) :
    isMultiple? p (ofNat (b * p + (c + pow2 32))) (ofNat b) c =
      if limb b 0 * p < pow2 64 ∧ limb b 1 * p < pow2 64 then some false else none := by
  have ha : b * p + (c + pow2 32) ≠ 0 :=
    Nat.ne_of_gt (Nat.add_pos_right _ (Nat.add_pos_right _ (pow2_pos 32)))
  have hlow : (b * p + c) % pow2 32 = (b * p + (c + pow2 32)) % pow2 32 := by
    rw [← Nat.add_assoc, Nat.add_mod_right]
  have hhigh : (b * p + (c + pow2 32)) / pow2 32 =
      b / pow2 32 * p + (b % pow2 32 * p + c) / pow2 32 + 1 := by
    rw [← Nat.add_assoc, Nat.add_div_right _ (pow2_pos 32), mul_add_div]
  rw [limb_succ, limb_zero]
  by_cases hproduct : b % pow2 32 * p < pow2 64
  · have hcarry : (b % pow2 32 * p + c) % pow2 64 / pow2 32 =
        (b % pow2 32 * p + c) / pow2 32 % pow2 32 := by
      rw [pow2_32, pow2_64]
      omega
    have hsmall : (b % pow2 32 * p + c) / pow2 32 % pow2 32 < pow2 64 :=
      Nat.lt_trans (Nat.mod_lt _ (pow2_pos 32)) (by decide)
    have hne : (b / pow2 32 * p + (b % pow2 32 * p + c) / pow2 32 % pow2 32) % pow2 32 ≠
        (b / pow2 32 * p + (b % pow2 32 * p + c) / pow2 32 + 1) % pow2 32 := by
      rw [Nat.add_mod_mod, pow2_32]
      omega
    rw [isMultiple?_of_lt ha hc hproduct, if_pos hlow, hhigh, hcarry,
      isMultiple?_of_mod_ne (Nat.succ_ne_zero _) hsmall hne]
    simp [hproduct]
  · rw [isMultiple?_of_le ha (Nat.not_lt.mp hproduct), if_neg fun h => hproduct h.1]

/-- A carry stays below the factor. -/
theorem carry_lt {p b c : Nat} (hc : c < p) : (b % pow2 32 * p + c) / pow2 32 < p := by
  have hlow : b % pow2 32 + 1 ≤ pow2 32 := Nat.mod_lt b (pow2_pos 32)
  rw [Nat.div_lt_iff_lt_mul (pow2_pos 32)]
  calc b % pow2 32 * p + c < b % pow2 32 * p + p := Nat.add_lt_add_left hc _
    _ = (b % pow2 32 + 1) * p := (Nat.succ_mul _ p).symm
    _ ≤ pow2 32 * p := Nat.mul_le_mul_right p hlow
    _ = p * pow2 32 := Nat.mul_comm _ p

theorem not_overflows_zero {p c : Nat} (hc : c < pow2 64) : ¬ Overflows p 0 c := by
  rintro ⟨j, hsum, -⟩
  have hle : carryInto p 0 c j ≤ c := by
    rw [carryInto, Nat.zero_mod, Nat.zero_mul, Nat.zero_add]
    exact Nat.div_le_self c _
  rw [limb, Nat.zero_div, Nat.zero_mod, Nat.zero_mul, Nat.zero_add] at hsum
  exact absurd (Nat.le_trans hsum hle) (Nat.not_le.mpr hc)

/-- The product of `b` and `p` plus `c` is not taken for itself exactly if it
overflows. -/
theorem isMultiple?_eq_some_false_iff {p : Nat} (hp : p ≤ pow2 64) (b : Nat) {c : Nat}
    (hc : c < p) :
    isMultiple? p (ofNat (b * p + c)) (ofNat b) c = some false ↔ Overflows p b c := by
  induction b using Nat.strongRecOn generalizing c with
  | ind b ih =>
      have hc64 : c < pow2 64 := Nat.lt_of_lt_of_le hc hp
      by_cases hb : b = 0
      · subst hb
        rw [Nat.zero_mul, Nat.zero_add]
        simpa [ofNat_zero, isMultiple?_nil_self] using not_overflows_zero hc64
      · have ha : b * p + c ≠ 0 := Nat.ne_of_gt (Nat.add_pos_left
          (Nat.mul_pos (Nat.pos_of_ne_zero hb) (Nat.zero_lt_of_lt hc)) c)
        have hless : b / pow2 32 < b := Nat.div_lt_self (Nat.pos_of_ne_zero hb) (by decide)
        rw [overflows_iff]
        by_cases hproduct : b % pow2 32 * p < pow2 64
        · rw [isMultiple?_of_lt ha hc64 hproduct, if_pos rfl, mul_add_div]
          by_cases hsum : b % pow2 32 * p + c < pow2 64
          · rw [Nat.mod_eq_of_lt hsum, ih _ hless (carry_lt hc)]
            simp [hproduct, Nat.not_le.mpr hsum]
          · -- A bit is lost; the next two limbs decide whether that is found out.
            have hhigh : (b % pow2 32 * p + c) / pow2 32 =
                (b % pow2 32 * p + c) % pow2 64 / pow2 32 + pow2 32 :=
              div_eq_of_lost (Nat.not_lt.mp hsum) (by omega)
            have hcarry : (b % pow2 32 * p + c) % pow2 64 / pow2 32 < pow2 64 :=
              Nat.lt_of_le_of_lt (Nat.div_le_self _ _) (Nat.mod_lt _ (pow2_pos 64))
            have habove : Overflows p (b / pow2 32) ((b % pow2 32 * p + c) / pow2 32) →
                limb b 1 * p < pow2 64 ∧ limb b 2 * p < pow2 64 := by
              rintro ⟨j, -, hproducts⟩
              rw [limb_succ, limb_succ]
              exact ⟨hproducts 0 (Nat.zero_le _), hproducts 1 (by omega)⟩
            rw [hhigh, isMultiple?_of_lost hcarry, ← hhigh, ← limb_succ, ← limb_succ]
            simp only [hproduct, Nat.not_lt.mp hsum, true_and, Option.ite_none_right_eq_some,
              and_true]
            exact ⟨.inl, fun h => h.elim id habove⟩
        · rw [isMultiple?_of_le ha (Nat.not_lt.mp hproduct)]
          simp [hproduct]

/-! ## Factors without overflow -/

/-- Whatever limb has a product with `p` that fits 64 bits, a carry of 32 bits
fits on top of it. -/
def HasRoom (p : Nat) : Prop := ∀ x < pow2 32, x * p < pow2 64 → x * p + pow2 32 ≤ pow2 64

/-- With room for the factor, every carry fits in a limb. -/
theorem carryInto_lt {p : Nat} (hp : HasRoom p) {j b c : Nat} (hc : c < pow2 32)
    (hproducts : ∀ i < j, limb b i * p < pow2 64) : carryInto p b c j < pow2 32 := by
  induction j generalizing b c with
  | zero => rwa [carryInto_zero]
  | succ j ih =>
      have hlow := hproducts 0 (Nat.succ_pos j)
      rw [limb_zero] at hlow
      have hroom := hp _ (Nat.mod_lt b (pow2_pos 32)) hlow
      have hcarry : (b % pow2 32 * p + c) / pow2 32 < pow2 32 := by
        rw [Nat.div_lt_iff_lt_mul (pow2_pos 32)]
        exact Nat.lt_of_lt_of_le (Nat.add_lt_add_left hc _) hroom
      rw [carryInto_succ]
      apply ih hcarry
      intro i hi
      rw [← limb_succ]
      exact hproducts (i + 1) (Nat.succ_lt_succ hi)

/-- With room for the factor, nothing overflows. -/
theorem not_overflows_of_hasRoom {p : Nat} (hp : HasRoom p) (b : Nat) : ¬ Overflows p b 0 := by
  rintro ⟨j, hsum, hproducts⟩
  have hcarry : carryInto p b 0 j < pow2 32 :=
    carryInto_lt hp (pow2_pos 32) fun i hi => hproducts i (by omega)
  have hroom := hp (limb b j) (limb_lt b j) (hproducts j (by omega))
  omega

/-- Only one power of ten has no room for a carry on top of a product. -/
theorem hasRoom_pow10 {k : Nat} (hk : k ≠ 10) : HasRoom (pow10 k) := by
  intro x hx hproduct
  rw [pow2_32] at hx ⊢
  rw [pow2_64] at hproduct ⊢
  by_cases hsmall : k < 10
  · have hle : pow10 k ≤ 1000000000 := Nat.pow_le_pow_right (by decide) (Nat.le_of_lt_succ hsmall)
    have hmul : x * pow10 k ≤ x * 1000000000 := Nat.mul_le_mul_left x hle
    omega
  · have hsplit : pow10 k = 100000000000 * pow10 (k - 11) := by
      have hk : k = 11 + (k - 11) := by omega
      calc pow10 k = pow10 (11 + (k - 11)) := by rw [← hk]
        _ = 100000000000 * pow10 (k - 11) := Nat.pow_add 10 11 (k - 11)
    rw [hsplit, Nat.mul_left_comm] at hproduct ⊢
    omega

end Limbs

namespace Decimal

theorem log2_mul_le {a b : Nat} (ha : a ≠ 0) (hb : b ≠ 0) : a.log2 + b.log2 ≤ (a * b).log2 := by
  rw [Nat.le_log2 (Nat.mul_ne_zero ha hb), Nat.pow_add]
  exact Nat.mul_le_mul (Nat.log2_self_le ha) (Nat.log2_self_le hb)

/-- Every power of ten adds a bit at least. -/
theorem le_log2_mul_pow10 {b : Nat} (hb : b ≠ 0) (k : Nat) : k ≤ (b * pow10 k).log2 := by
  have hne : pow10 k ≠ 0 := Nat.ne_of_gt (pow10_pos k)
  rw [Nat.le_log2 (Nat.mul_ne_zero hb hne)]
  calc 2 ^ k ≤ 10 ^ k := Nat.pow_le_pow_left (by decide) k
    _ ≤ b * pow10 k := Nat.le_mul_of_pos_left _ (Nat.pos_of_ne_zero hb)

/-- A number counts as its own multiple unless a carry is lost. -/
theorem isShifted_mul_pow10 {b : Nat} (hb : b ≠ 0) {k : Nat} (hk : k < 20) :
    isShifted (b * pow10 k) b k = true ↔ ¬ Limbs.Overflows (pow10 k) b 0 := by
  have hne : pow10 k ≠ 0 := Nat.ne_of_gt (pow10_pos k)
  have hp : pow10 k ≤ pow2 64 :=
    Nat.le_trans (Nat.pow_le_pow_right (by decide) (Nat.le_of_lt_succ hk)) (by decide)
  have hmultiple := Limbs.isMultiple?_eq_some_false_iff hp b (pow10_pos k)
  rw [Nat.add_zero] at hmultiple
  rw [isShifted, if_neg (Nat.not_lt.mpr (le_log2_mul_pow10 hb k)),
    if_neg (Nat.not_lt.mpr (log2_mul_le hb hne)), if_pos hk, ← hmultiple, beq_self_eq_true]
  cases Limbs.isMultiple? (pow10 k) (Limbs.ofNat (b * pow10 k)) (Limbs.ofNat b) 0 with
  | none => simp
  | some answer => simp

/-- A decimal compares equal with itself. -/
theorem comparesEqual_self (d : Decimal) : d.comparesEqual d = true := by
  by_cases hzero : d.coefficient = 0
  · simp [comparesEqual, hzero]
  · have hne : d.coefficient.natAbs ≠ 0 := Int.natAbs_ne_zero.mpr hzero
    have hshifted := (isShifted_mul_pow10 hne (by decide : 0 < 20)).mpr
      (Limbs.not_overflows_of_hasRoom (Limbs.hasRoom_pow10 (by decide)) _)
    simpa [comparesEqual, hzero, pow10] using hshifted

/-- The number `c` at scale zero against `c · 10 ^ (-scale)` written out. -/
theorem comparesEqual_mul_pow10 {c : Int} (hc : c ≠ 0) {scale : Int64} (h : scale.toInt < 0) :
    comparesEqual ⟨c * (pow10 (-scale.toInt).toNat : Nat), 0⟩ ⟨c, scale⟩ =
      isShifted (c.natAbs * pow10 (-scale.toInt).toNat) c.natAbs (-scale.toInt).toNat := by
  have hpos : (0 : Int) < (pow10 (-scale.toInt).toNat : Nat) := Int.natCast_pos.mpr (pow10_pos _)
  have hsign : (c * (pow10 (-scale.toInt).toNat : Nat)).sign = c.sign := by
    rw [Int.sign_mul, Int.sign_eq_one_of_pos hpos, Int.mul_one]
  have hne : c * (pow10 (-scale.toInt).toNat : Nat) ≠ 0 :=
    Int.mul_ne_zero hc (Int.ne_of_gt hpos)
  have hzero : (0 : Int64).toInt = 0 := rfl
  have hshift : ((0 : Int) - scale.toInt).natAbs = (-scale.toInt).toNat := by omega
  rw [comparesEqual]
  simp only [hsign, hne, hzero, hshift, Int.le_of_lt h, Int.natAbs_mul, Int.natAbs_natCast,
    ne_eq, not_true_eq_false, if_false, if_true]

/-- A decimal of scale -10 whose comparison with the same number at scale zero
loses a carry. -/
def LosesCarry (d : Decimal) : Prop :=
  d.scale = -10 ∧ Limbs.Overflows (pow10 10) d.coefficient.natAbs 0

/-- What is read back from the text of a decimal compares equal to it exactly if
no carry is lost. -/
theorem comparesEqual_reread (d : Decimal) :
    d.reread.comparesEqual d = true ↔ ¬ d.LosesCarry := by
  by_cases hzero : d.coefficient = 0
  · have hnone : ¬ d.LosesCarry := by
      rintro ⟨-, hoverflow⟩
      rw [hzero] at hoverflow
      exact Limbs.not_overflows_zero (pow2_pos 64) hoverflow
    simp [reread, comparesEqual, hzero, hnone]
  · rw [reread, if_neg hzero]
    split
    · next h =>
        have hshifted := isShifted_mul_pow10 (Int.natAbs_ne_zero.mpr hzero)
          (by omega : (-d.scale.toInt).toNat < 20)
        rw [← comparesEqual_mul_pow10 hzero h.2] at hshifted
        refine hshifted.trans (not_congr ?_)
        by_cases hten : d.scale = -10
        · rw [LosesCarry, hten]
          exact ⟨fun hoverflow => ⟨rfl, hoverflow⟩, And.right⟩
        · have hpower : (-d.scale.toInt).toNat ≠ 10 := by
            intro heq
            have hscale : d.scale.toInt = (-10 : Int64).toInt := by
              rw [show (-10 : Int64).toInt = -10 from rfl]
              omega
            exact hten (Int64.toInt_inj.mp hscale)
          exact iff_of_false (Limbs.not_overflows_of_hasRoom (Limbs.hasRoom_pow10 hpower) _)
            fun hloses => hten hloses.1
    · next h =>
        have hnone : ¬ d.LosesCarry := by
          rintro ⟨hten, -⟩
          rw [hten] at h
          exact h (by decide)
        exact iff_of_true d.comparesEqual_self hnone

end Decimal

end RelSearch
