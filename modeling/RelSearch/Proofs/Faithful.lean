import RelSearch.Proofs.DayNumber
import RelSearch.Proofs.DecimalEquality
import RelSearch.Scalar

/-!
# RelSearch.Proofs.Faithful

What a scalar becomes in a search document tells which scalar it was.

1. Integers, booleans and null stay what they are, and the texts of strings,
   identifiers, dates and instants can be read back.
2. The text of a decimal is a numeral for its number and for no other
   (`Decimal.denotes_text_iff`), and a text in normal form belongs to one normal form only
   (`Decimal.normalized_eq_of_text_eq`). So decimals become the same exactly if they are the
   same number, as long as no scale leaves its 64 bits.

Equality of scalars says the same as equality of what they become, except where the
comparison of two decimals loses a carry.
-/

namespace RelSearch

namespace Decimal

/-! ## Numerals -/

/-- A text is a numeral for `q`: a minus sign or none, digits with or without a point, and
with or without an exponent. -/
def Denotes (cs : List Char) (q : ℚ) : Prop :=
  ∃ negative ds n scale, cs = signText negative ++ ds ∧ Spells ds n scale ∧
    q = signedValue negative n * 10 ^ (-scale)

/-- A decimal that is made from a coefficient and a scale is their number. -/
theorem value_of? {coefficient scale : Int} {d : Decimal} (h : of? coefficient scale = some d) :
    d.value = coefficient * 10 ^ (-scale) := by
  rw [of?] at h
  split at h
  · next hrange =>
      obtain rfl := Option.some.inj h
      rw [value, Int64.toInt_ofInt_of_le hrange.1 (Int.lt_add_one_of_le hrange.2)]
  · cases h

/-- A decimal that has been reread is the same number. -/
theorem value_reread (d : Decimal) : d.reread.value = d.value := by
  rw [reread]
  split
  · next hzero => rw [value_of_coefficient_eq_zero rfl, value_of_coefficient_eq_zero hzero]
  · split
    · next hfilled =>
        have hscale : ((-d.scale.toInt).toNat : ℤ) - (0 : Int64).toInt = -d.scale.toInt := by
          rw [Int64.toInt_zero]
          omega
        rw [value_mul_pow10, hscale, value]
    · rfl

/-- The text of a decimal spells a coefficient and a scale. -/
theorem exists_spells_text (d : Decimal) :
    ∃ negative ds n scale, d.text = signText negative ++ ds ∧ Spells ds n scale := by
  by_cases hzero : d.coefficient = 0
  · exact ⟨false, ['0'], 0, 0, if_pos hzero, .mk ['0'] [] [] (by simp) (by simp) (by simp) .none
      rfl rfl rfl⟩
  · by_cases hfilled : -15 ≤ d.scale.toInt ∧ d.scale.toInt < 0
    · exact ⟨_, _, _, _, text_eq hzero, spells_magnitudeText_filled _ hfilled⟩
    · exact ⟨_, _, _, _, text_eq hzero, spells_magnitudeText _ (by omega)⟩

/-- **Numerals**: the text of a decimal denotes its number, and no other. -/
theorem denotes_text_iff (d : Decimal) (q : ℚ) : Denotes d.text q ↔ q = d.value := by
  -- what a numeral denotes is the number of what is read from it
  have hread : ∀ {negative ds n scale}, d.text = signText negative ++ ds → Spells ds n scale →
      (signedValue negative n : ℚ) * 10 ^ (-scale) = d.value := by
    intro negative ds n scale htext hspells
    have hof := ofText?_of_spells hspells negative
    rw [← htext, ofText?_text] at hof
    rw [← value_of? hof.symm, value_reread]
  constructor
  · rintro ⟨negative, ds, n, scale, htext, hspells, rfl⟩
    exact hread htext hspells
  · rintro rfl
    obtain ⟨negative, ds, n, scale, htext, hspells⟩ := exists_spells_text d
    exact ⟨negative, ds, n, scale, htext, hspells, (hread htext hspells).symm⟩

/-! ## Normal forms -/

/-- Taking the zeros off the coefficient leaves a scale of 64 bits. -/
def KeepsScale (d : Decimal) : Prop :=
  d.coefficient ≠ 0 →
    Int64.minValue.toInt ≤ d.scale.toInt - trailingZeros d.coefficient.natAbs

/-- A scale is kept if the zeros behind the coefficient do not take it below its range. -/
theorem keepsScale_mul_pow10 {m : Int} (hm : ¬ 10 ∣ m) {k : Nat} {s : Int64}
    (h : Int64.minValue.toInt ≤ s.toInt - k) : KeepsScale ⟨m * (pow10 k : Nat), s⟩ := by
  intro _
  rwa [trailingZeros_natAbs_mul_pow10 hm]

/-- Normalizing keeps the number, unless the scale wraps around. -/
theorem value_normalized {d : Decimal} (h : d.KeepsScale) : d.normalized.value = d.value := by
  obtain ⟨c, s⟩ := d
  by_cases hzero : c = 0
  · rw [(normalized_eq_zero_iff _).mpr hzero, value_of_coefficient_eq_zero rfl,
      value_of_coefficient_eq_zero hzero]
  · have hlow := h hzero
    obtain ⟨m, k, hm, rfl⟩ := exists_eq_mul_pow10 hzero
    have hhigh : s.toInt - k < 2 ^ 63 := by
      have := s.toInt_lt
      omega
    rw [trailingZeros_natAbs_mul_pow10 hm] at hlow
    rw [normalized_mul_pow10 hm, sub_ofNat, value_mul_pow10, value,
      Int64.toInt_ofInt_of_le hlow hhigh, neg_sub]

theorem normalized_normalized (d : Decimal) : d.normalized.normalized = d.normalized := by
  obtain ⟨c, s⟩ := d
  by_cases hzero : c = 0
  · have hnormal : normalized ⟨c, s⟩ = ⟨0, 0⟩ := (normalized_eq_zero_iff _).mpr hzero
    rw [hnormal]
    rfl
  · obtain ⟨m, k, hm, rfl⟩ := exists_eq_mul_pow10 hzero
    have hnone := normalized_mul_pow10 hm 0 (s - Int64.ofNat k)
    rw [pow10_zero, Nat.cast_one, mul_one] at hnone
    rw [normalized_mul_pow10 hm, hnone]
    simp

/-- A text in normal form tells the normal form. -/
theorem normalized_eq_of_text_eq {x y : Decimal} (h : x.normalized.text = y.normalized.text) :
    x.normalized = y.normalized := by
  have hvalue : x.normalized.value = y.normalized.value := by
    rw [← denotes_text_iff, ← h, denotes_text_iff]
  rw [← normalized_normalized x, ← normalized_normalized y, normalized_eq_of_value_eq hvalue]

/-- Where no scale wraps around, normal forms tell numbers apart. -/
theorem normalized_eq_iff_value_eq {x y : Decimal} (hx : x.KeepsScale) (hy : y.KeepsScale) :
    x.normalized = y.normalized ↔ x.value = y.value := by
  refine ⟨fun h => ?_, normalized_eq_of_value_eq⟩
  rw [← value_normalized hx, h, value_normalized hy]

end Decimal

/-! ## Scalars -/

/-- A text that can be read back tells what it was written for. -/
theorem text_inj_of_read {α : Type} {write : α → List Char} {read : List Char → Option α}
    (h : ∀ a, read (write a) = some a) {a b : α} : write a = write b ↔ a = b := by
  refine ⟨fun hab => Option.some.inj ?_, congrArg write⟩
  rw [← h a, hab, h b]

namespace Scalar

/-- Whether two scalars are of the same type. -/
def sameType : Scalar → Scalar → Bool
  | .int _, .int _ | .uint _, .uint _ | .float _, .float _ | .decimal _, .decimal _
  | .string _, .string _ | .boolean _, .boolean _ | .uuid _, .uuid _ | .date _, .date _
  | .timestamp _, .timestamp _ | .null, .null => true
  | _, _ => false

def isFloat : Scalar → Bool
  | .float _ => true
  | _ => false

/-- Nothing is lost where two scalars are written and compared: decimals keep their scales
and their carries. -/
def LosesNothing : Scalar → Scalar → Prop
  | .decimal x, .decimal y => x.KeepsScale ∧ y.KeepsScale ∧ x.KeepsCarry y
  | _, _ => True

theorem isSome_json? {v : Scalar} (h : v.isFloat = false) : v.json?.isSome = true := by
  cases v with
  | float x => cases h
  | _ => rfl

/-- Documents tell decimals apart by their normal forms. -/
theorem json?_decimal_inj (x y : Decimal) :
    (decimal x).json? = (decimal y).json? ↔ x.normalized = y.normalized := by
  simp only [json?, text, chars, Option.some.injEq, Json.string.injEq, String.ofList_inj]
  exact ⟨Decimal.normalized_eq_of_text_eq, fun h => by rw [h]⟩

/-- Documents tell dates apart. -/
theorem json?_date_inj (d d' : Date) : (date d).json? = (date d').json? ↔ d = d' := by
  simp [json?, text, chars, String.ofList_inj, text_inj_of_read Date.ofText?_text]

/-- Documents tell instants apart. -/
theorem json?_timestamp_inj (t t' : Timestamp) :
    (timestamp t).json? = (timestamp t').json? ↔ t = t' := by
  simp [json?, text, chars, String.ofList_inj, text_inj_of_read Timestamp.ofText?_text]

/-- Scalars of one type become the same exactly if they are equal, where nothing is lost. -/
theorem json?_inj {v w : Scalar} (htype : v.sameType w = true) (hfloat : v.isFloat = false)
    (hkeeps : v.LosesNothing w) : v.json? = w.json? ↔ (v == w) = true := by
  change _ ↔ v.beq w = true
  fun_cases sameType v w with
  | case1 a b => simp [json?, Scalar.beq, Json.int, Int64.toInt_inj]
  | case2 a b => simp [json?, Scalar.beq, Json.int, UInt64.toNat_inj]
  | case3 x y => cases hfloat
  | case4 x y =>
      obtain ⟨hx, hy, hcarry⟩ := hkeeps
      rw [json?_decimal_inj, Decimal.normalized_eq_iff_value_eq hx hy]
      exact (Decimal.comparesEqual_iff_value_eq hcarry).symm
  | case5 s t => simp [json?, Scalar.beq, text, chars]
  | case6 a b => simp [json?, Scalar.beq]
  | case7 u u' =>
      simp [json?, Scalar.beq, text, chars, String.ofList_inj, text_inj_of_read Uuid.ofText?_text]
  | case8 d d' => simp [Scalar.beq, json?_date_inj]
  | case9 t t' => simp [Scalar.beq, json?_timestamp_inj]
  | case10 => simp [Scalar.beq]
  | case11 => simp_all [sameType]

/-- **Faithful documents**: scalars of one type that are not floats become the same exactly
if they are equal, where nothing is lost. For decimals it is said what may be lost: they
become the same exactly if they are the same number, up to scales that wrap around, and
equal numbers are equal scalars exactly if the comparison keeps its carries. The text of a
decimal denotes its number and no other. Dates and instants become the same only if they
are the same day, and the same second with the same nanoseconds. -/
theorem documents_faithful {v w : Scalar} (htype : v.sameType w = true)
    (hfloat : v.isFloat = false) :
    v.json?.isSome = true ∧ (v.LosesNothing w → (v.json? = w.json? ↔ (v == w) = true)) ∧
    (∀ x y : Decimal, v = decimal x → w = decimal y →
      (v.json? = w.json? ↔ ∃ j : ℤ, x.value = y.value * 10 ^ (Int64.size * j)) ∧
      (x.KeepsScale → y.KeepsScale → (v.json? = w.json? ↔ x.value = y.value)) ∧
      (x.value = y.value → ((v == w) = true ↔ x.KeepsCarry y)) ∧
      (x.KeepsScale → ∃ cs, v.json? = some (.string (String.ofList cs)) ∧
        ∀ q, Decimal.Denotes cs q ↔ q = x.value)) ∧
    (∀ (n n' : Int) (d d' : Date), v = date d → w = date d' → Date.ofDayNumber? n = some d →
      Date.ofDayNumber? n' = some d' → (v.json? = w.json? ↔ n = n')) ∧
    (∀ (s s' : Int) (n n' : Nat) (t t' : Timestamp), v = timestamp t → w = timestamp t' →
      Timestamp.ofUnix? s n = some t → Timestamp.ofUnix? s' n' = some t' →
      (v.json? = w.json? ↔ s = s' ∧ n = n')) := by
  refine ⟨isSome_json? hfloat, json?_inj htype hfloat, ?_, ?_, ?_⟩
  · rintro x y rfl rfl
    refine ⟨?_, fun hx hy => ?_, Decimal.comparesEqual_iff_keepsCarry, fun hx => ?_⟩
    · rw [json?_decimal_inj, Decimal.normalized_eq_iff]
    · rw [json?_decimal_inj, Decimal.normalized_eq_iff_value_eq hx hy]
    · refine ⟨x.normalized.text, rfl, fun q => ?_⟩
      rw [Decimal.denotes_text_iff, Decimal.value_normalized hx]
  · rintro n n' d d' rfl rfl hd hd'
    rw [json?_date_inj, Date.ofDayNumber?_inj hd hd']
  · rintro s s' n n' t t' rfl rfl ht ht'
    rw [json?_timestamp_inj, Timestamp.ofUnix?_inj ht ht']

/-- A leap second and the second behind it become different texts, as do the first day of
the calendar and another one. A decimal with sixteen zeros behind its digit becomes `1e+16`,
with the zeros in the coefficient or in the scale. -/
theorem documents_faithful_leap :
    let x : Decimal := ⟨10000000000000000, 0⟩
    let y : Decimal := ⟨1, -16⟩
    let leap : Timestamp := ⟨⟨2016, 12, 31, by decide⟩, 86399, 1000000000, by decide⟩
    let behind : Timestamp := ⟨⟨2017, 1, 1, by decide⟩, 0, 0, by decide⟩
    let first : Date := ⟨-262143, 1, 1, by decide⟩
    let epoch : Date := ⟨1970, 1, 1, by decide⟩
    (x.KeepsScale ∧ y.KeepsScale ∧ x.KeepsCarry y ∧ x.value = y.value) ∧
      ((decimal x).json? = (decimal y).json? ∧ (decimal x == decimal y) = true) ∧
      ((decimal y).json? = some (.string "1e+16") ∧ Decimal.Denotes "1e+16".toList y.value) ∧
      (Timestamp.ofUnix? 1483228799 1000000000 = some leap ∧
        Timestamp.ofUnix? 1483228800 0 = some behind ∧
        (timestamp leap).json? ≠ (timestamp behind).json?) ∧
      (Date.ofDayNumber? (-96465292) = some first ∧ Date.ofDayNumber? 0 = some epoch ∧
        (date first).json? ≠ (date epoch).json?) := by
  intro x y leap behind first epoch
  have hx : x.KeepsScale := Decimal.keepsScale_mul_pow10 (m := 1) (k := 16) (by decide) (by decide)
  have hy : y.KeepsScale := Decimal.keepsScale_mul_pow10 (m := 1) (k := 0) (by decide) (by decide)
  have hcarry : x.KeepsCarry y := Decimal.keepsCarry_of_scale (by decide)
  have hvalue : x.value = y.value :=
    (Decimal.value_eq_iff_coefficient_eq (k := 16) (by decide)).mpr (by decide)
  have hleap : Timestamp.ofUnix? 1483228799 1000000000 = some leap := by decide
  have hbehind : Timestamp.ofUnix? 1483228800 0 = some behind := by decide
  have hfirst : Date.ofDayNumber? (-96465292) = some first := by decide
  have hepoch : Date.ofDayNumber? 0 = some epoch := by decide
  have hwritten : y.normalized.text = "1e+16".toList := by decide
  have hshown : (decimal y).json? = some (.string "1e+16") := by
    simp [json?, text, chars, hwritten]
  obtain ⟨-, hequal, hdecimals, -, -⟩ :=
    documents_faithful (v := decimal x) (w := decimal y) rfl rfl
  obtain ⟨-, -, hnumerals, -, -⟩ := documents_faithful (v := decimal y) (w := decimal y) rfl rfl
  obtain ⟨-, -, -, hdates, -⟩ := documents_faithful (v := date first) (w := date epoch) rfl rfl
  obtain ⟨-, -, -, -, htimestamps⟩ :=
    documents_faithful (v := timestamp leap) (w := timestamp behind) rfl rfl
  have hjson : (decimal x).json? = (decimal y).json? :=
    ((hdecimals x y rfl rfl).2.1 hx hy).mpr hvalue
  obtain ⟨cs, hcs, hdenotes⟩ := (hnumerals y y rfl rfl).2.2.2 hy
  have hchars : cs = "1e+16".toList := by
    rw [hshown, Option.some.injEq, Json.string.injEq] at hcs
    rw [hcs, String.toList_ofList]
  refine ⟨⟨hx, hy, hcarry, hvalue⟩, ⟨hjson, (hequal ⟨hx, hy, hcarry⟩).mp hjson⟩, ⟨hshown, ?_⟩,
    ⟨hleap, hbehind, fun h => ?_⟩, hfirst, hepoch, fun h => ?_⟩
  · rw [← hchars, hdenotes]
  · exact absurd ((htimestamps _ _ _ _ _ _ rfl rfl hleap hbehind).mp h).1 (by decide)
  · exact absurd ((hdates _ _ _ _ rfl rfl hfirst hepoch).mp h) (by decide)

/-- Two decimals of the same number become the same text, and are not equal: ten zeros
behind the digits make a carry overflow. -/
theorem lost_carry_writes_alike :
    let x : Decimal := ⟨7922816251677867879, -10⟩
    let y : Decimal := ⟨79228162516778678790000000000, 0⟩
    (x.KeepsScale ∧ y.KeepsScale ∧ x.value = y.value) ∧
      (decimal x).json? = (decimal y).json? ∧ (decimal x == decimal y) = false := by
  intro x y
  have hx : x.KeepsScale :=
    Decimal.keepsScale_mul_pow10 (m := 7922816251677867879) (k := 0) (by decide) (by decide)
  have hy : y.KeepsScale :=
    Decimal.keepsScale_mul_pow10 (m := 7922816251677867879) (k := 10) (by decide) (by decide)
  have hvalue : x.value = y.value :=
    ((Decimal.value_eq_iff_coefficient_eq (k := 10) (by decide)).mpr (by decide)).symm
  refine ⟨⟨hx, hy, hvalue⟩, ?_, by decide +kernel⟩
  rw [json?_decimal_inj, Decimal.normalized_eq_iff_value_eq hx hy]
  exact hvalue

end Scalar

end RelSearch
