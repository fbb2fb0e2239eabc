import RelSearch.Calendar.Timestamp
import RelSearch.Number.Decimal
import RelSearch.Proofs.Digits
import RelSearch.Uuid

/-!
# RelSearch.Proofs.ScalarText

The texts of decimals, identifiers, dates and timestamps, and what is read back
from them.

1. An identifier, a date and a timestamp are read back as they were: years with
   and without a sign, fractions of every length, and leap seconds.
2. A decimal is read back as it was, but for two rules of its text. Zeros that
   fill the places up to the point are taken for digits of the coefficient, so
   that the scale becomes zero, and zero is always written `0`. `Decimal.reread`
   is the decimal that comes back; its text is the same.
-/

namespace RelSearch

open Text

/-! ## Decimals -/

namespace Decimal

/-- Digits are read as their number. -/
theorem wholeDigits?_of {ds : List Char} (hne : ds ≠ []) (hds : ∀ c ∈ ds, c.isDigit = true) :
    wholeDigits? ds = some (ofDigits ds) :=
  if_pos ⟨hne, List.all_eq_true.mpr hds⟩

theorem filter_divider {ds : List Char} (hds : ∀ c ∈ ds, c.isDigit = true) :
    ds.filter (· != '_') = ds := by
  rw [List.filter_eq_self]
  intro c hc
  simpa using ne_of_isDigit (hds c hc) rfl

/-- So they are where underscores may stand between them. -/
theorem dividedDigits?_of {ds : List Char} (hne : ds ≠ []) (hds : ∀ c ∈ ds, c.isDigit = true) :
    dividedDigits? ds = some (ofDigits ds) := by
  have hhead : ds.head? ≠ some '_' := by
    intro h
    exact ne_of_isDigit (hds _ (List.mem_of_head? h)) rfl rfl
  rw [dividedDigits?, if_neg hhead, filter_divider hds, wholeDigits?_of hne hds]

/-- The minus sign of a negative number. -/
def signText (negative : Bool) : List Char := if negative then ['-'] else []

/-- The number of digits with a sign in front. -/
def signedValue (negative : Bool) (n : Nat) : Int := if negative then -(n : Int) else n

/-- A sign in front of digits is read with them. -/
theorem signed?_signText {unsigned : List Char → Option Nat} {ds : List Char} {n : Nat}
    (negative : Bool) (hne : ds ≠ []) (hds : ∀ c ∈ ds, c.isDigit = true)
    (h : unsigned ds = some n) :
    signed? unsigned (signText negative ++ ds) = some (signedValue negative n) := by
  cases negative with
  | true => simp [signText, signed?, signedValue, h]
  | false =>
      obtain ⟨c, cs, rfl⟩ := List.exists_cons_of_ne_nil hne
      have hc : c.isDigit = true := hds c List.mem_cons_self
      have hminus : c ≠ '-' := ne_of_isDigit hc rfl
      have hplus : c ≠ '+' := ne_of_isDigit hc rfl
      simp [signText, signed?, signedValue, hminus, hplus, h]

/-- Digits behind the point; no point without digits. -/
def behindPoint (ds : List Char) : List Char := if ds = [] then [] else '.' :: ds

/-- A text behind the digits spells an exponent, or there is none. -/
inductive SpellsExponent : List Char → Int → Prop
  | none : SpellsExponent [] 0
  | mark {c : Char} {cs : List Char} {e : Int} (hmark : c = 'e' ∨ c = 'E')
      (hcs : signed? wholeDigits? cs = some e) : SpellsExponent (c :: cs) e

/-- A text without a sign spells `n · 10 ^ (-scale)`: digits, a point with digits
behind it, and an exponent, of which the latter two may be missing. -/
inductive Spells (cs : List Char) (n : Nat) (scale : Int) : Prop
  | mk (whole fraction exponent : List Char) {power : Int} (hne : whole ≠ [])
      (hwhole : ∀ c ∈ whole, c.isDigit = true) (hfraction : ∀ c ∈ fraction, c.isDigit = true)
      (hexponent : SpellsExponent exponent power)
      (hcs : cs = whole ++ behindPoint fraction ++ exponent)
      (hn : n = ofDigits (whole ++ fraction)) (hscale : scale = fraction.length - power)

theorem drop_behindPoint (ds : List Char) : (behindPoint ds).drop 1 = ds := by
  rw [behindPoint]
  split
  · next h => rw [h, List.drop_nil]
  · rfl

/-- What stands behind the whole digits starts with a point. -/
theorem head?_behindPoint {ds : List Char} {c : Char} (h : c ∈ (behindPoint ds).head?) :
    c = '.' := by
  rw [behindPoint] at h
  split at h
  · simp at h
  · simpa using h.symm

/-- Nothing but a point and digits stands there. -/
theorem mem_behindPoint {ds : List Char} (hds : ∀ c ∈ ds, c.isDigit = true) {c : Char}
    (h : c ∈ behindPoint ds) : c = '.' ∨ c.isDigit = true := by
  rw [behindPoint] at h
  split at h
  · simp at h
  · rcases List.mem_cons.mp h with rfl | h
    · exact .inl rfl
    · exact .inr (hds c h)

theorem mem_signText {negative : Bool} {c : Char} (h : c ∈ signText negative) : c = '-' := by
  cases negative with
  | true => simpa [signText] using h
  | false => simp [signText] at h

/-- An exponent starts with its letter. -/
theorem SpellsExponent.head? {cs : List Char} {e : Int} (h : SpellsExponent cs e) {c : Char}
    (hc : c ∈ cs.head?) : c = 'e' ∨ c = 'E' := by
  cases h with
  | none => simp at hc
  | mark hmark _ =>
      rw [List.head?_cons, Option.mem_some_iff] at hc
      exact hc ▸ hmark

/-- A spelled number is read back. -/
theorem ofText?_of_spells {cs : List Char} {n : Nat} {scale : Int} (h : Spells cs n scale)
    (negative : Bool) : ofText? (signText negative ++ cs) = of? (signedValue negative n) scale := by
  obtain ⟨whole, fraction, exponent, hne, hwhole, hfraction, hexponent, rfl, rfl, rfl⟩ := h
  -- The parts of the text: sign and digits, the point and its digits, the exponent.
  have hsigned : ∀ c ∈ signText negative ++ whole, c = '-' ∨ c.isDigit = true := fun c hc =>
    (List.mem_append.mp hc).imp mem_signText (hwhole c)
  have hbase : ∀ c ∈ signText negative ++ whole ++ behindPoint fraction,
      (!(c == 'e' || c == 'E')) = true := by
    intro c hc
    have hclass : c = '-' ∨ c = '.' ∨ c.isDigit = true := by
      rcases List.mem_append.mp hc with hc | hc
      · exact (hsigned c hc).imp_right .inr
      · exact .inr (mem_behindPoint hfraction hc)
    rcases hclass with rfl | rfl | hc
    · rfl
    · rfl
    · simp [ne_of_isDigit hc (rfl : 'e'.isDigit = false),
        ne_of_isDigit hc (rfl : 'E'.isDigit = false)]
  have hmark : ∀ c ∈ exponent.head?, (!(c == 'e' || c == 'E')) = false := by
    intro c hc
    rcases hexponent.head? hc with rfl | rfl <;> rfl
  have hfront : ∀ c ∈ signText negative ++ whole, (c != '.') = true := by
    intro c hc
    rcases hsigned c hc with rfl | hc
    · rfl
    · simpa using ne_of_isDigit hc rfl
  have hpoint : ∀ c ∈ (behindPoint fraction).head?, (c != '.') = false := by
    intro c hc
    simp [head?_behindPoint hc]
  have hdigits : ∀ c ∈ whole ++ fraction, c.isDigit = true := fun c hc =>
    (List.mem_append.mp hc).elim (hwhole c) (hfraction c)
  have hne : whole ++ fraction ≠ [] := by simp [hne]
  have hcoefficient := signed?_signText negative hne hdigits (dividedDigits?_of hne hdigits)
  rw [← List.append_assoc] at hcoefficient
  rw [ofText?, ← List.append_assoc, ← List.append_assoc]
  simp only [takeWhile_append_of_stop hbase hmark, dropWhile_append_of_stop hbase hmark,
    takeWhile_append_of_stop hfront hpoint, dropWhile_append_of_stop hfront hpoint,
    drop_behindPoint, hcoefficient, filter_divider hfraction]
  cases hexponent with
  | none => rfl
  | mark _ hcs => simp [hcs]

/-! ### The three layouts -/

/-- Digits with a point behind the first one spell the same digits, scaled down. -/
theorem spells_pointed {ds exponent : List Char} {power : Int} (hne : ds ≠ [])
    (hds : ∀ c ∈ ds, c.isDigit = true) (hexponent : SpellsExponent exponent power) :
    Spells (pointed ds ++ exponent) (ofDigits ds) (ds.length - 1 - power) := by
  obtain ⟨d, ds, rfl⟩ := List.exists_cons_of_ne_nil hne
  have hd : ∀ c ∈ [d], c.isDigit = true := fun c hc =>
    List.mem_singleton.mp hc ▸ hds d List.mem_cons_self
  have hbehind : ∀ c ∈ ds, c.isDigit = true := fun c hc => hds c (List.mem_cons_of_mem d hc)
  refine .mk [d] ds exponent (List.cons_ne_nil d []) hd hbehind hexponent ?_ rfl (by simp)
  cases ds with
  | nil => rfl
  | cons e ds => rfl

/-- Digits with the point among them spell themselves, divided by a power of ten
if the point stands in front of the last one, and multiplied if it stands behind. -/
theorem spells_positional {ds : List Char} (hne : ds ≠ []) (hds : ∀ c ∈ ds, c.isDigit = true)
    (point : Int) :
    Spells (positional ds point) (ofDigits ds * pow10 (point - ds.length).toNat)
      (ds.length - point).toNat := by
  rw [positional]
  split
  · next hfront =>
      have hpower : (point - ds.length).toNat = 0 := by omega
      have hfraction : ∀ c ∈ zeros (-point).toNat ++ ds, c.isDigit = true := fun c hc =>
        (List.mem_append.mp hc).elim isDigit_of_mem_zeros (hds c)
      refine .mk ['0'] (zeros (-point).toNat ++ ds) [] (by simp) (by simp) hfraction .none ?_ ?_ ?_
      · simp [behindPoint, hne]
      · rw [hpower, pow10_zero, Nat.mul_one, ← List.append_assoc]
        exact (ofDigits_zeros_append ((-point).toNat + 1) ds).symm
      · simp only [List.length_append, length_zeros]
        omega
  · next hfront =>
      split
      · next hbehind =>
          have hwhole : ∀ c ∈ ds ++ zeros (point.toNat - ds.length), c.isDigit = true := fun c hc =>
            (List.mem_append.mp hc).elim (hds c) isDigit_of_mem_zeros
          refine .mk (ds ++ zeros (point.toNat - ds.length)) [] [] (by simp [hne]) hwhole (by simp)
            .none ?_ ?_ ?_
          · simp [behindPoint]
          · rw [List.append_nil, ofDigits_append_zeros, Nat.mul_comm]
            congr 2
            omega
          · simp only [List.length_nil]
            omega
      · next hbehind =>
          have hpower : (point - ds.length).toNat = 0 := by omega
          refine .mk (ds.take point.toNat) (ds.drop point.toNat) [] ?_
            (fun c hc => hds c (List.mem_of_mem_take hc))
            (fun c hc => hds c (List.mem_of_mem_drop hc)) .none ?_ ?_ ?_
          · have hlength : 0 < ds.length := List.length_pos_iff.mpr hne
            exact List.ne_nil_of_length_pos (by rw [List.length_take]; omega)
          · have hdrop : ds.drop point.toNat ≠ [] :=
              List.ne_nil_of_length_pos (by rw [List.length_drop]; omega)
            simp [behindPoint, hdrop]
          · rw [hpower, List.take_append_drop, pow10_zero, Nat.mul_one]
          · simp only [List.length_drop]
            omega

/-- The decimal that the text of `d` spells: zeros behind the last digit are
taken for digits, and zero has no scale. -/
def reread (d : Decimal) : Decimal :=
  if d.coefficient = 0 then ⟨0, 0⟩
  else if -15 ≤ d.scale.toInt ∧ d.scale.toInt < 0 then
    ⟨d.coefficient * (pow10 (-d.scale.toInt).toNat : Nat), 0⟩
  else d

theorem wholeDigits?_digits (k : Nat) : wholeDigits? (digits k) = some k := by
  rw [wholeDigits?_of (digits_ne_nil k) fun _ => isDigit_of_mem_digits, ofDigits_digits]

theorem spellsExponent_minus (k : Nat) : SpellsExponent ('E' :: '-' :: digits k) (-k) :=
  .mark (.inr rfl) (by simp [signed?, wholeDigits?_digits])

theorem spellsExponent_plus (k : Nat) : SpellsExponent ('e' :: '+' :: digits k) k :=
  .mark (.inl rfl) (by simp [signed?, wholeDigits?_digits])

/-- A text without filling zeros spells its digits at their scale. -/
theorem spells_magnitudeText (n : Nat) {scale : Int} (h : scale < -15 ∨ 0 ≤ scale) :
    Spells (magnitudeText (digits n) scale) n scale := by
  have hds : ∀ c ∈ digits n, c.isDigit = true := fun _ => isDigit_of_mem_digits
  rw [magnitudeText]
  split
  · next hsmall =>
      have hspells := spells_pointed (digits_ne_nil n) hds
        (spellsExponent_minus (scale - (digits n).length + 1).toNat)
      have hscale : ((digits n).length : Int) - 1 - -((scale - (digits n).length + 1).toNat : Int) =
          scale := by omega
      rwa [ofDigits_digits, hscale] at hspells
  · split
    · next hlarge =>
        refine .mk (digits n) [] _ (digits_ne_nil n) hds (by simp)
          (spellsExponent_plus (-scale).toNat) ?_ ?_ ?_
        · simp [behindPoint]
        · rw [List.append_nil, ofDigits_digits]
        · simp only [List.length_nil]
          omega
    · have hspells := spells_positional (digits_ne_nil n) hds ((digits n).length - scale)
      have hpower : ((digits n).length - scale - (digits n).length).toNat = 0 := by omega
      have hscale : (((digits n).length - ((digits n).length - scale)).toNat : Int) = scale := by
        omega
      rwa [ofDigits_digits, hpower, pow10_zero, Nat.mul_one, hscale] at hspells

/-- A text with filling zeros spells the product, at scale zero. -/
theorem spells_magnitudeText_filled (n : Nat) {scale : Int} (h : -15 ≤ scale ∧ scale < 0) :
    Spells (magnitudeText (digits n) scale) (n * pow10 (-scale).toNat) 0 := by
  have hds : ∀ c ∈ digits n, c.isDigit = true := fun _ => isDigit_of_mem_digits
  rw [magnitudeText, if_neg (by omega), if_neg (by omega)]
  have hspells := spells_positional (digits_ne_nil n) hds ((digits n).length - scale)
  have hpower : ((digits n).length - scale - (digits n).length).toNat = (-scale).toNat := by omega
  have hscale : (((digits n).length - ((digits n).length - scale)).toNat : Int) = 0 := by omega
  rwa [ofDigits_digits, hpower, hscale] at hspells

/-- A scale is in its own range. -/
theorem of?_toInt (coefficient : Int) (scale : Int64) :
    of? coefficient scale.toInt = some ⟨coefficient, scale⟩ := by
  rw [of?, if_pos ⟨scale.minValue_le_toInt, scale.toInt_le⟩, Int64.ofInt_toInt]

/-- The text of a decimal that is not zero is its sign and its magnitude. -/
theorem text_eq {d : Decimal} (h : d.coefficient ≠ 0) :
    d.text = signText (d.coefficient < 0) ++
      magnitudeText (digits d.coefficient.natAbs) d.scale.toInt := by
  by_cases hnegative : d.coefficient < 0 <;> simp [text, signText, h, hnegative]

/-- A sign and a magnitude make up an integer. -/
theorem signedValue_natAbs (c : Int) : signedValue (c < 0) c.natAbs = c := by
  by_cases h : c < 0
  · rw [signedValue, if_pos (decide_eq_true h), Int.ofNat_natAbs_of_nonpos (Int.le_of_lt h),
      Int.neg_neg]
  · rw [signedValue, if_neg fun hlt => h (of_decide_eq_true hlt),
      Int.natAbs_of_nonneg (Int.not_lt.mp h)]

theorem signedValue_mul (negative : Bool) (n m : Nat) :
    signedValue negative (n * m) = signedValue negative n * m := by
  cases negative with
  | false => exact Int.natCast_mul n m
  | true =>
      rw [signedValue, signedValue, if_pos rfl, if_pos rfl, Int.natCast_mul, Int.neg_mul]

/-- Reading the text of a decimal back. -/
theorem ofText?_text (d : Decimal) : ofText? d.text = some d.reread := by
  by_cases hzero : d.coefficient = 0
  · rw [text, if_pos hzero, reread, if_pos hzero]
    rfl
  · rw [text_eq hzero, reread, if_neg hzero]
    split
    · next h =>
        rw [ofText?_of_spells (spells_magnitudeText_filled _ h), signedValue_mul,
          signedValue_natAbs]
        exact of?_toInt _ 0
    · next h =>
        rw [ofText?_of_spells (spells_magnitudeText _ (by omega)), signedValue_natAbs, of?_toInt]

/-- Zeros that fill a text up to the point are written as digits at scale zero. -/
theorem magnitudeText_filled {n : Nat} (hn : n ≠ 0) {scale : Int} (h : -15 ≤ scale ∧ scale < 0) :
    magnitudeText (digits (n * pow10 (-scale).toNat)) 0 = magnitudeText (digits n) scale := by
  have hpositional : ∀ (ds : List Char) (scale : Int), -15 ≤ scale → scale ≤ 0 → ds ≠ [] →
      magnitudeText ds scale = ds ++ zeros (-scale).toNat := by
    intro ds scale hlow hhigh hne
    have hlength : 0 < ds.length := List.length_pos_iff.mpr hne
    rw [magnitudeText, if_neg (by omega), if_neg (by omega), positional, if_neg (by omega),
      if_pos (by omega)]
    congr 2
    omega
  rw [hpositional _ 0 (by decide) (by decide) (digits_ne_nil _),
    hpositional _ scale h.1 (Int.le_of_lt h.2) (digits_ne_nil n), digits_mul_pow10 hn,
    List.append_assoc]
  simp [zeros]

/-- A decimal that has been reread is written the same. -/
theorem text_reread (d : Decimal) : d.reread.text = d.text := by
  by_cases hzero : d.coefficient = 0
  · rw [reread, if_pos hzero, text, text, if_pos hzero, if_pos rfl]
  · rw [reread, if_neg hzero]
    split
    · next h =>
        have hpos : (0 : Int) < (pow10 (-d.scale.toInt).toNat : Nat) :=
          Int.natCast_pos.mpr (pow10_pos _)
        have hne : d.coefficient * (pow10 (-d.scale.toInt).toNat : Nat) ≠ 0 :=
          Int.mul_ne_zero hzero (Int.ne_of_gt hpos)
        have hsign : d.coefficient * (pow10 (-d.scale.toInt).toNat : Nat) < 0 ↔
            d.coefficient < 0 :=
          ⟨fun hlt => Int.not_le.mp fun hle =>
            Int.not_le.mpr hlt (Int.mul_nonneg hle (Int.le_of_lt hpos)),
            fun hlt => Int.mul_neg_of_neg_of_pos hlt hpos⟩
        rw [text_eq hzero, text_eq hne]
        simp only [hsign, Int.natAbs_mul, Int.natAbs_natCast]
        exact congrArg _ (magnitudeText_filled (Int.natAbs_ne_zero.mpr hzero) h)
    · rfl

end Decimal

/-! ## Identifiers -/

namespace Uuid

/-- Four hyphens stand among the digits. -/
theorem length_hyphenated {ds : List Char} (h : ds.length = 32) :
    (hyphenated ds).length = 36 := by
  simp [hyphenated, h]

/-- Taking the hyphens out again gives the digits back. -/
theorem ofHyphenated?_hyphenated {ds : List Char} (h : ds.length = 32) :
    ofHyphenated? (hyphenated ds) = ofHex? ds := by
  have hgroup : ∀ n, (ds.drop n).take 4 ++ ds.drop (n + 4) = ds.drop n := by
    intro n
    rw [← List.drop_drop, List.take_append_drop]
  have hgroups : ds.take 8 ++ ((ds.drop 8).take 4 ++ ((ds.drop 12).take 4 ++
      ((ds.drop 16).take 4 ++ ds.drop 20))) = ds := by
    rw [hgroup 16, hgroup 12, hgroup 8, List.take_append_drop]
  have hdigits : (hyphenated ds).take 8 ++ ((hyphenated ds).drop 9).take 4 ++
      ((hyphenated ds).drop 14).take 4 ++ ((hyphenated ds).drop 19).take 4 ++
      (hyphenated ds).drop 24 = ds := by
    simpa [hyphenated, List.take_append, List.drop_append, List.drop_eq_nil_of_le, h] using hgroups
  rw [ofHyphenated?, hdigits, if_pos rfl]

/-- The ninth character of the text is a hyphen, so that it starts with no name. -/
theorem take_hyphenated_ne {ds : List Char} (h : ds.length = 32) :
    ((hyphenated ds).take 9).map Char.toLower ≠ "urn:uuid:".toList := by
  have htake : (hyphenated ds).take 9 = ds.take 8 ++ ['-'] := by
    simp [hyphenated, List.take_append, List.take_take, h]
  intro heq
  have hlast := congrArg List.getLast? heq
  rw [htake] at hlast
  simp at hlast

/-- The digits of an identifier are read back. -/
theorem ofHex?_hexPadded (u : Uuid) : ofHex? (hexPadded 32 u.bits.toNat) = some u := by
  have hlength : (hexPadded 32 u.bits.toNat).length = 32 :=
    length_hexPadded (by decide) u.bits.isLt
  rw [ofHex?, if_pos hlength, Text.ofHex?_hexPadded, Option.map_some, BitVec.ofNat_toNat,
    BitVec.setWidth_eq]

/-- An identifier is read back from its text. -/
theorem ofText?_text (u : Uuid) : ofText? u.text = some u := by
  have hdigits : (hexPadded 32 u.bits.toNat).length = 32 :=
    length_hexPadded (by decide) u.bits.isLt
  have hlength := length_hyphenated hdigits
  rw [text, ofText?, if_neg (by omega), if_neg (by omega), if_neg (take_hyphenated_ne hdigits),
    ofHyphenated?_hyphenated hdigits, ofHex?_hexPadded]

end Uuid

/-! ## Dates -/

namespace Calendar

theorem IsDate.month_lt {year : Int} {month day : Nat} (h : IsDate year month day) :
    month < 100 := by
  obtain ⟨-, -, hday, hdays⟩ := h
  apply Decidable.byContradiction
  intro hmonth
  have hnone : daysIn year month = 0 := by
    unfold daysIn
    split <;> omega
  omega

theorem IsDate.day_lt {year : Int} {month day : Nat} (h : IsDate year month day) : day < 100 := by
  obtain ⟨-, -, -, hdays⟩ := h
  have hmost : daysIn year month ≤ 31 := by
    unfold daysIn
    split
    · split <;> decide
    all_goals decide
  omega

end Calendar

namespace Date

theorem of?_self (d : Date) : of? d.year d.month d.day = some d := dif_pos d.isDate

/-- A year without a sign has a digit in front, and is taken as four digits. -/
theorem scanYear_of_isDigit {c : Char} {cs rest : List Char} {n : Nat} (hc : c.isDigit = true)
    (h : Scan.number (some 4) (c :: cs) = some (n, rest)) :
    scanYear (c :: cs) = some ((n : Int), rest) := by
  rw [scanYear, Scan.bind_of (Scan.blanks_cons (isBlank_of_isDigit hc) cs),
    Scan.bind_of (Scan.peek_cons c cs)]
  refine Scan.apply_of_eq (y := do return ((← Scan.number (some 4) : Nat) : Int)) ?_ ?_
  · split
    · next heq => simp [Option.some.inj heq] at hc
    · next heq => simp [Option.some.inj heq] at hc
    · rfl
  · rw [Scan.bind_of h]
    rfl

/-- A year before year 0 is scanned behind its sign. -/
theorem scanYear_minus {cs rest : List Char} {n : Nat} (h : Scan.number none cs = some (n, rest)) :
    scanYear ('-' :: cs) = some (-(n : Int), rest) := by
  rw [scanYear, Scan.bind_of (Scan.blanks_cons rfl cs), Scan.bind_of (Scan.peek_cons '-' cs)]
  exact (Scan.bind_of (Scan.next_cons '-' cs) _).trans (Scan.bind_of h _)

/-- A year with a plus sign is scanned behind it. -/
theorem scanYear_plus {cs rest : List Char} {n : Nat} (h : Scan.number none cs = some (n, rest)) :
    scanYear ('+' :: cs) = some ((n : Int), rest) := by
  rw [scanYear, Scan.bind_of (Scan.blanks_cons rfl cs), Scan.bind_of (Scan.peek_cons '+' cs)]
  exact (Scan.bind_of (Scan.next_cons '+' cs) _).trans (Scan.bind_of h _)

/-- A year is read back in front of the hyphen that follows it. -/
theorem scanYear_yearText (year : Int) (rest : List Char) :
    scanYear (yearText year ++ '-' :: rest) = some (year, '-' :: rest) := by
  have hends : Scan.EndsDigits ('-' :: rest) := Scan.endsDigits_cons rfl rest
  rw [yearText]
  split
  · next h =>
      have hyear : year.toNat < 10000 := by omega
      have hnumber := Scan.number_padded (by decide : 0 < 4) hyear ('-' :: rest)
      obtain ⟨c, cs, hd⟩ := List.exists_cons_of_ne_nil (padded_ne_nil 4 year.toNat)
      have hc : c.isDigit = true := isDigit_of_mem_padded (hd ▸ List.mem_cons_self)
      rw [hd] at hnumber ⊢
      rw [List.cons_append] at hnumber ⊢
      rw [scanYear_of_isDigit hc hnumber, Int.toNat_of_nonneg h.1]
  · split
    · next hnegative =>
        rw [List.cons_append, scanYear_minus (Scan.number_padded_append hends),
          Int.ofNat_natAbs_of_nonpos (Int.le_of_lt hnegative), Int.neg_neg]
    · next hnegative =>
        rw [List.cons_append, scanYear_plus (Scan.number_padded_append hends),
          Int.natAbs_of_nonneg (Int.not_lt.mp hnegative)]

/-- A month or a day is scanned from two digits. -/
theorem scanPart_padded {n : Nat} (h : n < 100) (rest : List Char) :
    scanPart (padded 2 n ++ rest) = some (n, rest) := by
  rw [scanPart, Scan.bind_of (Scan.blanks_padded 2 n rest)]
  exact Scan.number_padded (by decide) h rest

/-- The text of a date is scanned up to its end, whatever follows. -/
theorem scan_text (d : Date) (rest : List Char) : scan (d.text ++ rest) = some (d, rest) := by
  rw [text, List.append_assoc, List.append_assoc]
  simp only [List.cons_append]
  rw [scan, Scan.bind_of (scanYear_yearText d.year _), Scan.bind_of (Scan.blanks_cons rfl _),
    Scan.bind_of (Scan.char_cons '-' _), Scan.bind_of (scanPart_padded d.isDate.month_lt _),
    Scan.bind_of (Scan.blanks_cons rfl _), Scan.bind_of (Scan.char_cons '-' _),
    Scan.bind_of (scanPart_padded d.isDate.day_lt _), of?_self]
  rfl

/-- A date is read back from its text. -/
theorem ofText?_text (d : Date) : ofText? d.text = some d := by
  have h := d.scan_text []
  rw [List.append_nil] at h
  apply Scan.all_of
  rw [Scan.bind_of h]
  rfl

end Date

namespace Timestamp

theorem of?_self (t : Timestamp) : of? t.date t.second t.nano = some t := dif_pos t.isTime

theorem guarded_of {α : Type} {holds : Bool} (h : holds = true) (a : α) (cs : List Char) :
    guarded holds a cs = some (a, cs) := if_pos h

/-- Up to nine digits behind the point are taken for the fraction that they spell. -/
theorem scanFraction_point {ds rest : List Char} (hds : ∀ c ∈ ds, c.isDigit = true) (hne : ds ≠ [])
    (hlength : ds.length ≤ 9) (hrest : Scan.EndsDigits rest) :
    scanFraction ('.' :: (ds ++ rest)) = some (ofDigits ds * pow10 (9 - ds.length), rest) := by
  rw [scanFraction, Scan.bind_of (Scan.peek_cons '.' _)]
  refine (Scan.bind_of (Scan.next_cons '.' _) _).trans ?_
  rw [Scan.bind_of (Scan.digits_append_of_le hds hne hlength hrest),
    Scan.bind_of (Scan.takeWhile_of_endsDigits hrest)]
  rfl

/-- A fraction of a second is read back in front of something else than a digit or a point. -/
theorem scanFraction_fractionText {nano : Nat} (h : nano < 1000000000) (rest : List Char) :
    scanFraction (fractionText nano ++ 'Z' :: rest) = some (nano, 'Z' :: rest) := by
  have hends : Scan.EndsDigits ('Z' :: rest) := Scan.endsDigits_cons rfl rest
  have hpoint : ∀ width n, 0 < width → width ≤ 9 → n < pow10 width → n * pow10 (9 - width) = nano →
      scanFraction ('.' :: (padded width n ++ 'Z' :: rest)) = some (nano, 'Z' :: rest) := by
    intro width n hpos hwidth hn hnano
    have hlength := length_padded hpos hn
    rw [scanFraction_point (fun _ => isDigit_of_mem_padded) (padded_ne_nil width n)
      (by omega) hends, hlength, ofDigits_padded, hnano]
  rw [fractionText]
  split
  · next hzero =>
      rw [hzero]
      rfl
  · split
    · next hmilli =>
        exact hpoint 3 (nano / 1000000) (by decide) (by decide) (Nat.div_lt_of_lt_mul h)
          (by simp [pow10]; omega)
    · split
      · next hmicro =>
          exact hpoint 6 (nano / 1000) (by decide) (by decide) (Nat.div_lt_of_lt_mul h)
            (by simp [pow10]; omega)
      · exact hpoint 9 nano (by decide) (by decide) h (Nat.mul_one nano)

/-- A clock time is read back; its second 60 is the leap second of the minute. -/
theorem scanTime_clock {hour minute second nano : Nat} (hhour : hour < 24) (hminute : minute < 60)
    (hsecond : second ≤ 60) (hnano : nano < 1000000000) (rest : List Char) :
    scanTime (padded 2 hour ++ ':' :: (padded 2 minute ++ ':' :: (padded 2 second ++
        (fractionText nano ++ 'Z' :: rest)))) =
      some (if second = 60 then (hour * 3600 + minute * 60 + 59, nano + 1000000000)
        else (hour * 3600 + minute * 60 + second, nano), 'Z' :: rest) := by
  rw [scanTime, Scan.bind_of (Date.scanPart_padded (by omega) _),
    Scan.bind_of (Scan.blanks_cons rfl _), Scan.bind_of (Scan.char_cons ':' _),
    Scan.bind_of (Date.scanPart_padded (by omega) _),
    Scan.bind_of (Scan.blanks_cons rfl _), Scan.bind_of (Scan.char_cons ':' _),
    Scan.bind_of (Date.scanPart_padded (by omega) _),
    Scan.bind_of (scanFraction_fractionText hnano rest),
    Scan.bind_of (Scan.blanks_cons rfl rest)]
  exact guarded_of (by simp [hhour, hminute, hsecond]) _ _

/-- A clock that shows universal time names the instant itself. -/
theorem ofLocal?_self (t : Timestamp) : ofLocal? t.date t.second t.nano 0 = some t := by
  have hsecond : t.second < 86400 := t.isTime.1
  have hlow : ¬ (t.second : Int) < 0 := by omega
  have hhigh : ¬ (86400 : Int) ≤ t.second := by omega
  have hmod : ((t.second : Int) % 86400).toNat = t.second := by omega
  simp [ofLocal?, hlow, hhigh, hmod, of?_self]

/-- The second that a clock shows: 60 in a leap second. -/
def clockSecond (t : Timestamp) : Nat := t.second % 60 + (if 1000000000 ≤ t.nano then 1 else 0)

/-- The nanoseconds behind the second that a clock shows. -/
def clockNano (t : Timestamp) : Nat :=
  if 1000000000 ≤ t.nano then t.nano - 1000000000 else t.nano

/-- The text of an instant: its date, the time of a clock, a fraction and the zone. -/
theorem text_eq (t : Timestamp) :
    t.text = t.date.text ++ 'T' :: (padded 2 (t.second / 3600) ++ ':' ::
      (padded 2 (t.second / 60 % 60) ++ ':' :: (padded 2 t.clockSecond ++
        (fractionText t.clockNano ++ ['Z'])))) := by
  simp [text, clockSecond, clockNano]

/-- A clock shows 60 at most, and that in a leap second. -/
theorem clockSecond_le (t : Timestamp) : t.clockSecond ≤ 60 := by
  rw [clockSecond]
  split <;> omega

/-- The fraction on a clock is below a second. -/
theorem clockNano_lt (t : Timestamp) : t.clockNano < 1000000000 := by
  have hnano : t.nano < 2000000000 := t.isTime.2.1
  rw [clockNano]
  split <;> omega

/-- The clock shows 60 in a leap second only, and so tells the instant. -/
theorem clock_eq (t : Timestamp) :
    (if t.clockSecond = 60 then
      (t.second / 3600 * 3600 + t.second / 60 % 60 * 60 + 59, t.clockNano + 1000000000)
    else (t.second / 3600 * 3600 + t.second / 60 % 60 * 60 + t.clockSecond, t.clockNano)) =
      (t.second, t.nano) := by
  obtain ⟨hday, -, hleap⟩ := t.isTime
  by_cases h : 1000000000 ≤ t.nano
  · have hlast := hleap h
    have hsecond : t.clockSecond = 60 := by simp [clockSecond, h, hlast]
    have hwhole : t.second / 3600 * 3600 + t.second / 60 % 60 * 60 + 59 = t.second := by omega
    rw [if_pos hsecond, clockNano, if_pos h, hwhole, Nat.sub_add_cancel h]
  · have hsecond : t.clockSecond = t.second % 60 := by simp [clockSecond, h]
    have hwhole : t.second / 3600 * 3600 + t.second / 60 % 60 * 60 + t.second % 60 = t.second := by
      omega
    rw [if_neg (by omega), clockNano, if_neg h, hsecond, hwhole]

/-- The text of an instant is scanned as a whole. -/
theorem scan_text (t : Timestamp) : scan t.text = some (t, []) := by
  have hhour : t.second / 3600 < 24 := Nat.div_lt_of_lt_mul t.isTime.1
  have hminute : t.second / 60 % 60 < 60 := Nat.mod_lt _ (by decide)
  have hdivider : ('T' == 'T' || 'T' == 't' || 'T' == ' ') = true := rfl
  rw [text_eq, scan, Scan.bind_of (t.date.scan_text _), Scan.bind_of (Scan.next_cons 'T' _),
    Scan.bind_of (guarded_of hdivider () _),
    Scan.bind_of (scanTime_clock hhour hminute t.clockSecond_le t.clockNano_lt []), clock_eq]
  refine (Scan.bind_of (rfl : scanOffset ['Z'] = some (0, [])) _).trans ?_
  rw [ofLocal?_self]
  rfl

/-- An instant is read back from its text. -/
theorem ofText?_text (t : Timestamp) : ofText? t.text = some t := by
  apply Scan.all_of
  rw [Scan.bind_of t.scan_text]
  rfl

end Timestamp
end RelSearch
