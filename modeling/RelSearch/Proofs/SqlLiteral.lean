import RelSearch.Proofs.Digits
import RelSearch.Quoting

/-!
# RelSearch.Proofs.SqlLiteral

Where the SQL literal of a scalar ends, for a reader that does not know the scalar.

1. A string is read from its opening quote to the first quote that is not doubled.
   Behind doubled quotes the reader is where it was in front of them
   (`Quoting.scanContent_doubled`), whatever follows, so nothing inside a string can end it.
2. Numbers, booleans and `NULL` are written without quotes. Their texts have digits,
   signs, points, exponents and letters only.
-/

namespace RelSearch

/-- Scalars that SQL has as strings. -/
def Scalar.isSqlString : Scalar → Bool
  | .string _ | .uuid _ | .date _ | .timestamp _ => true
  | _ => false

/-! ## Strings -/

namespace Quoting

/-- Reads the content of a string behind its opening quote, and returns what follows the
closing one. A doubled quote is one of the content. -/
def scanContent : List Char → Option (List Char × List Char)
  | [] => none
  | '\'' :: '\'' :: cs => (scanContent cs).map fun r => ('\'' :: r.1, r.2)
  | '\'' :: cs => some ([], cs)
  | c :: cs => (scanContent cs).map fun r => (c :: r.1, r.2)

/-- Reads a string from its opening quote on. -/
def scanString : List Char → Option (List Char × List Char)
  | '\'' :: cs => scanContent cs
  | _ => none

/-- A text with its quotes doubled. -/
def doubled (cs : List Char) : List Char :=
  cs.flatMap fun c => if c = '\'' then ['\'', '\''] else [c]

theorem sqlString_eq (cs : List Char) : sqlString cs = '\'' :: (doubled cs ++ ['\'']) := rfl

/-- A character that is no quote is content. -/
theorem scanContent_of_ne {c : Char} (hc : c ≠ '\'') (cs : List Char) :
    scanContent (c :: cs) = (scanContent cs).map fun r => (c :: r.1, r.2) := by
  rw [scanContent]
  · intro cs hquote _
    exact hc hquote
  · exact hc

/-- Doubled quotes are read as the text they stand for, and leave the reader where the
text begins that follows them. -/
theorem scanContent_doubled (cs rest : List Char) :
    scanContent (doubled cs ++ rest) = (scanContent rest).map fun r => (cs ++ r.1, r.2) := by
  induction cs with
  | nil => simp [doubled]
  | cons c cs ih =>
      have hcons : doubled (c :: cs) = (if c = '\'' then ['\'', '\''] else [c]) ++ doubled cs :=
        List.flatMap_cons
      rw [hcons, List.append_assoc]
      split
      · next hc =>
          rw [List.cons_append, List.cons_append, List.nil_append, scanContent, ih, hc,
            Option.map_map]
          rfl
      · next hc =>
          rw [List.cons_append, List.nil_append, scanContent_of_ne hc, ih, Option.map_map]
          rfl

/-- A quote that no other one follows closes the string. -/
theorem scanContent_close {rest : List Char} (h : rest.head? ≠ some '\'') :
    scanContent ('\'' :: rest) = some ([], rest) := by
  cases rest with
  | nil => rfl
  | cons c rest =>
      rw [scanContent]
      rintro cs hcons
      exact h (by rw [hcons, List.head?_cons])

/-- What is left of a text is the end of it. -/
theorem suffix_of_scanContent {cs content rest : List Char}
    (h : scanContent cs = some (content, rest)) : rest <:+ cs := by
  fun_induction scanContent cs generalizing content with
  | case1 => cases h
  | case2 cs ih =>
      obtain ⟨r, hr, heq⟩ := Option.map_eq_some_iff.mp h
      cases heq
      exact (ih hr).trans (List.suffix_append ['\'', '\''] cs)
  | case3 cs _ =>
      cases h
      exact List.suffix_cons '\'' _
  | case4 c cs _ _ ih =>
      obtain ⟨r, hr, heq⟩ := Option.map_eq_some_iff.mp h
      cases heq
      exact (ih hr).trans (List.suffix_cons c cs)

/-- A string is read to its end if no quote follows. -/
theorem scanString_sqlString (cs : List Char) {rest : List Char} (h : rest.head? ≠ some '\'') :
    scanString (sqlString cs ++ rest) = some (cs, rest) := by
  rw [sqlString_eq, List.cons_append, List.append_assoc, scanString, scanContent_doubled,
    List.singleton_append, scanContent_close h, Option.map_some, List.append_nil]

/-- A string is read to its end at least, whatever follows. -/
theorem suffix_of_scanString {cs rest content left : List Char}
    (h : scanString (sqlString cs ++ rest) = some (content, left)) :
    cs <+: content ∧ left <:+ rest := by
  rw [sqlString_eq, List.cons_append, List.append_assoc, scanString, scanContent_doubled,
    List.singleton_append] at h
  obtain ⟨r, hr, heq⟩ := Option.map_eq_some_iff.mp h
  cases heq
  refine ⟨List.prefix_append _ _, ?_⟩
  by_cases hquote : rest.head? = some '\''
  · -- the quote that follows makes one of the content together with the closing one
    obtain ⟨more, rfl⟩ := List.head?_eq_some_iff.mp hquote
    rw [scanContent] at hr
    obtain ⟨s, hs, heq⟩ := Option.map_eq_some_iff.mp hr
    cases heq
    exact (suffix_of_scanContent hs).trans (List.suffix_cons _ more)
  · rw [scanContent_close hquote] at hr
    cases hr
    exact List.suffix_refl rest

end Quoting

/-! ## Numbers -/

namespace Text

/-- The characters of numbers. -/
def isNumeric (c : Char) : Bool := c.isDigit || ['+', '-', '.', 'E', 'e'].contains c

theorem isNumeric_of_isDigit {c : Char} (h : c.isDigit = true) : isNumeric c = true := by
  simp [isNumeric, h]

theorem isNumeric_of_mem_digits {n : Nat} {c : Char} (h : c ∈ digits n) : isNumeric c = true :=
  isNumeric_of_isDigit (isDigit_of_mem_digits h)

/-- Integers are written with digits and a sign. -/
theorem isNumeric_of_mem_integer {n : Int} {c : Char} (h : c ∈ integer n) :
    isNumeric c = true := by
  cases n with
  | ofNat n => exact isNumeric_of_mem_digits h
  | negSucc n =>
      rcases List.mem_cons.mp h with rfl | h
      · rfl
      · exact isNumeric_of_mem_digits h

/-- A point among digits, and the zeros that it may need. -/
theorem isNumeric_of_mem_positional {ds : List Char} (hds : ∀ c ∈ ds, isNumeric c = true)
    {point : Int} {c : Char} (h : c ∈ positional ds point) : isNumeric c = true := by
  have hzeros : ∀ {k : Nat}, c ∈ zeros k → isNumeric c = true := fun h =>
    isNumeric_of_isDigit (isDigit_of_mem_zeros h)
  unfold positional at h
  split at h
  · rcases List.mem_cons.mp h with rfl | h
    · rfl
    rcases List.mem_cons.mp h with rfl | h
    · rfl
    exact (List.mem_append.mp h).elim hzeros (hds c)
  · split at h
    · exact (List.mem_append.mp h).elim (hds c) hzeros
    · rcases List.mem_append.mp h with h | h
      · exact hds c (List.mem_of_mem_take h)
      rcases List.mem_cons.mp h with rfl | h
      · rfl
      exact hds c (List.mem_of_mem_drop h)

theorem isNumeric_of_mem_pointed {ds : List Char} (hds : ∀ c ∈ ds, isNumeric c = true) {c : Char}
    (h : c ∈ pointed ds) : isNumeric c = true := by
  unfold pointed at h
  split at h
  · exact absurd h List.not_mem_nil
  · exact hds c h
  · next d ds _ =>
      rcases List.mem_cons.mp h with rfl | h
      · exact hds c List.mem_cons_self
      rcases List.mem_cons.mp h with rfl | h
      · rfl
      exact hds c (List.mem_cons_of_mem d h)

end Text

open Text

/-- Decimals are written with digits, a sign, a point and an exponent. -/
theorem Decimal.isNumeric_of_mem_text {d : Decimal} {c : Char} (h : c ∈ d.text) :
    isNumeric c = true := by
  have hds : ∀ c ∈ digits d.coefficient.natAbs, isNumeric c = true := fun _ =>
    isNumeric_of_mem_digits
  have hexponent : ∀ {mark sign : Char} {k : Nat}, isNumeric mark = true → isNumeric sign = true →
      c ∈ mark :: sign :: digits k → isNumeric c = true := by
    intro mark sign k hmark hsign h
    rcases List.mem_cons.mp h with rfl | h
    · exact hmark
    rcases List.mem_cons.mp h with rfl | h
    · exact hsign
    exact isNumeric_of_mem_digits h
  have hmagnitude : c ∈ magnitudeText (digits d.coefficient.natAbs) d.scale.toInt →
      isNumeric c = true := by
    intro h
    unfold magnitudeText at h
    split at h
    · exact (List.mem_append.mp h).elim (isNumeric_of_mem_pointed hds) (hexponent rfl rfl)
    · split at h
      · exact (List.mem_append.mp h).elim (hds c) (hexponent rfl rfl)
      · exact isNumeric_of_mem_positional hds h
  unfold text at h
  split at h
  · rw [List.mem_singleton.mp h]
    rfl
  · dsimp only at h
    split at h
    · rcases List.mem_cons.mp h with rfl | h
      · rfl
      exact hmagnitude h
    · exact hmagnitude h

/-- A finite float is written without an exponent. -/
theorem Scalar.isNumeric_of_mem_write {x : Binary64} {c : Char} (h : c ∈ floatStyle.write x) :
    isNumeric c = true := by
  have hmagnitude : ∀ {ds : List Char} {e : Int}, (∀ c ∈ ds, isNumeric c = true) →
      c ∈ floatStyle.writeMagnitude ds e → isNumeric c = true := fun hds h =>
    isNumeric_of_mem_positional hds h
  have hzero : ∀ c ∈ ['0'], isNumeric c = true := fun c hc => List.mem_singleton.mp hc ▸ rfl
  have hvalue : c ∈ (if x.isZero then floatStyle.writeMagnitude ['0'] 0
      else floatStyle.writeMagnitude (digits (x.shortest floatStyle.tie).coefficient)
        (x.shortest floatStyle.tie).exponent) → isNumeric c = true := by
    intro h
    split at h
    · exact hmagnitude hzero h
    · exact hmagnitude (fun _ => isNumeric_of_mem_digits) h
  unfold FloatStyle.write at h
  dsimp only at h
  split at h
  · rcases List.mem_cons.mp h with rfl | h
    · rfl
    exact hvalue h
  · exact hvalue h

namespace Quoting

/-- None of these characters is a quote. -/
theorem ne_quote_of_isNumeric {c : Char} (h : isNumeric c = true) : c ≠ '\'' := by
  rintro rfl
  cases h

/-- No float has a quote in its text, whether it is finite or not. -/
theorem quote_not_mem_floatText (x : Binary64) : '\'' ∉ Scalar.floatText x := by
  unfold Scalar.floatText
  split
  · decide
  · split
    · intro h
      exact ne_quote_of_isNumeric (Scalar.isNumeric_of_mem_write h) rfl
    · split <;> decide

/-- Literals that are not strings have no quotes. -/
theorem quote_not_mem_sqlLiteral {v : Scalar} (h : v.isSqlString = false) :
    '\'' ∉ sqlLiteral v := by
  cases v with
  | int n => exact fun hmem => ne_quote_of_isNumeric (isNumeric_of_mem_integer hmem) rfl
  | uint n => exact fun hmem => ne_quote_of_isNumeric (isNumeric_of_mem_digits hmem) rfl
  | float x => exact quote_not_mem_floatText x
  | decimal d => exact fun hmem => ne_quote_of_isNumeric (Decimal.isNumeric_of_mem_text hmem) rfl
  | boolean b => cases b <;> decide
  | null => decide
  | string s => cases h
  | uuid u => cases h
  | date d => cases h
  | timestamp t => cases h

/-- What is written as a string is its text in quotes. -/
theorem sqlLiteral_of_isSqlString {v : Scalar} (h : v.isSqlString = true) :
    sqlLiteral v = sqlString v.chars := by
  cases v with
  | string s => rfl
  | uuid u => rfl
  | date d => rfl
  | timestamp t => rfl
  | _ => cases h

/-! ## Literals in a text -/

/-- **Closed literals**: a reader that starts at the literal of a string, an identifier, a
date or a timestamp reads its text and stops behind the literal, if no quote follows. If
one does it reads on, but it never stops inside the literal. So different strings have
different literals. All other literals have no quotes. -/
theorem sql_literal_closed :
    (∀ v : Scalar, v.isSqlString = true → ∀ rest : String, rest.toList.head? ≠ some '\'' →
      scanString (sql.quote v ++ rest).toList = some (v.text.toList, rest.toList)) ∧
    (∀ v : Scalar, v.isSqlString = true → ∀ (rest : String) (content left : List Char),
      scanString (sql.quote v ++ rest).toList = some (content, left) →
        v.text.toList <+: content ∧ left <:+ rest.toList) ∧
    (∀ s t : String, sql.quote (.string s) = sql.quote (.string t) → s = t) ∧
    (∀ v : Scalar, v.isSqlString = false → '\'' ∉ (sql.quote v).toList) := by
  have hquote : ∀ (v : Scalar), v.isSqlString = true → ∀ rest : String,
      (sql.quote v ++ rest).toList = sqlString v.chars ++ rest.toList := by
    intro v h rest
    rw [String.toList_append, ← sqlLiteral_of_isSqlString h]
    exact congrArg (· ++ rest.toList) String.toList_ofList
  have htext : ∀ v : Scalar, v.text.toList = v.chars := fun v => String.toList_ofList
  have hclosed : ∀ v : Scalar, v.isSqlString = true → ∀ rest : String,
      rest.toList.head? ≠ some '\'' →
      scanString (sql.quote v ++ rest).toList = some (v.text.toList, rest.toList) := by
    intro v h rest hrest
    rw [hquote v h, htext, scanString_sqlString v.chars hrest]
  refine ⟨hclosed, fun v h rest content left hscan => ?_, fun s t heq => ?_, fun v h => ?_⟩
  · rw [hquote v h] at hscan
    rw [htext]
    exact suffix_of_scanString hscan
  · have hs := hclosed (.string s) rfl "" (by simp)
    rw [heq, hclosed (.string t) rfl "" (by simp)] at hs
    have hchars := congrArg Prod.fst (Option.some.inj hs)
    rw [htext, htext] at hchars
    exact (String.toList_inj.mp hchars).symm
  · have hnone := quote_not_mem_sqlLiteral h
    rwa [show (sql.quote v).toList = sqlLiteral v from String.toList_ofList]

/-- A string that begins and ends with quotes and has a comment inside. -/
theorem sql_literal_closed_comment :
    let v : Scalar := .string "'; --'"
    sql.quote v = "'''; --'''" ∧ v.isSqlString = true ∧ ("; SELECT".toList.head? ≠ some '\'') ∧
      scanString (sql.quote v ++ "; SELECT").toList = some ("'; --'".toList, "; SELECT".toList) ∧
      (Scalar.float ⟨0x3FF8000000000000⟩).isSqlString = false ∧
      '\'' ∉ (sql.quote (.float ⟨0x3FF8000000000000⟩)).toList := by
  have hfloat : (Scalar.float ⟨0x3FF8000000000000⟩).isSqlString = false := rfl
  exact ⟨by decide, rfl, by decide, sql_literal_closed.1 _ rfl _ (by decide), hfloat,
    sql_literal_closed.2.2.2 _ hfloat⟩

end Quoting

end RelSearch
