import RelSearch.Json.Numeral

/-!
# RelSearch.Json.Raw

JSON texts as trees, before their literals are given a meaning. A number is
still a literal, and a string is still spelled as it was written: it may hold
escapes, and one half of a surrogate pair, which no text holds. Objects keep
every member, repeated ones too.
-/

namespace RelSearch

/-- A unit of a string literal. -/
inductive StringUnit where
  /-- A character that stands for itself. -/
  | char (c : Char)
  /-- A character that an escape names. -/
  | escape (c : Char)
  /-- Half of a surrogate pair that an escape names. -/
  | half (code : Nat)
deriving DecidableEq

namespace StringUnit

/-- The unit that the escape `\uxxxx` names. -/
def ofCode (code : Nat) : StringUnit :=
  if 0xD800 ≤ code ∧ code ≤ 0xDFFF then .half code else .escape (Char.ofNat code)

/-- The characters that units spell. Halves have to come in pairs, the high
one first. -/
def chars? : List StringUnit → Option (List Char)
  | [] => some []
  | .char c :: us => (chars? us).map (c :: ·)
  | .escape c :: us => (chars? us).map (c :: ·)
  | .half high :: .half low :: us =>
    if high < 0xDC00 ∧ 0xDC00 ≤ low then
      (chars? us).map (Char.ofNat (0x10000 + (high - 0xD800) * 0x400 + (low - 0xDC00)) :: ·)
    else none
  | .half _ :: _ => none

/-- The text that units spell. -/
def text? (us : List StringUnit) : Option String := (chars? us).map String.ofList

/-- A text spelled without escapes. -/
def plain (s : String) : List StringUnit := s.toList.map .char

end StringUnit

/-- A JSON text as a tree. -/
inductive Raw where
  | null
  | bool (b : Bool)
  | number (n : Numeral)
  | string (units : List StringUnit)
  | array (items : List Raw)
  | object (members : List (List StringUnit × Raw))

namespace Raw

/-- The value of a tree that opens at most `allowance` arrays and objects inside
each other. A key that is repeated keeps its first place and its last value. -/
def json? : (allowance : Nat) → Raw → Option Json
  | _, .null => some .null
  | _, .bool b => some (.bool b)
  | _, .number n => n.number?.map .number
  | _, .string us => (StringUnit.text? us).map .string
  | 0, .array _ => none
  | n + 1, .array items => (items.mapM (json? n)).map .array
  | 0, .object _ => none
  | n + 1, .object members => do
    let values ← members.mapM fun (key, value) => do
      return (← StringUnit.text? key, ← json? n value)
    return .object (values.foldl (fun ms (k, v) => Json.put k v ms) [])

end Raw

end RelSearch
