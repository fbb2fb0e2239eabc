import RelSearch.Calendar.Timestamp
import RelSearch.Json.Basic
import RelSearch.Number.Decimal
import RelSearch.Number.Shortest
import RelSearch.Uuid

/-!
# RelSearch.Scalar

The scalars that literals of a query carry, with their plain text, their form
in a search document and their equality.

Numbers and booleans stay what they are in a document. Decimals, identifiers,
dates and timestamps become their text, so that nothing is lost, and a float
that is not finite has no form there.
-/

namespace RelSearch

/-- A scalar value. -/
inductive Scalar where
  | int (n : Int64)
  | uint (n : UInt64)
  | float (x : Binary64)
  | decimal (d : Decimal)
  | string (s : String)
  | boolean (b : Bool)
  | uuid (u : Uuid)
  | date (d : Date)
  | timestamp (t : Timestamp)
  | null

instance : Coe Int64 Scalar := ⟨.int⟩

instance : Coe Bool Scalar := ⟨.boolean⟩

instance : Coe String Scalar := ⟨.string⟩

namespace Scalar

def isNull : Scalar → Bool
  | .null => true
  | _ => false

/-! ## Text -/

/-- Floats are written positionally, a whole number without a point, and ties
between digits go up. -/
def floatStyle : FloatStyle := ⟨.up, none, false⟩

/-- The plain text of a float. -/
def floatText (x : Binary64) : List Char :=
  if x.isNaN then "NaN".toList
  else if x.isFinite then floatStyle.write x
  else if x.isNegative then "-inf".toList
  else "inf".toList

/-- The plain text of a scalar. A decimal is normalized first. -/
def chars : Scalar → List Char
  | .int n => Text.integer n.toInt
  | .uint n => Text.digits n.toNat
  | .float x => floatText x
  | .decimal d => d.normalized.text
  | .string s => s.toList
  | .boolean b => (if b then "true" else "false").toList
  | .uuid u => u.text
  | .date d => d.text
  | .timestamp t => t.text
  | .null => "null".toList

/-- The plain text of a scalar, as a string. -/
def text (v : Scalar) : String := String.ofList v.chars

/-! ## Documents -/

/-- The form of a scalar in a search document. -/
def json? : Scalar → Option Json
  | .int n => some (.int n.toInt)
  | .uint n => some (.int n.toNat)
  | .float x => if x.isFinite then some (.number (.float x)) else none
  | .boolean b => some (.bool b)
  | .null => some .null
  | v => some (.string v.text)

/-! ## Equality -/

/-- Equality of scalars of one type: floats are compared as numbers, decimals
whatever their scales, everything else as it stands. Scalars of two types are
never equal. -/
def beq : Scalar → Scalar → Bool
  | .int a, .int b => a == b
  | .uint a, .uint b => a == b
  | .float a, .float b => a.sameNumber b
  | .decimal a, .decimal b => a.comparesEqual b
  | .string a, .string b => a == b
  | .boolean a, .boolean b => a == b
  | .uuid a, .uuid b => a == b
  | .date a, .date b => a == b
  | .timestamp a, .timestamp b => a == b
  | .null, .null => true
  | _, _ => false

instance : BEq Scalar := ⟨beq⟩

end Scalar

end RelSearch
