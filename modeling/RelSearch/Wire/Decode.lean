import RelSearch.Json.Reader
import RelSearch.Query.Node

/-!
# RelSearch.Wire.Decode

Reading queries from JSON texts.

Readers accept more than the encoders write:

1. A record is an object with its fields in any order, where unknown fields are
   skipped unread, or an array of exactly its fields. A field that may be
   missing may also be `null`; a known field must not be repeated.
2. A variant without content may be an object with the content `null`.
3. A decimal may be a number; a float is then expanded exactly. It may also
   stand in an object under `Decimal.wrapper`.

At most `Wire.nesting` arrays and objects may be open inside each other, skipped
fields apart. Every reader takes the number of those that may still be opened,
and recursion goes down on it.
-/

namespace RelSearch

namespace Wire

/-- The number of arrays and objects that may be open inside each other. -/
def nesting : Nat := 127

/-- Reads a text by the reader of its type. -/
def decode? {α : Type} (read : Nat → Raw → Option α) (text : String) : Option α := do
  read nesting (← Raw.ofText? text)

/-! ## Parts -/

/-- The string that a tree is. -/
def string? : Raw → Option String
  | .string us => StringUnit.text? us
  | _ => none

def bool? : Raw → Option Bool
  | .bool b => some b
  | _ => none

def number? : Raw → Option Number
  | .number n => n.number?
  | _ => none

/-- The greatest unsigned 64-bit integer. -/
def maxUnsigned : Int := UInt64.size - 1

/-- The integer that a tree is, if it is between `least` and `greatest`. -/
def int? (least greatest : Int) (raw : Raw) : Option Int :=
  match number? raw with
  | some (.int n) => if least ≤ n ∧ n ≤ greatest then some n else none
  | _ => none

/-- A part that may be missing or `null`. -/
def optional? {α : Type} (read : Raw → Option α) : Option Raw → Option (Option α)
  | none => some none
  | some .null => some none
  | some raw => (read raw).map some

/-- The value of one field among named members; it must not be repeated. -/
def field? (members : List (String × Raw)) (name : String) : Option (Option Raw) :=
  match members.filter (·.1 == name) with
  | [] => some none
  | [(_, value)] => some (some value)
  | _ => none

/-- The fields of a record in the given order. -/
def fields? (names : List String) : Raw → Option (List (Option Raw))
  | .object members => do
    let named ← members.mapM fun (key, value) => return (← StringUnit.text? key, value)
    names.mapM (field? named)
  | .array items => if items.length = names.length then some (items.map some) else none
  | _ => none

end Wire

open Wire

/-! ## Scalars -/

namespace Decimal

/-- The key of an object that holds nothing but a decimal. -/
def wrapper : String := "$serde_json::private::Number"

/-- A decimal from a text, a number, or an object that holds a decimal under
`wrapper`. That key has to be spelled without escapes. -/
def decode? : Nat → Raw → Option Decimal
  | _, .string us => do ofText? (← StringUnit.chars? us)
  | _, .number n => do
    match ← n.number? with
    | .int i => return ofInt i
    | .float x => return ofBinary64 x
  | n + 1, .object [(key, content)] =>
    if key = StringUnit.plain wrapper then decode? n content else none
  | _, _ => none

end Decimal

namespace Binary64

/-- A float from any number. -/
def decode? (raw : Raw) : Option Binary64 := do
  match ← number? raw with
  | .int i => return ofInt i
  | .float x => return x

end Binary64

namespace Scalar

/-- The scalar of a variant with content. -/
def decodeVariant? (allowance : Nat) (variant : String) (content : Raw) : Option Scalar :=
  match variant with
  | "Int" => (int? Int64.minValue.toInt Int64.maxValue.toInt content).map fun n => .int (.ofInt n)
  | "Uint" => (int? 0 maxUnsigned content).map fun n => .uint (.ofNat n.toNat)
  | "Float" => (Binary64.decode? content).map .float
  | "Decimal" => (Decimal.decode? allowance content).map .decimal
  | "String" => (string? content).map .string
  | "Boolean" => (bool? content).map .boolean
  | "Uuid" => do return .uuid (← Uuid.ofText? (← string? content).toList)
  | "Date" => do return .date (← Date.ofText? (← string? content).toList)
  | "Timestamp" => do return .timestamp (← Timestamp.ofText? (← string? content).toList)
  | "Null" => match content with
    | .null => some .null
    | _ => none
  | _ => none

/-- Reads a scalar. -/
def decode? : Nat → Raw → Option Scalar
  | _, .string us => do if (← StringUnit.text? us) = "Null" then some .null else none
  | n + 1, .object [(variant, content)] => do
    decodeVariant? n (← StringUnit.text? variant) content
  | _, _ => none

end Scalar

/-! ## Attributes -/

namespace AttributeKind

/-- The declared type with the given name. -/
def ofName? (name : String) : Option AttributeKind := all.find? (·.name == name)

/-- Reads a declared type. -/
def decode? : Nat → Raw → Option AttributeKind
  | _, .string us => do ofName? (← StringUnit.text? us)
  | _ + 1, .object [(variant, .null)] => do ofName? (← StringUnit.text? variant)
  | _, _ => none

end AttributeKind

namespace Attribute

/-- Reads a column. -/
def decode? : Nat → Raw → Option Attribute
  | n + 1, raw => do
    match ← fields? ["relation", "name", "kind"] raw with
    | [relation, some name, some kind] =>
      return ⟨← optional? string? relation, ← string? name, ← AttributeKind.decode? n kind⟩
    | _ => none
  | 0, _ => none

end Attribute

/-! ## Nodes -/

mutual

/-- Reads a node. -/
def Node.decode? : Nat → Raw → Option Node
  | n + 1, .object [(key, content)] => do
    match ← StringUnit.text? key with
    | "Statement" => return .statement (← Statement.decode? n content)
    | "Core" => return .core (← Core.decode? n content)
    | "Equality" => decodeEquality? .equal n content
    | "NotEqual" => decodeEquality? .notEqual n content
    | "GreaterThan" => decodeSides? (.comparison .greaterThan) n content
    | "GreaterThanOrEqual" => decodeSides? (.comparison .greaterThanOrEqual) n content
    | "LessThan" => decodeSides? (.comparison .lessThan) n content
    | "LessThanOrEqual" => decodeSides? (.comparison .lessThanOrEqual) n content
    | "In" => decodeSides? (.comparison .isIn) n content
    | "Matches" => decodeSides? (.comparison .like) n content
    | "And" => decodeSides? (.connective .and) n content
    | "Or" => decodeSides? (.connective .or) n content
    | "Not" => return .not (← Node.decode? n content)
    | "Ascending" => return .sort .ascending (← Node.decode? n content)
    | "Descending" => return .sort .descending (← Node.decode? n content)
    | "Attribute" => return .column (← Attribute.decode? n content)
    | "Literal" => return .literal .plain (← Scalar.decode? n content)
    | "Quoted" => return .literal .quoted (← Scalar.decode? n content)
    | "Casted" => return .literal .casted (← Scalar.decode? n content)
    | "SqlLiteral" => return .sqlLiteral (← string? content)
    | "Bool" => return .bool (← bool? content)
    | "Grouping" => return .grouping (← Node.decode? n content)
    | "Subquery" => return .subquery (← Statement.decode? n content)
    | "NamedFunction" => decodeFunction? n content
    | _ => none
  | _, _ => none

/-- Reads the two sides of a test for equality. -/
def decodeEquality? (op : EqualityOp) : Nat → Raw → Option Node
  | n + 1, raw => do
    match ← fields? ["left", "right"] raw with
    | [some left, right] =>
      return .equality op (← Node.decode? n left) (← optional? (Node.decode? n) right)
    | _ => none
  | 0, _ => none

/-- Reads the two sides of an operator. -/
def decodeSides? (operator : Node → Node → Node) : Nat → Raw → Option Node
  | n + 1, raw => do
    match ← fields? ["left", "right"] raw with
    | [some left, some right] => return operator (← Node.decode? n left) (← Node.decode? n right)
    | _ => none
  | 0, _ => none

/-- Reads the name and the arguments of a function. -/
def decodeFunction? : Nat → Raw → Option Node
  | n + 1, raw => do
    match ← fields? ["name", "args"] raw with
    | [some name, some args] => return .namedFunction (← string? name) (← decodeNodes? n args)
    | _ => none
  | 0, _ => none

/-- Reads an array of nodes. -/
def decodeNodes? : Nat → Raw → Option (List Node)
  | n + 1, .array items => items.mapM (Node.decode? n)
  | _, _ => none

/-- Reads a core. -/
def Core.decode? : Nat → Raw → Option Core
  | n + 1, raw => do
    match ← fields? ["projections", "wheres"] raw with
    | [some projections, some wheres] =>
      return ⟨← decodeNodes? n projections, ← decodeNodes? n wheres⟩
    | _ => none
  | 0, _ => none

/-- Reads an array of cores. -/
def decodeCores? : Nat → Raw → Option (List Core)
  | n + 1, .array items => items.mapM (Core.decode? n)
  | _, _ => none

/-- Reads a statement. -/
def Statement.decode? : Nat → Raw → Option Statement
  | n + 1, raw => do
    match ← fields? ["cores", "orders", "limit", "offset"] raw with
    | [some cores, some orders, limit, offset] =>
      return ⟨← decodeCores? n cores, ← decodeNodes? n orders,
        ← optional? (Node.decode? n) limit, ← optional? (Node.decode? n) offset⟩
    | _ => none
  | 0, _ => none

end

end RelSearch
