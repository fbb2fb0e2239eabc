import RelSearch.Json.Writer
import RelSearch.Query.Node

/-!
# RelSearch.Wire.Encode

The JSON form of queries.

1. A node is an object with one member, whose key is the kind of the node.
2. A record is an object with all its fields, a missing part being `null`.
3. A scalar is an object with one member, too, but for the bare string `Null`.
   Numbers and booleans are written as such, and everything else as text. A
   float that is not finite is lost: it is written `null`.
-/

namespace RelSearch

namespace Wire

/-- A value under the name of its variant. -/
def tagged (variant : String) (content : Json) : Json := .object [(variant, content)]

/-- A part that may be missing. -/
def optional : Option Json → Json
  | none => .null
  | some j => j

/-- Left and right side of an operator. -/
def sides (left right : Json) : Json := .object [("left", left), ("right", right)]

end Wire

open Wire

namespace Scalar

/-- The JSON form of a scalar. A decimal keeps its scale. -/
def encode : Scalar → Json
  | .int n => tagged "Int" (.int n.toInt)
  | .uint n => tagged "Uint" (.int n.toNat)
  | .float x => tagged "Float" (if x.isFinite then .number (.float x) else .null)
  | .decimal d => tagged "Decimal" (.string (String.ofList d.text))
  | .string s => tagged "String" (.string s)
  | .boolean b => tagged "Boolean" (.bool b)
  | .uuid u => tagged "Uuid" (.string (String.ofList u.text))
  | .date d => tagged "Date" (.string (String.ofList d.text))
  | .timestamp t => tagged "Timestamp" (.string (String.ofList t.text))
  | .null => .string "Null"

end Scalar

namespace AttributeKind

/-- The JSON form of a declared type. -/
def encode (kind : AttributeKind) : Json := .string kind.name

end AttributeKind

namespace Attribute

/-- The JSON form of a column. -/
def encode (a : Attribute) : Json :=
  .object [("relation", optional (a.relation.map .string)), ("name", .string a.name),
    ("kind", a.kind.encode)]

end Attribute

mutual

/-- The JSON form of a node. -/
def Node.encode : Node → Json
  | .statement s => tagged "Statement" s.encode
  | .core c => tagged "Core" c.encode
  | .equality op l r => tagged op.kind (sides l.encode (encodeOptional r))
  | .comparison op l r => tagged op.kind (sides l.encode r.encode)
  | .connective op l r => tagged op.kind (sides l.encode r.encode)
  | .not n => tagged "Not" n.encode
  | .sort order n => tagged order.kind n.encode
  | .column a => tagged "Attribute" a.encode
  | .literal form v => tagged form.kind v.encode
  | .sqlLiteral s => tagged "SqlLiteral" (.string s)
  | .bool b => tagged "Bool" (.bool b)
  | .grouping n => tagged "Grouping" n.encode
  | .subquery s => tagged "Subquery" s.encode
  | .namedFunction name args =>
    tagged "NamedFunction" (.object [("name", .string name), ("args", .array (encodeNodes args))])

/-- The JSON form of a node that may be missing. -/
def encodeOptional : Option Node → Json
  | none => .null
  | some n => n.encode

/-- The JSON forms of nodes. -/
def encodeNodes : List Node → List Json
  | [] => []
  | n :: ns => n.encode :: encodeNodes ns

/-- The JSON form of a core. -/
def Core.encode : Core → Json
  | ⟨projections, wheres⟩ =>
    .object [("projections", .array (encodeNodes projections)),
      ("wheres", .array (encodeNodes wheres))]

/-- The JSON forms of cores. -/
def encodeCores : List Core → List Json
  | [] => []
  | c :: cs => c.encode :: encodeCores cs

/-- The JSON form of a statement. -/
def Statement.encode : Statement → Json
  | ⟨cores, orders, limit, offset⟩ =>
    .object [("cores", .array (encodeCores cores)), ("orders", .array (encodeNodes orders)),
      ("limit", encodeOptional limit), ("offset", encodeOptional offset)]

end

end RelSearch
