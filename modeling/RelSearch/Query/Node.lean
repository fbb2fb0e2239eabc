import RelSearch.Scalar

/-!
# RelSearch.Query.Node

Relational queries as trees. A statement has cores (projections and
conditions), sort terms, a limit and an offset; all of these are nodes, and a
node can hold a statement again.

Nodes that differ only in an operator share a constructor. `Node.kind` is the
name under which each of them is known in messages and on the wire.
-/

namespace RelSearch

/-! ## Attributes -/

/-- The type with which a column was declared. -/
inductive AttributeKind where
  | undefined
  | integer
  | float
  | decimal
  | string
  | time
  | boolean
deriving DecidableEq

namespace AttributeKind

def name : AttributeKind → String
  | undefined => "Undefined"
  | integer => "Integer"
  | float => "Float"
  | decimal => "Decimal"
  | string => "String"
  | time => "Time"
  | boolean => "Boolean"

def all : List AttributeKind := [undefined, integer, float, decimal, string, time, boolean]

end AttributeKind

/-- A column, with its relation if that is given. -/
structure Attribute where
  relation : Option String := none
  name : String
  kind : AttributeKind := .undefined
deriving DecidableEq

/-! ## Operators -/

/-- The two tests for equality. With no right side they test for null. -/
inductive EqualityOp where
  | equal
  | notEqual
deriving DecidableEq

/-- The comparisons that search documents cannot express. -/
inductive ComparisonOp where
  | greaterThan
  | greaterThanOrEqual
  | lessThan
  | lessThanOrEqual
  | isIn
  | like
deriving DecidableEq

inductive Connective where
  | and
  | or
deriving DecidableEq

inductive SortOrder where
  | ascending
  | descending
deriving DecidableEq

/-- How a literal stands in a query: plain, in quotes, or cast to the type of
its column. -/
inductive LiteralForm where
  | plain
  | quoted
  | casted
deriving DecidableEq

namespace EqualityOp

def kind : EqualityOp → String
  | equal => "Equality"
  | notEqual => "NotEqual"

end EqualityOp

namespace ComparisonOp

def kind : ComparisonOp → String
  | greaterThan => "GreaterThan"
  | greaterThanOrEqual => "GreaterThanOrEqual"
  | lessThan => "LessThan"
  | lessThanOrEqual => "LessThanOrEqual"
  | isIn => "In"
  | like => "Matches"

end ComparisonOp

namespace Connective

def kind : Connective → String
  | and => "And"
  | or => "Or"

end Connective

namespace SortOrder

def kind : SortOrder → String
  | ascending => "Ascending"
  | descending => "Descending"

end SortOrder

namespace LiteralForm

def kind : LiteralForm → String
  | plain => "Literal"
  | quoted => "Quoted"
  | casted => "Casted"

end LiteralForm

/-! ## Nodes -/

mutual

/-- A node of a query. -/
inductive Node where
  | statement (s : Statement)
  | core (c : Core)
  /-- A test for equality; a missing right side is null. -/
  | equality (op : EqualityOp) (left : Node) (right : Option Node)
  | comparison (op : ComparisonOp) (left right : Node)
  | connective (op : Connective) (left right : Node)
  | not (operand : Node)
  | sort (order : SortOrder) (operand : Node)
  | column (a : Attribute)
  | literal (form : LiteralForm) (value : Scalar)
  | sqlLiteral (text : String)
  | bool (b : Bool)
  /-- An expression in parentheses. -/
  | grouping (inner : Node)
  /-- A statement that stands as an expression. -/
  | subquery (s : Statement)
  | namedFunction (name : String) (args : List Node)

/-- What is projected, and the conditions, all of which have to hold. -/
structure Core where
  projections : List Node
  wheres : List Node

/-- A statement. A plain query has exactly one core. -/
structure Statement where
  cores : List Core
  orders : List Node
  limit : Option Node
  offset : Option Node

end

namespace Core

/-- A core without projections and conditions. -/
def empty : Core := ⟨[], []⟩

end Core

namespace Statement

/-- A statement without any part. -/
def empty : Statement := ⟨[], [], none, none⟩

/-- A plain query: a statement with one core and nothing else. -/
def ofCore (core : Core) : Statement := ⟨[core], [], none, none⟩

end Statement

namespace Node

/-- The name of a node's variant. -/
def kind : Node → String
  | .statement _ => "Statement"
  | .core _ => "Core"
  | .equality op _ _ => op.kind
  | .comparison op _ _ => op.kind
  | .connective op _ _ => op.kind
  | .not _ => "Not"
  | .sort order _ => order.kind
  | .column _ => "Attribute"
  | .literal form _ => form.kind
  | .sqlLiteral _ => "SqlLiteral"
  | .bool _ => "Bool"
  | .grouping _ => "Grouping"
  | .subquery _ => "Subquery"
  | .namedFunction _ _ => "NamedFunction"

/-- Whether a node is a literal null. -/
def isNull : Node → Bool
  | .literal _ value => value.isNull
  | _ => false

/-- Whether a node is a sort term with an order of its own. -/
def isSort : Node → Bool
  | .sort _ _ => true
  | _ => false

end Node

end RelSearch
