import RelSearch.Scalar

/-!
# RelSearch.Quoting

Policies that turn a quoted literal into the string a search backend expects.
-/

namespace RelSearch

/-- A quoting policy, with the name that describes it. -/
structure Quoting where
  name : String
  quote : Scalar → String

namespace Quoting

/-- The plain text, unescaped. -/
def identity : Quoting := ⟨"identity", Scalar.text⟩

/-- A text in single quotes, with the quotes inside doubled. -/
def sqlString (cs : List Char) : List Char :=
  '\'' :: cs.flatMap (fun c => if c = '\'' then ['\'', '\''] else [c]) ++ ['\'']

/-- A scalar as an SQL literal: numbers, booleans and `NULL` are bare, and
everything else is a string. -/
def sqlLiteral : Scalar → List Char
  | .null => "NULL".toList
  | v@(.string _) | v@(.uuid _) | v@(.date _) | v@(.timestamp _) => sqlString v.chars
  | v => v.chars

/-- Quoting as in SQL. -/
def sql : Quoting := ⟨"sql", fun v => String.ofList (sqlLiteral v)⟩

/-- A policy given by a function. -/
def custom (quote : Scalar → String) : Quoting := ⟨"custom", quote⟩

end Quoting

end RelSearch
