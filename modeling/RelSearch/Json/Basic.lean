import RelSearch.Number.Binary64

/-!
# RelSearch.Json.Basic

JSON values. An object keeps its members in the order in which they were put
in, and an integer is never confused with a float: `1` and `1.0` are different
values with different texts.
-/

namespace RelSearch

/-- A JSON number, an integer or a float. -/
inductive Number where
  | int (n : Int)
  | float (x : Binary64)
deriving DecidableEq

/-- A JSON value. -/
inductive Json where
  | null
  | bool (b : Bool)
  | number (n : Number)
  | string (s : String)
  | array (items : List Json)
  | object (members : List (String × Json))

namespace Json

/-- An integer. -/
def int (n : Int) : Json := .number (.int n)

/-- Puts a member in: a new key goes to the end, a known one keeps its place
and changes its value. -/
def put (key : String) (value : Json) : List (String × Json) → List (String × Json)
  | [] => [(key, value)]
  | (k, v) :: rest => if k = key then (k, value) :: rest else (k, v) :: put key value rest

/-- The value of a member of an object. -/
def get? (key : String) : Json → Option Json
  | .object members => members.lookup key
  | _ => none

end Json

end RelSearch
