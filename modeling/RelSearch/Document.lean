import RelSearch.Json.Basic
import RelSearch.Query.Node

/-!
# RelSearch.Document

Search documents and the fragments they are made of:

```
document  = { query, per_page?, offset? }
query     = { projection?: [attribute], filter?: condition, sort?: [term] }
attribute = { name }
condition = { filter: { attribute, parameter } } | { not } | { and: [..] } | { or: [..] }
parameter = { eq } | { is_null }
term      = { attribute, order }
```
-/

namespace RelSearch

/-- A search document, or a fragment of one. -/
abbrev Document := Json

namespace Document

/-! ## Keys -/

namespace Key

def query : String := "query"

def projection : String := "projection"

def filter : String := "filter"

def sort : String := "sort"

def perPage : String := "per_page"

def offset : String := "offset"

def and : String := "and"

def or : String := "or"

def not : String := "not"

/-- All keys that a query can bring into a document. -/
def all : List String := [query, projection, filter, sort, perPage, offset, and, or, not]

end Key

/-! ## Fragments -/

/-- What a condition asks of its attribute. -/
inductive Test where
  | eq (value : Document)
  | isNull (expected : Bool)

/-- The parameter of a condition. -/
def Test.parameter : Test → Document
  | .eq value => .object [("eq", value)]
  | .isNull expected => .object [("is_null", .bool expected)]

/-- A reference to an attribute by its name. -/
def attributeRef (name : String) : Document := .object [("name", .string name)]

/-- A condition on one attribute. -/
def condition (name : String) (test : Test) : Document :=
  .object [(Key.filter,
    .object [("attribute", attributeRef name), ("parameter", test.parameter)])]

/-- The opposite of a condition. -/
def negation (condition : Document) : Document := .object [(Key.not, condition)]

/-- Several fragments under one operator. -/
def joined (operator : String) (fragments : List Document) : Document :=
  .object [(operator, .array fragments)]

/-- The word for a sort order. -/
def orderText : SortOrder → String
  | .ascending => "ascending"
  | .descending => "descending"

/-- One sort term. -/
def sortTerm (name : String) (order : SortOrder) : Document :=
  .object [("attribute", attributeRef name), ("order", .string (orderText order))]

/-- The key of a connective. -/
def connectiveKey : Connective → String
  | .and => Key.and
  | .or => Key.or

/-! ## Queries -/

/-- The projections and conditions of a core. An empty part leaves its key out,
and several conditions share one `and`. -/
def coreQuery (projections conditions : List Document) : List (String × Document) :=
  (if projections.isEmpty then [] else [(Key.projection, .array projections)]) ++
  match conditions with
  | [] => []
  | [condition] => [(Key.filter, condition)]
  | _ => [(Key.filter, joined Key.and conditions)]

/-- A document around a query. -/
def ofQuery (query : List (String × Document)) : Document := .object [(Key.query, .object query)]

/-- A document with the sort terms, the limit and the offset of a statement. -/
def ofStatement (query : List (String × Document)) (sort : List Document)
    (limit offset : Option Document) : Document :=
  .object ((Key.query, .object (query ++ if sort.isEmpty then [] else [(Key.sort, .array sort)])) ::
    (limit.map (Key.perPage, ·)).toList ++ (offset.map (Key.offset, ·)).toList)

end Document

end RelSearch
