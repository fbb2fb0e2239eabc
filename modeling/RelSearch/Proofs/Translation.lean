import RelSearch.Compiler.Basic

/-!
# RelSearch.Proofs.Translation

The search document that a query stands for, without levels and faults.

Every node has a document here, so the definitions below are plain recursions
over the query. What they say about a node that cannot be compiled means
nothing: a node that search documents have nothing for becomes null, and one
that gives no name gives the empty one.

The documents are written out as JSON, key by key, and use none of the
functions that a compiler builds its documents with. That those build the same
ones is proved afterwards: `Statement.document_eq` and `Node.document_core` to
`Node.document_sort` say it of statements and of each kind of node.

`Node.isName` tells from the query alone which nodes can be used as a name.
`Node.document_eq_string_iff` is why that is the right test: they are the nodes
whose document is a string, and the string is then the name.
-/

namespace RelSearch

/-! ## Names -/

/-- Whether a scalar becomes a string in a document. -/
def Scalar.isText : Scalar → Bool
  | .string _ | .decimal _ | .uuid _ | .date _ | .timestamp _ => true
  | _ => false

namespace Node

/-- Whether a node can be used as a name, parentheses apart. -/
def isName : Node → Bool
  | .grouping inner => inner.isName
  | .column _ => true
  | .sqlLiteral _ => true
  | .literal .quoted _ => true
  | .literal _ value => value.isText
  | _ => false

/-- The name that a node gives, parentheses apart. -/
def name (q : Quoting) : Node → String
  | .grouping inner => inner.name q
  | .column a => a.name
  | .sqlLiteral text => text
  | .literal .quoted value => q.quote value
  | .literal _ value => value.text
  | _ => ""

end Node

/-! ## Documents as they are written -/

/-- What a literal with the given scalar becomes, unless it is quoted: numbers, booleans and
null stay what they are, and everything else becomes its text. -/
def Scalar.document : Scalar → Document
  | .int n => .number (.int n.toInt)
  | .uint n => .number (.int n.toNat)
  | .float x => if x.isFinite then .number (.float x) else .null
  | .boolean b => .bool b
  | .null => .null
  | v => .string v.text

namespace Document

/-- The filter on the attribute `name` with the given parameter. -/
def filterOn (name : String) (parameter : Document) : Document :=
  .object [("filter",
    .object [("attribute", .object [("name", .string name)]), ("parameter", parameter)])]

/-- The term that sorts by the attribute `name`. -/
def orderedBy (name : String) : SortOrder → Document
  | .ascending =>
    .object [("attribute", .object [("name", .string name)]), ("order", .string "ascending")]
  | .descending =>
    .object [("attribute", .object [("name", .string name)]), ("order", .string "descending")]

/-- The sections of the document of a statement. -/
structure Sections where
  projection : Option Document
  filter : Option Document
  sort : Option Document
  perPage : Option Document
  offset : Option Document

/-- The members that have a value, in their order. -/
def present (members : List (String × Option Document)) : List (String × Document) :=
  members.filterMap fun member => member.2.map (member.1, ·)

/-- The document with the given sections. -/
def Sections.document (x : Sections) : Document :=
  .object
    (("query", .object
      (present [("projection", x.projection), ("filter", x.filter), ("sort", x.sort)])) ::
    present [("per_page", x.perPage), ("offset", x.offset)])

/-- The section with the given entries, which is left out if there are none. -/
def listSection (entries : List Document) : Option Document :=
  if entries.isEmpty then none else some (.array entries)

/-- The section for the given conditions: a single one stands by itself, several share an
`and`. -/
def filterSection : List Document → Option Document
  | [] => none
  | [condition] => some condition
  | conditions => some (.object [("and", .array conditions)])

end Document

/-- The sort term that a node becomes in a statement; without an order of its
own it is a name and sorts ascending. -/
def Node.sortTerm (q : Quoting) : Node → Document
  | .sort order operand => Document.orderedBy (operand.name q) order
  | n => Document.orderedBy (n.name q) .ascending

mutual

/-- The document of a node. -/
def Node.document (q : Quoting) : Node → Document
  | .statement s => s.document q
  | .subquery s => s.document q
  | .core c => (c.sections q).document
  | .equality .equal left none =>
    Document.filterOn (left.name q) (.object [("is_null", .bool true)])
  | .equality .notEqual left none =>
    Document.filterOn (left.name q) (.object [("is_null", .bool false)])
  | .equality .equal left (some right) =>
    if right.isNull then Document.filterOn (left.name q) (.object [("is_null", .bool true)])
    else Document.filterOn (left.name q) (.object [("eq", right.document q)])
  | .equality .notEqual left (some right) =>
    if right.isNull then Document.filterOn (left.name q) (.object [("is_null", .bool false)])
    else .object [("not", Document.filterOn (left.name q) (.object [("eq", right.document q)]))]
  | .connective .and left right => .object [("and", .array [left.document q, right.document q])]
  | .connective .or left right => .object [("or", .array [left.document q, right.document q])]
  | .sort order operand => Document.orderedBy (operand.name q) order
  | .column a => .string a.name
  | .literal .quoted value => .string (q.quote value)
  | .literal _ value => value.document
  | .sqlLiteral text => .string text
  | .bool b => .bool b
  | .grouping inner => inner.document q
  | .comparison _ _ _ => .null
  | .not _ => .null
  | .namedFunction _ _ => .null

/-- The sections that a core fills. -/
def Core.sections (q : Quoting) : Core → Document.Sections
  | ⟨projections, wheres⟩ =>
    ⟨Document.listSection (projections.map fun n => .object [("name", .string (n.name q))]),
      Document.filterSection (wheres.map fun n => n.document q), none, none, none⟩

/-- The document of a statement: its last core fills the first two sections. -/
def Statement.document (q : Quoting) : Statement → Document
  | ⟨cores, orders, limit, offset⟩ =>
    let last := (cores.map fun c => c.sections q).getLast?
    Document.Sections.document
      ⟨last.bind (·.projection), last.bind (·.filter),
        Document.listSection (orders.map fun n => n.sortTerm q),
        match limit with
          | none => none
          | some n => some (n.document q),
        match offset with
          | none => none
          | some n => some (n.document q)⟩

end

/-! ## Compilers build the same documents -/

namespace Document

/-- The condition of a test for equality, by what it asks of its attribute. -/
def ofTest (op : EqualityOp) (name : String) : Document.Test → Document
  | .isNull expected => filterOn name (.object [("is_null", .bool expected)])
  | .eq value =>
    match op with
    | .equal => filterOn name (.object [("eq", value)])
    | .notEqual => .object [("not", filterOn name (.object [("eq", value)]))]

/-- A test for null is a condition, whatever the operator. -/
theorem ofTest_isNull (op : EqualityOp) (name : String) (expected : Bool) :
    ofTest op name (.isNull expected) = condition name (.isNull expected) := rfl

theorem ofTest_equal (name : String) (value : Document) :
    ofTest .equal name (.eq value) = condition name (.eq value) := rfl

/-- The opposite of an equality with a value is a negation. -/
theorem ofTest_notEqual (name : String) (value : Document) :
    ofTest .notEqual name (.eq value) = negation (condition name (.eq value)) := rfl

/-- A test for equality has an object for a document. -/
theorem ofTest_ne_string (op : EqualityOp) (name : String) (test : Test) (s : String) :
    ofTest op name test ≠ .string s := by
  cases op <;> cases test <;> simp [ofTest, filterOn]

/-- The term that a compiler builds is the one that is written. -/
theorem orderedBy_eq_sortTerm (name : String) (order : SortOrder) :
    orderedBy name order = sortTerm name order := by
  cases order <;> rfl

theorem present_append (members more : List (String × Option Document)) :
    present (members ++ more) = present members ++ present more :=
  List.filterMap_append

/-- A compiler leaves out what has no section. -/
theorem coreQuery_eq_present (projections conditions : List Document) :
    coreQuery projections conditions =
      present [("projection", listSection projections), ("filter", filterSection conditions)] := by
  rcases projections with _ | ⟨p, ps⟩ <;> rcases conditions with _ | ⟨w, _ | ⟨w', ws⟩⟩ <;> rfl

/-- The document that a compiler puts together has the sections of its parts, in their order. -/
theorem ofStatement_coreQuery (projections conditions sort : List Document)
    (limit offset : Option Document) :
    ofStatement (coreQuery projections conditions) sort limit offset =
      Sections.document ⟨listSection projections, filterSection conditions, listSection sort,
        limit, offset⟩ := by
  have hsort : (if sort.isEmpty then [] else [(Key.sort, .array sort)]) =
      present [("sort", listSection sort)] := by
    cases sort <;> rfl
  have hpages : (limit.map (Key.perPage, ·)).toList ++ (offset.map (Key.offset, ·)).toList =
      present [("per_page", limit), ("offset", offset)] := by
    cases limit <;> cases offset <;> rfl
  rw [ofStatement, hsort, coreQuery_eq_present, ← present_append, List.cons_append, hpages]
  rfl

end Document

/-- A scalar has its form in documents, and null if it has none. -/
theorem Scalar.document_eq (v : Scalar) : v.document = v.json?.getD .null := by
  cases v with
  | float x => cases hx : x.isFinite <;> simp [Scalar.document, Scalar.json?, hx]
  | _ => rfl

/-- The query that a compiler makes of a core. -/
def Core.query (q : Quoting) (c : Core) : List (String × Document) :=
  Document.coreQuery (c.projections.map fun n => Document.attributeRef (n.name q))
    (c.wheres.map (·.document q))

/-- The sections of a core, without taking the core apart. -/
theorem Core.sections_eq (q : Quoting) (c : Core) :
    c.sections q =
      ⟨Document.listSection (c.projections.map fun n => Document.attributeRef (n.name q)),
        Document.filterSection (c.wheres.map (·.document q)), none, none, none⟩ := by
  obtain ⟨projections, wheres⟩ := c
  rw [Core.sections]
  rfl

/-- The core that a statement takes its projections and conditions from; a statement
without cores has none of either. -/
def Statement.lastCore (s : Statement) : Core := s.cores.getLast?.getD .empty

/-- The sections of a statement are those of its last core, its sort terms, its limit and its
offset. -/
theorem Statement.document_eq_sections (q : Quoting) (s : Statement) :
    s.document q = Document.Sections.document
      ⟨Document.listSection
          (s.lastCore.projections.map fun n => Document.attributeRef (n.name q)),
        Document.filterSection (s.lastCore.wheres.map (·.document q)),
        Document.listSection (s.orders.map (·.sortTerm q)),
        s.limit.map (·.document q), s.offset.map (·.document q)⟩ := by
  obtain ⟨cores, orders, limit, offset⟩ := s
  cases hlast : cores.getLast? <;> cases limit <;> cases offset <;>
    simp only [Statement.document, Statement.lastCore, List.getLast?_map, hlast, Option.map,
      Option.bind, Core.sections_eq] <;> rfl

/-- The document of a statement in the form in which a compiler builds it. -/
theorem Statement.document_eq (q : Quoting) (s : Statement) :
    s.document q = Document.ofStatement ((s.cores.map (·.query q)).getLast?.getD [])
      (s.orders.map (·.sortTerm q)) (s.limit.map (·.document q)) (s.offset.map (·.document q)) := by
  have hquery : (s.cores.map (·.query q)).getLast?.getD [] = s.lastCore.query q := by
    rw [Statement.lastCore, List.getLast?_map]
    cases s.cores.getLast? <;> rfl
  rw [document_eq_sections, hquery, Core.query, Document.ofStatement_coreQuery]

namespace Node

variable (q : Quoting)

/-- The document of a core in the form in which a compiler builds it. -/
theorem document_core (c : Core) : (core c).document q = Document.ofQuery (c.query q) := by
  rw [document, Core.sections_eq, Core.query, Document.coreQuery_eq_present]
  rfl

theorem document_literal {form : LiteralForm} (h : form ≠ .quoted) (value : Scalar) :
    (literal form value).document q = value.json?.getD .null := by
  rw [document, Scalar.document_eq]
  exact h

/-- What a test for equality asks of its attribute. -/
def test (op : EqualityOp) : Option Node → Document.Test
  | none => .isNull (op = .equal)
  | some right => if right.isNull then .isNull (op = .equal) else .eq (right.document q)

/-- With nothing or a literal null on its right, a test asks for null. -/
theorem test_eq_isNull {q : Quoting} {op : EqualityOp} {right : Option Node}
    (h : right.all (·.isNull) = true) : test q op right = .isNull (op = .equal) := by
  cases right with
  | none => rfl
  | some right => exact if_pos h

/-- A test asks for null, or for the value on its right side. -/
theorem test_cases (op : EqualityOp) (r : Option Node) :
    (r.all (·.isNull) = true ∧ test q op r = .isNull (op = .equal)) ∨
      ∃ n, r = some n ∧ n.isNull = false ∧ test q op r = .eq (n.document q) := by
  cases hnull : r.all (·.isNull) with
  | true => exact .inl ⟨rfl, test_eq_isNull hnull⟩
  | false =>
      cases r with
      | none => cases hnull
      | some n => exact .inr ⟨n, rfl, hnull, if_neg (Bool.not_eq_true _ ▸ hnull)⟩

/-- What a test becomes depends on its name and on what it asks for alone. -/
theorem document_equality (op : EqualityOp) (left : Node) (right : Option Node) :
    (equality op left right).document q = Document.ofTest op (left.name q) (test q op right) := by
  cases right with
  | none => cases op <;> simp [document, test, Document.ofTest]
  | some right =>
      cases op <;> by_cases h : right.isNull <;> simp [document, test, Document.ofTest, h]

/-- The document of a connective in the form in which a compiler builds it. -/
theorem document_connective (op : Connective) (left right : Node) :
    (connective op left right).document q =
      Document.joined (Document.connectiveKey op) [left.document q, right.document q] := by
  cases op <;> rw [document] <;> rfl

theorem document_sort (order : SortOrder) (operand : Node) :
    (sort order operand).document q = Document.sortTerm (operand.name q) order := by
  rw [document, Document.orderedBy_eq_sortTerm]

/-- A sort term with an order of its own is what the node becomes anywhere else. -/
theorem sortTerm_of_isSort {n : Node} (h : n.isSort = true) : n.sortTerm q = n.document q := by
  cases n with
  | sort order operand => rw [document, sortTerm]
  | _ => cases h

/-- A sort term without an order of its own is a name and sorts ascending. -/
theorem sortTerm_of_isSort_eq_false {n : Node} (h : n.isSort = false) :
    n.sortTerm q = Document.sortTerm (n.name q) .ascending := by
  cases n with
  | sort order operand => cases h
  | _ => rfl

end Node

/-- A statement has an object for a document. -/
theorem Statement.document_ne_string (q : Quoting) (s : Statement) (name : String) :
    s.document q ≠ .string name := by
  rw [Statement.document_eq]
  exact Json.noConfusion

/-! ## Names are what becomes a string -/

/-- The scalars that become strings are those that become their text. -/
theorem Scalar.document_eq_string_iff (v : Scalar) (s : String) :
    v.document = .string s ↔ v.isText = true ∧ s = v.text := by
  cases v with
  | float x => by_cases h : x.isFinite <;> simp [Scalar.document, Scalar.isText, h]
  | _ => simp [Scalar.document, Scalar.isText, eq_comm]

/-- **Names**: the nodes that can be used as a name are those that become a
string, and the string is the name. -/
theorem Node.document_eq_string_iff (q : Quoting) : (n : Node) → (s : String) →
    (n.document q = .string s ↔ n.isName = true ∧ s = n.name q)
  | .grouping inner, s => by
      simp only [Node.document, Node.isName, Node.name]
      exact Node.document_eq_string_iff q inner s
  | .literal .quoted value, s => by simp [Node.document, Node.isName, Node.name, eq_comm]
  | .literal .plain value, s => by
      simpa only [Node.document, Node.isName, Node.name] using value.document_eq_string_iff s
  | .literal .casted value, s => by
      simpa only [Node.document, Node.isName, Node.name] using value.document_eq_string_iff s
  | .column a, s => by simp [Node.document, Node.isName, Node.name, eq_comm]
  | .sqlLiteral text, s => by simp [Node.document, Node.isName, Node.name, eq_comm]
  | .statement t, s => by simp [Node.document, Node.isName, t.document_ne_string q s]
  | .subquery t, s => by simp [Node.document, Node.isName, t.document_ne_string q s]
  | .core c, s => by simp [Node.document_core, Node.isName, Document.ofQuery]
  | .equality op left right, s => by
      simp [Node.document_equality, Node.isName, Document.ofTest_ne_string]
  | .connective op left right, s => by simp [Node.document_connective, Node.isName, Document.joined]
  | .sort order operand, s => by simp [Node.document_sort, Node.isName, Document.sortTerm]
  | .bool b, s => by simp [Node.document, Node.isName]
  | .comparison op left right, s => by simp [Node.document, Node.isName]
  | .not operand, s => by simp [Node.document, Node.isName]
  | .namedFunction name args, s => by simp [Node.document, Node.isName]

end RelSearch
