import RelSearch.Proofs.Grouping
import RelSearch.Proofs.Meaning

/-!
# RelSearch.Proofs.Grammar

The grammar of search documents, as a check that a document passes or not:

```
document  = { query: query, per_page?: scalar, offset?: scalar }
query     = { projection?: [attribute], filter?: condition, sort?: [term] }
attribute = { name: string }
term      = { attribute: attribute, order: "ascending" or "descending" }
condition = { filter: { attribute: attribute, parameter: parameter } }
          | { not: condition }
          | { and: [condition, condition, ..] } | { or: [condition, condition, ..] }
parameter = { eq: anything } | { is_null: boolean }
```

The members of an object may stand in any order, but none may be repeated and
none may be added.

A compiler does not ask what a condition, a limit or an offset is, so not every
statement that compiles has a document that conforms.
`Compiler.conforms_iff` says which ones have: those whose last core has only
predicates for conditions, and whose limit and offset are single values.
-/

namespace RelSearch

/-! ## Objects with given keys -/

namespace Json

def isString : Json → Bool
  | .string _ => true
  | _ => false

def isBool : Json → Bool
  | .bool _ => true
  | _ => false

/-- Whether a value is neither an array nor an object. -/
def isScalar : Json → Bool
  | .array _ | .object _ => false
  | _ => true

/-- An array all of whose items pass. -/
def isListOf (check : Json → Bool) : Json → Bool
  | .array items => items.all check
  | _ => false

/-- An object with some of the given keys and no other, each of them once and with
a value that passes. -/
def isObjectOf (fields : List (String × (Json → Bool))) : Json → Bool
  | .object members => (members.map Prod.fst).Nodup && members.all fun (key, value) =>
    match fields.lookup key with
    | some check => check value
    | none => false
  | _ => false

/-- Such an object with all of the given keys. -/
def isRecordOf (fields : List (String × (Json → Bool))) (j : Json) : Bool :=
  j.isObjectOf fields && fields.all fun (key, _) => (j.get? key).isSome

end Json

/-! ## The grammar -/

namespace Document

def isAttribute : Document → Bool := Json.isRecordOf [("name", Json.isString)]

def isOrder : Document → Bool
  | .string word => word == "ascending" || word == "descending"
  | _ => false

def isSortTerm : Document → Bool := Json.isRecordOf [("attribute", isAttribute), ("order", isOrder)]

def isParameter (d : Document) : Bool :=
  Json.isRecordOf [("eq", fun _ => true)] d || Json.isRecordOf [("is_null", Json.isBool)] d

def isTest : Document → Bool :=
  Json.isRecordOf [("attribute", isAttribute), ("parameter", isParameter)]

mutual

/-- Whether a document is a condition. -/
def isCondition : Document → Bool
  | .object [("filter", test)] => isTest test
  | .object [("not", condition)] => isCondition condition
  | .object [("and", .array conditions)] => 2 ≤ conditions.length && areConditions conditions
  | .object [("or", .array conditions)] => 2 ≤ conditions.length && areConditions conditions
  | _ => false

def areConditions : List Document → Bool
  | [] => true
  | d :: ds => isCondition d && areConditions ds

end

def isQuery : Document → Bool :=
  Json.isObjectOf [("projection", Json.isListOf isAttribute), ("filter", isCondition),
    ("sort", Json.isListOf isSortTerm)]

/-- Whether a document conforms to the grammar. The query may be empty, but it is always
there. -/
def conforms (d : Document) : Bool :=
  (d.get? "query").isSome &&
    d.isObjectOf [("query", isQuery), ("per_page", Json.isScalar), ("offset", Json.isScalar)]

/-! ## Fragments conform -/

@[simp] theorem isAttribute_attributeRef (name : String) :
    isAttribute (attributeRef name) = true := by
  simp [isAttribute, attributeRef, Json.isRecordOf, Json.isObjectOf, Json.isString, Json.get?]

@[simp] theorem isSortTerm_sortTerm (name : String) (order : SortOrder) :
    isSortTerm (sortTerm name order) = true := by
  cases order <;>
    simp [isSortTerm, sortTerm, Json.isRecordOf, Json.isObjectOf, Json.get?, List.lookup_cons,
      isOrder, orderText]

/-- A condition on one attribute is a condition of the grammar. -/
@[simp] theorem isCondition_condition (name : String) (test : Test) :
    isCondition (condition name test) = true := by
  cases test <;>
    simp [condition, isCondition, Key.filter, isTest, isParameter, Test.parameter, Json.isRecordOf,
      Json.isObjectOf, Json.isBool, Json.get?, List.lookup_cons]

@[simp] theorem isCondition_negation (d : Document) :
    isCondition (negation d) = isCondition d := by
  simp [negation, isCondition, Key.not]

/-- What a test becomes is a condition. -/
@[simp] theorem isCondition_ofTest (op : EqualityOp) (name : String) (test : Test) :
    isCondition (ofTest op name test) = true := by
  cases test with
  | isNull expected => rw [ofTest_isNull, isCondition_condition]
  | eq value =>
      cases op with
      | equal => rw [ofTest_equal, isCondition_condition]
      | notEqual => rw [ofTest_notEqual, isCondition_negation, isCondition_condition]

/-- What a test becomes is an object. -/
theorem isScalar_ofTest (op : EqualityOp) (name : String) (test : Test) :
    Json.isScalar (ofTest op name test) = false := by
  cases test <;> cases op <;> rfl

theorem areConditions_eq_all (ds : List Document) : areConditions ds = ds.all isCondition := by
  induction ds with
  | nil => rfl
  | cons d ds ih => rw [areConditions, ih, List.all_cons]

/-- Under a connective there have to be two conditions at least. -/
@[simp] theorem isCondition_joined (op : Connective) (ds : List Document) :
    isCondition (joined (connectiveKey op) ds) = (2 ≤ ds.length && ds.all isCondition) := by
  cases op <;> simp [joined, connectiveKey, isCondition, Key.and, Key.or, areConditions_eq_all]

/-! ## Whole documents -/

/-- A single value is no condition. -/
theorem isCondition_of_isScalar {d : Document} (h : Json.isScalar d = true) :
    isCondition d = false := by
  cases d with
  | array items => cases h
  | object members => cases h
  | _ => simp [isCondition]

/-- The document of a statement is no condition: it has no operator but a query. -/
theorem isCondition_ofStatement (query : List (String × Document)) (sort : List Document)
    (limit offset : Option Document) :
    isCondition (ofStatement query sort limit offset) = false := by
  cases limit <;> cases offset <;> simp [ofStatement, isCondition, Key.query]

/-- A query conforms if its conditions do. -/
theorem isQuery_coreQuery {projections sort : List Document} (conditions : List Document)
    (hprojections : Json.isListOf isAttribute (.array projections) = true)
    (hsort : Json.isListOf isSortTerm (.array sort) = true) :
    isQuery (.object (coreQuery projections conditions ++
      if sort.isEmpty then [] else [(Key.sort, .array sort)])) = conditions.all isCondition := by
  have hjoined : isCondition (joined Key.and conditions) =
      (2 ≤ conditions.length && conditions.all isCondition) := isCondition_joined .and conditions
  rcases conditions with _ | ⟨condition, _ | ⟨other, rest⟩⟩ <;> cases projections <;> cases sort <;>
    simp [isQuery, coreQuery, Json.isObjectOf, Key.projection, Key.filter, Key.sort,
      List.lookup_cons, hprojections, hsort, hjoined]

/-- The document of a statement conforms if its query does and its limit and offset are single
values. -/
theorem conforms_ofStatement (query : List (String × Document)) (sort : List Document)
    (limit offset : Option Document) :
    conforms (ofStatement query sort limit offset) =
      (isQuery (.object (query ++ if sort.isEmpty then [] else [(Key.sort, .array sort)])) &&
        limit.all Json.isScalar && offset.all Json.isScalar) := by
  cases limit <;> cases offset <;>
    simp [conforms, ofStatement, Json.isObjectOf, Json.get?, Key.query, Key.perPage, Key.offset,
      List.lookup_cons, Bool.and_assoc]

end Document

/-! ## Which nodes become what -/

namespace Node

/-- Whether a node stands for a single value. -/
def isAtom : Node → Bool
  | .column _ | .literal _ _ | .sqlLiteral _ | .bool _ => true
  | _ => false

/-- Literals become single values. -/
theorem isScalar_literal (q : Quoting) (form : LiteralForm) (value : Scalar) :
    ((literal form value).document q).isScalar = true := by
  have hjson : value.document.isScalar = true := by
    cases value with
    | float x => by_cases h : x.isFinite <;> simp [Scalar.document, Json.isScalar, h]
    | _ => rfl
  cases form with
  | quoted => simp [document, Json.isScalar]
  | plain => simpa [document] using hjson
  | casted => simpa [document] using hjson

/-- The nodes that become conditions are the predicates. -/
theorem isCondition_document (q : Quoting) (n : Node) :
    Document.isCondition (n.document q) = n.isPredicate := by
  fun_induction isPredicate n with
  | case1 op left right =>
      rw [document_equality, Document.isCondition_ofTest]
  | case2 op left right ihleft ihright => simp [document_connective, ihleft, ihright]
  | case3 inner ih => rw [document, ih]
  | case4 n hequality hconnective hgrouping =>
      cases n with
      | equality op left right => exact absurd rfl (hequality op left right)
      | connective op left right => exact absurd rfl (hconnective op left right)
      | grouping inner => exact absurd rfl (hgrouping inner)
      | statement s => rw [document, Statement.document_eq, Document.isCondition_ofStatement]
      | subquery s => rw [document, Statement.document_eq, Document.isCondition_ofStatement]
      | core c => simp [document_core, Document.ofQuery, Document.isCondition, Document.Key.query]
      | literal form value => exact Document.isCondition_of_isScalar (isScalar_literal q form value)
      | sort order operand => simp [document_sort, Document.sortTerm, Document.isCondition]
      | _ => simp [document, Document.isCondition]

/-- Of the nodes that compile, single values become scalars, and all others become
objects. -/
theorem isScalar_document (q : Quoting) {limit : Nat} {n : Node} (h : n.faults limit = []) :
    (n.document q).isScalar = n.stripped.isAtom := by
  have hgroup := n.isGrouping_stripped
  have htranslated := isTranslated_of_faults_eq_nil (faults_stripped h)
  rw [← n.document_stripped q]
  cases hn : n.stripped with
  | grouping inner => simp [hn, isGrouping] at hgroup
  | comparison op left right => simp [hn, isTranslated] at htranslated
  | not operand => simp [hn, isTranslated] at htranslated
  | namedFunction name args => simp [hn, isTranslated] at htranslated
  | literal form value => exact isScalar_literal q form value
  | statement s => rw [document, Statement.document_eq]; rfl
  | subquery s => rw [document, Statement.document_eq]; rfl
  | equality op left right => simp [document_equality, Document.isScalar_ofTest, isAtom]
  | core c => simp [document_core, Document.ofQuery, Json.isScalar, isAtom]
  | connective op left right => simp [document_connective, Document.joined, Json.isScalar, isAtom]
  | sort order operand => simp [document_sort, Document.sortTerm, Json.isScalar, isAtom]
  | _ => simp [document, Json.isScalar, isAtom]

end Node

/-! ## Statements that conform -/

/-- Whatever is sorted by, the sort term conforms. -/
theorem Node.isSortTerm_sortTerm (q : Quoting) (n : Node) :
    Document.isSortTerm (n.sortTerm q) = true := by
  fun_cases Node.sortTerm q n <;> simp [Document.orderedBy_eq_sortTerm]

/-- The query of a core conforms if its conditions are predicates, whatever the sort
terms of the statement are. -/
theorem Core.isQuery_query (q : Quoting) (c : Core) (orders : List Node) :
    Document.isQuery (.object (c.query q ++ if (orders.map (·.sortTerm q)).isEmpty then []
      else [(Document.Key.sort, .array (orders.map (·.sortTerm q)))])) =
      c.wheres.all (·.isPredicate) := by
  rw [Core.query, Document.isQuery_coreQuery, List.all_map]
  · simp only [Function.comp_def, Node.isCondition_document]
  · simp [Json.isListOf]
  · simp [Json.isListOf, Node.isSortTerm_sortTerm]

/-- Whether the document of a statement conforms depends on its conditions, its limit and its
offset alone. -/
theorem Statement.conforms_document (q : Quoting) (s : Statement) :
    Document.conforms (s.document q) =
      ((s.cores.getLast?.all fun core => core.wheres.all (·.isPredicate)) &&
        (s.limit.all fun n => (n.document q).isScalar) &&
        s.offset.all fun n => (n.document q).isScalar) := by
  rw [Statement.document_eq, Document.conforms_ofStatement, List.getLast?_map, Option.all_map,
    Option.all_map]
  congr 2
  cases s.cores.getLast? with
  | none =>
      -- without a core the query is that of a core without projections and conditions
      have hempty := Core.empty.isQuery_query q s.orders
      exact hempty
  | some core => exact core.isQuery_query q s.orders

namespace Compiler

/-- **Grammar**: the document of a statement conforms exactly if every condition of
the last core is a predicate, and limit and offset, if there are any, are single
values. -/
theorem conforms_iff (c : Compiler) (s : Statement) (d : Document)
    (h : c.compileStatement s = .ok d) :
    Document.conforms d = true ↔
      (∀ core ∈ s.cores.getLast?, ∀ w ∈ core.wheres, w.isPredicate = true) ∧
        (∀ n ∈ s.limit, n.stripped.isAtom = true) ∧ ∀ n ∈ s.offset, n.stripped.isAtom = true := by
  rw [compileStatement_eq_compile, compile_eq_outcomeOf, outcomeOf_eq_ok_iff] at h
  obtain ⟨hfaults, rfl⟩ := h
  have hlimit : ∀ n ∈ s.limit, (n.document c.quoting).isScalar = n.stripped.isAtom := by
    intro n hn
    refine Node.isScalar_document c.quoting (Node.faults_value_eq_nil hfaults ?_)
    simp [Node.visitedParts, Node.parts, Statement.parts, Option.mem_def.mp hn]
  have hoffset : ∀ n ∈ s.offset, (n.document c.quoting).isScalar = n.stripped.isAtom := by
    intro n hn
    refine Node.isScalar_document c.quoting (Node.faults_value_eq_nil hfaults ?_)
    simp [Node.visitedParts, Node.parts, Statement.parts, Option.mem_def.mp hn]
  rw [Node.document, Statement.conforms_document, Bool.and_eq_true, Bool.and_eq_true, and_assoc,
    Option.all_eq_true, Option.all_eq_true, Option.all_eq_true]
  refine and_congr ?_ (and_congr ?_ ?_)
  · simp only [List.all_eq_true, Option.mem_def]
  · exact forall₂_congr fun n hn => by rw [hlimit n hn]
  · exact forall₂_congr fun n hn => by rw [hoffset n hn]

/-- A statement whose condition is no predicate compiles to a document that does not
conform, and conforms once the condition is one, in parentheses or not. -/
theorem conforms_iff_where :
    let statement (w : Node) : Statement :=
      ⟨[⟨[.sqlLiteral "id"], [w]⟩], [], some (.grouping (.literal .plain (.int 10))), none⟩
    let test : Node := .grouping (.equality .notEqual (.sqlLiteral "age") none)
    ∃ d e, new.compileStatement (statement test) = .ok d ∧ Document.conforms d = true ∧
      new.compileStatement (statement (.connective .or test (.bool true))) = .ok e ∧
      ¬ Document.conforms e = true := by
  intro statement test
  refine ⟨_, _, rfl, (conforms_iff new (statement test) _ rfl).mpr ?_, rfl, fun h => ?_⟩
  · simp [statement, test, Node.isPredicate, Node.stripped, Node.isAtom]
  · obtain ⟨hwheres, -⟩ :=
      (conforms_iff new (statement (.connective .or test (.bool true))) _ rfl).mp h
    simp [statement, test, Node.isPredicate] at hwheres

end Compiler

end RelSearch
