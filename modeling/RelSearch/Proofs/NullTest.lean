import RelSearch.Proofs.Grammar

/-!
# RelSearch.Proofs.NullTest

Where tests for null end up in documents.

A test for equality asks its attribute to be null, or to equal a value. It asks
for null if its right side is missing or is itself a literal null. A literal null
in parentheses is a value like any other: it is compiled, and what comes out is
an equality with null, or with what the policy writes for a quoted null.

`Compiler.compile_null_tests` says this of all tests of a query, and that the
document has no other equality with null in it: a query without nulls in
parentheses is compiled to a document without any.
-/

namespace RelSearch

/-! ## What a test asks for -/

namespace Node

/-- A null that is written out has no parentheses around it. -/
theorem isGroupedNull_of_isNull {n : Node} (h : n.isNull = true) : n.isGroupedNull = false := by
  cases n with
  | grouping inner => cases h
  | _ => rfl

/-- What is no null itself is one in parentheses if a null is left without them. -/
theorem isGroupedNull_of_isNull_eq_false {n : Node} (h : n.isNull = false) :
    n.isGroupedNull = n.stripped.isNull := by
  cases n with
  | grouping inner => rfl
  | _ => exact h.symm

/-- What a node that compiles becomes is null only if the node is a literal null,
parentheses apart, and is not quoted. -/
theorem document_eq_null_iff (q : Quoting) {limit : Nat} {n : Node} (h : n.faults limit = []) :
    n.document q = .null ↔ n.stripped.isNull = true ∧ n.stripped ≠ .literal .quoted .null := by
  have hgroup := n.isGrouping_stripped
  have htranslated := isTranslated_of_faults_eq_nil (faults_stripped h)
  have hfinite := isFinite_of_faults_eq_nil (faults_stripped h)
  rw [← n.document_stripped q]
  cases hn : n.stripped with
  | grouping inner => simp [hn, isGrouping] at hgroup
  | comparison op left right => simp [hn, isTranslated] at htranslated
  | not operand => simp [hn, isTranslated] at htranslated
  | namedFunction name args => simp [hn, isTranslated] at htranslated
  | literal form value =>
      rw [hn] at hfinite
      cases form <;> cases value <;>
        simp_all [document, isNull, Scalar.isNull, Scalar.document, isFinite]
  | statement s => simp [document, Statement.document_eq, Document.ofStatement, isNull]
  | subquery s => simp [document, Statement.document_eq, Document.ofStatement, isNull]
  | equality op left right =>
      have hscalar := Document.isScalar_ofTest op (left.name q) (test q op right)
      rw [document_equality]
      refine ⟨fun hnull => ?_, fun hnull => absurd hnull.1 (by simp [isNull])⟩
      rw [hnull] at hscalar
      cases hscalar
  | core c => simp [document_core, Document.ofQuery, isNull]
  | connective op left right => simp [document_connective, Document.joined, isNull]
  | sort order operand => simp [document_sort, Document.sortTerm, isNull]
  | _ => simp [document, isNull]

end Node

/-! ## What stands inside a document -/

namespace Json

/-- `j.Inside k`: the value `j` is `k` or stands somewhere in it. -/
inductive Inside : Json → Json → Prop
  | refl (j : Json) : Inside j j
  | item {j x : Json} {items : List Json} (h : x ∈ items) (inside : Inside j x) :
    Inside j (.array items)
  | member {j value : Json} {key : String} {members : List (String × Json)}
    (h : (key, value) ∈ members) (inside : Inside j value) : Inside j (.object members)

/-- What stands in an array is the array or stands in one of its items. -/
theorem inside_array {j : Json} {items : List Json} :
    j.Inside (.array items) ↔ j = .array items ∨ ∃ x ∈ items, j.Inside x := by
  constructor
  · intro h
    cases h with
    | refl => exact .inl rfl
    | item hx inside => exact .inr ⟨_, hx, inside⟩
  · rintro (rfl | ⟨x, hx, inside⟩)
    · exact .refl _
    · exact .item hx inside

/-- What stands in an object is the object or stands in one of its values. -/
theorem inside_object {j : Json} {members : List (String × Json)} :
    j.Inside (.object members) ↔ j = .object members ∨ ∃ m ∈ members, j.Inside m.2 := by
  constructor
  · intro h
    cases h with
    | refl => exact .inl rfl
    | member hm inside => exact .inr ⟨_, hm, inside⟩
  · rintro (rfl | ⟨m, hm, inside⟩)
    · exact .refl _
    · exact .member hm inside

/-- Nothing stands in a single value but the value. -/
theorem inside_of_isScalar {j k : Json} (h : k.isScalar = true) : j.Inside k ↔ j = k := by
  constructor
  · intro inside
    cases inside with
    | refl => rfl
    | item => cases h
    | member => cases h
  · rintro rfl
    exact .refl j

end Json

namespace Document

variable {name : String} {test : Test}

/-- A condition tells its name and its test. -/
theorem condition_inj {other : String} {otherTest : Test} :
    condition name test = condition other otherTest ↔ name = other ∧ test = otherTest := by
  cases test <;> cases otherTest <;> simp [condition, attributeRef, Test.parameter]

theorem not_inside_of_isScalar {d : Document} (h : Json.isScalar d = true) :
    ¬ Json.Inside (condition name test) d := by
  rw [Json.inside_of_isScalar h]
  rintro rfl
  cases h

/-- A condition is an object with the key `filter` alone, so in any other object it
stands inside a member. -/
theorem inside_member {members : List (String × Document)}
    (hkey : ∀ value, members ≠ [(Key.filter, value)])
    (h : Json.Inside (condition name test) (.object members)) :
    ∃ m ∈ members, Json.Inside (condition name test) m.2 := by
  rcases Json.inside_object.mp h with heq | hmember
  · exact absurd (Json.object.inj heq).symm (hkey _)
  · exact hmember

theorem not_inside_attributeRef (a : String) :
    ¬ Json.Inside (condition name test) (attributeRef a) := by
  intro h
  obtain ⟨m, hm, inside⟩ := inside_member (by simp [Key.filter]) h
  obtain rfl := List.mem_singleton.mp hm
  exact not_inside_of_isScalar rfl inside

/-- No condition stands in a sort term. -/
theorem not_inside_sortTerm (a : String) (order : SortOrder) :
    ¬ Json.Inside (condition name test) (sortTerm a order) := by
  intro h
  obtain ⟨m, hm, inside⟩ := inside_member (by simp) h
  rcases List.mem_pair.mp hm with rfl | rfl
  · exact not_inside_attributeRef a inside
  · exact not_inside_of_isScalar rfl inside

/-- A condition in a negation stands in what is negated. -/
theorem inside_negation {d : Document} (h : Json.Inside (condition name test) (negation d)) :
    Json.Inside (condition name test) d := by
  obtain ⟨m, hm, inside⟩ := inside_member (by simp [Key.filter, Key.not]) h
  obtain rfl := List.mem_singleton.mp hm
  exact inside

/-- A condition under a connective stands in one of the operands. -/
theorem inside_joined (op : Connective) {ds : List Document}
    (h : Json.Inside (condition name test) (joined (connectiveKey op) ds)) :
    ∃ d ∈ ds, Json.Inside (condition name test) d := by
  have hkey : ∀ value : Document,
      [(connectiveKey op, Json.array ds)] ≠ [(Key.filter, value)] := by
    cases op <;> simp [connectiveKey, Key.and, Key.or, Key.filter]
  obtain ⟨m, hm, inside⟩ := inside_member hkey h
  obtain rfl := List.mem_singleton.mp hm
  rcases Json.inside_array.mp inside with heq | hitem
  · cases heq
  · exact hitem

/-- A condition inside another one is that one, or stands in the value that the
other one asks for. -/
theorem inside_condition {a : String} {other : Test}
    (h : Json.Inside (condition name test) (condition a other)) :
    (name = a ∧ test = other) ∨
      ∃ value, other = .eq value ∧ Json.Inside (condition name test) value := by
  rcases Json.inside_object.mp h with heq | ⟨m, hm, inside⟩
  · exact .inl (condition_inj.mp heq)
  · obtain rfl := List.mem_singleton.mp hm
    obtain ⟨m, hm, inside⟩ := inside_member (by simp) inside
    rcases List.mem_pair.mp hm with rfl | rfl
    · exact absurd inside (not_inside_attributeRef a)
    · cases other with
      | eq value =>
          obtain ⟨m, hm, inside⟩ := inside_member (by simp [Key.filter]) inside
          obtain rfl := List.mem_singleton.mp hm
          exact .inr ⟨value, rfl, inside⟩
      | isNull expected =>
          obtain ⟨m, hm, inside⟩ := inside_member (by simp [Key.filter]) inside
          obtain rfl := List.mem_singleton.mp hm
          exact absurd inside (not_inside_of_isScalar rfl)

/-- A condition in what a test becomes is that of the test, or stands in the value that the test
asks for. -/
theorem inside_ofTest {op : EqualityOp} {a : String} {other : Test}
    (h : Json.Inside (condition name test) (ofTest op a other)) :
    (name = a ∧ test = other) ∨
      ∃ value, other = .eq value ∧ Json.Inside (condition name test) value := by
  cases other with
  | isNull expected => exact inside_condition h
  | eq value =>
      cases op with
      | equal => exact inside_condition h
      | notEqual => exact inside_condition (inside_negation h)

/-- Whether a document has the form of what stands in a condition under `filter`. -/
def isContent : Document → Bool
  | .object [("attribute", _), ("parameter", _)] => true
  | _ => false

/-- The members that a query can have. -/
theorem eq_of_mem_coreQuery {projections conditions : List Document} {m : String × Document}
    (h : m ∈ coreQuery projections conditions) :
    m = (Key.projection, .array projections) ∨
      (∃ d, conditions = [d] ∧ m = (Key.filter, d)) ∨
      m = (Key.filter, joined Key.and conditions) := by
  rcases List.mem_append.mp h with h | h
  · split at h
    · exact absurd h List.not_mem_nil
    · exact .inl (List.mem_singleton.mp h)
  · split at h
    · exact absurd h List.not_mem_nil
    · exact .inr (.inl ⟨_, rfl, List.mem_singleton.mp h⟩)
    · exact .inr (.inr (List.mem_singleton.mp h))

/-- A query is never a condition itself: what it has under `filter` is a condition,
not the content of one. -/
theorem condition_ne_coreQuery {projections conditions sort : List Document}
    (hconditions : ∀ d ∈ conditions, isContent d = false) :
    condition name test ≠ .object (coreQuery projections conditions ++
      if sort.isEmpty then [] else [(Key.sort, .array sort)]) := by
  intro h
  rcases conditions with _ | ⟨c, _ | ⟨other, rest⟩⟩ <;> cases projections <;> cases sort <;>
    simp [condition, coreQuery, joined, Key.filter, Key.projection, Key.sort] at h
  subst h
  simp [isContent] at hconditions

/-- A condition inside a query stands inside one of the query's conditions. -/
theorem inside_coreQuery {projections conditions sort : List Document}
    (hprojections : ∀ d ∈ projections, ¬ Json.Inside (condition name test) d)
    (hsort : ∀ d ∈ sort, ¬ Json.Inside (condition name test) d)
    (hconditions : ∀ d ∈ conditions, isContent d = false)
    (h : Json.Inside (condition name test) (.object (coreQuery projections conditions ++
      if sort.isEmpty then [] else [(Key.sort, .array sort)]))) :
    ∃ d ∈ conditions, Json.Inside (condition name test) d := by
  have harray : ∀ ds : List Document, (∀ d ∈ ds, ¬ Json.Inside (condition name test) d) →
      ¬ Json.Inside (condition name test) (.array ds) := by
    intro ds hds inside
    rcases Json.inside_array.mp inside with heq | ⟨d, hd, inside⟩
    · cases heq
    · exact hds d hd inside
  rcases Json.inside_object.mp h with heq | ⟨m, hm, inside⟩
  · exact absurd heq (condition_ne_coreQuery hconditions)
  · rcases List.mem_append.mp hm with hm | hm
    · rcases eq_of_mem_coreQuery hm with rfl | ⟨d, rfl, rfl⟩ | rfl
      · exact absurd inside (harray projections hprojections)
      · exact ⟨d, List.mem_singleton_self d, inside⟩
      · exact inside_joined .and inside
    · split at hm
      · exact absurd hm List.not_mem_nil
      · obtain rfl := List.mem_singleton.mp hm
        exact absurd inside (harray sort hsort)

/-- What stands in a condition of a core stands in its query. -/
theorem inside_coreQuery_of_mem {projections conditions : List Document} {d : Document}
    (hd : d ∈ conditions) (inside : Json.Inside (condition name test) d) :
    Json.Inside (condition name test) (.object (coreQuery projections conditions)) := by
  rcases conditions with _ | ⟨c, _ | ⟨other, rest⟩⟩
  · exact absurd hd List.not_mem_nil
  · obtain rfl := List.mem_singleton.mp hd
    exact .member (List.mem_append_right _ List.mem_cons_self) inside
  · refine .member (List.mem_append_right _ List.mem_cons_self) ?_
    exact .member List.mem_cons_self (.item hd inside)

/-- A condition in the document of a statement stands in its query, its limit or its offset. -/
theorem inside_ofStatement {query : List (String × Document)} {sort : List Document}
    {limit offset : Option Document}
    (h : Json.Inside (condition name test) (ofStatement query sort limit offset)) :
    Json.Inside (condition name test)
        (.object (query ++ if sort.isEmpty then [] else [(Key.sort, .array sort)])) ∨
      (∃ d ∈ limit, Json.Inside (condition name test) d) ∨
      ∃ d ∈ offset, Json.Inside (condition name test) d := by
  obtain ⟨m, hm, inside⟩ := inside_member (by simp [Key.query, Key.filter]) h
  simp only [List.cons_append, List.mem_cons, List.mem_append, Option.mem_toList,
    Option.map_eq_some_iff] at hm
  rcases hm with rfl | ⟨d, hd, rfl⟩ | ⟨d, hd, rfl⟩
  · exact .inl inside
  · exact .inr (.inl ⟨d, hd, inside⟩)
  · exact .inr (.inr ⟨d, hd, inside⟩)

end Document

/-! ## Conditions come from tests -/

namespace Node

/-- No node becomes what stands under `filter`. -/
theorem isContent_document (q : Quoting) : (n : Node) → Document.isContent (n.document q) = false
  | .grouping inner => by rw [document, isContent_document q inner]
  | .equality op left right => by
      rw [document_equality]
      cases op <;> cases test q _ right <;>
        simp [Document.ofTest, Document.filterOn, Document.isContent]
  | .statement s => by
      simp [document, Statement.document_eq, Document.ofStatement, Document.isContent,
        Document.Key.query]
  | .subquery s => by
      simp [document, Statement.document_eq, Document.ofStatement, Document.isContent,
        Document.Key.query]
  | .core c => by simp [document_core, Document.ofQuery, Document.isContent]
  | .connective op left right => by simp [document_connective, Document.joined, Document.isContent]
  | .sort order operand => by simp [document_sort, Document.sortTerm, Document.isContent]
  | .literal form value => by
    have := isScalar_literal q form value
    revert this
    cases (literal form value).document q <;> simp [Document.isContent, Json.isScalar]
  | .column a => by simp [document, Document.isContent]
  | .sqlLiteral text => by simp [document, Document.isContent]
  | .bool b => by simp [document, Document.isContent]
  | .comparison op left right => by simp [document, Document.isContent]
  | .not operand => by simp [document, Document.isContent]
  | .namedFunction name args => by simp [document, Document.isContent]

/-- A query has a test of the attribute `name` that is visited and asks for `t`. -/
def Tests (q : Quoting) (n : Node) (name : String) (t : Document.Test) : Prop :=
  ∃ level role op left right, n.Visits level ⟨role, .equality op left right⟩ ∧
    left.name q = name ∧ test q op right = t

/-- A test of a part is a test of the query. -/
theorem Tests.of_part {q : Quoting} {n : Node} {p : Place} {name : String} {t : Document.Test}
    (hp : p ∈ n.visitedParts) (h : p.node.Tests q name t) : n.Tests q name t := by
  obtain ⟨level, role, op, left, right, way, hname, ht⟩ := h
  obtain ⟨partRole, x⟩ := p
  cases way with
  | here => exact ⟨1, partRole, op, left, right, .down hp (.here _), hname, ht⟩
  | down part way => exact ⟨_, role, op, left, right, .down hp (.down part way), hname, ht⟩

/-- The same of the sort term of a node. -/
theorem not_inside_sortTerm (q : Quoting) (n : Node) {name : String} {t : Document.Test} :
    ¬ Json.Inside (Document.condition name t) (n.sortTerm q) := by
  fun_cases sortTerm q n <;> rw [Document.orderedBy_eq_sortTerm] <;>
    exact Document.not_inside_sortTerm _ _

end Node

/-- A condition inside the query of a core stands inside the document of one of its
conditions, whatever the statement of the core sorts by. -/
theorem Core.inside_query (q : Quoting) {c : Core} (orders : List Node) {name : String}
    {t : Document.Test} (h : Json.Inside (Document.condition name t)
      (.object (c.query q ++ if (orders.map (·.sortTerm q)).isEmpty then []
        else [(Document.Key.sort, .array (orders.map (·.sortTerm q)))]))) :
    ∃ w ∈ c.wheres, Json.Inside (Document.condition name t) (w.document q) := by
  obtain ⟨d, hd, inside⟩ := Document.inside_coreQuery
    (List.forall_mem_map.mpr fun _ _ => Document.not_inside_attributeRef _)
    (List.forall_mem_map.mpr fun n _ => n.not_inside_sortTerm q)
    (List.forall_mem_map.mpr fun n _ => n.isContent_document q) h
  obtain ⟨w, hw, rfl⟩ := List.mem_map.mp hd
  exact ⟨w, hw, inside⟩

/-- What stands in a condition of a core stands in its document. -/
theorem Core.inside_document (q : Quoting) {c : Core} {w : Node} {name : String}
    {t : Document.Test} (hw : w ∈ c.wheres)
    (h : Json.Inside (Document.condition name t) (w.document q)) :
    Json.Inside (Document.condition name t) ((Node.core c).document q) := by
  rw [Node.document_core]
  exact .member List.mem_cons_self (Document.inside_coreQuery_of_mem (List.mem_map_of_mem hw) h)

/-- A condition inside the document of a statement stands inside the document of its
last core, its limit or its offset. -/
theorem Statement.inside_document (q : Quoting) {s : Statement} {name : String}
    {t : Document.Test} (h : Json.Inside (Document.condition name t) (s.document q)) :
    ∃ p ∈ s.parts, p.role ≠ .skipped ∧
      Json.Inside (Document.condition name t) (p.node.document q) := by
  rw [Statement.document_eq, List.getLast?_map] at h
  rcases Document.inside_ofStatement h with inside | ⟨d, hd, inside⟩ | ⟨d, hd, inside⟩
  · cases hlast : s.cores.getLast? with
    | none =>
        -- no core: the query is that of an empty one, which has no conditions
        rw [hlast] at inside
        obtain ⟨w, hw, -⟩ := Core.inside_query (c := .empty) q s.orders inside
        exact absurd hw List.not_mem_nil
    | some core =>
        rw [hlast] at inside
        obtain ⟨w, hw, inside⟩ := Core.inside_query q s.orders inside
        refine ⟨⟨.core, .core core⟩, ?_, by simp, Core.inside_document q hw inside⟩
        simp [Statement.parts, List.mem_of_getLast? hlast]
  · obtain ⟨n, hn, rfl⟩ := Option.map_eq_some_iff.mp hd
    exact ⟨⟨.value, n⟩, by simp [Statement.parts, hn], by simp, inside⟩
  · obtain ⟨n, hn, rfl⟩ := Option.map_eq_some_iff.mp hd
    exact ⟨⟨.value, n⟩, by simp [Statement.parts, hn], by simp, inside⟩

namespace Node

/-- Every condition inside the document of a query comes from a test of the query. -/
theorem tests_of_inside (q : Quoting) {n : Node} {name : String} {t : Document.Test}
    (h : Json.Inside (Document.condition name t) (n.document q)) : n.Tests q name t := by
  induction n using induction_parts with
  | step n ih =>
      -- it is enough to find the condition in the document of a part that is visited
      have hpart : ∀ p ∈ n.visitedParts,
          Json.Inside (Document.condition name t) (p.node.document q) → n.Tests q name t :=
        fun p hp inside => .of_part hp (ih p (mem_visitedParts.mp hp).1 inside)
      cases n with
      | grouping inner =>
          rw [document] at h
          exact hpart ⟨.value, inner⟩ (by simp [visitedParts, parts]) h
      | connective op left right =>
          rw [document_connective] at h
          obtain ⟨d, hd, inside⟩ := Document.inside_joined op h
          rcases List.mem_pair.mp hd with rfl | rfl
          · exact hpart ⟨.value, left⟩ (by simp [visitedParts, parts]) inside
          · exact hpart ⟨.value, right⟩ (by simp [visitedParts, parts]) inside
      | equality op left right =>
          rw [document_equality] at h
          rcases Document.inside_ofTest h with ⟨hname, ht⟩ | ⟨value, hvalue, inside⟩
          · exact ⟨0, .value, op, left, right, .here _, hname.symm, ht.symm⟩
          · cases right with
            | none => cases hvalue
            | some right =>
                by_cases hnull : right.isNull = true
                · simp [test, hnull] at hvalue
                · simp only [test, hnull, Bool.false_eq_true, if_false,
                    Document.Test.eq.injEq] at hvalue
                  subst hvalue
                  refine hpart ⟨.value, right⟩ ?_ inside
                  simp [visitedParts, parts, Place.ofRight, hnull]
      | core c =>
          rw [document_core] at h
          obtain ⟨m, hm, inside⟩ :=
            Document.inside_member (by simp [Document.Key.query, Document.Key.filter]) h
          obtain rfl := List.mem_singleton.mp hm
          rw [← List.append_nil (c.query q)] at inside
          obtain ⟨w, hw, inside⟩ := Core.inside_query q [] inside
          exact hpart ⟨.value, w⟩ (by simp [visitedParts, parts, Core.parts, hw]) inside
      | statement s =>
          rw [document] at h
          obtain ⟨p, hp, hrole, inside⟩ := Statement.inside_document q h
          exact hpart p (mem_visitedParts.mpr ⟨hp, hrole⟩) inside
      | subquery s =>
          rw [document] at h
          obtain ⟨p, hp, hrole, inside⟩ := Statement.inside_document q h
          exact hpart p (mem_visitedParts.mpr ⟨hp, hrole⟩) inside
      | sort order operand =>
          rw [document_sort] at h
          exact absurd h (Document.not_inside_sortTerm _ order)
      | literal form value =>
          exact absurd h (Document.not_inside_of_isScalar (isScalar_literal q form value))
      | _ =>
          rw [document] at h
          exact absurd h (Document.not_inside_of_isScalar rfl)

end Node

/-! ## Tests for null -/

namespace Compiler

variable (c : Compiler)

/-- A test that is visited in a query that compiles becomes the condition of what it
asks for, and what it asks for is an equality with null only if its right side is a
null in parentheses that is not quoted. -/
theorem outcome_lower_test {n : Node} (h : n.faults c.settings.maxDepth = []) {level : Nat}
    {role : Role} {op : EqualityOp} {left : Node} {right : Option Node}
    (hx : n.Visits level ⟨role, .equality op left right⟩) :
    (c.lower (.equality op left right) level).outcome =
        .ok (Document.ofTest op (left.name c.quoting) (Node.test c.quoting op right)) ∧
      (Node.test c.quoting op right = .eq .null ↔
        ∃ r ∈ right, r.isGroupedNull = true ∧ r.stripped ≠ .literal .quoted .null) := by
  obtain ⟨hskipped, hcore⟩ := hx.isVisited
  have hnotCore : role ≠ .core := fun hrole => by
    obtain ⟨core, hnode⟩ := hcore hrole
    cases hnode
  have hvisit := hx.faults_eq_nil h hnotCore hskipped
  constructor
  · rw [outcome_lower, hvisit, Node.document_equality]
    rfl
  · cases right with
    | none => simp [Node.test]
    | some right =>
        by_cases hnull : right.isNull = true
        · simp [Node.test, hnull, Node.isGroupedNull_of_isNull hnull]
        · have hself : (Node.equality op left (some right)).faults c.settings.maxDepth = [] :=
            Place.faults_eq_nil_of_le _ [] (Nat.zero_le level) hvisit
          have hright : right.faults c.settings.maxDepth = [] :=
            Node.faults_value_eq_nil hself
              (by simp [Node.visitedParts, Node.parts, Place.ofRight, hnull])
          rw [Bool.not_eq_true] at hnull
          simp [Node.test, hnull, Node.document_eq_null_iff c.quoting hright,
            Node.isGroupedNull_of_isNull_eq_false hnull]

/-- **Null tests**: in a query that compiles, a test for equality whose right side is missing
or a literal null asks whether its attribute is null. Any other test asks for equality with a
value, which is null exactly if the right side is a literal null in parentheses, quoted ones
apart; and no other condition of the document asks for equality with null. -/
theorem compile_null_tests {n : Node} {d : Document} (h : c.compile n = .ok d) :
    (∀ level role op left right, n.Visits level ⟨role, .equality op left right⟩ →
      (right.all (·.isNull) = true ∧
        (c.lower (.equality op left right) level).outcome =
          .ok (Document.filterOn (left.name c.quoting)
            (.object [("is_null", .bool (op = .equal))]))) ∨
      ∃ r value, right = some r ∧ r.isNull = false ∧
        (c.lower (.equality op left right) level).outcome = .ok
          (if op = .equal then Document.filterOn (left.name c.quoting) (.object [("eq", value)])
          else .object [("not",
            Document.filterOn (left.name c.quoting) (.object [("eq", value)]))]) ∧
        (value = .null ↔ r.isGroupedNull = true ∧ r.stripped ≠ .literal .quoted .null)) ∧
    ∀ name, Json.Inside (Document.filterOn name (.object [("eq", .null)])) d →
      ∃ level role op left right, n.Visits level ⟨role, .equality op left (some right)⟩ ∧
        left.name c.quoting = name ∧ right.isGroupedNull = true := by
  rw [compile_eq_outcomeOf, outcomeOf_eq_ok_iff] at h
  obtain ⟨hfaults, rfl⟩ := h
  constructor
  · intro level role op left right hx
    obtain ⟨hfragment, hnull⟩ := c.outcome_lower_test hfaults hx
    rcases Node.test_cases c.quoting op right with ⟨hright, htest⟩ | ⟨r, rfl, hr, htest⟩
    · rw [htest] at hfragment
      exact .inl ⟨hright, hfragment⟩
    · rw [htest] at hfragment hnull
      refine .inr ⟨r, r.document c.quoting, rfl, hr, ?_, by simpa using hnull⟩
      cases op <;> exact hfragment
  · intro name inside
    obtain ⟨level, role, op, left, right, hx, hname, htest⟩ :=
      Node.tests_of_inside c.quoting (t := .eq .null) inside
    obtain ⟨r, rfl, hgrouped, -⟩ := (c.outcome_lower_test hfaults hx).2.mp htest
    exact ⟨level, role, op, left, r, hx, hname, hgrouped⟩

/-- The same tests with and without parentheses around the null: the one on the left
of the connective asks for null, the one on its right for equality with null. -/
theorem compile_null_tests_grouped :
    let null : Node := .literal .casted .null
    let test (right : Node) : Node := .equality .notEqual (.sqlLiteral "email") (some right)
    let n : Node := .connective .or (test null) (test (.grouping (.grouping null)))
    ∃ d, new.compile n = .ok d ∧
      (new.lower (test null) 1).outcome =
        .ok (Document.filterOn "email" (.object [("is_null", .bool false)])) ∧
      (new.lower (test (.grouping (.grouping null))) 1).outcome =
        .ok (.object [("not", Document.filterOn "email" (.object [("eq", .null)]))]) := by
  intro null test n
  have hok : new.compile n = .ok _ := rfl
  obtain ⟨htests, -⟩ := new.compile_null_tests hok
  have hleft : n.Visits 1 ⟨.value, test null⟩ :=
    .down (by simp [n, Node.visitedParts, Node.parts]) (.here _)
  have hright : n.Visits 1 ⟨.value, test (.grouping (.grouping null))⟩ :=
    .down (by simp [n, Node.visitedParts, Node.parts]) (.here _)
  refine ⟨_, hok, ?_, ?_⟩
  · rcases htests 1 _ _ _ _ hleft with ⟨-, hfragment⟩ | ⟨r, value, hr, hnull, -⟩
    · exact hfragment
    · cases hr
      cases hnull
  · rcases htests 1 _ _ _ _ hright with ⟨hnull, -⟩ | ⟨r, value, hr, -, hfragment, heq⟩
    · cases hnull
    · cases hr
      rw [heq.mpr ⟨rfl, by simp [null, Node.stripped]⟩] at hfragment
      exact hfragment

/-- A null in parentheses is not taken for a null. -/
theorem compile_equality_grouped_null :
    new.compile
        (.equality .equal (.sqlLiteral "email") (some (.grouping (.literal .casted .null)))) =
      .ok (.object [("filter", .object [("attribute", .object [("name", .string "email")]),
        ("parameter", .object [("eq", .null)])])]) := rfl

end Compiler

end RelSearch
