import RelSearch.Proofs.Domain

/-!
# RelSearch.Proofs.Meaning

What conditions say about records, in a query and in its search document.

Both sides are given a meaning of their own. `Document.holds?` reads a document
by the grammar of conditions and asks the record; `Node.satisfied?` goes through
the predicates of a query and uses its operands only through what they compile
to. `Compiler.compile_preserves_meaning` says that compiling keeps the meaning: of
every predicate, and of all the conditions of a core together.

How two values are compared is left open. Every result holds for each way `same`
of doing it: for the equality of values, and as well for one in which an integer
equals a float.
-/

namespace RelSearch

/-- A record: the value of every attribute, null for one that it does not have. -/
abbrev Record := String → Json

def Json.isNull : Json → Bool
  | .null => true
  | _ => false

/-! ## Conditions of documents -/

namespace Document

variable (same : Json → Json → Bool) (r : Record)

/-- Whether a value passes a test. -/
def Test.passes (value : Json) : Test → Bool
  | .eq other => same value other
  | .isNull expected => value.isNull == expected

/-- The test that a parameter asks for. -/
def Test.ofParameter? : Document → Option Test
  | .object [("eq", value)] => some (.eq value)
  | .object [("is_null", .bool expected)] => some (.isNull expected)
  | _ => none

/-- Whether a record meets the content of a single condition. -/
def meets? : Document → Option Bool
  | .object [("attribute", .object [("name", .string name)]), ("parameter", parameter)] =>
    (Test.ofParameter? parameter).map fun test => test.passes same (r name)
  | _ => none

/-- Whether a condition holds of a record. A document that is no condition has no
answer. -/
def holds? : Document → Option Bool
  | .object [("filter", content)] => meets? same r content
  | .object [("not", condition)] => (holds? condition).map (!·)
  | .object [("and", .array conditions)] => (conditions.mapM fun d => holds? d).map (·.all id)
  | .object [("or", .array conditions)] => (conditions.mapM fun d => holds? d).map (·.any id)
  | _ => none

/-- Whether the conditions of a document with a query hold; without a filter all
records will do. -/
def filterHolds? (d : Document) : Option Bool :=
  match (d.get? Key.query).bind (·.get? Key.filter) with
  | none => some true
  | some condition => holds? same r condition

/-- A condition holds if its attribute passes the test. -/
@[simp] theorem holds?_condition (name : String) (test : Test) :
    holds? same r (condition name test) = some (test.passes same (r name)) := by
  have hparameter : Test.ofParameter? test.parameter = some test := by
    cases test <;> simp [Test.parameter, Test.ofParameter?]
  simp [condition, holds?, meets?, Key.filter, attributeRef, hparameter]

/-- A negation holds if what it negates does not. -/
@[simp] theorem holds?_negation (d : Document) :
    holds? same r (negation d) = (holds? same r d).map (!·) := by
  simp [negation, holds?, Key.not]

@[simp] theorem holds?_and (ds : List Document) :
    holds? same r (joined Key.and ds) = (ds.mapM (holds? same r)).map (·.all id) := by
  simp [joined, holds?, Key.and]

@[simp] theorem holds?_or (ds : List Document) :
    holds? same r (joined Key.or ds) = (ds.mapM (holds? same r)).map (·.any id) := by
  simp [joined, holds?, Key.or]

/-- The filter of a core, if it has conditions. -/
theorem get?_filter_ofQuery (projections conditions : List Document) :
    ((ofQuery (coreQuery projections conditions)).get? Key.query).bind (·.get? Key.filter) =
      match conditions with
      | [] => none
      | [condition] => some condition
      | _ => some (joined Key.and conditions) := by
  cases projections <;> rcases conditions with _ | ⟨condition, _ | ⟨other, rest⟩⟩ <;> rfl

/-- The filter of a core is the conjunction of its conditions, be there none, one
or several of them. -/
theorem filterHolds?_ofQuery (projections conditions : List Document) :
    filterHolds? same r (ofQuery (coreQuery projections conditions)) =
      (conditions.mapM (holds? same r)).map (·.all id) := by
  rw [filterHolds?, get?_filter_ofQuery]
  rcases conditions with _ | ⟨condition, _ | ⟨other, rest⟩⟩
  · rfl
  · cases h : holds? same r condition <;> simp [h]
  · exact holds?_and same r _

end Document

/-! ## Predicates of queries -/

namespace Node

/-- Whether a node is a predicate, whatever its operands are. -/
def isPredicate : Node → Bool
  | .equality _ _ _ => true
  | .connective _ left right => left.isPredicate && right.isPredicate
  | .grouping inner => inner.isPredicate
  | _ => false

variable (c : Compiler) (same : Json → Json → Bool) (r : Record)

/-- The field that a node names: it compiles to a string. -/
def field? (n : Node) : Option String :=
  match c.compile n with
  | .ok (.string name) => some name
  | _ => none

/-- Whether a value equals a right side, which is null if it is missing or a
literal null, and else what it compiles to. -/
def equals? (value : Json) : Option Node → Option Bool
  | none => some value.isNull
  | some right =>
    if right.isNull then some value.isNull
    else match c.compile right with
      | .ok other => some (same value other)
      | .error _ => none

/-- Whether a record satisfies a predicate. A node that is none, or whose operands
do not compile, has no answer. -/
def satisfied? : Node → Option Bool
  | .equality .equal left right => (left.field? c).bind fun name => equals? c same (r name) right
  | .equality .notEqual left right =>
    ((left.field? c).bind fun name => equals? c same (r name) right).map (!·)
  | .connective .and left right => do return (← left.satisfied?) && (← right.satisfied?)
  | .connective .or left right => do return (← left.satisfied?) || (← right.satisfied?)
  | .grouping inner => inner.satisfied?
  | _ => none

end Node

namespace Compiler

variable (c : Compiler) (same : Json → Json → Bool) (r : Record)

/-- A name compiles to the field that it names. -/
theorem field?_eq {n : Node} (h : n.faults c.settings.maxDepth = []) (hname : n.isName = true) :
    n.field? c = some (n.name c.quoting) := by
  rw [Node.field?, c.compile_eq_ok_of_faults_eq_nil h,
    (n.document_eq_string_iff c.quoting _).mpr ⟨hname, rfl⟩]

/-- The right side of a test for equality has a meaning, and the condition says
the same about it, or the opposite for `notEqual`. -/
theorem holds?_equality {op : EqualityOp} {left : Node} {right : Option Node}
    (h : (Node.equality op left right).faults c.settings.maxDepth = []) :
    ∃ e, Node.equals? c same (r (left.name c.quoting)) right = some e ∧
      Document.holds? same r ((Node.equality op left right).document c.quoting) =
        some (match op with
          | .equal => e
          | .notEqual => !e) := by
  rw [Node.document_equality]
  cases right with
  | none =>
      refine ⟨(r (left.name c.quoting)).isNull, rfl, ?_⟩
      cases op <;> simp [Node.test, Document.ofTest_isNull, Document.Test.passes]
  | some right =>
      by_cases hnull : right.isNull = true
      · refine ⟨(r (left.name c.quoting)).isNull, by rw [Node.equals?, if_pos hnull], ?_⟩
        cases op <;> simp [Node.test, Document.ofTest_isNull, Document.Test.passes, hnull]
      · have hright : right.faults c.settings.maxDepth = [] :=
          Node.faults_value_eq_nil h
            (by simp [Node.visitedParts, Node.parts, Place.ofRight, hnull])
        refine ⟨same (r (left.name c.quoting)) (right.document c.quoting), ?_, ?_⟩
        · rw [Node.equals?, if_neg hnull, c.compile_eq_ok_of_faults_eq_nil hright]
        · cases op <;> simp [Node.test, Document.ofTest_equal, Document.ofTest_notEqual,
            Document.Test.passes, hnull]

/-- A predicate without faults and its document have the same meaning. -/
theorem holds?_document {p : Node} (hp : p.isPredicate = true)
    (h : p.faults c.settings.maxDepth = []) :
    ∃ b, Document.holds? same r (p.document c.quoting) = some b ∧
      p.satisfied? c same r = some b := by
  fun_induction Node.isPredicate p with
  | case1 op left right =>
      have hpart : ⟨.name op.kind "left side", left⟩ ∈
          (Node.equality op left right).visitedParts := by
        simp [Node.visitedParts, Node.parts]
      -- `field?` compiles the operand as a query of its own, from level 0 on
      have hfield : left.field? c = some (left.name c.quoting) :=
        c.field?_eq (Node.faults_part_eq_nil h hpart (by simp)) (Node.isName_part h hpart)
      obtain ⟨e, hequals, hholds⟩ := c.holds?_equality same r h
      refine ⟨_, hholds, ?_⟩
      cases op <;> simp [Node.satisfied?, hfield, hequals]
  | case2 op left right ihleft ihright =>
      obtain ⟨hpl, hpr⟩ := Bool.and_eq_true_iff.mp hp
      have hleft : left.faults c.settings.maxDepth = [] :=
        Node.faults_value_eq_nil h (by simp [Node.visitedParts, Node.parts])
      have hright : right.faults c.settings.maxDepth = [] :=
        Node.faults_value_eq_nil h (by simp [Node.visitedParts, Node.parts])
      obtain ⟨a, hda, hsa⟩ := ihleft hpl hleft
      obtain ⟨b, hdb, hsb⟩ := ihright hpr hright
      cases op with
      | and =>
          refine ⟨a && b, ?_, ?_⟩
          · simp [Node.document_connective, Document.connectiveKey, hda, hdb]
          · simp [Node.satisfied?, hsa, hsb]
      | or =>
          refine ⟨a || b, ?_, ?_⟩
          · simp [Node.document_connective, Document.connectiveKey, hda, hdb]
          · simp [Node.satisfied?, hsa, hsb]
  | case3 inner ih =>
      have hinner : inner.faults c.settings.maxDepth = [] :=
        Node.faults_value_eq_nil h (by simp [Node.visitedParts, Node.parts])
      rw [Node.document, Node.satisfied?]
      exact ih hp hinner
  | case4 => cases hp

/-- The same for a list of predicates, one by one. -/
theorem mapM_holds?_document {ps : List Node} (hps : ∀ p ∈ ps, p.isPredicate = true)
    (h : ∀ p ∈ ps, p.faults c.settings.maxDepth = []) :
    ∃ bs, (ps.map (·.document c.quoting)).mapM (Document.holds? same r) = some bs ∧
      ps.mapM (·.satisfied? c same r) = some bs := by
  induction ps with
  | nil => exact ⟨[], rfl, rfl⟩
  | cons p ps ih =>
      obtain ⟨b, hd, hs⟩ := c.holds?_document same r (hps p List.mem_cons_self)
        (h p List.mem_cons_self)
      obtain ⟨bs, hds, hss⟩ := ih (fun q hq => hps q (List.mem_cons_of_mem p hq))
        (fun q hq => h q (List.mem_cons_of_mem p hq))
      refine ⟨b :: bs, ?_, ?_⟩
      · simp [hd, hds]
      · simp [hs, hss]

/-- **Meaning**: a predicate that compiles and the condition it becomes agree on
every record, and the filter of a core that compiles holds of the records that
satisfy all its conditions. -/
theorem compile_preserves_meaning :
    (∀ p d, p.isPredicate = true → c.compile p = .ok d →
      ∃ b, Document.holds? same r d = some b ∧ p.satisfied? c same r = some b) ∧
    ∀ core d, (∀ p ∈ core.wheres, p.isPredicate = true) → c.compile (.core core) = .ok d →
      ∃ bs, core.wheres.mapM (·.satisfied? c same r) = some bs ∧
        Document.filterHolds? same r d = some (bs.all id) := by
  constructor
  · intro p d hp hcompile
    rw [compile_eq_outcomeOf, outcomeOf_eq_ok_iff] at hcompile
    obtain ⟨h, rfl⟩ := hcompile
    exact c.holds?_document same r hp h
  · intro core d hps hcompile
    rw [compile_eq_outcomeOf, outcomeOf_eq_ok_iff] at hcompile
    obtain ⟨h, rfl⟩ := hcompile
    have hwheres : ∀ p ∈ core.wheres, p.faults c.settings.maxDepth = [] := by
      intro p hp
      refine Node.faults_value_eq_nil h ?_
      simp [Node.visitedParts, Node.parts, Core.parts, hp]
    obtain ⟨bs, hds, hss⟩ := c.mapM_holds?_document same r hps hwheres
    refine ⟨bs, hss, ?_⟩
    rw [Node.document_core, Core.query, Document.filterHolds?_ofQuery, hds]
    rfl

/-- Null on the right side, alone and next to a grouping, in a predicate and in a
core that joins it with another one. -/
theorem compile_preserves_meaning_null :
    let same : Json → Json → Bool
      | .number m, .number n => m = n
      | _, _ => false
    let r : Record := fun name => if name = "age" then Json.int 30 else .null
    let ageless : Node := .equality .equal (.sqlLiteral "age") (some (.literal .casted .null))
    let aged : Node := .equality .notEqual (.sqlLiteral "age") (some (.literal .casted (.int 31)))
    let p : Node := .connective .or ageless (.grouping aged)
    let core : Core := ⟨[.sqlLiteral "id"], [p, aged]⟩
    (p.isPredicate = true ∧ ∃ d, Compiler.new.compile p = .ok d ∧
      ∃ b, Document.holds? same r d = some b ∧ p.satisfied? Compiler.new same r = some b) ∧
    (∀ w ∈ core.wheres, w.isPredicate = true) ∧ ∃ d, Compiler.new.compile (.core core) = .ok d ∧
      ∃ bs, core.wheres.mapM (·.satisfied? Compiler.new same r) = some bs ∧
        Document.filterHolds? same r d = some (bs.all id) := by
  intro same r ageless aged p core
  have hwheres : ∀ w ∈ core.wheres, w.isPredicate = true := by
    intro w hw
    rcases List.mem_pair.mp hw with rfl | rfl <;> rfl
  obtain ⟨hpredicate, hcore⟩ := Compiler.new.compile_preserves_meaning same r
  exact ⟨⟨rfl, _, rfl, hpredicate p _ rfl rfl⟩, hwheres, _, rfl, hcore core _ hwheres rfl⟩

end Compiler

end RelSearch
