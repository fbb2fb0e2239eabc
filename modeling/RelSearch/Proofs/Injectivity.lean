import RelSearch.Proofs.Assembly
import RelSearch.Proofs.NullTest

/-!
# RelSearch.Proofs.Injectivity

What the document of a predicate still tells about the predicate.

Compiling a predicate loses three things: its parentheses, how the null on the right of a
test was written, and everything about an operand but what it compiles to. `SameFilter`
relates the predicates that differ in nothing else, and `Compiler.compile_predicates_inj`
says that they are the ones that have the same document, under whatever limits they are
compiled. So the operators can be read off a document, and so can the nesting of a chain
of connectives: it is neither flattened nor grouped anew.
-/

namespace RelSearch

/-- `SameFilter c c' p p'`: the predicate `p`, compiled by `c`, asks for the same as `p'`,
compiled by `c'`. -/
inductive SameFilter (c c' : Compiler) : Node → Node → Prop
  /-- Parentheses around the first predicate do not matter. -/
  | groupingLeft {p p' : Node} (inner : SameFilter c c' p p') : SameFilter c c' (.grouping p) p'
  /-- Parentheses around the second predicate do not matter. -/
  | groupingRight {p p' : Node} (inner : SameFilter c c' p p') : SameFilter c c' p (.grouping p')
  /-- Two tests of one name for null, written out or missing. -/
  | nullTest (op : EqualityOp) {l l' : Node} {r r' : Option Node} {name : String}
    (left : c.compile l = .ok (.string name)) (left' : c'.compile l' = .ok (.string name))
    (right : r.all (·.isNull) = true) (right' : r'.all (·.isNull) = true) :
    SameFilter c c' (.equality op l r) (.equality op l' r')
  /-- Two tests of one name for one value, which is no literal null. -/
  | valueTest (op : EqualityOp) {l l' r r' : Node} {name : String} {value : Document}
    (left : c.compile l = .ok (.string name)) (left' : c'.compile l' = .ok (.string name))
    (notNull : r.isNull = false) (notNull' : r'.isNull = false)
    (right : c.compile r = .ok value) (right' : c'.compile r' = .ok value) :
    SameFilter c c' (.equality op l (some r)) (.equality op l' (some r'))
  /-- Two predicates under one connective, the left with the left and the right with the
  right. -/
  | connective (op : Connective) {l l' r r' : Node} (left : SameFilter c c' l l')
    (right : SameFilter c c' r r') : SameFilter c c' (.connective op l r) (.connective op l' r')

/-! ## Documents of predicates -/

namespace Document

/-- What two conditions are joined to tells the connective and both conditions. -/
theorem joined_inj {op op' : Connective} {l l' r r' : Document} :
    joined (connectiveKey op) [l, r] = joined (connectiveKey op') [l', r'] ↔
      op = op' ∧ l = l' ∧ r = r' := by
  cases op <;> cases op' <;> simp [joined, connectiveKey, Key.and, Key.or]

/-- What is joined with something else is larger than before. -/
theorem joined_ne_left (operator : String) (l r : Document) : joined operator [l, r] ≠ l := by
  intro h
  have hsize := congrArg sizeOf h
  simp only [joined, Json.object.sizeOf_spec, Json.array.sizeOf_spec, List.cons.sizeOf_spec,
    List.nil.sizeOf_spec, Prod.mk.sizeOf_spec] at hsize
  omega

/-- What a test becomes is never what a connective becomes. -/
theorem ofTest_ne_joined (op : EqualityOp) (name : String) (test : Test) (op' : Connective)
    (ds : List Document) : ofTest op name test ≠ joined (connectiveKey op') ds := by
  cases op <;> cases test <;> cases op' <;>
    simp [ofTest, filterOn, joined, connectiveKey, Key.and, Key.or]

end Document

namespace Node

variable {q : Quoting} {op op' : EqualityOp} {r r' : Option Node}

/-- The condition of a test tells its operator, its name and what it asks for. -/
theorem ofTest_test_inj {name name' : String}
    (h : Document.ofTest op name (test q op r) = Document.ofTest op' name' (test q op' r')) :
    op = op' ∧ name = name' ∧ test q op r = test q op' r' := by
  rcases test_cases q op r with ⟨-, ht⟩ | ⟨n, -, -, ht⟩ <;>
    rcases test_cases q op' r' with ⟨-, ht'⟩ | ⟨n', -, -, ht'⟩ <;> rw [ht, ht'] at h ⊢ <;>
    cases op <;> cases op' <;> simp_all [Document.ofTest, Document.filterOn]

/-- Inside its parentheses a predicate is a test or a connective of predicates. -/
theorem stripped_of_isPredicate {p : Node} (h : p.isPredicate = true) :
    (∃ op l r, p.stripped = .equality op l r) ∨
      ∃ op l r, p.stripped = .connective op l r ∧ l.isPredicate = true ∧ r.isPredicate = true := by
  fun_induction isPredicate p with
  | case1 op l r => exact .inl ⟨op, l, r, rfl⟩
  | case2 op l r =>
      obtain ⟨hl, hr⟩ := Bool.and_eq_true_iff.mp h
      exact .inr ⟨op, l, r, rfl, hl, hr⟩
  | case3 inner ih => exact ih h
  | case4 => cases h

end Node

/-! ## Operands -/

namespace Compiler

variable {c : Compiler} {op : EqualityOp} {l n : Node} {r : Option Node}

/-- What a query compiles to is its document. -/
theorem document_of_compile {d : Document} (h : c.compile n = .ok d) :
    n.document c.quoting = d := by
  rw [compile_eq_outcomeOf, outcomeOf_eq_ok_iff] at h
  exact h.2.symm

theorem name_of_compile {name : String} (h : c.compile n = .ok (.string name)) :
    n.name c.quoting = name :=
  ((n.document_eq_string_iff _ name).mp (document_of_compile h)).2.symm

/-- The left side of a test without faults compiles to its name. -/
theorem compile_left (h : (Node.equality op l r).faults c.settings.maxDepth = []) :
    c.compile l = .ok (.string (l.name c.quoting)) := by
  have hpart : ⟨.name op.kind "left side", l⟩ ∈ (Node.equality op l r).visitedParts := by
    simp [Node.visitedParts, Node.parts]
  exact Node.Visits.compile_name (.down hpart (.here _)) h

/-- The right side of a test without faults compiles, unless it is a literal null. -/
theorem compile_right (h : (Node.equality op l (some n)).faults c.settings.maxDepth = [])
    (hn : n.isNull = false) : c.compile n = .ok (n.document c.quoting) := by
  refine c.compile_eq_ok_of_faults_eq_nil (Node.faults_value_eq_nil h ?_)
  simp [Node.visitedParts, Node.parts, Place.ofRight, hn]

end Compiler

/-! ## Predicates with one document -/

namespace SameFilter

variable {c c' : Compiler}

/-- The second predicate may be taken out of its parentheses. -/
theorem of_stripped {p p' : Node} (h : SameFilter c c' p p'.stripped) : SameFilter c c' p p' := by
  fun_induction Node.stripped p' with
  | case1 inner ih => exact .groupingRight (ih h)
  | case2 p' hp' => exact h

/-- Predicates that ask for the same have the same document. -/
theorem document_eq (hq : c.quoting = c'.quoting) {p p' : Node} (h : SameFilter c c' p p') :
    p.document c.quoting = p'.document c.quoting := by
  have hname : ∀ {l l' : Node} {name : String}, c.compile l = .ok (.string name) →
      c'.compile l' = .ok (.string name) → l.name c.quoting = l'.name c.quoting := by
    intro l l' name hl hl'
    rw [Compiler.name_of_compile hl, hq, Compiler.name_of_compile hl']
  induction h with
  | groupingLeft inner ih => rw [Node.document, ih]
  | groupingRight inner ih => rw [Node.document, ih]
  | nullTest op left left' right right' =>
      rw [Node.document_equality, Node.document_equality, hname left left',
        Node.test_eq_isNull right, Node.test_eq_isNull right']
  | valueTest op left left' notNull notNull' right right' =>
      have hr := Compiler.document_of_compile right
      have hr' := Compiler.document_of_compile right'
      rw [← hq] at hr'
      rw [Node.document_equality, Node.document_equality, hname left left']
      simp only [Node.test, notNull, notNull', Bool.false_eq_true, if_false, hr, hr']
  | connective op left right ihleft ihright =>
      rw [Node.document_connective, Node.document_connective, ihleft, ihright]

/-- Tests with the same document ask for the same. -/
theorem of_tests (hq : c.quoting = c'.quoting) {op op' : EqualityOp} {l l' : Node}
    {r r' : Option Node} (h : (Node.equality op l r).faults c.settings.maxDepth = [])
    (h' : (Node.equality op' l' r').faults c'.settings.maxDepth = [])
    (hd : (Node.equality op l r).document c.quoting =
      (Node.equality op' l' r').document c.quoting) :
    SameFilter c c' (.equality op l r) (.equality op' l' r') := by
  rw [Node.document_equality, Node.document_equality] at hd
  obtain ⟨rfl, hname, htest⟩ := Node.ofTest_test_inj hd
  have hl := Compiler.compile_left h
  have hl' := Compiler.compile_left h'
  rw [← hq, ← hname] at hl'
  rcases Node.test_cases c.quoting op r with ⟨hr, ht⟩ | ⟨n, rfl, hn, ht⟩
  · rcases Node.test_cases c.quoting op r' with ⟨hr', ht'⟩ | ⟨n', rfl, hn', ht'⟩
    · exact .nullTest op hl hl' hr hr'
    · simp [ht, ht'] at htest
  · rcases Node.test_cases c.quoting op r' with ⟨hr', ht'⟩ | ⟨n', rfl, hn', ht'⟩
    · simp [ht, ht'] at htest
    · rw [ht, ht', Document.Test.eq.injEq] at htest
      have hn'' := Compiler.compile_right h' hn'
      rw [← hq, ← htest] at hn''
      exact .valueTest op hl hl' hn hn' (Compiler.compile_right h hn) hn''

/-- Predicates with the same document ask for the same. -/
theorem of_document_eq (hq : c.quoting = c'.quoting) {p p' : Node} (hp : p.isPredicate = true)
    (hp' : p'.isPredicate = true) (h : p.faults c.settings.maxDepth = [])
    (h' : p'.faults c'.settings.maxDepth = [])
    (hd : p.document c.quoting = p'.document c.quoting) : SameFilter c c' p p' := by
  -- the first predicate is followed down, the second one is taken out of its parentheses
  fun_induction Node.isPredicate p generalizing p' with
  | case1 op l r =>
      apply of_stripped
      have hs := Node.faults_stripped h'
      rw [← Node.document_stripped _ p'] at hd
      rcases Node.stripped_of_isPredicate hp' with ⟨op', l', r', heq⟩ | ⟨op', l', r', heq, -⟩
      · rw [heq] at hs hd ⊢
        exact of_tests hq h hs hd
      · rw [heq, Node.document_equality, Node.document_connective] at hd
        exact absurd hd (Document.ofTest_ne_joined _ _ _ _ _)
  | case2 op l r ihl ihr =>
      apply of_stripped
      have hs := Node.faults_stripped h'
      rw [← Node.document_stripped _ p'] at hd
      obtain ⟨hpl, hpr⟩ := Bool.and_eq_true_iff.mp hp
      rcases Node.stripped_of_isPredicate hp' with
        ⟨op', l', r', heq⟩ | ⟨op', l', r', heq, hpl', hpr'⟩
      · rw [heq, Node.document_equality, Node.document_connective] at hd
        exact absurd hd.symm (Document.ofTest_ne_joined _ _ _ _ _)
      · rw [heq] at hs
        rw [heq, Node.document_connective, Node.document_connective, Document.joined_inj] at hd
        obtain ⟨rfl, hdl, hdr⟩ := hd
        have hpart : ∀ {l r : Node}, ⟨.value, l⟩ ∈ (Node.connective op l r).visitedParts ∧
            ⟨.value, r⟩ ∈ (Node.connective op l r).visitedParts := by
          simp [Node.visitedParts, Node.parts]
        have hl := ihl hpl hpl' (Node.faults_value_eq_nil h hpart.1)
          (Node.faults_value_eq_nil hs hpart.1) hdl
        have hr := ihr hpr hpr' (Node.faults_value_eq_nil h hpart.2)
          (Node.faults_value_eq_nil hs hpart.2) hdr
        rw [heq]
        exact .connective op hl hr
  | case3 inner ih =>
      rw [Node.document] at hd
      have hinner : inner.faults c.settings.maxDepth = [] :=
        Node.faults_value_eq_nil h (by simp [Node.visitedParts, Node.parts])
      exact .groupingLeft (ih hp hp' hinner h' hd)
  | case4 => cases hp

/-- A chain of connectives that leans to the left is never the same as the one of the same
operands that leans to the right. -/
theorem not_reassociated (hq : c.quoting = c'.quoting) (op op' : Connective) (x y z : Node) :
    ¬ SameFilter c c' (.connective op (.connective op' x y) z)
      (.connective op x (.connective op' y z)) := by
  intro h
  have hd := h.document_eq hq
  simp only [Node.document_connective, Document.joined_inj] at hd
  exact Document.joined_ne_left _ _ _ hd.2.1

end SameFilter

namespace Compiler

/-- **Injectivity**: two predicates compile to the same document, each under a limit of its
own, exactly if they ask for the same. The nesting of a chain is part of it. -/
theorem compile_predicates_inj (q : Quoting) (limit limit' : Nat) {p p' : Node}
    (hp : p.isPredicate = true) (hp' : p'.isPredicate = true) {d d' : Document}
    (h : compile ⟨⟨limit⟩, q⟩ p = .ok d) (h' : compile ⟨⟨limit'⟩, q⟩ p' = .ok d') :
    (d = d' ↔ SameFilter ⟨⟨limit⟩, q⟩ ⟨⟨limit'⟩, q⟩ p p') ∧
      ∀ op op' x y z, ¬ SameFilter ⟨⟨limit⟩, q⟩ ⟨⟨limit'⟩, q⟩
        (.connective op (.connective op' x y) z) (.connective op x (.connective op' y z)) := by
  rw [compile_eq_outcomeOf, outcomeOf_eq_ok_iff] at h h'
  obtain ⟨hfaults, rfl⟩ := h
  obtain ⟨hfaults', rfl⟩ := h'
  have hq : (⟨⟨limit⟩, q⟩ : Compiler).quoting = (⟨⟨limit'⟩, q⟩ : Compiler).quoting := rfl
  refine ⟨⟨?_, ?_⟩, SameFilter.not_reassociated hq⟩
  · exact SameFilter.of_document_eq hq hp hp' hfaults hfaults'
  · exact SameFilter.document_eq hq

/-- A null that is missing and one that is written out, two ways to name an attribute and to
write a number, and parentheses around different parts. -/
theorem compile_predicates_inj_grouped :
    let p : Node := .connective .and
      (.grouping (.equality .equal (.column ⟨some "users", "age", .integer⟩)
        (some (.literal .casted (.int 30)))))
      (.equality .notEqual (.sqlLiteral "email") none)
    let p' : Node := .grouping (.connective .and
      (.equality .equal (.sqlLiteral "age") (some (.grouping (.literal .plain (.int 30)))))
      (.equality .notEqual (.grouping (.sqlLiteral "email")) (some (.literal .quoted .null))))
    p.isPredicate = true ∧ p'.isPredicate = true ∧
      ∃ d, compile ⟨⟨3⟩, .sql⟩ p = .ok d ∧ compile ⟨⟨4⟩, .sql⟩ p' = .ok d ∧
        SameFilter ⟨⟨3⟩, .sql⟩ ⟨⟨4⟩, .sql⟩ p p' :=
  ⟨rfl, rfl, _, rfl, rfl, (compile_predicates_inj .sql 3 4 rfl rfl rfl rfl).1.mp rfl⟩

end Compiler

end RelSearch
