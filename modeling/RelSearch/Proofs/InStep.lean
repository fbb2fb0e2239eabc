import RelSearch.Proofs.Location
import RelSearch.Proofs.NullTest

/-!
# RelSearch.Proofs.InStep

The two tests for equality are compiled in step: with the same operands, one fails exactly
if the other does, at the same operand and for the same reason, and of their documents one
says the opposite of the other.

1. `Compiler.lower_test_cases` says what can become of a test, for both operators at once.
2. `Frame.lower_cases` says what a connective or parentheses make of what becomes of a
   predicate inside them.
3. `Compiler.compile_inStep` carries 1 through any number of steps of the kind 2: around
   the two tests stands the same document, and in front of their errors the same path.
-/

namespace RelSearch

/-! ## Chains -/

/-- A connective or parentheses, with one place left open for a predicate. -/
inductive Frame where
  /-- The left operand of a connective is open, the right one is given. -/
  | left (op : Connective) (right : Node)
  /-- The right operand of a connective is open, the left one is given. -/
  | right (op : Connective) (left : Node)
  /-- Parentheses around the open place. -/
  | grouping

namespace Frame

/-- The node with a predicate in the open place. -/
def fill (n : Node) : Frame → Node
  | left op r => .connective op n r
  | right op l => .connective op l n
  | grouping => .grouping n

def kind : Frame → String
  | left op _ => op.kind
  | right op _ => op.kind
  | grouping => "Grouping"

/-- The operand beside the open place. -/
def side? : Frame → Option Node
  | left _ r => some r
  | right _ l => some l
  | grouping => none

/-- The document with that of a predicate in the open place. -/
def document (q : Quoting) (d : Document) : Frame → Document
  | left .and r => .object [("and", .array [d, r.document q])]
  | left .or r => .object [("or", .array [d, r.document q])]
  | right .and l => .object [("and", .array [l.document q, d])]
  | right .or l => .object [("or", .array [l.document q, d])]
  | grouping => d

end Frame

/-- Connectives and parentheses around an open place, from the outermost inwards. -/
abbrev Chain := List Frame

namespace Chain

/-- The chain with a predicate in the open place. -/
def fill (chain : Chain) (n : Node) : Node := chain.foldr (fun f n => f.fill n) n

/-- The path to the open place. -/
def path (chain : Chain) : NodePath := chain.map (·.kind)

/-- The document of the chain with that of a predicate in the open place. -/
def document (q : Quoting) (chain : Chain) (d : Document) : Document :=
  chain.foldr (fun f d => f.document q d) d

/-- `chain.Fails c level e`: starting at the given level, the chain fails with `e` even if what
stands in the open place does not, because the chain itself is too deep or an operand beside
the way to the open place fails. -/
inductive Fails (c : Compiler) : Nat → Chain → CompileError → Prop
  | tooDeep {level : Nat} {f : Frame} {chain : Chain} (h : c.settings.maxDepth < level) :
    Fails c level (f :: chain) ⟨.tooDeep c.settings.maxDepth, [f.kind]⟩
  | side {level : Nat} {f : Frame} {chain : Chain} {n : Node} {e : CompileError}
    (hn : n ∈ f.side?) (h : (c.lower n (level + 1)).outcome = .error e) :
    Fails c level (f :: chain) (e.under f.kind)
  | deeper {level : Nat} {f : Frame} {chain : Chain} {e : CompileError}
    (h : Fails c (level + 1) chain e) : Fails c level (f :: chain) (e.under f.kind)

end Chain

/-- What becomes of the two tests of one pair of operands, in the open place of a chain that
starts at the given level. -/
inductive InStep (c : Compiler) (level : Nat) (chain : Chain) (left : Node)
    (right : Option Node) : Except CompileError Document → Except CompileError Document → Prop
  /-- With null on the right, both are filters on one name, for null and for the
  opposite. -/
  | nullTest (name : String) (h : right.all (·.isNull) = true) :
    InStep c level chain left right
      (.ok (chain.document c.quoting (.object [("filter", .object [
        ("attribute", .object [("name", .string name)]),
        ("parameter", .object [("is_null", .bool true)])])])))
      (.ok (chain.document c.quoting (.object [("filter", .object [
        ("attribute", .object [("name", .string name)]),
        ("parameter", .object [("is_null", .bool false)])])])))
  /-- With anything else on the right, one is the negation of the other. -/
  | valueTest (d : Document) (h : right.all (·.isNull) = false) :
    InStep c level chain left right (.ok (chain.document c.quoting d))
      (.ok (chain.document c.quoting (.object [("not", d)])))
  /-- The left side is no name. -/
  | leftSide :
    InStep c level chain left right
      (.error ⟨.notName "Equality" "left side" left, chain.path ++ ["Equality"]⟩)
      (.error ⟨.notName "NotEqual" "left side" left, chain.path ++ ["NotEqual"]⟩)
  /-- The test is too deep, or the same fault is found in one of its operands. -/
  | inside (fault : Fault) (path : NodePath)
    (h : path ≠ [] ∨ fault = .tooDeep c.settings.maxDepth) :
    InStep c level chain left right (.error ⟨fault, chain.path ++ "Equality" :: path⟩)
      (.error ⟨fault, chain.path ++ "NotEqual" :: path⟩)
  /-- The chain around the test fails. -/
  | outside (e : CompileError) (h : chain.Fails c level e) :
    InStep c level chain left right (.error e) (.error e)

/-! ## Tests -/

/-- A fault that is found in a node has a path that is not empty. -/
theorem Place.path_ne_nil_of_mem_faults {limit level : Nat} {p : Place} {e : CompileError}
    (hrole : ∀ owner part, p.role ≠ .name owner part) (h : e ∈ p.faults limit [] level) :
    e.path ≠ [] := by
  rcases locates_of_mem_faults h with ⟨x, way, -⟩ | ⟨owner, part, hname, -⟩
  · exact List.ne_nil_of_length_pos way.length_pos
  · exact absurd hname (hrole owner part)

theorem Place.role_ofRight_ne_name (n : Node) (owner part : String) :
    (ofRight n).role ≠ .name owner part := by
  unfold ofRight
  split <;> simp

namespace Compiler

variable (c : Compiler)

/-- A node past the limit fails, whatever is in it. -/
theorem outcome_lower_of_lt {level : Nat} (h : c.settings.maxDepth < level) (n : Node) :
    (c.lower n level).outcome = .error ⟨.tooDeep c.settings.maxDepth, [n.kind]⟩ := by
  rw [outcome_lower, Place.faults_value, if_pos h]
  rfl

/-- What can become of a test, whatever its operator: an operand fails, the left side is no
name, or it has a document. -/
theorem lower_test_cases {level : Nat} (h : level ≤ c.settings.maxDepth) (left : Node)
    (right : Option Node) :
    (∃ e : CompileError, e.path ≠ [] ∧
      ∀ op, (c.lower (.equality op left right) level).outcome = .error (e.under op.kind)) ∨
    (∀ op, (c.lower (.equality op left right) level).outcome =
      .error ⟨.notName op.kind "left side" left, [op.kind]⟩) ∨
    ∀ op, (c.lower (.equality op left right) level).outcome =
      .ok (Document.ofTest op (left.name c.quoting) (Node.test c.quoting op right)) := by
  -- the faults below the test, seen from the operands
  have hfaults : ∀ op, (c.lower (.equality op left right) level).outcome =
      outcomeOf (Document.ofTest op (left.name c.quoting) (Node.test c.quoting op right))
        ((Place.faults c.settings.maxDepth [] (level + 1) ⟨.name op.kind "left side", left⟩ ++
          (right.toList.map .ofRight).flatMap
            (Place.faults c.settings.maxDepth [] (level + 1))).map (·.under op.kind)) := by
    intro op
    rw [outcome_lower, Place.faults_value, if_neg (Nat.not_lt.mpr h), Node.document_equality,
      List.map_append, List.map_flatMap]
    simp only [Place.map_under_faults]
    rfl
  simp only [hfaults, Place.faults_name]
  cases hleft : Place.faults c.settings.maxDepth [] (level + 1) ⟨.value, left⟩ with
  | cons e more =>
      refine .inl ⟨e, ?_, fun op => rfl⟩
      exact Place.path_ne_nil_of_mem_faults (p := ⟨.value, left⟩) (by simp)
        (hleft ▸ List.mem_cons_self)
  | nil =>
      cases hname : left.isName with
      | false => exact .inr (.inl fun op => rfl)
      | true =>
          cases hright : (right.toList.map .ofRight).flatMap
              (Place.faults c.settings.maxDepth [] (level + 1)) with
          | nil => exact .inr (.inr fun op => rfl)
          | cons e more =>
              refine .inl ⟨e, ?_, fun op => rfl⟩
              have hmem : e ∈ (right.toList.map .ofRight).flatMap
                  (Place.faults c.settings.maxDepth [] (level + 1)) :=
                hright ▸ List.mem_cons_self
              obtain ⟨p, hp, he⟩ := List.mem_flatMap.mp hmem
              obtain ⟨r, -, rfl⟩ := List.mem_map.mp hp
              exact Place.path_ne_nil_of_mem_faults (Place.role_ofRight_ne_name r) he

/-- The two tests are in step where they stand. -/
theorem inStep_lower (level : Nat) (left : Node) (right : Option Node) :
    InStep c level [] left right (c.lower (.equality .equal left right) level).outcome
      (c.lower (.equality .notEqual left right) level).outcome := by
  by_cases hlevel : c.settings.maxDepth < level
  · rw [outcome_lower_of_lt c hlevel, outcome_lower_of_lt c hlevel]
    exact .inside _ [] (.inr rfl)
  · rcases c.lower_test_cases (Nat.not_lt.mp hlevel) left right with ⟨e, hpath, he⟩ | hname | hok
    · rw [he, he]
      exact .inside e.fault e.path (.inl hpath)
    · rw [hname, hname]
      exact .leftSide
    · rw [hok, hok]
      cases hnull : right.all (·.isNull) with
      | true =>
          rw [Node.test_eq_isNull hnull, Node.test_eq_isNull hnull]
          exact .nullTest _ hnull
      | false =>
          cases right with
          | none => cases hnull
          | some r =>
              have hr : r.isNull = false := hnull
              simp only [Node.test, hr, Bool.false_eq_true, if_false]
              exact .valueTest _ hnull

end Compiler

/-! ## Chains around tests -/

namespace Compiler

variable (c : Compiler)

/-- A node has its document or fails. -/
theorem outcome_lower_cases (n : Node) (level : Nat) :
    (c.lower n level).outcome = .ok (n.document c.quoting) ∨
      ∃ e, (c.lower n level).outcome = .error e := by
  rw [outcome_lower]
  cases Place.faults c.settings.maxDepth [] level ⟨.value, n⟩ with
  | nil => exact .inl rfl
  | cons e more => exact .inr ⟨e, rfl⟩

/-- A connective is compiled from left to right. -/
theorem outcome_lower_connective {level : Nat} (h : level ≤ c.settings.maxDepth)
    (op : Connective) (left right : Node) :
    (c.lower (.connective op left right) level).outcome =
      (do
        let l ← (c.lower left (level + 1)).outcome
        let r ← (c.lower right (level + 1)).outcome
        return Document.joined (Document.connectiveKey op) [l, r] :
        Except CompileError Document).mapError (·.under op.kind) := by
  rw [lower, lowerBy, enter, if_neg (Nat.not_lt.mpr h), Run.outcome_visiting, Run.outcome_bind]
  simp only [Run.outcome_bind, Run.outcome_pure]
  rfl

/-- Parentheses have the outcome of what is in them, seen from outside. -/
theorem outcome_lower_grouping {level : Nat} (h : level ≤ c.settings.maxDepth) (inner : Node) :
    (c.lower (.grouping inner) level).outcome =
      (c.lower inner (level + 1)).outcome.mapError (·.under "Grouping") := by
  rw [lower, lowerBy, enter, if_neg (Nat.not_lt.mpr h), Run.outcome_visiting]
  rfl

end Compiler

namespace Frame

variable (c : Compiler) {level : Nat}

/-- What a frame makes of a predicate: it fails beforehand at the operand on the left, it fails
at the operand on the right if the predicate does not, or it puts its own document around that
of the predicate. An error of the predicate is seen from the frame. -/
theorem lower_cases (h : level ≤ c.settings.maxDepth) (f : Frame) :
    (∃ e, (∃ n ∈ f.side?, (c.lower n (level + 1)).outcome = .error e) ∧
      ((∀ x, (c.lower (f.fill x) level).outcome = .error (e.under f.kind)) ∨
        ∀ x, (c.lower (f.fill x) level).outcome =
          ((c.lower x (level + 1)).outcome.bind fun _ => .error e).mapError (·.under f.kind))) ∨
    ∀ x, (c.lower (f.fill x) level).outcome =
      ((c.lower x (level + 1)).outcome.map (f.document c.quoting)).mapError (·.under f.kind) := by
  cases f with
  | grouping =>
      refine .inr fun x => ?_
      rw [fill, c.outcome_lower_grouping h]
      cases (c.lower x (level + 1)).outcome <;> rfl
  | left op r =>
      rcases c.outcome_lower_cases r (level + 1) with hr | ⟨e, hr⟩
      · refine .inr fun x => ?_
        rw [fill, c.outcome_lower_connective h, hr]
        cases op <;> cases (c.lower x (level + 1)).outcome <;> rfl
      · refine .inl ⟨e, ⟨r, rfl, hr⟩, .inr fun x => ?_⟩
        rw [fill, c.outcome_lower_connective h, hr]
        cases (c.lower x (level + 1)).outcome <;> rfl
  | right op l =>
      rcases c.outcome_lower_cases l (level + 1) with hl | ⟨e, hl⟩
      · refine .inr fun x => ?_
        rw [fill, c.outcome_lower_connective h, hl]
        cases op <;> cases (c.lower x (level + 1)).outcome <;> rfl
      · refine .inl ⟨e, ⟨l, rfl, hl⟩, .inl fun x => ?_⟩
        rw [fill, c.outcome_lower_connective h, hl]
        rfl

theorem kind_fill (f : Frame) (x : Node) : (f.fill x).kind = f.kind := by
  cases f <;> rfl

end Frame

namespace InStep

variable {c : Compiler} {level : Nat} {chain : Chain} {left : Node} {right : Option Node}
  {x y : Except CompileError Document}

/-- A frame that does not fail keeps the two tests in step. -/
theorem frame (f : Frame) (h : InStep c (level + 1) chain left right x y) :
    InStep c level (f :: chain) left right
      ((x.map (f.document c.quoting)).mapError (·.under f.kind))
      ((y.map (f.document c.quoting)).mapError (·.under f.kind)) := by
  cases h with
  | nullTest name hnull => exact .nullTest name hnull
  | valueTest d hnull => exact .valueTest d hnull
  | leftSide => exact .leftSide
  | inside fault path hfault => exact .inside fault path hfault
  | outside e he => exact .outside _ (.deeper he)

/-- A frame that fails if the tests do not keeps them in step. -/
theorem fail {f : Frame} {e : CompileError}
    (hfail : Chain.Fails c level (f :: chain) (e.under f.kind))
    (h : InStep c (level + 1) chain left right x y) :
    InStep c level (f :: chain) left right ((x.bind fun _ => .error e).mapError (·.under f.kind))
      ((y.bind fun _ => .error e).mapError (·.under f.kind)) := by
  cases h with
  | nullTest name hnull => exact .outside _ hfail
  | valueTest d hnull => exact .outside _ hfail
  | leftSide => exact .leftSide
  | inside fault path hfault => exact .inside fault path hfault
  | outside e he => exact .outside _ (.deeper he)

end InStep

namespace Compiler

variable (c : Compiler)

/-- The two tests are in step in the open place of a chain, by induction over the chain. -/
theorem inStep_lower_fill (chain : Chain) (level : Nat) (left : Node) (right : Option Node) :
    InStep c level chain left right
      (c.lower (chain.fill (.equality .equal left right)) level).outcome
      (c.lower (chain.fill (.equality .notEqual left right)) level).outcome := by
  induction chain generalizing level with
  | nil => exact c.inStep_lower level left right
  | cons f chain ih =>
      have hfill : ∀ n, Chain.fill (f :: chain) n = f.fill (Chain.fill chain n) :=
        fun _ => rfl
      rw [hfill, hfill]
      by_cases hlevel : c.settings.maxDepth < level
      · rw [outcome_lower_of_lt c hlevel, outcome_lower_of_lt c hlevel, f.kind_fill, f.kind_fill]
        exact .outside _ (.tooDeep hlevel)
      · rcases f.lower_cases c (Nat.not_lt.mp hlevel) with
          ⟨e, ⟨n, hn, he⟩, hbefore | hafter⟩ | hframe
        · rw [hbefore, hbefore]
          exact .outside _ (.side hn he)
        · rw [hafter, hafter]
          exact (ih (level + 1)).fail (.side hn he)
        · rw [hframe, hframe]
          exact (ih (level + 1)).frame f

/-- **In step**: in any chain of connectives and parentheses, the two tests of one pair of
operands compile or fail together. Their documents differ in the test alone, which is
negated or asks for the opposite of null. Their errors differ in the segment of the path
that is the test, and in the kind if it is the left side of the test that is refused. -/
theorem compile_inStep (chain : Chain) (left : Node) (right : Option Node) :
    let equal := c.compile (chain.fill (.equality .equal left right))
    let notEqual := c.compile (chain.fill (.equality .notEqual left right))
    ((∃ d, notEqual = .ok d) ↔ ∃ d, equal = .ok d) ∧
      InStep c 0 chain left right equal notEqual := by
  intro equal notEqual
  have h : InStep c 0 chain left right equal notEqual := c.inStep_lower_fill chain 0 left right
  refine ⟨?_, h⟩
  generalize equal = x at h ⊢
  generalize notEqual = y at h ⊢
  cases h <;> simp

/-- The tests for null and the tests for a number, in parentheses and beside another test: the
documents of each pair differ in the test alone. -/
theorem compile_inStep_documents :
    let filter (name : String) (parameter : Document) : Document :=
      .object [("filter", .object [("attribute", .object [("name", .string name)]),
        ("parameter", parameter)])]
    let active : Document := filter "active" (.object [("eq", .bool true)])
    let chain : Chain :=
      [.grouping, .right .or (.equality .equal (.sqlLiteral "active") (some (.bool true)))]
    let test (op : EqualityOp) (right : Option Node) : Except CompileError Document :=
      new.compile (chain.fill (.equality op (.sqlLiteral "age") right))
    let thirty : Option Node := some (.literal .plain (.int 30))
    let aged : Document := filter "age" (.object [("eq", Json.int 30)])
    (InStep new 0 chain (.sqlLiteral "age") none (test .equal none) (test .notEqual none) ∧
      test .equal none = .ok (.object [("or", .array
        [active, filter "age" (.object [("is_null", .bool true)])])]) ∧
      test .notEqual none = .ok (.object [("or", .array
        [active, filter "age" (.object [("is_null", .bool false)])])])) ∧
    InStep new 0 chain (.sqlLiteral "age") thirty (test .equal thirty) (test .notEqual thirty) ∧
      test .equal thirty = .ok (.object [("or", .array [active, aged])]) ∧
      test .notEqual thirty =
        .ok (.object [("or", .array [active, .object [("not", aged)]])]) := by
  intro filter active chain test thirty aged
  exact ⟨⟨(new.compile_inStep chain (.sqlLiteral "age") none).2, rfl, rfl⟩,
    (new.compile_inStep chain (.sqlLiteral "age") thirty).2, rfl, rfl⟩

/-- A left side that is no name, and an operand of the chain that is refused after the tests
have been compiled. -/
example :
    let chain (other : Node) : Chain := [.grouping, .left .and other]
    let test (op : EqualityOp) (left : Node) : Node := .equality op left none
    (∀ op, new.compile ((chain (.bool true)).fill (test op (.bool true))) =
        .error ⟨.notName op.kind "left side" (.bool true), ["Grouping", "And", op.kind]⟩) ∧
      ∀ op, new.compile ((chain (.not (.bool true))).fill (test op (.sqlLiteral "age"))) =
        .error ⟨.unsupported "Not", ["Grouping", "And", "Not"]⟩ :=
  ⟨fun op => by cases op <;> rfl, fun op => by cases op <;> rfl⟩

end Compiler

end RelSearch
