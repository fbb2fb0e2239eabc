import RelSearch.Proofs.Likeness

/-!
# RelSearch.Proofs.Relabeling

What a compiler does not look at in the leaves of a query: the relation and the type of an
attribute, and whether a literal is plain or cast.

A `Relabeling` changes these everywhere in a query, also below nodes that are never
visited. A compiler makes the same document of a query and of the relabeled one, if it makes
one at all (`Compiler.compile_relabel`). If the forms of literals stay what they are,
even the reports and the errors are the same (`Compiler.runNode_relabel`); they name the
kind of a literal, so with other forms they cannot be.

Two queries that differ only in what a relabeling forgets are the same once both are
relabeled. `Compiler.runNode_forgets` is stated in this way.
-/

namespace RelSearch

/-- A change of attributes that keeps their names, and of the forms of literals that keeps
quoted ones apart from the others. -/
structure Relabeling where
  column : Attribute → Attribute
  form : LiteralForm → LiteralForm
  name_column : ∀ a, (column a).name = a.name
  form_eq_quoted : ∀ f, form f = .quoted ↔ f = .quoted

namespace Relabeling

/-- Leaves nothing of an attribute but its name. -/
def bare : Relabeling where
  column a := ⟨none, a.name, .undefined⟩
  form f := f
  name_column _ := rfl
  form_eq_quoted _ := Iff.rfl

/-- Makes cast literals plain. -/
def uncast : Relabeling where
  column a := a
  form
    | .casted => .plain
    | f => f
  name_column _ := rfl
  form_eq_quoted f := by cases f <;> simp

/-- A form stays what it is, or it is not a quoted one before and after. -/
theorem form_cases (f : Relabeling) (form : LiteralForm) :
    f.form form = form ∨ form ≠ .quoted ∧ f.form form ≠ .quoted := by
  by_cases h : form = .quoted
  · subst h
    exact .inl ((f.form_eq_quoted _).mpr rfl)
  · exact .inr ⟨h, mt (f.form_eq_quoted form).mp h⟩

end Relabeling

mutual

/-- A node with all its leaves relabeled. -/
def Node.relabel (f : Relabeling) : Node → Node
  | .column a => .column (f.column a)
  | .literal form value => .literal (f.form form) value
  | .statement s => .statement (s.relabel f)
  | .subquery s => .subquery (s.relabel f)
  | .core c => .core (c.relabel f)
  | .equality op left none => .equality op (left.relabel f) none
  | .equality op left (some right) => .equality op (left.relabel f) (some (right.relabel f))
  | .comparison op left right => .comparison op (left.relabel f) (right.relabel f)
  | .connective op left right => .connective op (left.relabel f) (right.relabel f)
  | .not operand => .not (operand.relabel f)
  | .sort order operand => .sort order (operand.relabel f)
  | .grouping inner => .grouping (inner.relabel f)
  | .namedFunction name args => .namedFunction name (args.map fun n => n.relabel f)
  | .sqlLiteral text => .sqlLiteral text
  | .bool b => .bool b

/-- A core with all its leaves relabeled. -/
def Core.relabel (f : Relabeling) : Core → Core
  | ⟨projections, wheres⟩ =>
    ⟨projections.map fun n => n.relabel f, wheres.map fun n => n.relabel f⟩

/-- A statement with all its leaves relabeled. -/
def Statement.relabel (f : Relabeling) : Statement → Statement
  | ⟨cores, orders, limit, offset⟩ =>
    ⟨cores.map fun c => c.relabel f, orders.map fun n => n.relabel f,
      match limit with
        | none => none
        | some n => some (n.relabel f),
      match offset with
        | none => none
        | some n => some (n.relabel f)⟩

end

variable (f : Relabeling)

/-- Leaves are relabeled in every clause of a statement. -/
theorem Statement.relabel_eq (s : Statement) :
    s.relabel f = ⟨s.cores.map (·.relabel f), s.orders.map (·.relabel f),
      s.limit.map (·.relabel f), s.offset.map (·.relabel f)⟩ := by
  obtain ⟨cores, orders, limit, offset⟩ := s
  cases limit <;> cases offset <;> simp only [Statement.relabel, Option.map]

/-! ## One step down -/

namespace Node

theorem isNull_relabel (n : Node) : (n.relabel f).isNull = n.isNull := by
  cases n with
  | equality op left right => cases right <;> simp [relabel, isNull]
  | _ => simp [relabel, isNull]

theorem isSort_relabel (n : Node) : (n.relabel f).isSort = n.isSort := by
  cases n with
  | equality op left right => cases right <;> simp [relabel, isSort]
  | _ => simp [relabel, isSort]

/-- A leaf and what a relabeling makes of it. -/
inductive LeafRelabeled : Node → Node → Prop
  | column (a : Attribute) : LeafRelabeled (.column a) (.column (f.column a))
  | literal (form : LiteralForm) (value : Scalar) :
    LeafRelabeled (.literal form value) (.literal (f.form form) value)
  | sqlLiteral (text : String) : LeafRelabeled (.sqlLiteral text) (.sqlLiteral text)
  | bool (b : Bool) : LeafRelabeled (.bool b) (.bool b)
  | comparison (op : ComparisonOp) (l l' r r' : Node) :
    LeafRelabeled (.comparison op l r) (.comparison op l' r')
  | not (n n' : Node) : LeafRelabeled (.not n) (.not n')
  | namedFunction (name : String) (args args' : List Node) :
    LeafRelabeled (.namedFunction name args) (.namedFunction name args')

/-- A node and what a relabeling makes of it. -/
def Relabeled (a b : Node) : Prop := b = a.relabel f

end Node

/-- A relabeled statement is like the statement. -/
theorem Statement.like_relabel (s : Statement) : s.Like (Node.Relabeled f) (s.relabel f) := by
  have hoptional : ∀ x : Option Node, Option.Rel (Node.Relabeled f) x (x.map (·.relabel f)) := by
    intro x
    cases x with
    | none => exact .none
    | some n => exact .some rfl
  rw [Statement.relabel_eq]
  refine ⟨?_, ?_, hoptional s.limit, hoptional s.offset⟩
  · exact List.forall₂_map_right_iff.mpr
      (List.forall₂_same.mpr fun c _ => by rw [Node.Relabeled, Node.relabel])
  · exact List.forall₂_map_right_iff.mpr
      (List.forall₂_same.mpr fun n _ => ⟨(n.isSort_relabel f).symm, rfl⟩)

namespace Node

theorem forall₂_relabel (nodes : List Node) :
    List.Forall₂ (Relabeled f) nodes (nodes.map (·.relabel f)) :=
  List.forall₂_map_right_iff.mpr (List.forall₂_same.mpr fun _ _ => rfl)

/-- A relabeled node is like the node it was made of. -/
theorem Relabeled.like {a b : Node} (h : Relabeled f a b) :
    Like (LeafRelabeled f) (Relabeled f) a b := by
  obtain rfl : b = a.relabel f := h
  cases a with
  | statement s =>
      rw [relabel]
      exact .statement (s.like_relabel f)
  | subquery s =>
      rw [relabel]
      exact .subquery (s.like_relabel f)
  | core c =>
      obtain ⟨projections, wheres⟩ := c
      rw [relabel, Core.relabel]
      exact .core (forall₂_relabel f projections) (forall₂_relabel f wheres)
  | equality op left right =>
      cases right with
      | none =>
          rw [relabel]
          exact .nullTest op rfl
      | some right =>
          rw [relabel]
          exact .equality op rfl (right.isNull_relabel f).symm fun _ => rfl
  | connective op left right =>
      rw [relabel]
      exact .connective op rfl rfl
  | sort order operand =>
      rw [relabel]
      exact .sort order rfl
  | grouping inner =>
      rw [relabel]
      exact .grouping rfl
  | column a =>
      rw [relabel]
      exact .leaf (.column a)
  | literal form value =>
      rw [relabel]
      exact .leaf (.literal form value)
  | sqlLiteral text =>
      rw [relabel]
      exact .leaf (.sqlLiteral text)
  | bool b =>
      rw [relabel]
      exact .leaf (.bool b)
  | comparison op left right =>
      rw [relabel]
      exact .leaf (.comparison op _ _ _ _)
  | not operand =>
      rw [relabel]
      exact .leaf (.not _ _)
  | namedFunction name args =>
      rw [relabel]
      exact .leaf (.namedFunction name _ _)

/-! ## Leaves -/

variable {f} {a b : Node}

/-- A relabeled leaf fits where the leaf does. -/
theorem LeafRelabeled.fitsAlike (h : LeafRelabeled f a b) : FitsAlike a b := by
  cases h with
  | literal form value =>
      rcases f.form_cases form with hform | ⟨hq, hq'⟩
      · rw [hform]
        exact ⟨rfl, Iff.rfl, rfl, rfl⟩
      · have hfinite : (Node.literal form value).isFinite =
            (Node.literal (f.form form) value).isFinite := by
          rw [isFinite_literal hq, isFinite_literal hq']
        refine ⟨?_, ?_, rfl, rfl⟩
        · revert hq hq'
          cases form <;> cases f.form _ <;> simp [isName]
        · rw [ownFaults_eq_nil_iff, ownFaults_eq_nil_iff, hfinite]
          rfl
  | _ => exact ⟨rfl, Iff.rfl, by simp [visitedParts, parts], by simp [visitedParts, parts]⟩

/-- A relabeled leaf keeps its name, and with it its document. -/
theorem LeafRelabeled.document_eq (q : Quoting) (h : LeafRelabeled f a b) :
    a.name q = b.name q ∧ a.document q = b.document q := by
  cases h with
  | column a => simp [name, document, f.name_column]
  | literal form value =>
      rcases f.form_cases form with hform | ⟨hq, hq'⟩
      · rw [hform]
        exact ⟨rfl, rfl⟩
      · revert hq hq'
        cases form <;> cases f.form _ <;> simp [name, document]
  | _ => simp [name, document]

/-- If no literal changes its form, a compiler cannot tell the leaves apart. -/
theorem LeafRelabeled.sameLeaf (hform : ∀ form, f.form form = form) (h : LeafRelabeled f a b) :
    SameLeaf a b := by
  cases h with
  | literal form value =>
      rw [hform]
      exact ⟨rfl, rfl, rfl, rfl, rfl⟩
  | _ => exact ⟨rfl, rfl, rfl, by simp [visitedParts, parts], by simp [visitedParts, parts]⟩

/-- A relabeling leaves no trace in a document. -/
theorem document_relabel (q : Quoting) (n : Node) : (n.relabel f).document q = n.document q :=
  (document_eq_of_like (fun _ _ => Relabeled.like f) (fun _ _ => LeafRelabeled.document_eq q)
    (rfl : Relabeled f n _)).2.symm

/-- A relabeled query compiles if the query does. -/
theorem faults_relabel_eq_nil_iff (limit : Nat) (n : Node) :
    (n.relabel f).faults limit = [] ↔ n.faults limit = [] :=
  (Place.faults_eq_nil_iff_of_like (fun _ _ => Relabeled.like f)
    (fun _ _ => LeafRelabeled.fitsAlike) limit [] [] 0 .value (rfl : Relabeled f n _)).symm

end Node

/-! ## Compiling -/

namespace Compiler

variable (c : Compiler) {f}

/-- A relabeled query compiles exactly if the query does, and to the same document. -/
theorem compile_relabel (n : Node) (d : Document) :
    c.compile (n.relabel f) = .ok d ↔ c.compile n = .ok d := by
  rw [compile_eq_outcomeOf, compile_eq_outcomeOf, outcomeOf_eq_ok_iff, outcomeOf_eq_ok_iff,
    Node.faults_relabel_eq_nil_iff, Node.document_relabel]

/-- A query whose attributes alone are relabeled is compiled in the same way, reports and
errors included. -/
theorem runNode_relabel (hform : ∀ form, f.form form = form) (n : Node) :
    c.runNode (n.relabel f) = c.runNode n := by
  have hsame : ∀ a b, Node.LeafRelabeled f a b → Node.SameLeaf a b :=
    fun _ _ => Node.LeafRelabeled.sameLeaf hform
  have hkind : n.kind = (n.relabel f).kind := (Node.Relabeled.like f rfl).kind hsame
  have hsteps : Place.steps c.settings.maxDepth [] 0 ⟨.value, n⟩ =
      Place.steps c.settings.maxDepth [] 0 ⟨.value, n.relabel f⟩ :=
    Place.steps_eq_of_like (fun _ _ => Node.Relabeled.like f) hsame _ _ _ _ rfl
  have hlower : c.lower (n.relabel f) 0 = c.lower n 0 := by
    rw [run_lower, run_lower, Node.document_relabel, ← hsteps]
  simp only [runNode, hlower, ← hkind]

/-- **Relabeling**: two queries that differ only in the relations and the types of their
attributes are compiled in the same way, with the same outcome and the same reports. Two
queries that differ only in which literals are plain and which are cast compile to the same
document, if one of them compiles at all. -/
theorem runNode_forgets (a b : Node) :
    (a.relabel .bare = b.relabel .bare → c.runNode a = c.runNode b) ∧
      (a.relabel .uncast = b.relabel .uncast →
        ∀ d, c.compile a = .ok d ↔ c.compile b = .ok d) := by
  refine ⟨fun h => ?_, fun h d => ?_⟩
  · rw [← c.runNode_relabel (f := .bare) (fun _ => rfl) a, h, c.runNode_relabel fun _ => rfl]
  · rw [← c.compile_relabel (f := .uncast) a, h, c.compile_relabel]

/-- Two attributes of one name, in a sort term that is refused and in a test, and the same
number as a plain and as a cast literal. -/
theorem runNode_forgets_age :
    let age : Attribute := ⟨none, "age", .undefined⟩
    let typed : Attribute := ⟨some "users", "age", .integer⟩
    let test (a : Attribute) (form : LiteralForm) : Node :=
      .equality .notEqual (.column a) (some (.literal form (.int 30)))
    let sorted (a : Attribute) : Node :=
      .statement ⟨[⟨[.column a], [test a .casted]⟩], [.not (.column a)], none, none⟩
    (sorted age).relabel .bare = (sorted typed).relabel .bare ∧
      new.runNode (sorted age) = new.runNode (sorted typed) ∧
      (test age .plain).relabel .uncast = (test age .casted).relabel .uncast ∧
      ∀ d, new.compile (test age .plain) = .ok d ↔ new.compile (test age .casted) = .ok d := by
  intro age typed test sorted
  have hbare : (sorted age).relabel .bare = (sorted typed).relabel .bare := by
    simp [sorted, test, age, typed, Node.relabel, Statement.relabel, Core.relabel, Relabeling.bare]
  have huncast : (test age .plain).relabel .uncast = (test age .casted).relabel .uncast := by
    simp [test, Node.relabel, Relabeling.uncast]
  exact ⟨hbare, (new.runNode_forgets _ _).1 hbare, huncast, (new.runNode_forgets _ _).2 huncast⟩

end Compiler

end RelSearch
