import RelSearch.Proofs.Descent

/-!
# RelSearch.Proofs.Entry

The ways into a compiler: a statement by itself, a statement or a subquery as a node,
and the only core of a statement or that core as a node.

1. A statement is compiled in the same way whatever it is wrapped in. The wrapping
   node is the first segment of a path, and a visit of its own.
2. A core that stands in a statement lies one level further down than one that is the
   root of a query. With a limit that is one level deeper, a compiler finds the same
   there (`Place.map_deepened_steps`), so the statement compiles like its core.

`Compiler.entry_points_agree` puts these together.
-/

namespace RelSearch

/-! ## One level further down -/

/-- The same fault, found by a compiler whose limit is one level deeper. -/
def Fault.deepened : Fault → Fault
  | .tooDeep limit => .tooDeep (limit + 1)
  | .unsupported kind => .unsupported kind
  | .invalidShape kind reason => .invalidShape kind reason

/-- The same error, found by a compiler whose limit is one level deeper. -/
def CompileError.deepened (e : CompileError) : CompileError := ⟨e.fault.deepened, e.path⟩

namespace Step

/-- The same step, one level further down and under a limit that is one level deeper. -/
def deepened : Step → Step
  | .visit kind level => .visit kind (level + 1)
  | .fault e => .fault e.deepened

/-- The faults among deepened steps are the deepened faults. -/
theorem filterMap_fault?_map_deepened (steps : List Step) :
    (steps.map deepened).filterMap fault? = (steps.filterMap fault?).map (·.deepened) := by
  rw [List.filterMap_map, List.map_filterMap]
  congr 1
  funext step
  cases step <;> rfl

end Step

/-- What is wrong with a node itself does not depend on the limit. -/
theorem Node.deepened_of_mem_ownFaults {n : Node} {fault : Fault} (h : fault ∈ n.ownFaults) :
    fault.deepened = fault := by
  have hkind := Node.kind?_of_mem_ownFaults h
  cases fault with
  | tooDeep limit => cases hkind
  | unsupported kind => rfl
  | invalidShape kind reason => rfl

/-- One level further down, with a limit that is one level deeper, the steps of a place
are the same. -/
theorem Place.map_deepened_steps (limit : Nat) (above : NodePath) (level : Nat) (p : Place) :
    (p.steps limit above level).map Step.deepened = p.steps (limit + 1) above (level + 1) := by
  obtain ⟨role, n⟩ := p
  induction n using Node.induction_parts generalizing role above level with
  | step n ih =>
      have hinside : (n.stepsInside limit above level).map Step.deepened =
          n.stepsInside (limit + 1) above (level + 1) := by
        rw [Node.stepsInside, Node.stepsInside, List.map_append, List.map_map, List.map_flatMap]
        congr 1
        · apply List.map_congr_left
          intro fault hfault
          simp [Step.deepened, CompileError.deepened, Node.deepened_of_mem_ownFaults hfault]
        · exact List.flatMap_congr fun q hq => ih q hq (above ++ [n.kind]) (level + 1) q.role
      have hvalue : (steps limit above level ⟨.value, n⟩).map Step.deepened =
          steps (limit + 1) above (level + 1) ⟨.value, n⟩ := by
        rw [steps_value, steps_value, ← hinside]
        by_cases hlevel : limit < level
        · simp [hlevel, Step.deepened, CompileError.deepened, Fault.deepened]
        · simp [hlevel, Step.deepened]
      cases role with
      | core => rw [steps_core, steps_core, hinside]
      | value => exact hvalue
      | name owner part =>
          rw [steps_name, steps_name, ← hvalue, Step.filterMap_fault?_map_deepened,
            List.isEmpty_map]
          split
          · rw [List.map_append]
            rfl
          · rfl
      | skipped => rw [steps_skipped, steps_skipped, List.map_nil]

/-! ## Statements -/

theorem outcomeOf_map {α : Type} (a : α) (f : CompileError → CompileError)
    (faults : List CompileError) :
    outcomeOf a (faults.map f) = (outcomeOf a faults).mapError f := by
  cases faults <;> rfl

/-- A statement with one core and no other clause has the document of that core. -/
theorem Statement.document_ofCore (q : Quoting) (core : Core) :
    (Statement.ofCore core).document q = (Node.core core).document q := by
  simp [Statement.document_eq, Statement.ofCore, Node.document_core, Document.ofStatement,
    Document.ofQuery]

namespace Compiler

variable (c : Compiler) (s : Statement)

/-- The root of a query is never past the limit. -/
theorem enter_zero (n : Node) (body : Unit → Run Document) :
    c.enter n 0 body = Run.visiting n.kind 0 (body ()) := by
  rw [enter, if_neg (Nat.not_lt_zero _)]

/-- A statement at the root is visited, and its kind is put in front of the paths. -/
theorem lower_statement : c.lower (.statement s) 0 =
    Run.visiting "Statement" 0 (c.lowerStatement s 0) := by
  rw [lower, lowerBy, enter_zero]
  rfl

theorem lower_subquery : c.lower (.subquery s) 0 =
    Run.visiting "Subquery" 0 (c.lowerStatement s 0) := by
  rw [lower, lowerBy, enter_zero]
  rfl

/-- The only core of a statement is compiled like the same core as a node, which lies
one level further up. -/
theorem outcome_lowerStatement_ofCore (q : Quoting) (limit : Nat) (core : Core) :
    (lowerStatement ⟨⟨limit + 1⟩, q⟩ (.ofCore core) 0).outcome =
      (compile ⟨⟨limit⟩, q⟩ (.core core)).mapError (·.deepened) := by
  have hparts : (Statement.ofCore core).parts = [⟨.core, .core core⟩] := by
    simp [Statement.parts, Statement.ofCore]
  rw [run_lowerStatement, Run.outcome_ofSteps, hparts, List.flatMap_singleton,
    ← Place.map_deepened_steps, Step.filterMap_fault?_map_deepened, outcomeOf_map,
    Place.filterMap_fault?_steps, Statement.document_ofCore, compile_eq_outcomeOf, Node.faults,
    Place.faults_value, Place.faults_core, if_neg (Nat.not_lt_zero _)]

end Compiler

/-- **Entry points**: a statement has one outcome and one list of visits, whether it is
compiled by itself, as a node or as a subquery; the wrapping node only adds its kind to
a path and its own visit. A plain query is compiled like its core under a limit that is
one level lower. The outcome is the first fault of the statement or of the core, and without
one the document that it stands for. -/
theorem Compiler.entry_points_agree (c : Compiler) :
    (∀ s, (∃ outcome : Except CompileError Document,
      c.compileStatement s = outcome.mapError (·.under "Statement") ∧
      c.compile (.statement s) = outcome.mapError (·.under "Statement") ∧
      c.compile (.subquery s) = outcome.mapError (·.under "Subquery")) ∧
      c.compileStatement s =
        outcomeOf (s.document c.quoting) ((Node.statement s).faults c.settings.maxDepth)) ∧
    (∀ s, (c.runNode (.statement s)).visits = ("Statement", 0) :: (c.runStatement s).visits ∧
      (c.runNode (.subquery s)).visits = ("Subquery", 0) :: (c.runStatement s).visits) ∧
    ∀ (q : Quoting) (limit : Nat) (core : Core),
      compileStatement ⟨⟨limit + 1⟩, q⟩ (.ofCore core) =
        (compile ⟨⟨limit⟩, q⟩ (.core core)).mapError (fun e => e.deepened.under "Statement") ∧
      compile ⟨⟨limit⟩, q⟩ (.core core) =
        outcomeOf (core.sections q).document ((Node.core core).faults limit) := by
  refine ⟨fun s => ⟨⟨(c.lowerStatement s 0).outcome, rfl, ?_, ?_⟩, ?_⟩, fun s => ⟨?_, ?_⟩,
    fun q limit core => ⟨?_, ?_⟩⟩
  · show (c.lower (.statement s) 0).outcome = _
    rw [lower_statement, Run.outcome_visiting]
  · show (c.lower (.subquery s) 0).outcome = _
    rw [lower_subquery, Run.outcome_visiting]
  · rw [compileStatement_eq_compile, compile_eq_outcomeOf, Node.document]
  · rw [visits_runNode_eq_lower, lower_statement]
    rfl
  · rw [visits_runNode_eq_lower, lower_subquery]
    rfl
  · have hcore := outcome_lowerStatement_ofCore q limit core
    show (lowerStatement ⟨⟨limit + 1⟩, q⟩ (.ofCore core) 0).outcome.mapError _ = _
    rw [hcore]
    cases compile ⟨⟨limit⟩, q⟩ (.core core) <;> rfl
  · rw [compile_eq_outcomeOf, Node.document]

/-- A node that lies too deep in a core, and the same one in the statement. -/
example :
    let core : Core := ⟨[], [.grouping (.grouping (.bool true))]⟩
    let path : NodePath := ["Core", "Grouping", "Grouping"]
    Compiler.compile ⟨⟨1⟩, .sql⟩ (.core core) = .error ⟨.tooDeep 1, path⟩ ∧
      Compiler.compileStatement ⟨⟨2⟩, .sql⟩ (.ofCore core) =
        .error ⟨.tooDeep 2, "Statement" :: path⟩ :=
  ⟨rfl, rfl⟩

end RelSearch
