import RelSearch.Proofs.Faults

/-!
# RelSearch.Proofs.Steps

What a compiler does with a query, step by step: it visits nodes and comes upon
faults.

`Place.steps` goes down a query and lists the steps in the order in which they
are taken. Like `Place.faults` it never stops at a fault, and the faults among
the steps are those of `Place.faults` (`Place.filterMap_fault?_steps`). A run
takes the steps up to the first fault: it reports what is visited on the way,
and ends with that fault, or with the document of the query if there is none.

The main statement is `Compiler.run_lowerBy`: lowering a node is the run of its
steps, whatever the levels are counted with, as long as the counter is right up to
one past the limit. A counter that wraps around at a larger number, one that stays
there and one that stops the compiler there all give the same run.
`Compiler.run_lower` is the case of the natural numbers. Everything else about
compiling follows from it without another look at the compiler.
`Compiler.compile_eq_outcomeOf` is the form in which it is used where only the
outcome matters.
-/

namespace RelSearch

/-- A step of a compiler. -/
inductive Step where
  /-- A node of the given kind is visited at its level. -/
  | visit (kind : String) (level : Nat)
  /-- A fault is found. -/
  | fault (e : CompileError)

namespace Step

def fault? : Step → Option CompileError
  | .visit _ _ => none
  | .fault e => some e

/-- The same step, seen from a node of the given kind above. -/
def under (kind : String) : Step → Step
  | .visit visited level => .visit visited level
  | .fault e => .fault (e.under kind)

/-- Seen from a node above, the faults among some steps get the kind of that node in front of their
paths. -/
theorem filterMap_fault?_map_under (kind : String) (steps : List Step) :
    (steps.map (under kind)).filterMap fault? = (steps.filterMap fault?).map (·.under kind) := by
  rw [List.filterMap_map, List.map_filterMap]
  congr 1
  funext step
  cases step <;> rfl

end Step

/-! ## Runs of steps -/

instance : LawfulMonad Run := .mk' Run
  (fun x => by obtain ⟨events, _ | a⟩ := x <;> simp [Functor.map, Run.bind])
  (fun _ _ => rfl)
  (fun x f g => by
    obtain ⟨events, _ | a⟩ := x
    · rfl
    · cases h : (f a).outcome <;> simp [bind, Run.bind, h])

namespace Run

variable {α β : Type}

/-- The run with the given result that takes the given steps, up to the first
fault. -/
def ofSteps (a : α) : List Step → Run α
  | [] => pure a
  | .visit kind level :: steps => do
    report (.visiting kind level)
    ofSteps a steps
  | .fault e :: _ => ⟨[], .error e⟩

/-- Two runs in a row take the steps of the first, then those of the second. -/
theorem ofSteps_bind {a : α} {b : β} {f : α → Run β} {steps more : List Step}
    (hf : f a = ofSteps b more) : ofSteps a steps >>= f = ofSteps b (steps ++ more) := by
  induction steps with
  | nil => exact hf
  | cons step steps ih =>
      cases step with
      | visit kind level => rw [List.cons_append, ofSteps, ofSteps, bind_assoc, ih]
      | fault e => rfl

/-- A run whose result is changed afterwards takes the same steps. -/
theorem ofSteps_map {a : α} {steps : List Step} (f : α → β) :
    (ofSteps a steps >>= fun a => pure (f a)) = ofSteps (f a) steps := by
  have h : (ofSteps a steps >>= fun a => pure (f a)) = ofSteps (f a) (steps ++ []) :=
    ofSteps_bind rfl
  rwa [List.append_nil] at h

/-- What comes after a fault does not matter. -/
theorem ofSteps_append_of_fault {a b : α} {steps : List Step} (more other : List Step)
    (h : steps.filterMap Step.fault? ≠ []) :
    ofSteps a (steps ++ more) = ofSteps b (steps ++ other) := by
  induction steps with
  | nil => exact absurd rfl h
  | cons step steps ih =>
      cases step with
      | visit kind level => rw [List.cons_append, List.cons_append, ofSteps, ofSteps, ih h]
      | fault e => rfl

/-- A run below a node takes its steps as they are seen from the node. -/
theorem under_ofSteps (kind : String) (a : α) (steps : List Step) :
    (ofSteps a steps).under kind = ofSteps a (steps.map (·.under kind)) := by
  induction steps with
  | nil => rfl
  | cons step steps ih =>
      cases step with
      | visit visited level => rw [List.map_cons, Step.under, ofSteps, ofSteps, ← ih]; rfl
      | fault e => rfl

/-- A run ends with the first fault among its steps. -/
theorem outcome_ofSteps (a : α) (steps : List Step) :
    (ofSteps a steps).outcome = outcomeOf a (steps.filterMap Step.fault?) := by
  induction steps with
  | nil => rfl
  | cons step steps ih =>
      cases step with
      | visit kind level => exact ih
      | fault e => rfl

end Run

/-! ## The steps of a place -/

/-- The steps of a place at its level, for a compiler with the given limit.
`above` is the path that leads to the place. -/
def Place.steps (limit : Nat) (above : NodePath) (level : Nat) (p : Place) : List Step :=
  let path := above ++ [p.node.kind]
  let inside := p.node.ownFaults.map (.fault ⟨·, path⟩) ++
    p.node.parts.attach.flatMap fun ⟨q, _⟩ => q.steps limit path (level + 1)
  let visit := .visit p.node.kind level ::
    if limit < level then [.fault ⟨.tooDeep limit, path⟩] else inside
  match p.role with
  | .core => inside
  | .value => visit
  | .name owner part =>
    if (visit.filterMap Step.fault?).isEmpty && !p.node.isName then
      visit ++ [.fault ⟨.notName owner part p.node, above⟩]
    else visit
  | .skipped => []
termination_by sizeOf p.node
decreasing_by exact Node.sizeOf_lt_of_mem_parts ‹_›

/-- The steps inside a node that is not past the limit: the faults of its own, then
the steps of its parts. -/
def Node.stepsInside (limit : Nat) (above : NodePath) (level : Nat) (n : Node) : List Step :=
  n.ownFaults.map (.fault ⟨·, above ++ [n.kind]⟩) ++
    n.parts.flatMap (·.steps limit (above ++ [n.kind]) (level + 1))

namespace Place

variable (limit : Nat) (above : NodePath) (level : Nat) (n : Node)

/-- A core of a statement is not visited itself. -/
theorem steps_core : steps limit above level ⟨.core, n⟩ = n.stepsInside limit above level := by
  rw [steps, Node.stepsInside]
  simp only [List.flatMap_subtype, List.unattach_attach]

/-- A visit comes first; past the limit it is followed by a fault, otherwise by what is inside the
node. -/
theorem steps_value :
    steps limit above level ⟨.value, n⟩ = .visit n.kind level ::
      if limit < level then [.fault ⟨.tooDeep limit, above ++ [n.kind]⟩]
      else n.stepsInside limit above level := by
  rw [steps, Node.stepsInside]
  simp only [List.flatMap_subtype, List.unattach_attach]

/-- A node that should be a name is asked for it after its own steps, if these have no fault. -/
theorem steps_name (owner part : String) :
    steps limit above level ⟨.name owner part, n⟩ =
      if ((steps limit above level ⟨.value, n⟩).filterMap Step.fault?).isEmpty && !n.isName then
        steps limit above level ⟨.value, n⟩ ++ [.fault ⟨.notName owner part n, above⟩]
      else steps limit above level ⟨.value, n⟩ := by
  rw [steps_value, steps, Node.stepsInside]
  simp only [List.flatMap_subtype, List.unattach_attach]

theorem steps_skipped : steps limit above level ⟨.skipped, n⟩ = [] := by
  rw [steps]

/-- Seen from a node further up, the steps of a place are the same ones with a
longer path: going down and coming back up build the same paths. -/
theorem map_under_steps (kind : String) (p : Place) :
    (p.steps limit above level).map (·.under kind) = p.steps limit (kind :: above) level := by
  obtain ⟨role, n⟩ := p
  induction n using Node.induction_parts generalizing role above level with
  | step n ih =>
      have hinside : (n.stepsInside limit above level).map (·.under kind) =
          n.stepsInside limit (kind :: above) level := by
        simp only [Node.stepsInside, List.map_append, List.map_map, List.map_flatMap]
        congr 1
        exact List.flatMap_congr fun q hq => ih q hq (above ++ [n.kind]) (level + 1) q.role
      have hvalue : (steps limit above level ⟨.value, n⟩).map (·.under kind) =
          steps limit (kind :: above) level ⟨.value, n⟩ := by
        rw [steps_value, steps_value, ← hinside]
        split <;> rfl
      cases role with
      | core => rw [steps_core, steps_core, hinside]
      | value => exact hvalue
      | name owner part =>
          rw [steps_name, steps_name, ← hvalue, Step.filterMap_fault?_map_under, List.isEmpty_map]
          split
          · rw [List.map_append]
            rfl
          · rfl
      | skipped => rw [steps_skipped, steps_skipped, List.map_nil]

/-- The faults among the steps of a place are the faults of the place. -/
theorem filterMap_fault?_steps (p : Place) :
    (p.steps limit above level).filterMap Step.fault? = p.faults limit above level := by
  obtain ⟨role, n⟩ := p
  induction n using Node.induction_parts generalizing role above level with
  | step n ih =>
      have hinside : (n.stepsInside limit above level).filterMap Step.fault? =
          n.faultsInside limit above level := by
        rw [Node.stepsInside, Node.faultsInside, List.filterMap_append, List.filterMap_flatMap,
          List.filterMap_map]
        congr 1
        · exact congrFun List.filterMap_eq_map n.ownFaults
        · exact List.flatMap_congr fun q hq => ih q hq (above ++ [n.kind]) (level + 1) q.role
      have hvalue : (steps limit above level ⟨.value, n⟩).filterMap Step.fault? =
          faults limit above level ⟨.value, n⟩ := by
        rw [steps_value, faults_value, ← hinside]
        split <;> rfl
      cases role with
      | core => rw [steps_core, faults_core, hinside]
      | value => exact hvalue
      | name owner part =>
          rw [steps_name, faults_name, hvalue]
          split
          · next h =>
              have hnil := List.isEmpty_iff.mp (Bool.and_eq_true_iff.mp h).1
              rw [List.filterMap_append, hvalue, hnil]
              rfl
          · exact hvalue
      | skipped => rw [steps_skipped, faults_skipped, List.filterMap_nil]

/-- Seen from a node further up, the faults of a place have a longer path. -/
theorem map_under_faults (kind : String) (p : Place) :
    (p.faults limit above level).map (·.under kind) = p.faults limit (kind :: above) level := by
  rw [← filterMap_fault?_steps, ← filterMap_fault?_steps, ← map_under_steps,
    Step.filterMap_fault?_map_under]

end Place

/-! ## Lowering is the run of its steps -/

/-- A plain or cast literal has a form in documents unless it is a float that is
not finite. -/
theorem Node.isFinite_literal {form : LiteralForm} (h : form ≠ .quoted) (value : Scalar) :
    (Node.literal form value).isFinite = value.json?.isSome := by
  cases form with
  | quoted => exact absurd rfl h
  | plain =>
      cases value with
      | float x => cases hx : x.isFinite <;> simp [Node.isFinite, Scalar.json?, hx]
      | _ => rfl
  | casted =>
      cases value with
      | float x => cases hx : x.isFinite <;> simp [Node.isFinite, Scalar.json?, hx]
      | _ => rfl

namespace Compiler

variable (c : Compiler)

/-- A literal takes no step but the fault of a float that is not finite. -/
theorem run_literal (form : LiteralForm) (value : Scalar) :
    c.literal form value = Run.ofSteps ((Node.literal form value).document c.quoting)
      ((Node.literal form value).ownFaults.map (.fault ⟨·, []⟩)) := by
  by_cases hform : form = .quoted
  · subst hform
    rw [Node.document]
    rfl
  · have hfinite := Node.isFinite_literal hform value
    have hdoc := Node.document_literal c.quoting hform value
    cases hj : value.json? with
    | none =>
        cases form <;> simp_all [literal, Node.ownFaults, Run.ofSteps, Run.fail, Fault.nonFinite]
    | some json => cases form <;> simp_all [literal, Node.ownFaults, Run.ofSteps]

/-- Asking a node for its name is a fault if the node is none. -/
theorem run_nameOf (owner part : String) (n : Node) (q : Quoting) :
    nameOf owner part n (n.document q) =
      Run.ofSteps (n.name q) (if n.isName then [] else [.fault ⟨.notName owner part n, []⟩]) := by
  cases hd : n.document q with
  | string s =>
      obtain ⟨hname, rfl⟩ := (n.document_eq_string_iff q s).mp hd
      rw [if_pos hname]
      rfl
  | _ =>
      have hname : ¬ n.isName = true := fun h => by
        have hs := (n.document_eq_string_iff q (n.name q)).mpr ⟨h, rfl⟩
        rw [hd] at hs
        cases hs
      rw [if_neg hname]
      rfl

/-- A node that has to be a name is visited and then asked for it; a fault of the
node itself comes first. -/
theorem run_name_bind {n : Node} {level : Nat} {β : Type} {visit : Run Document}
    {k : String → Run β} {b : β} {more : List Step} (owner part : String)
    (hn : visit = Run.ofSteps (n.document c.quoting)
      (Place.steps c.settings.maxDepth [] level ⟨.value, n⟩))
    (hk : k (n.name c.quoting) = Run.ofSteps b more) :
    (visit >>= fun d => nameOf owner part n d >>= k) =
      Run.ofSteps b (Place.steps c.settings.maxDepth [] level ⟨.name owner part, n⟩ ++ more) := by
  have hname : (nameOf owner part n (n.document c.quoting) >>= k) = Run.ofSteps b
      ((if n.isName then [] else [.fault ⟨.notName owner part n, []⟩]) ++ more) := by
    rw [run_nameOf]
    exact Run.ofSteps_bind hk
  rw [hn, Run.ofSteps_bind (f := fun d => nameOf owner part n d >>= k) hname, Place.steps_name]
  by_cases hfaults :
      (Place.steps c.settings.maxDepth [] level ⟨.value, n⟩).filterMap Step.fault? = []
  · rw [hfaults]
    cases n.isName <;> simp
  · -- the node has a fault of its own, so it is not asked for a name
    rw [List.isEmpty_eq_false_iff.mpr hfaults, Bool.false_and, if_neg Bool.false_ne_true]
    exact Run.ofSteps_append_of_fault _ _ hfaults

/-- A sort term is visited and then put in order; without an order of its own it has to be a
name. -/
theorem run_sortTerm_bind {n : Node} {level : Nat} {β : Type} {visit : Run Document}
    {k : Document → Run β} {b : β} {more : List Step}
    (hn : visit = Run.ofSteps (n.document c.quoting)
      (Place.steps c.settings.maxDepth [] level ⟨.value, n⟩))
    (hk : k (n.sortTerm c.quoting) = Run.ofSteps b more) :
    (visit >>= fun d => asSortTerm n d >>= k) =
      Run.ofSteps b (Place.steps c.settings.maxDepth [] level (.ofSortTerm n) ++ more) := by
  unfold asSortTerm Place.ofSortTerm
  cases hsort : n.isSort with
  | true =>
      rw [Node.sortTerm_of_isSort _ hsort] at hk
      rw [hn]
      exact Run.ofSteps_bind hk
  | false =>
      rw [Node.sortTerm_of_isSort_eq_false _ hsort] at hk
      simp only [Bool.false_eq_true, if_false, bind_assoc, pure_bind]
      exact c.run_name_bind _ _ hn hk

/-- Going into a node that is not past the limit takes the steps inside the node. -/
theorem run_enter {n : Node} {level : Nat} {body : Unit → Run Document} {d : Document}
    (h : level ≤ c.settings.maxDepth →
      body () = Run.ofSteps d (n.ownFaults.map (.fault ⟨·, []⟩) ++
        n.parts.flatMap (·.steps c.settings.maxDepth [] (level + 1)))) :
    c.enter n level body =
      Run.ofSteps d (Place.steps c.settings.maxDepth [] level ⟨.value, n⟩) := by
  rw [Place.steps_value, Run.ofSteps, enter]
  split
  · rfl
  · next hlevel =>
      -- the body's paths start at the parts and the kind is put in front of them on the way back
      have hinside : (Run.ofSteps d (n.ownFaults.map (.fault ⟨·, []⟩) ++
            n.parts.flatMap (·.steps c.settings.maxDepth [] (level + 1)))).under n.kind =
          Run.ofSteps d (n.stepsInside c.settings.maxDepth [] level) := by
        rw [Run.under_ofSteps, Node.stepsInside, List.map_append, List.map_map, List.map_flatMap]
        simp only [Place.map_under_steps]
        rfl
      rw [h (Nat.not_lt.mp hlevel), ← hinside]
      rfl

/-- A core of a statement takes the steps of its place there. -/
theorem run_under_core {core : Core} {level : Nat} {visit : Run (List (String × Document))}
    (h : visit = Run.ofSteps (core.query c.quoting)
      (core.parts.flatMap (Place.steps c.settings.maxDepth [] (level + 1)))) :
    Run.under "Core" visit = Run.ofSteps (core.query c.quoting)
      (Place.steps c.settings.maxDepth [] level ⟨.core, .core core⟩) := by
  rw [h, Run.under_ofSteps, List.map_flatMap, Place.steps_core]
  simp only [Place.map_under_steps]
  rfl

/-- A counter that gives the right successor of all numbers up to one past the
limit. -/
def CountsPast (limit : Nat) (next : Nat → Run Nat) : Prop :=
  ∀ depth ≤ limit + 1, next depth = pure (depth + 1)

/-- Up to one past the limit, such a counter can be left out. -/
theorem CountsPast.bind {limit depth : Nat} {next : Nat → Run Nat} {α : Type}
    (hnext : CountsPast limit next) (h : depth ≤ limit + 1) (k : Nat → Run α) :
    next depth >>= k = k (depth + 1) := by
  rw [hnext depth h, pure_bind]

section

variable {c} {next : Nat → Run Nat}

mutual

/-- **Steps**: lowering a node is the run of its steps, with its document for a result. No
number above `limit + 1` is asked for its successor, so what the counter makes of larger ones
does not matter. -/
theorem run_lowerBy (hnext : CountsPast c.settings.maxDepth next) : (n : Node) → (level : Nat) →
    c.lowerBy next n level = Run.ofSteps (n.document c.quoting)
      (Place.steps c.settings.maxDepth [] level ⟨.value, n⟩)
  | .statement s, level => by
      rw [lowerBy, Node.document]
      exact c.run_enter (run_lowerStatementBy hnext s)
  | .subquery s, level => by
      rw [lowerBy, Node.document]
      exact c.run_enter (run_lowerStatementBy hnext s)
  | .core core, level => by
      rw [lowerBy, Node.document_core]
      refine c.run_enter fun hlevel => ?_
      rw [run_lowerCoreBy hnext core (by omega)]
      exact Run.ofSteps_map _
  | .equality op left none, level => by
      have hleft := run_lowerBy hnext left (level + 1)
      rw [lowerBy, Node.document_equality]
      refine c.run_enter fun hlevel => ?_
      rw [hnext.bind (by omega)]
      refine c.run_name_bind _ _ hleft ?_
      cases op <;> rfl
  | .equality op left (some right), level => by
      have hleft := run_lowerBy hnext left (level + 1)
      have hright := run_lowerBy hnext right (level + 1)
      rw [lowerBy, Node.document_equality]
      refine c.run_enter fun hlevel => ?_
      rw [hnext.bind (by omega)]
      refine c.run_name_bind _ _ hleft ?_
      by_cases hnull : right.isNull = true
      · rw [if_pos hnull]
        cases op <;>
          simp [Node.test, hnull, Place.ofRight, Place.steps_skipped, nullCondition, Run.ofSteps,
            Document.ofTest_isNull]
      · rw [if_neg hnull, hnext.bind (by omega), hright, Run.ofSteps_map]
        cases op <;>
          simp [Node.test, hnull, Place.ofRight, equalityCondition, Document.ofTest_equal,
            Document.ofTest_notEqual]
  | .connective op left right, level => by
      have hleft := run_lowerBy hnext left (level + 1)
      have hright := run_lowerBy hnext right (level + 1)
      rw [lowerBy, Node.document_connective]
      refine c.run_enter fun hlevel => ?_
      rw [hnext.bind (by omega), hleft]
      refine Run.ofSteps_bind ?_
      rw [hnext.bind (by omega), hright, Run.ofSteps_map]
      simp
  | .sort order operand, level => by
      have hoperand := run_lowerBy hnext operand (level + 1)
      rw [lowerBy, Node.document_sort]
      refine c.run_enter fun hlevel => ?_
      rw [hnext.bind (by omega)]
      exact c.run_name_bind _ _ hoperand rfl
  | .grouping inner, level => by
      have hinner := run_lowerBy hnext inner (level + 1)
      rw [lowerBy, Node.document]
      refine c.run_enter fun hlevel => ?_
      rw [hnext.bind (by omega), hinner]
      simp [Node.ownFaults, Node.isTranslated, Node.parts]
  | .literal form value, level => by
      rw [lowerBy]
      refine c.run_enter fun _ => (c.run_literal form value).trans ?_
      simp [Node.parts]
  | .column a, level => by
      rw [lowerBy, Node.document]
      exact c.run_enter fun _ => rfl
  | .sqlLiteral text, level => by
      rw [lowerBy, Node.document]
      exact c.run_enter fun _ => rfl
  | .bool b, level => by
      rw [lowerBy, Node.document]
      exact c.run_enter fun _ => rfl
  | .comparison op left right, level => by
      rw [lowerBy, Node.document]
      exact c.run_enter fun _ => rfl
  | .not operand, level => by
      rw [lowerBy, Node.document]
      exact c.run_enter fun _ => rfl
  | .namedFunction name args, level => by
      rw [lowerBy, Node.document]
      exact c.run_enter fun _ => rfl

/-- The projections of a core are names one level below the core. -/
theorem run_lowerProjectionsBy (hnext : CountsPast c.settings.maxDepth next) :
    (nodes : List Node) → {level : Nat} → level ≤ c.settings.maxDepth + 1 →
    c.lowerProjectionsBy next nodes level =
      Run.ofSteps (nodes.map fun n => Document.attributeRef (n.name c.quoting))
        ((nodes.map fun n => ⟨.name "Core" "projection", n⟩).flatMap
          (Place.steps c.settings.maxDepth [] (level + 1)))
  | [], level, h => by
      rw [lowerProjectionsBy]
      rfl
  | n :: nodes, level, h => by
      have hn := run_lowerBy hnext n (level + 1)
      have hnodes := run_lowerProjectionsBy hnext nodes h
      rw [lowerProjectionsBy, hnext.bind h]
      refine c.run_name_bind _ _ hn ?_
      rw [hnodes]
      exact Run.ofSteps_map _

/-- The conditions of a core are visited one level below the core. -/
theorem run_lowerConditionsBy (hnext : CountsPast c.settings.maxDepth next) :
    (nodes : List Node) → {level : Nat} → level ≤ c.settings.maxDepth + 1 →
    c.lowerConditionsBy next nodes level =
      Run.ofSteps (nodes.map (·.document c.quoting))
        ((nodes.map fun n => ⟨.value, n⟩).flatMap
          (Place.steps c.settings.maxDepth [] (level + 1)))
  | [], level, h => by
      rw [lowerConditionsBy]
      rfl
  | n :: nodes, level, h => by
      have hn := run_lowerBy hnext n (level + 1)
      have hnodes := run_lowerConditionsBy hnext nodes h
      rw [lowerConditionsBy, hnext.bind h, hn, hnodes]
      exact Run.ofSteps_bind (Run.ofSteps_map _)

/-- A core takes the steps of its parts; its level may be one past the limit. -/
theorem run_lowerCoreBy (hnext : CountsPast c.settings.maxDepth next) :
    (core : Core) → {level : Nat} → level ≤ c.settings.maxDepth + 1 →
    c.lowerCoreBy next core level = Run.ofSteps (core.query c.quoting)
      (core.parts.flatMap (Place.steps c.settings.maxDepth [] (level + 1)))
  | ⟨projections, wheres⟩, level, h => by
      have hnames := run_lowerProjectionsBy hnext projections h
      have hconditions := run_lowerConditionsBy hnext wheres h
      rw [lowerCoreBy, Core.query, Core.parts, List.flatMap_append, hnames, hconditions]
      exact Run.ofSteps_bind (Run.ofSteps_map _)

/-- The cores of a statement are entered in their order, and the query of the last one is the
result. -/
theorem run_lowerCoresBy (hnext : CountsPast c.settings.maxDepth next) :
    (cores : List Core) → {level : Nat} → level ≤ c.settings.maxDepth →
    (query : List (String × Document)) →
    c.lowerCoresBy next cores level query =
      Run.ofSteps ((cores.map (·.query c.quoting)).getLast?.getD query)
        ((cores.map fun core => ⟨.core, .core core⟩).flatMap
          (Place.steps c.settings.maxDepth [] (level + 1)))
  | [], level, h, query => by
      rw [lowerCoresBy]
      rfl
  | core :: cores, level, h, query => by
      -- the level of a core may be one past the limit: this is where the last successor is needed
      have hcore := c.run_under_core (run_lowerCoreBy hnext core (Nat.succ_le_succ h))
      have hcores := run_lowerCoresBy hnext cores h (core.query c.quoting)
      -- every core replaces the query made so far, so the query of the last one is left
      rw [lowerCoresBy, hnext.bind (by omega), List.map_cons, List.map_cons, List.getLast?_cons,
        hcore]
      exact Run.ofSteps_bind hcores

/-- The sort terms of a statement are visited one level below the statement. -/
theorem run_lowerSortTermsBy (hnext : CountsPast c.settings.maxDepth next) :
    (nodes : List Node) → {level : Nat} → level ≤ c.settings.maxDepth →
    c.lowerSortTermsBy next nodes level =
      Run.ofSteps (nodes.map (·.sortTerm c.quoting))
        ((nodes.map .ofSortTerm).flatMap (Place.steps c.settings.maxDepth [] (level + 1)))
  | [], level, h => by
      rw [lowerSortTermsBy]
      rfl
  | n :: nodes, level, h => by
      have hn := run_lowerBy hnext n (level + 1)
      have hnodes := run_lowerSortTermsBy hnext nodes h
      rw [lowerSortTermsBy, hnext.bind (by omega)]
      refine c.run_sortTerm_bind hn ?_
      rw [hnodes]
      exact Run.ofSteps_map _

theorem run_lowerOptionalBy (hnext : CountsPast c.settings.maxDepth next) :
    (node : Option Node) → {level : Nat} → level ≤ c.settings.maxDepth →
    c.lowerOptionalBy next node level =
      Run.ofSteps (node.map (·.document c.quoting))
        ((node.toList.map fun n => ⟨.value, n⟩).flatMap
          (Place.steps c.settings.maxDepth [] (level + 1)))
  | none, level, h => by
      rw [lowerOptionalBy]
      rfl
  | some n, level, h => by
      have hn := run_lowerBy hnext n (level + 1)
      rw [lowerOptionalBy, hnext.bind (by omega), hn, Run.ofSteps_map]
      simp

/-- A statement takes the steps of its parts, one level below its own. -/
theorem run_lowerStatementBy (hnext : CountsPast c.settings.maxDepth next) :
    (s : Statement) → {level : Nat} → level ≤ c.settings.maxDepth →
    c.lowerStatementBy next s level = Run.ofSteps (s.document c.quoting)
      (s.parts.flatMap (Place.steps c.settings.maxDepth [] (level + 1)))
  | ⟨cores, orders, limit, offset⟩, level, h => by
      have hcores := run_lowerCoresBy hnext cores h []
      have horders := run_lowerSortTermsBy hnext orders h
      have hlimit := run_lowerOptionalBy hnext limit h
      have hoffset := run_lowerOptionalBy hnext offset h
      rw [lowerStatementBy, Statement.document_eq, Statement.parts, hcores, horders, hlimit,
        hoffset]
      simp only [List.flatMap_append, List.append_assoc]
      exact Run.ofSteps_bind (Run.ofSteps_bind (Run.ofSteps_bind (Run.ofSteps_map _)))

end

end

/-- Lowering with natural numbers for levels is the run of the steps. -/
theorem run_lower (n : Node) (level : Nat) :
    c.lower n level = Run.ofSteps (n.document c.quoting)
      (Place.steps c.settings.maxDepth [] level ⟨.value, n⟩) :=
  run_lowerBy (fun _ _ => rfl) n level

theorem run_lowerStatement (s : Statement) :
    c.lowerStatement s 0 = Run.ofSteps (s.document c.quoting)
      (s.parts.flatMap (Place.steps c.settings.maxDepth [] 1)) :=
  run_lowerStatementBy (fun _ _ => rfl) s (Nat.zero_le _)

/-! ## Outcomes -/

/-- **First fault**: lowering a node ends with the first of its faults, and with
its document if it has none. -/
theorem outcome_lower (n : Node) (level : Nat) :
    (c.lower n level).outcome = outcomeOf (n.document c.quoting)
      (Place.faults c.settings.maxDepth [] level ⟨.value, n⟩) := by
  rw [run_lower, Run.outcome_ofSteps, Place.filterMap_fault?_steps]

/-- The outcome of a query is its first fault, or its document. -/
theorem compile_eq_outcomeOf (n : Node) :
    c.compile n = outcomeOf (n.document c.quoting) (n.faults c.settings.maxDepth) :=
  c.outcome_lower n 0

theorem compile_eq_ok_of_faults_eq_nil {n : Node} (h : n.faults c.settings.maxDepth = []) :
    c.compile n = .ok (n.document c.quoting) := by
  rw [compile_eq_outcomeOf, h]
  rfl

/-- A statement is compiled like the node that holds it. -/
theorem compileStatement_eq_compile (s : Statement) :
    c.compileStatement s = c.compile (.statement s) := by
  rw [compile, runNode, lower, lowerBy, enter, if_neg (Nat.not_lt_zero _)]
  rfl

end Compiler

end RelSearch
