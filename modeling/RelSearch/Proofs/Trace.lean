import RelSearch.Proofs.Descent

/-!
# RelSearch.Proofs.Trace

What a compiler reports while it goes down a query.

`Node.listing` is everything that there is to visit: the kinds and levels of the
nodes of a query, each node before its parts and the parts in order. Three kinds of
nodes are special in it:

1. the cores of statements and the right sides that are literal nulls have no entry;
2. nodes past the limit have an entry and nothing below it;
3. so have nodes that search documents have nothing for.

A compiler reports the start, then its visits, then how it ended. The visits are the
listing up to the fault that it ends with, and all of the listing if there is none
(`Compiler.runNode_trace`). What is wrong with a node by itself is found as soon as
the node is visited (`Step.Prompt`), so the last visit is then the one to the node
that the error is about. A missing name is different: it is found after everything
below the node has been visited.
-/

namespace RelSearch

/-! ## The listing of a query -/

/-- The visits to a place at its level and to all places below, for a compiler with
the given limit. -/
def Place.listing (limit level : Nat) (p : Place) : List (String × Nat) :=
  let below := p.node.parts.attach.flatMap fun q => q.1.listing limit (level + 1)
  let visit := (p.node.kind, level) :: if limit < level then [] else below
  match p.role with
  | .core => below
  | .value => visit
  | .name _ _ => visit
  | .skipped => []
termination_by sizeOf p.node
decreasing_by exact Node.sizeOf_lt_of_mem_parts q.2

/-- The visits to all nodes of a query. -/
def Node.listing (limit : Nat) (n : Node) : List (String × Nat) :=
  Place.listing limit 0 ⟨.value, n⟩

/-- The visits to the nodes below a node. -/
def Node.listingInside (limit level : Nat) (n : Node) : List (String × Nat) :=
  n.parts.flatMap (·.listing limit (level + 1))

namespace Place

variable (limit level : Nat) (n : Node)

/-- A core of a statement is not listed itself. -/
theorem listing_core : listing limit level ⟨.core, n⟩ = n.listingInside limit level := by
  rw [listing, Node.listingInside]
  simp only [List.flatMap_subtype, List.unattach_attach]

/-- A node is listed before what is in it, which is not listed past the limit. -/
theorem listing_value :
    listing limit level ⟨.value, n⟩ =
      (n.kind, level) :: if limit < level then [] else n.listingInside limit level := by
  rw [listing, Node.listingInside]
  simp only [List.flatMap_subtype, List.unattach_attach]

theorem listing_name (owner part : String) :
    listing limit level ⟨.name owner part, n⟩ = listing limit level ⟨.value, n⟩ := by
  rw [listing, listing]

theorem listing_skipped : listing limit level ⟨.skipped, n⟩ = [] := by
  rw [listing]

end Place

/-! ## The visits among the steps -/

namespace Step

def visit? : Step → Option (String × Nat)
  | .visit kind level => some (kind, level)
  | .fault _ => none

/-- The visits up to the first fault come first among all visits. -/
theorem visits_isPrefix (steps : List Step) : visits steps <+: steps.filterMap visit? := by
  induction steps with
  | nil => simp [visits]
  | cons step steps ih =>
      cases step with
      | visit kind level => simpa [visits, visit?] using ih
      | fault e => simp [visits]

/-- Without a fault, all visits are made. -/
theorem visits_eq_of_no_fault {steps : List Step} (h : steps.filterMap fault? = []) :
    visits steps = steps.filterMap visit? := by
  induction steps with
  | nil => rfl
  | cons step steps ih =>
      cases step with
      | visit kind level => simpa [visits, visit?] using ih h
      | fault e => simp [fault?] at h

/-- Faults are no visits. -/
theorem filterMap_visit?_map_fault {α : Type} (l : List α) (f : α → CompileError) :
    (l.map fun a => fault (f a)).filterMap visit? = [] := by
  simp [visit?]

end Step

/-- The visits among the steps of a place are those of its listing. -/
theorem Place.filterMap_visit?_steps (limit : Nat) (above : NodePath) (level : Nat) (p : Place) :
    (p.steps limit above level).filterMap Step.visit? = p.listing limit level := by
  obtain ⟨role, n⟩ := p
  induction n using Node.induction_parts generalizing role above level with
  | step n ih =>
      have hinside : (n.stepsInside limit above level).filterMap Step.visit? =
          n.listingInside limit level := by
        rw [Node.stepsInside, Node.listingInside, List.filterMap_append, List.filterMap_flatMap,
          Step.filterMap_visit?_map_fault, List.nil_append]
        exact List.flatMap_congr fun q hq => ih q hq (above ++ [n.kind]) (level + 1) q.role
      have hvalue : (steps limit above level ⟨.value, n⟩).filterMap Step.visit? =
          listing limit level ⟨.value, n⟩ := by
        rw [steps_value, listing_value, ← hinside]
        split <;> rfl
      cases role with
      | core => rw [steps_core, listing_core, hinside]
      | value => exact hvalue
      | name owner part =>
          rw [steps_name, listing_name, ← hvalue]
          split
          · simp [Step.visit?]
          · rfl
      | skipped => rw [steps_skipped, listing_skipped, List.filterMap_nil]

/-! ## Faults that are found at once -/

/-- The faults that a node is found to have as soon as it is visited. -/
inductive Fault.Immediate : Fault → Prop
  | unsupported (kind : String) : Immediate (.unsupported kind)
  | tooDeep (limit : Nat) : Immediate (.tooDeep limit)
  | nonFinite (kind : String) (value : Scalar) : Immediate (.nonFinite kind value)

/-- The parts of nodes that have to be names. -/
def Role.nameParts : List String := ["left side", "sort expression", "projection", "sort term"]

/-- Names are asked for in four parts of a query. -/
theorem Node.part_mem_of_mem_parts {n x : Node} {owner part : String}
    (h : ⟨.name owner part, x⟩ ∈ n.parts) : part ∈ Role.nameParts := by
  have hstatement : ∀ s : Statement, ⟨.name owner part, x⟩ ∈ s.parts → part = "sort term" := by
    intro s hs
    simp only [Statement.parts, List.mem_append, List.mem_map, Place.ofSortTerm] at hs
    grind
  cases n with
  | statement s => simp [Role.nameParts, hstatement s h]
  | subquery s => simp [Role.nameParts, hstatement s h]
  | core c =>
      simp only [parts, Core.parts, List.mem_append, List.mem_map] at h
      grind [Role.nameParts]
  | equality op left right =>
      simp only [parts, List.mem_cons, List.mem_map, Place.ofRight] at h
      grind [Role.nameParts]
  | sort order operand =>
      simp only [parts, List.mem_singleton] at h
      grind [Role.nameParts]
  | _ => simp [parts] at h

/-- A missing name is no such fault: its reason starts with the part that is none. -/
theorem Fault.not_immediate_notName {part : String} (h : part ∈ Role.nameParts) (owner : String)
    (n : Node) : ¬ (Fault.notName owner part n).Immediate := by
  generalize hfault : Fault.notName owner part n = fault
  intro himmediate
  cases himmediate with
  | unsupported kind => cases hfault
  | tooDeep limit => cases hfault
  | nonFinite kind value =>
      have hreason := congrArg (fun r => r.toList.head?) (Fault.invalidShape.inj hfault).2
      simp only [Role.nameParts, List.mem_cons, List.not_mem_nil, or_false] at h
      rcases h with rfl | rfl | rfl | rfl <;> simp [toString] at hreason

namespace Step

/-- Steps in which a fault that is found at once comes right after the visit to the
node that its path leads to. -/
inductive Prompt : List Step → Prop
  | nil : Prompt []
  | visit {kind : String} {level : Nat} {steps : List Step} (rest : Prompt steps) :
    Prompt (.visit kind level :: steps)
  | late {e : CompileError} {steps : List Step} (h : ¬ e.fault.Immediate) (rest : Prompt steps) :
    Prompt (.fault e :: steps)
  | atOnce {kind : String} {fault : Fault} {above : NodePath} {steps : List Step}
    (rest : Prompt steps) :
    Prompt (.visit kind above.length :: .fault ⟨fault, above ++ [kind]⟩ :: steps)

namespace Prompt

/-- Prompt steps may follow each other. -/
theorem append {steps more : List Step} (h : Prompt steps) (hmore : Prompt more) :
    Prompt (steps ++ more) := by
  induction h with
  | nil => exact hmore
  | visit _ ih => exact .visit ih
  | late h _ ih => exact .late h ih
  | atOnce _ ih => exact .atOnce ih

theorem flatMap {α : Type} {l : List α} {f : α → List Step} (h : ∀ a ∈ l, Prompt (f a)) :
    Prompt (l.flatMap f) := by
  induction l with
  | nil => exact .nil
  | cons a l ih =>
      rw [List.flatMap_cons]
      exact (h a List.mem_cons_self).append (ih fun b hb => h b (List.mem_cons_of_mem a hb))

/-- The last visit before a fault that is found at once is the one to the node that the
path leads to. -/
theorem getLast?_visits {steps : List Step} (h : Prompt steps) {e : CompileError}
    (he : (steps.filterMap fault?).head? = some e) (hfault : e.fault.Immediate) :
    ∃ kind, e.path.getLast? = some kind ∧
      (visits steps).getLast? = some (kind, e.path.length - 1) := by
  induction h with
  | nil => simp at he
  | @visit kind level steps _ ih =>
      obtain ⟨last, hpath, hvisits⟩ := ih he
      exact ⟨last, hpath, by simp [visits, List.getLast?_cons, hvisits]⟩
  | late hlate _ _ =>
      obtain rfl := Option.some.inj he
      exact absurd hfault hlate
  | @atOnce kind fault above steps _ _ =>
      obtain rfl : ⟨fault, above ++ [kind]⟩ = e := Option.some.inj he
      exact ⟨kind, by simp, by simp [visits]⟩

end Prompt

end Step

/-- A node has no more than one fault by itself. -/
theorem Node.ownFaults_eq (n : Node) : n.ownFaults = [] ∨ ∃ fault, n.ownFaults = [fault] := by
  cases n with
  | literal form value =>
      by_cases h : (Node.literal form value).isFinite = true <;> simp [ownFaults, h]
  | _ => simp [ownFaults, isTranslated]

/-- The steps of a place are prompt. Its level is given by the path that leads to it. -/
theorem Place.prompt_steps (limit : Nat) (above : NodePath) (p : Place)
    (hcore : p.role = .core → ∃ c, p.node = .core c)
    (hname : ∀ owner part, p.role = .name owner part → part ∈ Role.nameParts) :
    Step.Prompt (p.steps limit above above.length) := by
  obtain ⟨role, n⟩ := p
  induction n using Node.induction_parts generalizing role above with
  | step n ih =>
      have hparts : Step.Prompt
          (n.parts.flatMap (·.steps limit (above ++ [n.kind]) (above.length + 1))) := by
        refine .flatMap fun q hq => ?_
        obtain ⟨role, x⟩ := q
        have hsteps := ih ⟨role, x⟩ hq (above ++ [n.kind]) role ?_ ?_
        · simpa using hsteps
        · rintro rfl
          obtain ⟨s, -, core, -, rfl⟩ := Node.statement_of_core_mem_parts hq
          exact ⟨core, rfl⟩
        · rintro owner part rfl
          exact Node.part_mem_of_mem_parts hq
      have hvalue : Step.Prompt (steps limit above above.length ⟨.value, n⟩) := by
        rw [steps_value, Node.stepsInside]
        split
        · exact .atOnce .nil
        · rcases n.ownFaults_eq with hown | ⟨fault, hown⟩
          · simpa [hown] using hparts.visit
          · simpa [hown] using hparts.atOnce
      cases role with
      | value => exact hvalue
      | skipped =>
          rw [steps_skipped]
          exact .nil
      | name owner part =>
          rw [steps_name]
          split
          · have hlate := Fault.not_immediate_notName (hname owner part rfl) owner n
            exact hvalue.append (.late hlate .nil)
          · exact hvalue
      | core =>
          obtain ⟨c, rfl⟩ := hcore rfl
          rw [steps_core, Node.stepsInside]
          exact hparts

/-! ## Traces -/

/-- The event that reports a visit. -/
def Event.ofVisit (v : String × Nat) : Event := .visiting v.1 v.2

/-- The events of a run are the visits up to the first fault. -/
theorem Run.events_ofSteps {α : Type} (a : α) (steps : List Step) :
    (Run.ofSteps a steps).events = (Step.visits steps).map Event.ofVisit := by
  induction steps with
  | nil => rfl
  | cons step steps ih =>
      cases step with
      | visit kind level => rw [Step.visits, List.map_cons, ← ih]; rfl
      | fault e => rfl

namespace Compiler

variable (c : Compiler) (n : Node)

/-- Between the start and the end, a compiler reports its visits and nothing else. -/
theorem events_lower : (c.lower n 0).events = (c.runNode n).visits.map Event.ofVisit := by
  rw [visits_runNode, run_lower, Run.events_ofSteps]

/-- **Trace**: a compiler reports that it starts, then visits, then how it ended. The
visits are the first ones of the listing of the query, and all of them if the query is
compiled. If it ends with a fault that is found at once, the last visit is the one to
the node that the path of the error leads to. -/
theorem runNode_trace :
    (c.runNode n).visits <+: n.listing c.settings.maxDepth ∧
      (∀ d, c.compile n = .ok d →
        (c.runNode n).visits = n.listing c.settings.maxDepth ∧
        (c.runNode n).events = .compiling n.kind ::
          (c.runNode n).visits.map Event.ofVisit ++ [.compiled n.kind]) ∧
      ∀ e, c.compile n = .error e →
        (c.runNode n).events = .compiling n.kind ::
          (c.runNode n).visits.map Event.ofVisit ++ [.failed n.kind e] ∧
        (e.fault.Immediate → ∃ kind, e.path.getLast? = some kind ∧
          (c.runNode n).visits.getLast? = some (kind, e.path.length - 1)) := by
  have hlisting := Place.filterMap_visit?_steps c.settings.maxDepth [] 0 ⟨.value, n⟩
  have hfaults := Place.filterMap_fault?_steps c.settings.maxDepth [] 0 ⟨.value, n⟩
  refine ⟨?_, fun d hd => ⟨?_, ?_⟩, fun e he => ⟨?_, fun hfault => ?_⟩⟩
  · rw [visits_runNode, Node.listing, ← hlisting]
    exact Step.visits_isPrefix _
  · rw [compile_eq_outcomeOf, outcomeOf_eq_ok_iff] at hd
    rw [visits_runNode, Node.listing, ← hlisting]
    exact Step.visits_eq_of_no_fault (hfaults.trans hd.1)
  · have houtcome : (c.lower n 0).outcome = .ok d := hd
    rw [← events_lower, runNode, houtcome]
  · have houtcome : (c.lower n 0).outcome = .error e := he
    rw [← events_lower, runNode, houtcome]
  · rw [compile_eq_outcomeOf, outcomeOf_eq_error_iff] at he
    rw [visits_runNode]
    refine (Place.prompt_steps _ [] _ (by simp) (by simp)).getLast?_visits ?_ hfault
    exact (congrArg List.head? hfaults).trans he

/-- The log of a query that cannot be compiled. The null on the right is not visited,
and neither is what is negated. -/
theorem runNode_trace_not :
    let c : Compiler := ⟨⟨2⟩, .identity⟩
    let test : Node := .equality .equal (.sqlLiteral "id") (some (.literal .casted .null))
    let n : Node := .connective .and test (.grouping (.not (.bool true)))
    let e : CompileError := ⟨.unsupported "Not", ["And", "Grouping", "Not"]⟩
    c.compile n = .error e ∧
      (c.runNode n).events.map Event.text =
        ["DEBUG compiling search document root=And",
          "TRACE visiting node kind=And depth=0",
          "TRACE visiting node kind=Equality depth=1",
          "TRACE visiting node kind=SqlLiteral depth=2",
          "TRACE visiting node kind=Grouping depth=1",
          "TRACE visiting node kind=Not depth=2",
          "DEBUG search document compilation failed root=And " ++
            "error=Unsupported node `Not` at And > Grouping > Not"] ∧
      (c.runNode n).visits.getLast? = some ("Not", 2) := by
  intro c test n e
  have htrace := (c.runNode_trace n).2.2 e rfl
  obtain ⟨kind, hpath, hlast⟩ := htrace.2 (.unsupported "Not")
  obtain rfl : "Not" = kind := Option.some.inj hpath
  exact ⟨rfl, rfl, hlast⟩

end Compiler

end RelSearch
