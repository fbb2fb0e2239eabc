import Mathlib.Data.List.Chain
import RelSearch.Proofs.Domain
import RelSearch.Proofs.Location

/-!
# RelSearch.Proofs.Descent

How far down a compiler goes, however deep the query is.

A node past the limit is visited and reported, and the compilation ends there. It
lies one level past the limit, since the node above it is visited too and keeps the
limit. Only the core of a statement is entered without being visited: where a
statement stands at the limit itself, its core is one level past the limit, and the
projections and conditions of the core are two.

1. Every visit keeps the limit but the last one, which goes two levels past it at
   most (`Step.Bounded`).
2. An error about a node past the limit has a path of `limit + 2` segments, or of
   `limit + 3` where the node stands in such a core (`Place.Falls.length_eq`).
3. A counter that goes two levels past the limit is large enough
   (`Compiler.run_lowerBy`).

`Compiler.runNode_descent` puts these together.
-/

namespace RelSearch

/-! ## Visits -/

/-- The kind and the level of a visit, if an event reports one. -/
def Event.visit? : Event → Option (String × Nat)
  | .visiting kind level => some (kind, level)
  | _ => none

/-- The visits that a run reports, in order. -/
def Run.visits {α : Type} (x : Run α) : List (String × Nat) := x.events.filterMap Event.visit?

namespace Step

/-- The visits among some steps, up to the first fault. -/
def visits : List Step → List (String × Nat)
  | [] => []
  | .visit kind level :: steps => (kind, level) :: visits steps
  | .fault _ :: _ => []

/-- Steps that go past the limit only right before a fault, and by no more than two
levels. -/
inductive Bounded (limit : Nat) : List Step → Prop
  | nil : Bounded limit []
  | fault {e : CompileError} {steps : List Step} (rest : Bounded limit steps) :
    Bounded limit (.fault e :: steps)
  | visit {kind : String} {level : Nat} {steps : List Step} (h : level ≤ limit)
    (rest : Bounded limit steps) : Bounded limit (.visit kind level :: steps)
  | past {kind : String} {level : Nat} {e : CompileError} {steps : List Step}
    (h : level ≤ limit + 2) (rest : Bounded limit steps) :
    Bounded limit (.visit kind level :: .fault e :: steps)

namespace Bounded

variable {limit : Nat}

/-- Steps that stay within the bound may follow each other. -/
theorem append {steps more : List Step} (h : Bounded limit steps) (hmore : Bounded limit more) :
    Bounded limit (steps ++ more) := by
  induction h with
  | nil => exact hmore
  | fault _ ih => exact .fault ih
  | visit h _ ih => exact .visit h ih
  | past h _ ih => exact .past h ih

theorem flatMap {α : Type} {l : List α} {f : α → List Step} (h : ∀ a ∈ l, Bounded limit (f a)) :
    Bounded limit (l.flatMap f) := by
  induction l with
  | nil => exact .nil
  | cons a l ih =>
      rw [List.flatMap_cons]
      exact (h a List.mem_cons_self).append (ih fun b hb => h b (List.mem_cons_of_mem a hb))

/-- Faults do not go down. -/
theorem map_fault {α : Type} (l : List α) (f : α → CompileError) :
    Bounded limit (l.map fun a => .fault (f a)) := by
  induction l with
  | nil => exact .nil
  | cons a l ih => exact .fault ih

/-- No visit goes more than two levels past the limit. -/
theorem le_of_mem_visits {steps : List Step} (h : Bounded limit steps) :
    ∀ v ∈ visits steps, v.2 ≤ limit + 2 := by
  induction h with
  | nil => simp [visits]
  | fault _ _ => simp [visits]
  | visit h _ ih => simpa [visits] using ⟨by omega, fun kind level => ih (kind, level)⟩
  | past h _ _ => simpa [visits] using h

/-- Only the last visit goes past the limit. -/
theorem le_of_mem_dropLast_visits {steps : List Step} (h : Bounded limit steps) :
    ∀ v ∈ (visits steps).dropLast, v.2 ≤ limit := by
  induction h with
  | nil => simp [visits]
  | fault _ _ => simp [visits]
  | past h _ _ => simp [visits]
  | @visit kind level steps h _ ih =>
      rw [visits]
      intro v hv
      cases hvisits : visits steps with
      | nil => simp [hvisits] at hv
      | cons w ws =>
          rw [hvisits, List.dropLast_cons_of_ne_nil (List.cons_ne_nil w ws), List.mem_cons] at hv
          rcases hv with rfl | hv
          · exact h
          · exact ih v (hvisits ▸ hv)

end Bounded

end Step

/-- A run reports the visits among its steps, up to the first fault. -/
theorem Run.visits_ofSteps {α : Type} (a : α) (steps : List Step) :
    (Run.ofSteps a steps).visits = Step.visits steps := by
  induction steps with
  | nil => rfl
  | cons step steps ih =>
      cases step with
      | visit kind level => rw [Step.visits, ← ih]; rfl
      | fault e => rfl

/-- The steps of a place are bounded as long as the place is not far past the limit:
two levels, or one for the core of a statement. -/
theorem Place.bounded_steps {limit level : Nat} {p : Place} (above : NodePath) (hp : p.IsVisited)
    (hlevel : level ≤ limit + 2) (hcore : p.role = .core → level ≤ limit + 1) :
    Step.Bounded limit (p.steps limit above level) := by
  obtain ⟨role, n⟩ := p
  induction n using Node.induction_parts generalizing role above level with
  | step n ih =>
      have hinside : (∀ q ∈ n.visitedParts, level ≤ limit ∨ level ≤ limit + 1 ∧ q.role ≠ .core) →
          Step.Bounded limit (n.stepsInside limit above level) := by
        intro h
        refine (Step.Bounded.map_fault _ _).append (.flatMap fun q hq => ?_)
        by_cases hskipped : q.role = .skipped
        · obtain ⟨role, x⟩ := q
          obtain rfl : role = .skipped := hskipped
          rw [steps_skipped]
          exact .nil
        · have hvisited := Node.mem_visitedParts.mpr ⟨hq, hskipped⟩
          refine ih q hq _ ?_ q.role (Node.isVisited_of_mem_visitedParts hvisited) fun hrole => ?_
          · have hle := h q hvisited
            omega
          · have hle := (h q hvisited).resolve_right fun hpast => hpast.2 hrole
            omega
      have hvalue : Step.Bounded limit (steps limit above level ⟨.value, n⟩) := by
        rw [steps_value]
        split
        · exact .past hlevel .nil
        · next hle =>
            exact .visit (Nat.not_lt.mp hle) (hinside fun _ _ => .inl (Nat.not_lt.mp hle))
      cases role with
      | value => exact hvalue
      | skipped => exact absurd rfl hp.1
      | name owner part =>
          rw [steps_name]
          split
          · exact hvalue.append (.fault .nil)
          · exact hvalue
      | core =>
          rw [steps_core]
          exact hinside fun q hq => .inr ⟨hcore rfl, fun hrole => hp.role_ne_core hq hrole rfl⟩

/-! ## Ways past the limit -/

namespace Place

/-- `Falls limit level p way`: the way leads down from `p`, which stands at the given
level, to a visited node past the limit, through places that a compiler goes
through: cores of statements, and nodes that keep the limit. -/
inductive Falls (limit : Nat) : Nat → Place → List Place → Prop
  | here {level : Nat} {p : Place} (past : limit < level) (visited : p.role ≠ .core) :
    Falls limit level p [p]
  | down {level : Nat} {p q : Place} {way : List Place} (entered : p.role = .core ∨ level ≤ limit)
    (part : q ∈ p.node.visitedParts) (rest : Falls limit (level + 1) q way) :
    Falls limit level p (p :: way)

/-- An error about a node past the limit gives the kinds on a way to it. -/
theorem falls_of_mem_faults {limit level : Nat} {p : Place} {above path : NodePath} {l : Nat}
    (h : ⟨.tooDeep l, path⟩ ∈ p.faults limit above level) :
    l = limit ∧ ∃ way, Falls limit level p way ∧ path = above ++ way.map (·.node.kind) := by
  obtain ⟨role, n⟩ := p
  induction n using Node.induction_parts generalizing role above level with
  | step n ih =>
      have hinside : ⟨.tooDeep l, path⟩ ∈ n.faultsInside limit above level →
          role = .core ∨ level ≤ limit →
          l = limit ∧ ∃ way, Falls limit level ⟨role, n⟩ way ∧
            path = above ++ way.map (·.node.kind) := by
        intro he hentered
        rw [Node.faultsInside, List.mem_append, List.mem_map, List.mem_flatMap] at he
        rcases he with ⟨fault, hfault, heq⟩ | ⟨q, hq, he⟩
        · have hkind := Node.kind?_of_mem_ownFaults hfault
          rw [(CompileError.mk.inj heq).1] at hkind
          cases hkind
        · obtain ⟨rfl, way, hway, rfl⟩ := ih q hq q.role he
          refine ⟨rfl, ⟨role, n⟩ :: way, .down hentered ?_ hway, by simp⟩
          refine Node.mem_visitedParts.mpr ⟨hq, fun hskipped => ?_⟩
          obtain ⟨role, x⟩ := q
          obtain rfl : role = .skipped := hskipped
          rw [faults_skipped] at he
          exact absurd he List.not_mem_nil
      have hvisit : ⟨.tooDeep l, path⟩ ∈ faults limit above level ⟨.value, n⟩ → role ≠ .core →
          l = limit ∧ ∃ way, Falls limit level ⟨role, n⟩ way ∧
            path = above ++ way.map (·.node.kind) := by
        intro he hrole
        rw [faults_value] at he
        split at he
        · next hlt =>
            cases List.mem_singleton.mp he
            exact ⟨rfl, [⟨role, n⟩], .here hlt hrole, rfl⟩
        · next hle => exact hinside he (.inr (Nat.not_lt.mp hle))
      cases role with
      | core =>
          rw [faults_core] at h
          exact hinside h (.inl rfl)
      | value => exact hvisit h (by simp)
      | name owner part =>
          rw [faults_name] at h
          split at h
          · cases List.mem_singleton.mp h
          · exact hvisit h (by simp)
      | skipped =>
          rw [faults_skipped] at h
          exact absurd h List.not_mem_nil

/-- A way past the limit ends one level past it, or two levels if the last step is
from the core of a statement. -/
theorem Falls.length_eq {limit level : Nat} {p : Place} {way : List Place}
    (h : Falls limit level p way) (hp : p.IsVisited) (hvisited : p.role ≠ .core → level ≤ limit)
    (hcore : p.role = .core → level ≤ limit + 1) :
    level + way.length = limit + 2 ∨
      level + way.length = limit + 3 ∧
        ∃ before core q, way = before ++ [core, q] ∧ core.role = .core := by
  induction h with
  | here past visited =>
      have := hvisited visited
      omega
  | @down level p q way entered part rest ih =>
      have hq := Node.isVisited_of_mem_visitedParts part
      by_cases hnext : q.role = .core ∨ level + 1 ≤ limit
      · have hle : q.role = .core → level + 1 ≤ limit + 1 := fun hrole =>
          Nat.add_le_add_right (hvisited (hp.role_ne_core part hrole)) 1
        rcases ih hq hnext.resolve_left hle with hlen | ⟨hlen, before, core, r, rfl, hrole⟩
        · exact .inl (by simp only [List.length_cons]; omega)
        · refine .inr ⟨by simp only [List.length_cons]; omega, p :: before, core, r, rfl, hrole⟩
      · -- the next place is past the limit and not a core, so the way ends there
        rw [not_or] at hnext
        cases rest with
        | down entered _ _ => exact absurd entered (not_or.mpr hnext)
        | here _ _ =>
            by_cases hrole : p.role = .core
            · have := hcore hrole
              have hlevel : level = limit ∨ level = limit + 1 := by omega
              rcases hlevel with rfl | rfl
              · exact .inl rfl
              · exact .inr ⟨rfl, [], p, q, rfl, hrole⟩
            · have := hvisited hrole
              obtain rfl : level = limit := by omega
              exact .inl rfl

/-- A way goes from a place to its parts. -/
theorem Falls.isChain {limit level : Nat} {p : Place} {way : List Place}
    (h : Falls limit level p way) :
    way.head? = some p ∧ way.IsChain fun p q => q ∈ p.node.visitedParts := by
  induction h with
  | here _ _ => exact ⟨rfl, .singleton _⟩
  | @down level p q way _ part _ ih =>
      obtain ⟨hhead, hchain⟩ := ih
      cases way with
      | nil => cases hhead
      | cons r way =>
          obtain rfl : r = q := Option.some.inj hhead
          exact ⟨rfl, List.isChain_cons_cons.mpr ⟨part, hchain⟩⟩

/-- The last three places of a way are a statement at the given level, one of its
cores, and a projection or a condition of that core. -/
def EndsInCore (level : Nat) (way : List Place) : Prop :=
  ∃ before owner s core p, way = before ++ [owner, ⟨.core, .core core⟩, p] ∧
    before.length = level ∧ (owner.node = .statement s ∨ owner.node = .subquery s) ∧
    core ∈ s.cores ∧ p.node ∈ core.projections ++ core.wheres

theorem EndsInCore.length_eq {level : Nat} {way : List Place} (h : EndsInCore level way) :
    way.length = level + 3 := by
  obtain ⟨before, owner, s, core, p, rfl, rfl, -⟩ := h
  simp

/-- A way from the root that ends two levels past the limit ends in a core of a
statement at the limit. -/
theorem Falls.endsInCore {limit : Nat} {n : Node} {before : List Place} {core p : Place}
    (h : Falls limit 0 ⟨.value, n⟩ (before ++ [core, p])) (hrole : core.role = .core)
    (hlength : (before ++ [core, p]).length = limit + 3) :
    EndsInCore limit (before ++ [core, p]) := by
  obtain ⟨hhead, hchain⟩ := h.isChain
  rcases List.eq_nil_or_concat before with rfl | ⟨before, owner, rfl⟩
  · cases hhead
    cases hrole
  · rw [List.concat_eq_append, List.append_assoc] at hchain hlength ⊢
    obtain ⟨hcore, hrest⟩ := List.isChain_cons_cons.mp (List.isChain_append.mp hchain).2.1
    have hp := (List.isChain_cons_cons.mp hrest).1
    obtain ⟨role, x⟩ := core
    obtain rfl : role = .core := hrole
    obtain ⟨s, howner, core, hmem, rfl⟩ :=
      Node.statement_of_core_mem_parts (Node.mem_visitedParts.mp hcore).1
    refine ⟨before, owner, s, core, p, rfl, by simpa using hlength, howner, hmem, ?_⟩
    exact Core.node_mem_of_mem_parts (Node.mem_visitedParts.mp hp).1

end Place

/-! ## Descent -/

/-- All visits are reported while the root is lowered. -/
theorem Compiler.visits_runNode_eq_lower (c : Compiler) (n : Node) :
    (c.runNode n).visits = (c.lower n 0).visits := by
  simp only [runNode, Run.visits, List.filterMap_cons, List.filterMap_append, Event.visit?]
  cases (c.lower n 0).outcome <;> simp [Event.visit?]

/-- The visits of a compilation are those among the steps of the root. -/
theorem Compiler.visits_runNode (c : Compiler) (n : Node) :
    (c.runNode n).visits = Step.visits (Place.steps c.settings.maxDepth [] 0 ⟨.value, n⟩) := by
  rw [visits_runNode_eq_lower, run_lower, Run.visits_ofSteps]

/-- **Descent**: however deep a query is, a compiler goes no more than two levels past
the limit, and only to report an error. It needs no counter that goes further. An
error about a node past the limit gives the limit and a way of `limit + 2` segments to
the node, or of `limit + 3` if the way ends in a core of a statement at the limit. -/
theorem Compiler.runNode_descent (c : Compiler) (n : Node) :
    (∀ visit ∈ (c.runNode n).visits, visit.2 ≤ c.settings.maxDepth + 2) ∧
      (∀ visit ∈ (c.runNode n).visits.dropLast, visit.2 ≤ c.settings.maxDepth) ∧
      (∀ (max : Nat) (next : Nat → Run Nat), c.settings.maxDepth + 2 ≤ max →
        (∀ depth < max, next depth = pure (depth + 1)) → c.lowerBy next n 0 = c.lower n 0) ∧
      ∀ limit path, c.compile n = .error ⟨.tooDeep limit, path⟩ →
        limit = c.settings.maxDepth ∧ ∃ way, Place.Falls limit 0 ⟨.value, n⟩ way ∧
          path = way.map (·.node.kind) ∧
          (Place.EndsInCore limit way ∧ path.length = limit + 3 ∨
            ¬ Place.EndsInCore limit way ∧ path.length = limit + 2) := by
  have hbounded : Step.Bounded c.settings.maxDepth
      (Place.steps c.settings.maxDepth [] 0 ⟨.value, n⟩) :=
    Place.bounded_steps [] ⟨by simp, by simp⟩ (by omega) (by simp)
  refine ⟨?_, ?_, ?_, ?_⟩
  · rw [visits_runNode]
    exact hbounded.le_of_mem_visits
  · rw [visits_runNode]
    exact hbounded.le_of_mem_dropLast_visits
  · intro max next hmax hnext
    have hcounts : CountsPast c.settings.maxDepth next := fun depth hdepth =>
      hnext depth (by omega)
    rw [run_lowerBy hcounts, run_lower]
  · intro limit path h
    rw [compile_eq_outcomeOf, outcomeOf_eq_error_iff] at h
    obtain ⟨rfl, way, hway, rfl⟩ := Place.falls_of_mem_faults (List.mem_of_mem_head? h)
    refine ⟨rfl, way, hway, List.nil_append _, ?_⟩
    rw [List.nil_append, List.length_map]
    rcases hway.length_eq ⟨by simp, by simp⟩ (by simp) (by simp) with
      hlength | ⟨hlength, before, core, p, rfl, hrole⟩
    · refine .inr ⟨fun hends => ?_, by omega⟩
      have := hends.length_eq
      omega
    · exact .inl ⟨hway.endsInCore hrole (by omega), by omega⟩

/-- A name in a core of a statement that stands at the limit: a counter that wraps
around after the number three suffices to report it. -/
theorem Compiler.runNode_descent_core :
    let c : Compiler := ⟨⟨1⟩, .identity⟩
    let n : Node := .grouping (.statement ⟨[⟨[.sqlLiteral "id"], []⟩], [], none, none⟩)
    let path : NodePath := ["Grouping", "Statement", "Core", "SqlLiteral"]
    let next : Nat → Run Nat := fun depth => pure ((depth + 1) % 4)
    (c.runNode n).visits = [("Grouping", 0), ("Statement", 1), ("SqlLiteral", 3)] ∧
      c.compile n = .error ⟨.tooDeep 1, path⟩ ∧
      (∀ depth < 3, next depth = pure (depth + 1)) ∧ c.lowerBy next n 0 = c.lower n 0 ∧
      ∃ way, Place.Falls 1 0 ⟨.value, n⟩ way ∧ path = way.map (·.node.kind) ∧
        Place.EndsInCore 1 way := by
  intro c n path next
  have hnext : ∀ depth < 3, next depth = pure (depth + 1) := by
    intro depth hdepth
    simp only [next, Nat.mod_eq_of_lt (show depth + 1 < 4 by omega)]
  obtain ⟨-, -, hcounter, herror⟩ := c.runNode_descent n
  obtain ⟨-, way, hway, hpath, ⟨hends, -⟩ | ⟨-, hlength⟩⟩ := herror 1 path rfl
  · exact ⟨rfl, rfl, hnext, hcounter 3 next (Nat.le_refl 3) hnext, way, hway, hpath, hends⟩
  · cases hlength

end RelSearch
