import Mathlib.Data.List.Basic
import RelSearch.Proofs.Place
import RelSearch.Proofs.Translation

/-!
# RelSearch.Proofs.Faults

All faults of a query, in the order in which a compiler would come upon them,
and what they say about compiling it.

`Node.faults` goes down a query and never stops at a fault. A fault carries the
path from the root to the node that raises it, which is put together on the way
down. A node past the limit, and one that search documents have nothing for,
raises a fault of its own and none from below, and a node that has to be a name
is only asked for one if it has no other fault.

`RelSearch.Proofs.Steps` ties the list to the compiler: lowering ends with the
first of these faults, and with the document of the node if there is none.
-/

namespace RelSearch

/-! ## The faults of a node -/

namespace Fault

/-- A node stands where a name is asked for and is none. -/
def notName (owner part : String) (node : Node) : Fault :=
  let kind := node.kind
  .invalidShape owner s!"{part} must resolve to an attribute name, got `{kind}`"

/-- A literal has a float that no document can hold. -/
def nonFinite (kind : String) (value : Scalar) : Fault :=
  let text := value.text
  .invalidShape kind s!"non-finite float `{text}`"

end Fault

namespace Node

/-- Whether search documents have something for this kind of node. -/
def isTranslated : Node → Bool
  | .comparison _ _ _ | .not _ | .namedFunction _ _ => false
  | _ => true

/-- Whether a node is not a literal with a float that is not finite. A quoted
float is written by its policy, finite or not. -/
def isFinite : Node → Bool
  | .literal .plain (.float x) | .literal .casted (.float x) => x.isFinite
  | _ => true

/-- The faults that a node has by itself, whatever its level and its parts. -/
def ownFaults (n : Node) : List Fault :=
  match n with
  | .literal form value => if n.isFinite then [] else [.nonFinite form.kind value]
  | _ => if n.isTranslated then [] else [.unsupported n.kind]

/-- A node has no fault of its own if search documents have something for it. -/
theorem ownFaults_eq_nil_iff (n : Node) :
    n.ownFaults = [] ↔ n.isTranslated = true ∧ n.isFinite = true := by
  cases n with
  | literal form value =>
      by_cases h : (literal form value).isFinite = true <;> simp [ownFaults, isTranslated, h]
  | _ => simp [ownFaults, isTranslated, isFinite]

end Node

/-- The faults of a place at its level, for a compiler with the given limit.
`above` is the path that leads to the place. -/
def Place.faults (limit : Nat) (above : NodePath) (level : Nat) (p : Place) : List CompileError :=
  let path := above ++ [p.node.kind]
  let inside := p.node.ownFaults.map (⟨·, path⟩) ++
    p.node.parts.attach.flatMap fun ⟨q, _⟩ => q.faults limit path (level + 1)
  let visit := if limit < level then [⟨.tooDeep limit, path⟩] else inside
  match p.role with
  | .core => inside
  | .value => visit
  | .name owner part =>
    if visit.isEmpty && !p.node.isName then [⟨.notName owner part p.node, above⟩] else visit
  | .skipped => []
termination_by sizeOf p.node
decreasing_by exact Node.sizeOf_lt_of_mem_parts ‹_›

/-- The faults of a query. -/
def Node.faults (limit : Nat) (n : Node) : List CompileError :=
  Place.faults limit [] 0 ⟨.value, n⟩

/-- The faults of a node that is not past the limit: its own, then those of its
parts. -/
def Node.faultsInside (limit : Nat) (above : NodePath) (level : Nat) (n : Node) :
    List CompileError :=
  n.ownFaults.map (⟨·, above ++ [n.kind]⟩) ++
    n.parts.flatMap (·.faults limit (above ++ [n.kind]) (level + 1))

namespace Place

variable (limit : Nat) (above : NodePath) (level : Nat) (n : Node)

/-- A core of a statement is entered at every level: only what is in it can be too deep. -/
theorem faults_core :
    faults limit above level ⟨.core, n⟩ = n.faultsInside limit above level := by
  rw [faults, Node.faultsInside]
  simp only [List.flatMap_subtype, List.unattach_attach]

/-- A node past the limit has no other fault, since nothing in it is looked at. -/
theorem faults_value :
    faults limit above level ⟨.value, n⟩ =
      if limit < level then [⟨.tooDeep limit, above ++ [n.kind]⟩]
      else n.faultsInside limit above level := by
  rw [faults, Node.faultsInside]
  simp only [List.flatMap_subtype, List.unattach_attach]

/-- That a node is no name is only found if it has no other fault. -/
theorem faults_name (owner part : String) :
    faults limit above level ⟨.name owner part, n⟩ =
      if (faults limit above level ⟨.value, n⟩).isEmpty && !n.isName then
        [⟨.notName owner part n, above⟩]
      else faults limit above level ⟨.value, n⟩ := by
  rw [faults_value, faults, Node.faultsInside]
  simp only [List.flatMap_subtype, List.unattach_attach]

theorem faults_skipped : faults limit above level ⟨.skipped, n⟩ = [] := by
  rw [faults]

end Place

/-! ## Outcomes -/

/-- How a computation with the given result ends that comes upon the given faults. -/
def outcomeOf {α : Type} (a : α) : List CompileError → Except CompileError α
  | [] => .ok a
  | e :: _ => .error e

/-- There is a result if there are no faults. -/
theorem outcomeOf_eq_ok_iff {α : Type} (a b : α) (faults : List CompileError) :
    outcomeOf a faults = .ok b ↔ faults = [] ∧ b = a := by
  cases faults <;> simp [outcomeOf, eq_comm]

/-- An error is the first of the faults. -/
theorem outcomeOf_eq_error_iff {α : Type} (a : α) (faults : List CompileError)
    (e : CompileError) : outcomeOf a faults = .error e ↔ faults.head? = some e := by
  cases faults <;> simp [outcomeOf]

end RelSearch
