import RelSearch.Compiler.Fault

/-!
# RelSearch.Compiler.Trace

What a compiler reports while it works. A `Run` is a computation together with
the events it has reported, in order; it stops at the first error.
-/

namespace RelSearch

/-- A report of a compiler. -/
inductive Event where
  /-- A node is about to be compiled. -/
  | compiling (root : String)
  /-- A statement is about to be compiled. -/
  | compilingStatement (cores : Nat)
  /-- A node at some level of the query is visited. -/
  | visiting (kind : String) (depth : Nat)
  /-- A node has been compiled. -/
  | compiled (root : String)
  /-- A node could not be compiled. -/
  | failed (root : String) (error : CompileError)
deriving DecidableEq

namespace Event

/-- An event as a line of a log: its level, its message and its fields. -/
def text : Event → String
  | compiling root => s!"DEBUG compiling search document root={root}"
  | compilingStatement cores => s!"DEBUG compiling search statement cores={cores}"
  | visiting kind depth => s!"TRACE visiting node kind={kind} depth={depth}"
  | compiled root => s!"DEBUG compiled search document root={root}"
  | failed root error =>
    let message := error.message
    s!"DEBUG search document compilation failed root={root} error={message}"

end Event

/-- The events of a computation and how it ended. -/
structure Run (α : Type) where
  events : List Event
  outcome : Except CompileError α

namespace Run

variable {α β : Type}

/-- A run that goes on with the result of another one. -/
def bind (x : Run α) (f : α → Run β) : Run β :=
  match x.outcome with
  | .ok a => ⟨x.events ++ (f a).events, (f a).outcome⟩
  | .error e => ⟨x.events, .error e⟩

instance : Monad Run where
  pure a := ⟨[], .ok a⟩
  bind := bind

/-- A run that only fails. -/
def fail (fault : Fault) : Run α := ⟨[], .error ⟨fault, []⟩⟩

/-- A run that only reports an event. -/
def report (event : Event) : Run Unit := ⟨[event], .ok ()⟩

/-- A run below a node of the given kind, which becomes part of the path of an
error. -/
def under (kind : String) (x : Run α) : Run α :=
  ⟨x.events, x.outcome.mapError (·.under kind)⟩

/-- The visit of a node of the given kind: it is reported first, and errors are
seen from the node. -/
def visiting (kind : String) (depth : Nat) (x : Run α) : Run α :=
  ⟨.visiting kind depth :: x.events, x.outcome.mapError (·.under kind)⟩

/-! ## Events and outcomes -/

@[simp] theorem outcome_pure (a : α) : (pure a : Run α).outcome = .ok a := rfl

/-- A run that fails is not continued. -/
theorem outcome_bind (x : Run α) (f : α → Run β) :
    (x >>= f).outcome = x.outcome >>= fun a => (f a).outcome := by
  obtain ⟨events, _ | a⟩ := x <;> rfl

@[simp] theorem outcome_under (kind : String) (x : Run α) :
    (x.under kind).outcome = x.outcome.mapError (·.under kind) := rfl

@[simp] theorem outcome_visiting (kind : String) (depth : Nat) (x : Run α) :
    (x.visiting kind depth).outcome = x.outcome.mapError (·.under kind) := rfl

end Run

end RelSearch
