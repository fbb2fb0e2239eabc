import RelSearch.Compiler.Basic

/-!
# RelSearch.Compiler.Registry

Compilers under names. Every command stores a compiler or uses a stored one; a
command that fails changes nothing.
-/

namespace RelSearch

/-- Named compilers, the last one stored first. -/
structure Registry where
  slots : List (String × Compiler)

/-- What can be asked of a registry. -/
inductive Command where
  /-- Stores the default compiler. -/
  | new (slot : String)
  /-- Stores a compiler with the given settings and unescaped literals. -/
  | configure (slot : String) (settings : Settings)
  /-- Gives a stored compiler another policy. -/
  | requote (slot : String) (quoting : Quoting)
  /-- Stores a copy of a stored compiler. -/
  | copy (source slot : String)
  /-- Compiles a node. -/
  | compile (slot : String) (node : Node)
  /-- Compiles a statement. -/
  | compileStatement (slot : String) (statement : Statement)

/-- What a command answers. -/
inductive Reply where
  | stored (compiler : Compiler)
  | outcome (result : Except CompileError Document)
  | refused (error : SettingsError)
  | noSlot

namespace Registry

def empty : Registry := ⟨[]⟩

/-- The compiler in a slot. -/
def get? (r : Registry) (slot : String) : Option Compiler := r.slots.lookup slot

/-- Stores a compiler in a slot, in place of the one that was there. -/
def put (r : Registry) (slot : String) (c : Compiler) : Registry := ⟨(slot, c) :: r.slots⟩

/-- A slot that has been filled gives back what it was filled with, and no other slot changes. -/
theorem get?_put (r : Registry) (slot other : String) (c : Compiler) :
    (r.put slot c).get? other = if other = slot then some c else r.get? other := by
  by_cases h : other = slot
  · simp [get?, put, h]
  · have hb : (other == slot) = false := by simpa using h
    simp only [get?, put, List.lookup_cons, h, hb, if_false]

/-- Stores a compiler and answers it. -/
def store (r : Registry) (slot : String) (c : Compiler) : Registry × Reply :=
  (r.put slot c, .stored c)

/-- Executes a command. -/
def step (r : Registry) : Command → Registry × Reply
  | .new slot => r.store slot .new
  | .configure slot settings =>
    match Compiler.ofSettings settings with
    | .ok c => r.store slot c
    | .error e => (r, .refused e)
  | .requote slot quoting =>
    match r.get? slot with
    | some c => r.store slot (c.requote quoting)
    | none => (r, .noSlot)
  | .copy source slot =>
    match r.get? source with
    | some c => r.store slot c
    | none => (r, .noSlot)
  | .compile slot node =>
    match r.get? slot with
    | some c => (r, .outcome (c.compile node))
    | none => (r, .noSlot)
  | .compileStatement slot statement =>
    match r.get? slot with
    | some c => (r, .outcome (c.compileStatement statement))
    | none => (r, .noSlot)

/-- Executes commands in order. -/
def runAll (r : Registry) : List Command → Registry × List Reply
  | [] => (r, [])
  | command :: commands =>
    let (r', reply) := r.step command
    let (last, replies) := r'.runAll commands
    (last, reply :: replies)

end Registry

end RelSearch
