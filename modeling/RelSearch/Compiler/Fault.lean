/-!
# RelSearch.Compiler.Fault

Why a query cannot be compiled, and where in it.
-/

namespace RelSearch

/-- The kinds of the nodes from the root of a query to one of its nodes. -/
abbrev NodePath := List String

namespace NodePath

/-- A path with ` > ` between its segments. -/
def text (path : NodePath) : String :=
  if path.isEmpty then "<root>" else String.intercalate " > " path

end NodePath

/-- What is wrong with a node. -/
inductive Fault where
  /-- Search documents have nothing for this kind of node. -/
  | unsupported (kind : String)
  /-- The node lies below the deepest level that is visited. -/
  | tooDeep (limit : Nat)
  /-- A part of the node is not what its kind asks for. -/
  | invalidShape (kind reason : String)
deriving DecidableEq

/-- A fault and the place where it was found. -/
structure CompileError where
  fault : Fault
  path : NodePath := []
deriving DecidableEq

namespace CompileError

/-- The same error, seen from a node of the given kind above. -/
def under (kind : String) (e : CompileError) : CompileError := ⟨e.fault, kind :: e.path⟩

/-- The message of an error. -/
def message (e : CompileError) : String :=
  let place := e.path.text
  match e.fault with
  | .unsupported kind => s!"Unsupported node `{kind}` at {place}"
  | .tooDeep limit => s!"Nesting exceeds the limit of {limit} levels at {place}"
  | .invalidShape kind reason => s!"Invalid `{kind}` node at {place}: {reason}"

end CompileError

end RelSearch
