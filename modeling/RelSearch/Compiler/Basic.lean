import RelSearch.Compiler.Settings
import RelSearch.Compiler.Trace
import RelSearch.Document
import RelSearch.Quoting

/-!
# RelSearch.Compiler.Basic

Compiling queries to search documents.

A node is visited at its level, the root at level 0 and every child one level
below its parent; the cores of a statement have a level of their own. Visiting
fails below the deepest level of the settings and for nodes that search
documents cannot express. The first fault found ends the compilation: children
are visited from left to right, and a statement first visits all its cores, then
its sort terms, its limit and its offset.

1. Of several cores the last one makes the query; the others have to compile.
2. Attributes, SQL literals and whatever else becomes a bare string can be used
   as a name.
3. A comparison with null, written out or missing, becomes `is_null`.
4. Parentheses leave nothing behind.

How levels are counted is a parameter (`Compiler.lowerBy`), so that a counter of limited
size can be put in the place of the natural numbers with which compilers count.
-/

namespace RelSearch

/-- A compiler: its settings and the policy for quoted literals. -/
structure Compiler where
  settings : Settings
  quoting : Quoting

namespace Compiler

/-! ## Building compilers -/

/-- The compiler with default settings and unescaped literals. -/
def new : Compiler := ⟨.default, .identity⟩

/-- A compiler with the given settings, if they can be used. -/
def ofSettings (settings : Settings) : Except SettingsError Compiler := do
  settings.validate
  return ⟨settings, .identity⟩

/-- The same compiler with another policy. -/
def requote (c : Compiler) (quoting : Quoting) : Compiler := ⟨c.settings, quoting⟩

/-- A description of a compiler. -/
def describe (c : Compiler) : String :=
  let depth := c.settings.maxDepth
  let name := c.quoting.name
  s!"Compiler \x7b config: CompilerConfig \x7b max_depth: {depth} \x7d, quoting: \"{name}\" \x7d"

/-! ## Names and values -/

/-- The name that a visited node has become. A node that became anything else
makes the shape of its owner invalid. -/
def nameOf (owner role : String) (node : Node) : Document → Run String
  | .string name => pure name
  | _ =>
    let kind := node.kind
    Run.fail (.invalidShape owner s!"{role} must resolve to an attribute name, got `{kind}`")

/-- A literal in a document. -/
def literal (c : Compiler) (form : LiteralForm) (value : Scalar) : Run Document :=
  match form with
  | .quoted => pure (.string (c.quoting.quote value))
  | .plain | .casted =>
    match value.json? with
    | some json => pure json
    | none =>
      let text := value.text
      Run.fail (.invalidShape form.kind s!"non-finite float `{text}`")

/-- The condition of a test for equality with a value. -/
def equalityCondition (name : String) (value : Document) : EqualityOp → Document
  | .equal => Document.condition name (.eq value)
  | .notEqual => Document.negation (Document.condition name (.eq value))

/-- The condition of a test for equality with null. -/
def nullCondition (name : String) : EqualityOp → Document
  | .equal => Document.condition name (.isNull true)
  | .notEqual => Document.condition name (.isNull false)

/-- The sort term of a visited node. One without an order of its own is a name
and sorts ascending. -/
def asSortTerm (node : Node) (document : Document) : Run Document :=
  if node.isSort then pure document
  else do
    let name ← nameOf "Statement" "sort term" node document
    return Document.sortTerm name .ascending

/-! ## Lowering -/

/-- The visit of a node, which goes into `body` unless the node lies too deep. -/
def enter (c : Compiler) (node : Node) (depth : Nat) (body : Unit → Run Document) : Run Document :=
  Run.visiting node.kind depth <|
    if c.settings.maxDepth < depth then Run.fail (.tooDeep c.settings.maxDepth) else body ()

/-- A node that search documents have nothing for. -/
def unsupported (node : Node) : Run Document := Run.fail (.unsupported node.kind)

mutual

/-- Lowers a node at its level. Whenever it goes down it asks `next` for the number of the
level below. -/
def lowerBy (c : Compiler) (next : Nat → Run Nat) : Node → Nat → Run Document
  | node@(.statement s), depth => c.enter node depth fun _ => c.lowerStatementBy next s depth
  | node@(.subquery s), depth => c.enter node depth fun _ => c.lowerStatementBy next s depth
  | node@(.core core), depth => c.enter node depth fun _ => do
    let query ← c.lowerCoreBy next core depth
    return Document.ofQuery query
  | node@(.equality op left none), depth => c.enter node depth fun _ => do
    let document ← c.lowerBy next left (← next depth)
    let name ← nameOf op.kind "left side" left document
    return nullCondition name op
  | node@(.equality op left (some right)), depth => c.enter node depth fun _ => do
    let document ← c.lowerBy next left (← next depth)
    let name ← nameOf op.kind "left side" left document
    if right.isNull then return nullCondition name op
    else
      let value ← c.lowerBy next right (← next depth)
      return equalityCondition name value op
  | node@(.connective op left right), depth => c.enter node depth fun _ => do
    let l ← c.lowerBy next left (← next depth)
    let r ← c.lowerBy next right (← next depth)
    return Document.joined (Document.connectiveKey op) [l, r]
  | node@(.sort order operand), depth => c.enter node depth fun _ => do
    let document ← c.lowerBy next operand (← next depth)
    let name ← nameOf order.kind "sort expression" operand document
    return Document.sortTerm name order
  | node@(.column a), depth => c.enter node depth fun _ => pure (.string a.name)
  | node@(.literal form value), depth => c.enter node depth fun _ => c.literal form value
  | node@(.sqlLiteral text), depth => c.enter node depth fun _ => pure (.string text)
  | node@(.bool b), depth => c.enter node depth fun _ => pure (.bool b)
  | node@(.grouping inner), depth => c.enter node depth fun _ => do
    c.lowerBy next inner (← next depth)
  | node@(.comparison _ _ _), depth => c.enter node depth fun _ => unsupported node
  | node@(.not _), depth => c.enter node depth fun _ => unsupported node
  | node@(.namedFunction _ _), depth => c.enter node depth fun _ => unsupported node

/-- Lowers the projections of a core at the level of the core. -/
def lowerProjectionsBy (c : Compiler) (next : Nat → Run Nat) :
    List Node → Nat → Run (List Document)
  | [], _ => return []
  | node :: nodes, depth => do
    let document ← c.lowerBy next node (← next depth)
    let name ← nameOf "Core" "projection" node document
    let rest ← c.lowerProjectionsBy next nodes depth
    return Document.attributeRef name :: rest

/-- Lowers the conditions of a core at the level of the core. -/
def lowerConditionsBy (c : Compiler) (next : Nat → Run Nat) :
    List Node → Nat → Run (List Document)
  | [], _ => return []
  | node :: nodes, depth => do
    let condition ← c.lowerBy next node (← next depth)
    let rest ← c.lowerConditionsBy next nodes depth
    return condition :: rest

/-- Lowers a core at its level. -/
def lowerCoreBy (c : Compiler) (next : Nat → Run Nat) :
    Core → Nat → Run (List (String × Document))
  | ⟨projections, wheres⟩, depth => do
    let names ← c.lowerProjectionsBy next projections depth
    let conditions ← c.lowerConditionsBy next wheres depth
    return Document.coreQuery names conditions

/-- Lowers the cores of a statement at the level of the statement; the query of the last one
is kept. -/
def lowerCoresBy (c : Compiler) (next : Nat → Run Nat) :
    List Core → Nat → List (String × Document) → Run (List (String × Document))
  | [], _, query => return query
  | core :: cores, depth, _ => do
    let below ← next depth
    let query ← Run.under "Core" (c.lowerCoreBy next core below)
    c.lowerCoresBy next cores depth query

/-- Lowers the sort terms of a statement at the level of the statement. -/
def lowerSortTermsBy (c : Compiler) (next : Nat → Run Nat) :
    List Node → Nat → Run (List Document)
  | [], _ => return []
  | node :: nodes, depth => do
    let document ← c.lowerBy next node (← next depth)
    let term ← asSortTerm node document
    let rest ← c.lowerSortTermsBy next nodes depth
    return term :: rest

/-- Lowers a part of a statement that may be missing, at the level of the statement. -/
def lowerOptionalBy (c : Compiler) (next : Nat → Run Nat) :
    Option Node → Nat → Run (Option Document)
  | none, _ => return none
  | some node, depth => do
    let document ← c.lowerBy next node (← next depth)
    return some document

/-- Lowers a statement at its level. -/
def lowerStatementBy (c : Compiler) (next : Nat → Run Nat) : Statement → Nat → Run Document
  | ⟨cores, orders, limit, offset⟩, depth => do
    let query ← c.lowerCoresBy next cores depth []
    let sort ← c.lowerSortTermsBy next orders depth
    let perPage ← c.lowerOptionalBy next limit depth
    let start ← c.lowerOptionalBy next offset depth
    return Document.ofStatement query sort perPage start

end

/-- The number of the level below a level. -/
def levelBelow (depth : Nat) : Run Nat := pure (depth + 1)

/-- Lowers a node at its level, with natural numbers for levels. -/
def lower (c : Compiler) : Node → Nat → Run Document := c.lowerBy levelBelow

/-- Lowers a statement at its level, with natural numbers for levels. -/
def lowerStatement (c : Compiler) : Statement → Nat → Run Document := c.lowerStatementBy levelBelow

/-! ## Compiling -/

/-- Compiles a node, with reports. -/
def runNode (c : Compiler) (node : Node) : Run Document :=
  let visited := c.lower node 0
  let last := match visited.outcome with
    | .ok _ => Event.compiled node.kind
    | .error e => Event.failed node.kind e
  ⟨.compiling node.kind :: visited.events ++ [last], visited.outcome⟩

/-- Compiles a statement that is not wrapped in a node, with reports. -/
def runStatement (c : Compiler) (s : Statement) : Run Document := do
  Run.report (.compilingStatement s.cores.length)
  Run.under "Statement" (c.lowerStatement s 0)

/-- The search document of a node. -/
def compile (c : Compiler) (node : Node) : Except CompileError Document := (c.runNode node).outcome

/-- The search document of a statement. -/
def compileStatement (c : Compiler) (s : Statement) : Except CompileError Document :=
  (c.runStatement s).outcome

end Compiler

/-- The search document of a node, by the default compiler. -/
def compile (node : Node) : Except CompileError Document := Compiler.new.compile node

/-- The search document of a statement, by the default compiler. -/
def compileStatement (s : Statement) : Except CompileError Document := Compiler.new.compileStatement s

end RelSearch
