import RelSearch.Query.Node

/-!
# RelSearch.Query.Equality

Equality of queries: the same tree, with equal scalars. A NaN inside makes a
query differ from itself.
-/

namespace RelSearch

mutual

/-- Equality of nodes. -/
def Node.beq : Node → Node → Bool
  | .statement s, .statement t => s.beq t
  | .core c, .core d => c.beq d
  | .equality op l r, .equality op' l' r' => op == op' && l.beq l' && beqOptional r r'
  | .comparison op l r, .comparison op' l' r' => op == op' && l.beq l' && r.beq r'
  | .connective op l r, .connective op' l' r' => op == op' && l.beq l' && r.beq r'
  | .not n, .not m => n.beq m
  | .sort order n, .sort order' m => order == order' && n.beq m
  | .column a, .column b => a == b
  | .literal form v, .literal form' w => form == form' && v == w
  | .sqlLiteral s, .sqlLiteral t => s == t
  | .bool a, .bool b => a == b
  | .grouping n, .grouping m => n.beq m
  | .subquery s, .subquery t => s.beq t
  | .namedFunction f args, .namedFunction g args' => f == g && beqNodes args args'
  | _, _ => false

/-- Equality of nodes that may be missing. -/
def beqOptional : Option Node → Option Node → Bool
  | none, none => true
  | some n, some m => n.beq m
  | _, _ => false

/-- Equality of lists of nodes. -/
def beqNodes : List Node → List Node → Bool
  | [], [] => true
  | n :: ns, m :: ms => n.beq m && beqNodes ns ms
  | _, _ => false

/-- Equality of cores. -/
def Core.beq : Core → Core → Bool
  | ⟨projections, wheres⟩, ⟨projections', wheres'⟩ =>
    beqNodes projections projections' && beqNodes wheres wheres'

/-- Equality of lists of cores. -/
def beqCores : List Core → List Core → Bool
  | [], [] => true
  | c :: cs, d :: ds => c.beq d && beqCores cs ds
  | _, _ => false

/-- Equality of statements. -/
def Statement.beq : Statement → Statement → Bool
  | ⟨cores, orders, limit, offset⟩, ⟨cores', orders', limit', offset'⟩ =>
    beqCores cores cores' && beqNodes orders orders' && beqOptional limit limit' &&
      beqOptional offset offset'

end

instance : BEq Node := ⟨Node.beq⟩

instance : BEq Core := ⟨Core.beq⟩

instance : BEq Statement := ⟨Statement.beq⟩

end RelSearch
