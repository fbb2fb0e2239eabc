import RelSearch.Compiler.Basic

/-!
# RelSearch.Proofs.Place

The nodes of a query and where they stand in it.

The parts of a node are the nodes directly below it, in the order in which they
are compiled. A core of a statement counts as a node of its own, so that every
part lies exactly one level below its owner and adds exactly one segment to a
path. What a compiler asks of a part depends on the part's role:

1. the cores of a statement are entered without being visited;
2. left sides, sorted expressions, projections and sort terms without an order
   are visited and have to be names;
3. every other part is visited and may be anything;
4. a right side that is a literal null, and everything below a node that search
   documents have nothing for, is never looked at.

`Place.Reaches` is the way down from a node through any number of parts.
-/

namespace RelSearch

/-- What a compiler asks of a node because of where it stands. -/
inductive Role where
  /-- A core of a statement. -/
  | core
  /-- A node that has to be a name: the given part of a node of the kind `owner`. -/
  | name (owner part : String)
  /-- A node that may be anything. -/
  | value
  /-- A node that is not looked at. -/
  | skipped
deriving DecidableEq

/-- A node and the role it has where it stands. -/
structure Place where
  role : Role
  node : Node

/-! ## Parts -/

namespace Place

/-- The place of a right side, which is not looked at if it is a literal null. -/
def ofRight (n : Node) : Place := if n.isNull then ⟨.skipped, n⟩ else ⟨.value, n⟩

/-- The place of a sort term, which has to be a name if it has no order. -/
def ofSortTerm (n : Node) : Place :=
  if n.isSort then ⟨.value, n⟩ else ⟨.name "Statement" "sort term", n⟩

@[simp] theorem node_ofRight (n : Node) : (ofRight n).node = n := by
  unfold ofRight
  split <;> rfl

@[simp] theorem node_ofSortTerm (n : Node) : (ofSortTerm n).node = n := by
  unfold ofSortTerm
  split <;> rfl

end Place

/-- The parts of a core: its projections, then its conditions. -/
def Core.parts (c : Core) : List Place :=
  c.projections.map (⟨.name "Core" "projection", ·⟩) ++ c.wheres.map (⟨.value, ·⟩)

/-- The parts of a statement: its cores, its sort terms, its limit, its offset. -/
def Statement.parts (s : Statement) : List Place :=
  s.cores.map (⟨.core, .core ·⟩) ++ s.orders.map .ofSortTerm ++
    s.limit.toList.map (⟨.value, ·⟩) ++ s.offset.toList.map (⟨.value, ·⟩)

/-- The parts of a node, in the order in which they are compiled. -/
def Node.parts : Node → List Place
  | .statement s => s.parts
  | .subquery s => s.parts
  | .core c => c.parts
  | .equality op left right => ⟨.name op.kind "left side", left⟩ :: right.toList.map .ofRight
  | .connective _ left right => [⟨.value, left⟩, ⟨.value, right⟩]
  | .sort order operand => [⟨.name order.kind "sort expression", operand⟩]
  | .grouping inner => [⟨.value, inner⟩]
  | .comparison _ left right => [⟨.skipped, left⟩, ⟨.skipped, right⟩]
  | .not operand => [⟨.skipped, operand⟩]
  | .namedFunction _ args => args.map (⟨.skipped, ·⟩)
  | .column _ => []
  | .literal _ _ => []
  | .sqlLiteral _ => []
  | .bool _ => []

/-- The parts of a node that a compiler looks at. -/
def Node.visitedParts (n : Node) : List Place := n.parts.filter (·.role ≠ .skipped)

/-- The parts of a core are smaller than the core. -/
theorem Core.sizeOf_lt_of_mem_parts {c : Core} {p : Place} (h : p ∈ c.parts) :
    sizeOf p.node < sizeOf c := by
  obtain ⟨projections, wheres⟩ := c
  simp only [Core.parts, List.mem_append, List.mem_map] at h
  rcases h with ⟨n, hn, rfl⟩ | ⟨n, hn, rfl⟩
  · have := List.sizeOf_lt_of_mem hn
    simp only [Core.mk.sizeOf_spec]
    omega
  · have := List.sizeOf_lt_of_mem hn
    simp only [Core.mk.sizeOf_spec]
    omega

/-- The parts of a statement are smaller than a node around it; a core is wrapped in a node here,
so it may be as large as the statement. -/
theorem Statement.sizeOf_lt_of_mem_parts {s : Statement} {p : Place} (h : p ∈ s.parts) :
    sizeOf p.node < sizeOf s + 1 := by
  obtain ⟨cores, orders, limit, offset⟩ := s
  simp only [Statement.parts, List.mem_append, List.mem_map, Option.mem_toList] at h
  rcases h with ((⟨c, hc, rfl⟩ | ⟨n, hn, rfl⟩) | ⟨n, rfl, rfl⟩) | ⟨n, rfl, rfl⟩
  · have := List.sizeOf_lt_of_mem hc
    simp only [Node.core.sizeOf_spec, Statement.mk.sizeOf_spec]
    omega
  · have := List.sizeOf_lt_of_mem hn
    simp only [Place.node_ofSortTerm, Statement.mk.sizeOf_spec]
    omega
  · simp only [Statement.mk.sizeOf_spec, Option.some.sizeOf_spec]
    omega
  · simp only [Statement.mk.sizeOf_spec, Option.some.sizeOf_spec]
    omega

/-- Every part of a node is smaller than the node, which is what recursion over
parts rests on. -/
theorem Node.sizeOf_lt_of_mem_parts {n : Node} {p : Place} (h : p ∈ n.parts) :
    sizeOf p.node < sizeOf n := by
  cases n with
  | statement s =>
      have := Statement.sizeOf_lt_of_mem_parts h
      simp only [Node.statement.sizeOf_spec]
      omega
  | subquery s =>
      have := Statement.sizeOf_lt_of_mem_parts h
      simp only [Node.subquery.sizeOf_spec]
      omega
  | core c =>
      have := Core.sizeOf_lt_of_mem_parts h
      simp only [Node.core.sizeOf_spec]
      omega
  | equality op left right =>
      simp only [Node.parts, List.mem_cons, List.mem_map, Option.mem_toList] at h
      rcases h with rfl | ⟨n, rfl, rfl⟩
      · simp only [Node.equality.sizeOf_spec]
        omega
      · simp only [Place.node_ofRight, Node.equality.sizeOf_spec, Option.some.sizeOf_spec]
        omega
  | namedFunction name args =>
      simp only [Node.parts, List.mem_map] at h
      obtain ⟨n, hn, rfl⟩ := h
      have := List.sizeOf_lt_of_mem hn
      simp only [Node.namedFunction.sizeOf_spec]
      omega
  | connective op left right =>
      simp only [Node.parts, List.mem_cons, List.not_mem_nil, or_false] at h
      rcases h with rfl | rfl <;> simp only [Node.connective.sizeOf_spec] <;> omega
  | comparison op left right =>
      simp only [Node.parts, List.mem_cons, List.not_mem_nil, or_false] at h
      rcases h with rfl | rfl <;> simp only [Node.comparison.sizeOf_spec] <;> omega
  | sort order operand =>
      obtain rfl := List.mem_singleton.mp h
      simp only [Node.sort.sizeOf_spec]
      omega
  | grouping inner =>
      obtain rfl := List.mem_singleton.mp h
      simp only [Node.grouping.sizeOf_spec]
      omega
  | not operand =>
      obtain rfl := List.mem_singleton.mp h
      simp only [Node.not.sizeOf_spec]
      omega
  | column a => exact absurd h List.not_mem_nil
  | literal form value => exact absurd h List.not_mem_nil
  | sqlLiteral text => exact absurd h List.not_mem_nil
  | bool b => exact absurd h List.not_mem_nil

/-- Only the cores of a statement are entered without being visited. -/
theorem Node.statement_of_core_mem_parts {n x : Node} (h : ⟨.core, x⟩ ∈ n.parts) :
    ∃ s, (n = .statement s ∨ n = .subquery s) ∧ ∃ core ∈ s.cores, x = .core core := by
  have hstatement : ∀ s : Statement, ⟨.core, x⟩ ∈ s.parts → ∃ core ∈ s.cores, x = .core core := by
    intro s h
    simp only [Statement.parts, List.mem_append, List.mem_map] at h
    rcases h with ((⟨c, hc, heq⟩ | ⟨t, -, ht⟩) | ⟨t, -, ht⟩) | ⟨t, -, ht⟩
    · exact ⟨c, hc, (Place.mk.inj heq).2.symm⟩
    · unfold Place.ofSortTerm at ht
      split at ht <;> cases ht
    · cases ht
    · cases ht
  cases n with
  | statement s => exact ⟨s, .inl rfl, hstatement s h⟩
  | subquery s => exact ⟨s, .inr rfl, hstatement s h⟩
  | equality op left right =>
      simp only [Node.parts, List.mem_cons, Place.mk.injEq, reduceCtorEq, false_and, false_or,
        List.mem_map] at h
      obtain ⟨r, -, hr⟩ := h
      unfold Place.ofRight at hr
      split at hr <;> cases hr
  | _ => simp [Node.parts, Core.parts] at h

/-- **Induction over parts**: what holds of a node as soon as it holds of all its
parts holds of every node. -/
theorem Node.induction_parts {P : Node → Prop} (step : ∀ n, (∀ p ∈ n.parts, P p.node) → P n)
    (n : Node) : P n :=
  step n fun p _ => Node.induction_parts step p.node
termination_by sizeOf n
decreasing_by exact Node.sizeOf_lt_of_mem_parts ‹_›

/-! ## Ways down -/

/-- `Reaches parts p k q`: on a way down from `p` through `parts`, the place `q`
lies `k` levels further down. -/
inductive Place.Reaches (parts : Node → List Place) : Place → Nat → Place → Prop
  | here (p : Place) : Reaches parts p 0 p
  | down {p q r : Place} {k : Nat} (part : q ∈ parts p.node) (way : Reaches parts q k r) :
    Reaches parts p (k + 1) r

/-- A place of a query, at its level; the root is at level 0. -/
def Node.Contains (n : Node) (level : Nat) (p : Place) : Prop :=
  Place.Reaches Node.parts ⟨.value, n⟩ level p

/-- A place that a compiler comes to, if nothing stops it, at its level. -/
def Node.Visits (n : Node) (level : Nat) (p : Place) : Prop :=
  Place.Reaches Node.visitedParts ⟨.value, n⟩ level p

/-- What is reached through some of the parts is reached through all of them. -/
theorem Place.Reaches.mono {parts more : Node → List Place} (h : ∀ n, ∀ p ∈ parts n, p ∈ more n)
    {p q : Place} {k : Nat} (way : Reaches parts p k q) : Reaches more p k q := by
  induction way with
  | here p => exact .here p
  | down part _ ih => exact .down (h _ _ part) ih

/-- Two ways, one behind the other, are a way. -/
theorem Place.Reaches.trans {parts : Node → List Place} {p q r : Place} {j k : Nat}
    (upper : Reaches parts p j q) (lower : Reaches parts q k r) : Reaches parts p (j + k) r := by
  induction upper with
  | here p => rwa [Nat.zero_add]
  | @down p q s j part _ ih =>
      rw [Nat.add_right_comm]
      exact .down part (ih lower)

/-- A way down ends with a step to a part. -/
theorem Place.Reaches.last_step {parts : Node → List Place} {p r : Place} {k : Nat}
    (way : Reaches parts p (k + 1) r) : ∃ q, Reaches parts p k q ∧ r ∈ parts q.node := by
  induction k generalizing p with
  | zero =>
      obtain _ | ⟨part, _ | _⟩ := way
      exact ⟨p, .here p, part⟩
  | succ k ih =>
      obtain _ | ⟨part, rest⟩ := way
      obtain ⟨q, hq, hr⟩ := ih rest
      exact ⟨q, .down part hq, hr⟩

/-- What holds of every place on every way down holds of the start, and of every
place on every way down from one of its parts. -/
theorem Place.forall_reaches_iff {parts : Node → List Place} {p : Place} {P : Nat → Place → Prop} :
    (∀ k q, Reaches parts p k q → P k q) ↔
      P 0 p ∧ ∀ q ∈ parts p.node, ∀ k r, Reaches parts q k r → P (k + 1) r := by
  constructor
  · intro h
    exact ⟨h 0 p (.here p), fun q hq k r way => h (k + 1) r (.down hq way)⟩
  · rintro ⟨hhere, hdown⟩ k q way
    cases way with
    | here => exact hhere
    | down part way => exact hdown _ part _ _ way

/-- Checks a place and all places on ways down from it, unless a way is longer than
`fuel`. -/
def Place.checks (parts : Node → List Place) (P : Nat → Place → Bool) :
    (fuel level : Nat) → Place → Bool
  | 0, _, _ => false
  | fuel + 1, level, p => P level p && (parts p.node).all (checks parts P fuel (level + 1))

/-- What has been checked holds on every way down. -/
theorem Place.forall_reaches_of_checks {parts : Node → List Place} {P : Nat → Place → Bool}
    {fuel level : Nat} {p : Place} (h : checks parts P fuel level p = true) :
    ∀ k q, Reaches parts p k q → P (level + k) q = true := by
  induction fuel generalizing level p with
  | zero => cases h
  | succ fuel ih =>
      obtain ⟨hhere, hparts⟩ := Bool.and_eq_true_iff.mp h
      rw [Place.forall_reaches_iff]
      refine ⟨hhere, fun q hq k r way => ?_⟩
      have hr := ih (List.all_eq_true.mp hparts q hq) k r way
      rwa [Nat.add_assoc, Nat.add_comm 1] at hr

/-- A check of all places of a query, if it goes deep enough, says something about all of them. -/
theorem Node.forall_contains_of_checks (P : Nat → Place → Bool) (fuel : Nat) {n : Node}
    (h : Place.checks Node.parts P fuel 0 ⟨.value, n⟩ = true) :
    ∀ level p, n.Contains level p → P level p = true := by
  intro level p hp
  rw [← Nat.zero_add level]
  exact Place.forall_reaches_of_checks h level p hp

theorem Node.mem_visitedParts {n : Node} {p : Place} :
    p ∈ n.visitedParts ↔ p ∈ n.parts ∧ p.role ≠ .skipped := by
  simp [Node.visitedParts]

/-- What is visited in a query is contained in it. -/
theorem Node.Visits.contains {n : Node} {level : Nat} {p : Place} (h : n.Visits level p) :
    n.Contains level p :=
  h.mono fun _ _ hq => (Node.mem_visitedParts.mp hq).1

/-- Only cores have the role of one, and nothing has the role of what is skipped. -/
def Place.IsVisited (p : Place) : Prop :=
  p.role ≠ .skipped ∧ (p.role = .core → ∃ c, p.node = .core c)

/-- A part that a compiler looks at is visited or a core of a statement. -/
theorem Node.isVisited_of_mem_visitedParts {n : Node} {p : Place} (h : p ∈ n.visitedParts) :
    p.IsVisited := by
  obtain ⟨hmem, hrole⟩ := Node.mem_visitedParts.mp h
  obtain ⟨role, x⟩ := p
  refine ⟨hrole, fun hcore => ?_⟩
  obtain rfl : role = .core := hcore
  obtain ⟨s, -, core, -, rfl⟩ := Node.statement_of_core_mem_parts hmem
  exact ⟨core, rfl⟩

/-- The core of a statement has no such core for a part. -/
theorem Place.IsVisited.role_ne_core {p q : Place} (h : p.IsVisited)
    (hq : q ∈ p.node.visitedParts) (hcore : q.role = .core) : p.role ≠ .core := by
  intro hrole
  obtain ⟨role, x⟩ := q
  obtain rfl : role = .core := hcore
  obtain ⟨s, hs, -⟩ := Node.statement_of_core_mem_parts (Node.mem_visitedParts.mp hq).1
  obtain ⟨core, hnode⟩ := h.2 hrole
  rw [hnode] at hs
  rcases hs with hs | hs <;> cases hs

/-- On the way of a compiler all places are visited or cores of statements. -/
theorem Place.Reaches.isVisited {p q : Place} {k : Nat}
    (way : Reaches Node.visitedParts p k q) (h : p.IsVisited) : q.IsVisited := by
  induction way with
  | here p => exact h
  | down part _ ih => exact ih (Node.isVisited_of_mem_visitedParts part)

theorem Node.Visits.isVisited {n : Node} {level : Nat} {p : Place} (h : n.Visits level p) :
    p.IsVisited :=
  Place.Reaches.isVisited h ⟨nofun, nofun⟩

end RelSearch
