import RelSearch.Proofs.Steps

/-!
# RelSearch.Proofs.Location

What a compiler reports of a query that cannot be compiled: the first of its
faults (`Compiler.compile_eq_error_iff`), at a path that really leads through
the query to the node that raises it.

1. A path is the kinds of the nodes on a way down, the core of a statement being
   one of them, so it is one longer than the level of its last node.
2. A node raises a fault because it lies too deep, because of what it is, or
   because a part of it that has to be a name is none.
3. The kind in an error is the kind of the node at the end of the path, the sort
   terms of subqueries apart: they are reported as those of a statement
   (`Compiler.compile_error_kind`).
-/

namespace RelSearch

namespace Node

/-- `n.LeadsTo path x`: the path gives the kinds of the nodes on a way down from
`n` to `x`, both of them included. -/
inductive LeadsTo : Node → NodePath → Node → Prop
  | here (n : Node) : LeadsTo n [n.kind] n
  | down {n x : Node} {p : Place} {path : NodePath} (part : p ∈ n.parts)
    (way : LeadsTo p.node path x) : LeadsTo n (n.kind :: path) x

/-- The faults that a node at some level raises. -/
inductive Raises (limit level : Nat) (n : Node) : Fault → Prop
  /-- The node lies past the limit. -/
  | tooDeep (h : limit < level) : Raises limit level n (.tooDeep limit)
  /-- The node has a fault by itself. -/
  | own {fault : Fault} (h : fault ∈ n.ownFaults) : Raises limit level n fault
  /-- A part of the node has to be a name and is none. -/
  | notName {owner part : String} {x : Node} (h : ⟨.name owner part, x⟩ ∈ n.parts)
    (hx : x.isName = false) : Raises limit level n (.notName owner part x)

/-- `n.Locates limit level e`: the path of `e` leads from `n`, which stands at the
given level, to a node that raises its fault. -/
def Locates (limit level : Nat) (n : Node) (e : CompileError) : Prop :=
  ∃ x, n.LeadsTo e.path x ∧ x.Raises limit (level + e.path.length - 1) e.fault

end Node

/-! ## Every fault is located -/

namespace Node

/-- A path names its end at least. -/
theorem LeadsTo.length_pos {n x : Node} {path : NodePath} (h : n.LeadsTo path x) :
    0 < path.length := by
  cases h <;> simp

/-- A fault below a part is found from the owner by one more step. -/
theorem Locates.under {limit level : Nat} {n : Node} {p : Place} {e : CompileError}
    (part : p ∈ n.parts) (h : p.node.Locates limit (level + 1) e) :
    n.Locates limit level (e.under n.kind) := by
  obtain ⟨x, way, raises⟩ := h
  have hpos := way.length_pos
  refine ⟨x, .down part way, ?_⟩
  have hlevel : level + (e.under n.kind).path.length - 1 = level + 1 + e.path.length - 1 := by
    simp only [CompileError.under, List.length_cons]
    omega
  rw [hlevel]
  exact raises

/-- A fault of a node itself is located there. -/
theorem locates_own {limit level : Nat} {n : Node} {fault : Fault}
    (h : n.Raises limit level fault) : n.Locates limit level ⟨fault, [n.kind]⟩ :=
  ⟨n, .here n, h⟩

end Node

/-- Every fault of a place is located, apart from one that its owner raises
because the place has to be a name. -/
theorem Place.locates_of_mem_faults {limit level : Nat} {p : Place} {e : CompileError}
    (h : e ∈ p.faults limit [] level) :
    p.node.Locates limit level e ∨ ∃ owner part, p.role = .name owner part ∧
      p.node.isName = false ∧ e = ⟨.notName owner part p.node, []⟩ := by
  obtain ⟨role, n⟩ := p
  induction n using Node.induction_parts generalizing role level e with
  | step n ih =>
      have hinside : ∀ e ∈ n.faultsInside limit [] level, n.Locates limit level e := by
        intro e he
        rw [Node.faultsInside, List.mem_append, List.mem_map, List.mem_flatMap] at he
        rcases he with ⟨fault, hfault, rfl⟩ | ⟨q, hq, he⟩
        · exact Node.locates_own (.own hfault)
        · rw [List.nil_append, ← Place.map_under_faults, List.mem_map] at he
          obtain ⟨e, he, rfl⟩ := he
          rcases ih q hq q.role he with hlocated | ⟨owner, part, hrole, hname, rfl⟩
          · exact hlocated.under hq
          · -- a missing name is reported by the owner, so the path ends here
            obtain ⟨role, x⟩ := q
            obtain rfl : role = .name owner part := hrole
            exact Node.locates_own (.notName hq hname)
      have hvalue : ∀ e ∈ faults limit [] level ⟨.value, n⟩, n.Locates limit level e := by
        intro e he
        rw [faults_value] at he
        split at he
        · next hlt =>
            obtain rfl := List.mem_singleton.mp he
            exact Node.locates_own (.tooDeep hlt)
        · exact hinside e he
      cases role with
      | skipped =>
          rw [faults_skipped] at h
          exact absurd h List.not_mem_nil
      | core =>
          rw [faults_core] at h
          exact .inl (hinside e h)
      | value => exact .inl (hvalue e h)
      | name owner part =>
          rw [faults_name] at h
          split at h
          · next hcheck =>
              simp only [Bool.and_eq_true, Bool.not_eq_true'] at hcheck
              exact .inr ⟨owner, part, rfl, hcheck.2, List.mem_singleton.mp h⟩
          · exact .inl (hvalue e h)

/-- Every fault of a query is located. -/
theorem Node.locates_of_mem_faults {limit : Nat} {n : Node} {e : CompileError}
    (h : e ∈ n.faults limit) : n.Locates limit 0 e := by
  rcases Place.locates_of_mem_faults h with hlocated | ⟨owner, part, hrole, -⟩
  · exact hlocated
  · cases hrole

/-! ## The reported error -/

/-- **Reported error**: a compiler fails with the first fault of a query, and the
path it reports leads to the node that raises this fault. -/
theorem Compiler.compile_eq_error_iff (c : Compiler) (n : Node) (e : CompileError) :
    (c.compile n = .error e ↔ (n.faults c.settings.maxDepth).head? = some e) ∧
      (c.compile n = .error e → ∃ x, n.LeadsTo e.path x ∧
        x.Raises c.settings.maxDepth (e.path.length - 1) e.fault) := by
  have hfirst : c.compile n = .error e ↔ (n.faults c.settings.maxDepth).head? = some e := by
    rw [compile_eq_outcomeOf, outcomeOf_eq_error_iff]
  refine ⟨hfirst, fun h => ?_⟩
  obtain ⟨x, way, raises⟩ := Node.locates_of_mem_faults (List.mem_of_mem_head? (hfirst.mp h))
  rw [Nat.zero_add] at raises
  exact ⟨x, way, raises⟩

/-- A comparison that search documents cannot express, in the second condition of
a core: the path leads to it through the statement, the core and a connective. -/
theorem Compiler.compile_eq_error_iff_lessThan :
    let lessThan : Node := .comparison .lessThan (.sqlLiteral "age") (.literal .casted (.int 30))
    let query : Node := .statement ⟨[⟨[.sqlLiteral "id"],
      [.bool true, .connective .and (.equality .equal (.sqlLiteral "id") none) lessThan]⟩], [],
      none, none⟩
    let path : NodePath := ["Statement", "Core", "And", "LessThan"]
    Compiler.new.compile query = .error ⟨.unsupported "LessThan", path⟩ ∧
      ∃ x, query.LeadsTo path x ∧ x.Raises 256 3 (.unsupported "LessThan") :=
  ⟨rfl, (Compiler.new.compile_eq_error_iff _ ⟨.unsupported "LessThan", _⟩).2 rfl⟩

/-! ## The kind in an error -/

/-- The kind of node that a fault gives, if it gives one. -/
def Fault.kind? : Fault → Option String
  | .unsupported kind => some kind
  | .tooDeep _ => none
  | .invalidShape kind _ => some kind

/-- The message of an error holds the kind that the error gives. -/
theorem CompileError.kind_infix_message {e : CompileError} {kind : String}
    (h : e.fault.kind? = some kind) : kind.toList <:+: e.message.toList := by
  obtain ⟨fault, path⟩ := e
  cases fault with
  | unsupported k =>
      obtain rfl := Option.some.inj h
      simp only [message, String.toList_append, List.append_assoc]
      exact List.infix_append' _ _ _
  | tooDeep limit => cases h
  | invalidShape k reason =>
      obtain rfl := Option.some.inj h
      simp only [message, String.toList_append, List.append_assoc]
      exact List.infix_append' _ _ _

namespace Node

/-- The last segment of a path is the kind of the node it leads to. -/
theorem LeadsTo.getLast?_eq {n x : Node} {path : NodePath} (h : n.LeadsTo path x) :
    path.getLast? = some x.kind := by
  induction h with
  | here n => rfl
  | down part way ih => rw [List.getLast?_cons, ih, Option.getD_some]

/-- A fault of a node itself names the kind of the node. -/
theorem kind?_of_mem_ownFaults {n : Node} {fault : Fault} (h : fault ∈ n.ownFaults) :
    fault.kind? = some n.kind := by
  cases n with
  | literal form value =>
      simp only [ownFaults, List.mem_ite_nil_left, List.mem_singleton] at h
      rw [h.2]
      rfl
  | _ =>
      simp only [ownFaults, List.mem_ite_nil_left, List.mem_singleton] at h
      rw [h.2]
      rfl

/-- `x.MisnamesSortTerm fault`: the node is a subquery, and the fault is that a sort
term of it is no name. -/
def MisnamesSortTerm (x : Node) (fault : Fault) : Prop :=
  ∃ s t, x = .subquery s ∧ t ∈ s.orders ∧ t.isSort = false ∧ t.isName = false ∧
    fault = .notName "Statement" "sort term" t

/-- The owner that a missing name is reported for is the node itself, unless it is a
subquery: its sort terms are reported as those of a statement. -/
theorem owner_of_mem_parts {n x : Node} {owner part : String}
    (h : ⟨.name owner part, x⟩ ∈ n.parts) (hx : x.isName = false) :
    owner = n.kind ∨ n.MisnamesSortTerm (.notName owner part x) := by
  have hstatement : ∀ s : Statement, ⟨.name owner part, x⟩ ∈ s.parts →
      x ∈ s.orders ∧ x.isSort = false ∧ owner = "Statement" ∧ part = "sort term" := by
    intro s hs
    simp only [Statement.parts, List.mem_append, List.mem_map] at hs
    rcases hs with ((⟨core, -, heq⟩ | ⟨t, ht, heq⟩) | ⟨t, -, heq⟩) | ⟨t, -, heq⟩
    · cases heq
    · unfold Place.ofSortTerm at heq
      split at heq
      · cases heq
      · next hsort =>
          cases heq
          exact ⟨ht, eq_false_of_ne_true hsort, rfl, rfl⟩
    · cases heq
    · cases heq
  cases n with
  | statement s =>
      obtain ⟨-, -, rfl, -⟩ := hstatement s h
      exact .inl rfl
  | subquery s =>
      obtain ⟨hmem, hsort, rfl, rfl⟩ := hstatement s h
      exact .inr ⟨s, x, rfl, hmem, hsort, hx, rfl⟩
  | core c =>
      simp only [parts, Core.parts, List.mem_append, List.mem_map] at h
      rcases h with ⟨t, -, heq⟩ | ⟨t, -, heq⟩
      · cases heq
        exact .inl rfl
      · cases heq
  | equality op left right =>
      simp only [parts, List.mem_cons, List.mem_map] at h
      rcases h with heq | ⟨r, -, heq⟩
      · cases heq
        exact .inl rfl
      · unfold Place.ofRight at heq
        split at heq <;> cases heq
  | sort order operand =>
      cases List.mem_singleton.mp h
      exact .inl rfl
  | _ => simp [parts] at h

theorem MisnamesSortTerm.kind_ne {x : Node} {fault : Fault} (h : x.MisnamesSortTerm fault) :
    fault.kind? ≠ some x.kind := by
  obtain ⟨s, t, rfl, -, -, -, rfl⟩ := h
  simp [Fault.kind?, Fault.notName, kind]

/-- `n.Explains e`: the path of `e` leads from `n` to a node of the kind that its last
segment gives. If the error gives a kind as well, the message holds that kind, and
it is the kind of this node unless the error is about a sort term of a subquery. -/
def Explains (n : Node) (e : CompileError) : Prop :=
  ∃ x, n.LeadsTo e.path x ∧ e.path.getLast? = some x.kind ∧
    ∀ kind, e.fault.kind? = some kind →
      kind.toList <:+: e.message.toList ∧ (kind = x.kind ↔ ¬ x.MisnamesSortTerm e.fault)

/-- An error that is located is explained by its path. -/
theorem Locates.explains {limit level : Nat} {n : Node} {e : CompileError}
    (h : n.Locates limit level e) : n.Explains e := by
  obtain ⟨x, way, raises⟩ := h
  refine ⟨x, way, way.getLast?_eq, fun kind hkind => ⟨e.kind_infix_message hkind, ?_, ?_⟩⟩
  · rintro rfl hsort
    exact hsort.kind_ne hkind
  · intro hsort
    obtain ⟨fault, path⟩ := e
    cases raises with
    | tooDeep hlevel => cases hkind
    | own hown => exact Option.some.inj (hkind.symm.trans (kind?_of_mem_ownFaults hown))
    | notName hpart hx =>
        obtain rfl := Option.some.inj hkind
        exact (owner_of_mem_parts hpart hx).resolve_right hsort

end Node

/-- **Kind**: what a compiler reports gives the kind of the node that its path leads
to, for nodes as for statements, the sort terms of subqueries apart. -/
theorem Compiler.compile_error_kind (c : Compiler) :
    (∀ n e, c.compile n = .error e → n.Explains e) ∧
      ∀ s e, c.compileStatement s = .error e → (Node.statement s).Explains e := by
  have hnode : ∀ n e, c.compile n = .error e → n.Explains e := by
    intro n e h
    rw [compile_eq_outcomeOf, outcomeOf_eq_error_iff] at h
    exact (Node.locates_of_mem_faults (List.mem_of_mem_head? h)).explains
  refine ⟨hnode, fun s e h => hnode _ e ?_⟩
  rwa [← compileStatement_eq_compile]

/-- The same sort term in a statement and in a subquery. -/
theorem Compiler.compile_error_kind_sortTerm :
    let s : Statement := ⟨[], [.bool true], none, none⟩
    let fault : Fault := .notName "Statement" "sort term" (.bool true)
    new.compileStatement s = .error ⟨fault, ["Statement"]⟩ ∧
      (Node.statement s).Explains ⟨fault, ["Statement"]⟩ ∧
      new.compile (.grouping (.subquery s)) = .error ⟨fault, ["Grouping", "Subquery"]⟩ ∧
      (Node.grouping (.subquery s)).Explains ⟨fault, ["Grouping", "Subquery"]⟩ :=
  ⟨rfl, new.compile_error_kind.2 _ _ rfl, rfl, new.compile_error_kind.1 _ _ rfl⟩

/-- A subquery is reported as a statement. -/
theorem Compiler.compile_subquery_sortTerm :
    new.compile (.subquery ⟨[], [.bool true], none, none⟩) =
      .error ⟨.invalidShape "Statement" "sort term must resolve to an attribute name, got `Bool`",
        ["Subquery"]⟩ := rfl

end RelSearch
