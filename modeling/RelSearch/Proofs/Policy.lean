import RelSearch.Proofs.Likeness

/-!
# RelSearch.Proofs.Policy

The policy of a compiler reaches the quoted literals of a query and nothing else.

1. Whatever a policy makes of a literal is a string. Where a name is asked for a string
   is one, whatever its characters, so the policy decides neither whether a query is
   compiled nor what is wrong with it, and none of the reports.
2. The document of a query depends on what the policy makes of the quoted literals that
   are visited. A quoted null on the right of a test is not one of them.

`Compiler.policy_reaches_quoted` says both of any two policies.
-/

namespace RelSearch

/-- Whether two policies make the same of a node, if it is a quoted literal. -/
def Node.isQuotedAlike (p q : Quoting) : Node → Bool
  | .literal .quoted value => p.quote value == q.quote value
  | _ => true

/-- Two policies make the same of every quoted literal that is visited in a query. -/
def Node.AgreeOn (p q : Quoting) (n : Node) : Prop :=
  ∀ level x, n.Visits level x → x.node.isQuotedAlike p q = true

section

variable {p q : Quoting}

/-- Policies that agree on a query agree on its parts. -/
theorem Node.AgreeOn.part {n : Node} (h : n.AgreeOn p q) {x : Place} (hx : x ∈ n.visitedParts) :
    x.node.AgreeOn p q := by
  intro level y hy
  cases hy with
  | here => exact h 1 x (.down hx (.here x))
  | down part way => exact h _ y (.down hx (.down part way))

/-- The relation of a node to itself, seen by two policies. -/
def Node.SameUnder (p q : Quoting) (a b : Node) : Prop := a = b ∧ a.AgreeOn p q

/-- Under policies that agree on its parts, a statement is like itself. -/
theorem Statement.like_self {s : Statement} (h : ∀ x ∈ s.parts, x.node.AgreeOn p q) :
    s.Like (Node.SameUnder p q) s where
  cores := by
    refine List.forall₂_same.mpr fun c hc => ⟨rfl, h ⟨.core, .core c⟩ ?_⟩
    simp [Statement.parts, hc]
  orders := by
    refine List.forall₂_same.mpr fun x hx => ⟨rfl, rfl, ?_⟩
    simpa using h _ (Statement.ofSortTerm_mem_parts hx)
  limit := by
    cases hlimit : s.limit with
    | none => exact .none
    | some n => exact .some ⟨rfl, h ⟨.value, n⟩ (by simp [Statement.parts, hlimit])⟩
  offset := by
    cases hoffset : s.offset with
    | none => exact .none
    | some n => exact .some ⟨rfl, h ⟨.value, n⟩ (by simp [Statement.parts, hoffset])⟩

/-- Policies that agree on a node cannot tell it from itself, one step down. -/
theorem Node.SameUnder.like {a b : Node} (h : SameUnder p q a b) :
    Like (fun a b => a.name p = b.name q ∧ a.document p = b.document q) (SameUnder p q) a b := by
  obtain ⟨rfl, h⟩ := h
  have hpart : ∀ {x : Place}, x ∈ a.visitedParts → SameUnder p q x.node x.node :=
    fun hx => ⟨rfl, h.part hx⟩
  cases a with
  | statement s =>
      refine .statement (Statement.like_self fun x hx => h.part ?_)
      exact Node.mem_visitedParts.mpr ⟨hx, s.role_ne_skipped_of_mem_parts hx⟩
  | subquery s =>
      refine .subquery (Statement.like_self fun x hx => h.part ?_)
      exact Node.mem_visitedParts.mpr ⟨hx, s.role_ne_skipped_of_mem_parts hx⟩
  | core c =>
      obtain ⟨projections, wheres⟩ := c
      refine .core (List.forall₂_same.mpr fun x hx => ?_) (List.forall₂_same.mpr fun x hx => ?_)
      · exact hpart (x := ⟨.name "Core" "projection", x⟩)
          (by simp [Node.visitedParts, Node.parts, Core.parts, hx])
      · exact hpart (x := ⟨.value, x⟩) (by simp [Node.visitedParts, Node.parts, Core.parts, hx])
  | equality op left right =>
      have hleft : SameUnder p q left left :=
        hpart (x := ⟨.name op.kind "left side", left⟩) (by simp [Node.visitedParts, Node.parts])
      cases right with
      | none => exact .nullTest op hleft
      | some right =>
          refine .equality op hleft rfl fun hnull => ?_
          exact hpart (x := ⟨.value, right⟩)
            (by simp [Node.visitedParts, Node.parts, Place.ofRight, hnull])
  | connective op left right =>
      refine .connective op ?_ ?_
      · exact hpart (x := ⟨.value, left⟩) (by simp [Node.visitedParts, Node.parts])
      · exact hpart (x := ⟨.value, right⟩) (by simp [Node.visitedParts, Node.parts])
  | sort order operand =>
      refine .sort order ?_
      exact hpart (x := ⟨.name order.kind "sort expression", operand⟩)
        (by simp [Node.visitedParts, Node.parts])
  | grouping inner =>
      exact .grouping (hpart (x := ⟨.value, inner⟩) (by simp [Node.visitedParts, Node.parts]))
  | literal form value =>
      cases form with
      | quoted =>
          have hquote : p.quote value = q.quote value := by
            simpa [Node.isQuotedAlike] using h 0 _ (.here _)
          exact .leaf (by simp [Node.name, Node.document, hquote])
      | plain => exact .leaf (by simp [Node.name, Node.document])
      | casted => exact .leaf (by simp [Node.name, Node.document])
  | _ => exact .leaf (by simp [Node.name, Node.document])

/-- Policies that agree on the quoted literals of a query give it the same document. -/
theorem Node.document_eq_of_agreeOn {n : Node} (h : n.AgreeOn p q) :
    n.document p = n.document q :=
  (Node.document_eq_of_like (fun _ _ => SameUnder.like) (fun _ _ hleaf => hleaf) ⟨rfl, h⟩).2

end

namespace Compiler

variable (settings : Settings) (p q : Quoting)

/-- **Policy**: two compilers that differ in their policy compile the same queries, fail
with the same errors and report the same. If the policies agree on the quoted literals
that are visited, the documents are the same too. -/
theorem policy_reaches_quoted :
    (∀ n, (runNode ⟨settings, p⟩ n).Alike (runNode ⟨settings, q⟩ n) ∧
      (n.AgreeOn p q → compile ⟨settings, p⟩ n = compile ⟨settings, q⟩ n)) ∧
    ∀ s, (runStatement ⟨settings, p⟩ s).Alike (runStatement ⟨settings, q⟩ s) ∧
      ((Node.statement s).AgreeOn p q →
        compileStatement ⟨settings, p⟩ s = compileStatement ⟨settings, q⟩ s) := by
  have hcompile : ∀ n : Node, n.AgreeOn p q →
      compile ⟨settings, p⟩ n = compile ⟨settings, q⟩ n := by
    intro n hn
    rw [compile_eq_outcomeOf, compile_eq_outcomeOf, Node.document_eq_of_agreeOn hn]
  refine ⟨fun n => ⟨runNode_alike rfl ?_, hcompile n⟩, fun s => ⟨?_, fun hs => ?_⟩⟩
  · rw [run_lower, run_lower]
    exact .ofSteps _ _ _
  · have hlower : (lowerStatement ⟨settings, p⟩ s 0).Alike (lowerStatement ⟨settings, q⟩ s 0) := by
      rw [run_lowerStatement, run_lowerStatement]
      exact .ofSteps _ _ _
    exact (hlower.under "Statement").after _
  · rw [compileStatement_eq_compile, compileStatement_eq_compile]
    exact hcompile _ hs

/-- The two built-in policies agree on a number and not on a null, and the null is not
visited. -/
theorem policy_reaches_quoted_null :
    let null : Node := .equality .equal (.sqlLiteral "a") (some (.literal .quoted .null))
    let five : Node := .equality .notEqual (.sqlLiteral "b") (some (.literal .quoted (.int 5)))
    let n : Node := .connective .or null five
    Quoting.identity.quote .null ≠ Quoting.sql.quote .null ∧
      n.AgreeOn .identity .sql ∧
      compile ⟨.default, .identity⟩ n = compile ⟨.default, .sql⟩ n := by
  intro null five n
  have hagree : n.AgreeOn .identity .sql := by
    intro level x hx
    have hchecks : Place.checks Node.visitedParts (fun _ x => x.node.isQuotedAlike .identity .sql)
        3 0 ⟨.value, n⟩ = true := rfl
    exact Place.forall_reaches_of_checks hchecks level x hx
  exact ⟨by decide, hagree, ((policy_reaches_quoted .default .identity .sql).1 n).2 hagree⟩

end Compiler

end RelSearch
