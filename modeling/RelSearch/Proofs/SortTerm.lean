import RelSearch.Proofs.Assembly
import RelSearch.Proofs.Limit

/-!
# RelSearch.Proofs.SortTerm

Sort terms in parentheses.

A compiler looks at a sort term before it compiles it: a term with an order of its own
keeps it, and any other one is asked for a name. What it sees of a term in parentheses is
the parentheses.

1. A term without an order is a name, in parentheses as well. It sorts as before, if the
   parentheses do not push it past the limit.
2. A term with an order is no name. In parentheses it is refused, at whatever level: the
   order is not found there.

`Compiler.compileStatement_grouped` says this of every statement, every sort term of it and
any number of parentheses.
-/

namespace RelSearch

namespace Node

/-- A node with the given number of parentheses around it. -/
def grouped : Nat → Node → Node
  | 0, n => n
  | k + 1, n => .grouping (n.grouped k)

/-- `n.Within limit level`: where `n` stands at the given level, nothing in it that is visited
lies past the limit. -/
def Within (limit level : Nat) (n : Node) : Prop :=
  ∀ k p, n.Visits k p → p.role ≠ .core → level + k ≤ limit

/-- That a query keeps the limit can be checked place by place. -/
theorem within_of_checks {limit level fuel : Nat} {n : Node}
    (h : Place.checks visitedParts (fun k _ => k ≤ limit) fuel level ⟨.value, n⟩ = true) :
    n.Within limit level :=
  fun k p hp _ => of_decide_eq_true (Place.forall_reaches_of_checks h k p hp)

theorem isName_grouped (k : Nat) (n : Node) : (n.grouped k).isName = n.isName := by
  induction k with
  | zero => rfl
  | succ k ih => rw [grouped, isName, ih]

/-- Parentheses around a node do not change its name. -/
theorem name_grouped (q : Quoting) (k : Nat) (n : Node) : (n.grouped k).name q = n.name q := by
  induction k with
  | zero => rfl
  | succ k ih => rw [grouped, name, ih]

/-- In parentheses nothing is a sort term. -/
theorem isSort_grouped {k : Nat} (hk : 0 < k) (n : Node) : (n.grouped k).isSort = false := by
  cases k with
  | zero => cases hk
  | succ k => rfl

/-- A sort term is no name. -/
theorem isName_eq_false_of_isSort {n : Node} (h : n.isSort = true) : n.isName = false := by
  cases n with
  | sort order operand => rfl
  | _ => cases h

/-- Without an order of its own, a term sorts in the same way in parentheses. -/
theorem sortTerm_grouped (q : Quoting) {k : Nat} (hk : 0 < k) {n : Node} (h : n.isSort = false) :
    (n.grouped k).sortTerm q = n.sortTerm q := by
  rw [sortTerm_of_isSort_eq_false q h, sortTerm_of_isSort_eq_false q (isSort_grouped hk n),
    name_grouped]

end Node

/-! ## Faults of a node in parentheses -/

namespace Place

variable {limit low : Nat} {top : NodePath} {n : Node}

/-- Parentheses push a node down and do nothing else to its faults. -/
theorem faults_grouped_eq_nil_iff (above : NodePath) (level k : Nat) :
    faults limit above level ⟨.value, n.grouped k⟩ = [] ↔
      faults limit [] (level + k) ⟨.value, n⟩ = [] := by
  induction k generalizing above level with
  | zero =>
      exact ⟨faults_eq_nil_of_le above [] (Nat.le_refl level),
        faults_eq_nil_of_le [] above (Nat.le_refl level)⟩
  | succ k ih =>
      have hparts : (Node.grouping (n.grouped k)).visitedParts = [⟨.value, n.grouped k⟩] := rfl
      rw [Node.grouped, faults_value_eq_nil_iff, Node.faultsInside_eq_nil_iff, hparts,
        List.forall_mem_singleton, ih, Nat.add_right_comm level 1 k]
      constructor
      · rintro ⟨-, -, -, h⟩
        exact h
      · intro h
        have hlevel := ((faults_value_eq_nil_iff _ _ _ _).mp h).1
        exact ⟨by omega, rfl, rfl, h⟩

/-- A node without faults at some level has none at another one if it lies within the limit
there. -/
theorem faults_eq_nil_iff_within (h : faults limit top low ⟨.value, n⟩ = []) (above : NodePath)
    (level : Nat) : faults limit above level ⟨.value, n⟩ = [] ↔ n.Within limit level := by
  rw [faults_eq_nil_iff_forall_sound _ _ _ _ (by simp)] at h ⊢
  constructor
  · intro hsound k p hp
    exact (hsound k p hp).within
  · intro hwithin k p hp
    obtain ⟨htranslated, -, hnamed, hfinite⟩ := h k p hp
    exact ⟨htranslated, hwithin k p hp, hnamed, hfinite⟩

/-- A node without faults at some level is at most too deep in parentheses. -/
theorem faults_grouped_eq_tooDeep (h : faults limit top low ⟨.value, n⟩ = []) (above : NodePath)
    (level k : Nat) (hdeep : ¬ n.Within limit (level + k)) :
    ∃ path more, faults limit above level ⟨.value, n.grouped k⟩ =
      ⟨.tooDeep limit, path⟩ :: more := by
  -- under a limit that is high enough the node has no faults in its parentheses
  have hwide : faults (limit + (level + k)) above level ⟨.value, n.grouped k⟩ = [] := by
    rw [faults_grouped_eq_nil_iff, faults_eq_nil_iff_forall_sound _ _ _ _ (by simp)]
    rw [faults_eq_nil_iff_forall_sound _ _ _ _ (by simp)] at h
    intro j p hp
    obtain ⟨htranslated, hwithin, hnamed, hfinite⟩ := h j p hp
    exact ⟨htranslated, fun hcore => by have := hwithin hcore; omega, hnamed, hfinite⟩
  have hagree := agreeUpTo_faults (Nat.le_add_right limit (level + k)) above level
    ⟨.value, n.grouped k⟩
  rw [hwide] at hagree
  cases hfaults : faults limit above level ⟨.value, n.grouped k⟩ with
  | nil =>
      rw [faults_grouped_eq_nil_iff, faults_eq_nil_iff_within h] at hfaults
      exact absurd hfaults hdeep
  | cons e more =>
      rw [hfaults] at hagree
      cases hagree with
      | tooDeep path => exact ⟨path, more, rfl⟩

end Place

/-! ## Sort terms of a statement -/

namespace Compiler

variable (c : Compiler)

/-- The faults of a sort term of a statement. -/
def sortTermFaults (term : Node) : List CompileError :=
  Place.faults c.settings.maxDepth ["Statement"] 1 (.ofSortTerm term)

/-- Sort terms are visited in their order, and before limit and offset. -/
theorem clauseFaults_append (before after : List Node) (limit offset : Option Node) :
    c.clauseFaults (before ++ after) limit offset =
      before.flatMap c.sortTermFaults ++ c.clauseFaults after limit offset := by
  have hterms : before.flatMap c.sortTermFaults = (before.map .ofSortTerm).flatMap
      (Place.faults c.settings.maxDepth ["Statement"] 1) := by
    rw [List.flatMap_map]
    rfl
  simp [clauseFaults, Statement.parts, hterms]

/-- What is compiled before and after a sort term does not depend on the term. -/
theorem compileStatement_eq_around (cores : List Core) (before after : List Node)
    (limit offset : Option Node) :
    ∃ earlier later, ∀ term,
      let s : Statement := ⟨cores, before ++ term :: after, limit, offset⟩
      c.compileStatement s = outcomeOf (s.document c.quoting)
        (earlier ++ c.sortTermFaults term ++ later) := by
  refine ⟨cores.flatMap c.coreFaults ++ before.flatMap c.sortTermFaults,
    c.clauseFaults after limit offset, ?_⟩
  intro term s
  have hterm : c.clauseFaults (term :: after) limit offset =
      c.sortTermFaults term ++ c.clauseFaults after limit offset := by
    simpa using c.clauseFaults_append [term] after limit offset
  rw [compileStatement_eq_outcomeOf, clauseFaults_append, hterm]
  simp only [s, List.append_assoc]

/-- A sort term without an order has the faults of a name. -/
theorem sortTermFaults_of_isSort_eq_false {term : Node} (h : term.isSort = false) :
    c.sortTermFaults term = Place.faults c.settings.maxDepth ["Statement"] 1
      ⟨.name "Statement" "sort term", term⟩ := by
  rw [sortTermFaults, Place.ofSortTerm, h]
  rfl

/-- A sort term with an order has the faults of a value. -/
theorem sortTermFaults_of_isSort {term : Node} (h : term.isSort = true) :
    c.sortTermFaults term =
      Place.faults c.settings.maxDepth ["Statement"] 1 ⟨.value, term⟩ := by
  rw [sortTermFaults, Place.ofSortTerm, h]
  rfl

/-- A term without faults has none where it stands as a value. -/
theorem faults_value_of_sortTermFaults {term : Node} (h : c.sortTermFaults term = []) :
    Place.faults c.settings.maxDepth ["Statement"] 1 ⟨.value, term⟩ = [] := by
  cases hsort : term.isSort with
  | true => rwa [sortTermFaults_of_isSort c hsort] at h
  | false =>
      rw [sortTermFaults_of_isSort_eq_false c hsort, Place.faults_name_eq_nil_iff] at h
      exact h.1

/-- A term in parentheses has no faults exactly if the term has none and no order, and the
parentheses do not push it past the limit. -/
theorem sortTermFaults_grouped_eq_nil_iff {k : Nat} (hk : 0 < k) (term : Node) :
    c.sortTermFaults (term.grouped k) = [] ↔ c.sortTermFaults term = [] ∧ term.isSort = false ∧
      term.Within c.settings.maxDepth (1 + k) := by
  rw [sortTermFaults_of_isSort_eq_false c (Node.isSort_grouped hk term),
    Place.faults_name_eq_nil_iff, Node.isName_grouped, Place.faults_grouped_eq_nil_iff]
  constructor
  · rintro ⟨hdown, hname⟩
    have hsort : term.isSort = false := by
      by_contra hsort
      rw [Node.isName_eq_false_of_isSort (by simpa using hsort)] at hname
      cases hname
    have hvalue := Place.faults_eq_nil_of_le [] ["Statement"] (Nat.le_add_right 1 k) hdown
    rw [sortTermFaults_of_isSort_eq_false c hsort, Place.faults_name_eq_nil_iff]
    exact ⟨⟨hvalue, hname⟩, hsort, (Place.faults_eq_nil_iff_within hvalue _ _).mp hdown⟩
  · rintro ⟨hterm, hsort, hwithin⟩
    rw [sortTermFaults_of_isSort_eq_false c hsort, Place.faults_name_eq_nil_iff] at hterm
    exact ⟨(Place.faults_eq_nil_iff_within hterm.1 _ _).mpr hwithin, hterm.2⟩

/-- A term with an order that is not pushed past the limit by its parentheses is refused, as
it is no name. -/
theorem sortTermFaults_grouped_sort {k : Nat} (hk : 0 < k) {term : Node}
    (h : c.sortTermFaults term = []) (hsort : term.isSort = true)
    (hwithin : term.Within c.settings.maxDepth (1 + k)) :
    c.sortTermFaults (term.grouped k) =
      [⟨.notName "Statement" "sort term" (term.grouped k), ["Statement"]⟩] := by
  rw [sortTermFaults_of_isSort c hsort] at h
  have hvalue : Place.faults c.settings.maxDepth ["Statement"] 1 ⟨.value, term.grouped k⟩ = [] := by
    rw [Place.faults_grouped_eq_nil_iff, Place.faults_eq_nil_iff_within h]
    exact hwithin
  rw [sortTermFaults_of_isSort_eq_false c (Node.isSort_grouped hk term), Place.faults_name, hvalue,
    Node.isName_grouped, Node.isName_eq_false_of_isSort hsort]
  rfl

/-- A term that is pushed past the limit by its parentheses is too deep. -/
theorem sortTermFaults_grouped_deep {k : Nat} (hk : 0 < k) {term : Node}
    (h : c.sortTermFaults term = []) (hdeep : ¬ term.Within c.settings.maxDepth (1 + k)) :
    ∃ path more, c.sortTermFaults (term.grouped k) =
      ⟨.tooDeep c.settings.maxDepth, path⟩ :: more := by
  obtain ⟨path, more, hfaults⟩ := Place.faults_grouped_eq_tooDeep
    (c.faults_value_of_sortTermFaults h) ["Statement"] 1 k hdeep
  refine ⟨path, more, ?_⟩
  rw [sortTermFaults_of_isSort_eq_false c (Node.isSort_grouped hk term), Place.faults_name, hfaults]
  rfl

/-- **Sort terms in parentheses**: a statement compiles with parentheses around a sort term
exactly if it compiles without them, the term has no order of its own, and the parentheses do
not push it past the limit; the document is the same then. A term with an order is refused in
parentheses, and one that is pushed past the limit is too deep. -/
theorem compileStatement_grouped (cores : List Core) (before after : List Node)
    (limit offset : Option Node) (term : Node) {k : Nat} (hk : 0 < k) :
    let s (term : Node) : Statement := ⟨cores, before ++ term :: after, limit, offset⟩
    (∀ d, c.compileStatement (s (term.grouped k)) = .ok d ↔
      c.compileStatement (s term) = .ok d ∧ term.isSort = false ∧
        term.Within c.settings.maxDepth (1 + k)) ∧
    (∀ d, c.compileStatement (s term) = .ok d → term.isSort = true →
      term.Within c.settings.maxDepth (1 + k) →
      c.compileStatement (s (term.grouped k)) =
        .error ⟨.notName "Statement" "sort term" (term.grouped k), ["Statement"]⟩) ∧
    ∀ d, c.compileStatement (s term) = .ok d → ¬ term.Within c.settings.maxDepth (1 + k) →
      ∃ path, c.compileStatement (s (term.grouped k)) =
        .error ⟨.tooDeep c.settings.maxDepth, path⟩ := by
  intro s
  obtain ⟨earlier, later, hs⟩ := c.compileStatement_eq_around cores before after limit offset
  have hclean : ∀ d, c.compileStatement (s term) = .ok d →
      earlier = [] ∧ c.sortTermFaults term = [] := by
    intro d h
    rw [hs, outcomeOf_eq_ok_iff, List.append_eq_nil_iff, List.append_eq_nil_iff] at h
    exact h.1.1
  refine ⟨fun d => ?_, fun d h hsort hwithin => ?_, fun d h hdeep => ?_⟩
  · have hdocument : term.isSort = false →
        (s (term.grouped k)).document c.quoting = (s term).document c.quoting := by
      intro hsort
      simp [s, Statement.document_eq, Node.sortTerm_grouped c.quoting hk hsort]
    rw [hs, hs, outcomeOf_eq_ok_iff, outcomeOf_eq_ok_iff]
    simp only [List.append_eq_nil_iff, c.sortTermFaults_grouped_eq_nil_iff hk term]
    constructor
    · rintro ⟨⟨⟨hearlier, hterm, hsort, hwithin⟩, hlater⟩, rfl⟩
      exact ⟨⟨⟨⟨hearlier, hterm⟩, hlater⟩, hdocument hsort⟩, hsort, hwithin⟩
    · rintro ⟨⟨⟨⟨hearlier, hterm⟩, hlater⟩, rfl⟩, hsort, hwithin⟩
      exact ⟨⟨⟨hearlier, hterm, hsort, hwithin⟩, hlater⟩, (hdocument hsort).symm⟩
  · obtain ⟨rfl, hterm⟩ := hclean d h
    rw [hs, c.sortTermFaults_grouped_sort hk hterm hsort hwithin]
    rfl
  · obtain ⟨rfl, hterm⟩ := hclean d h
    obtain ⟨path, more, hfaults⟩ := c.sortTermFaults_grouped_deep hk hterm hdeep
    refine ⟨path, ?_⟩
    rw [hs, hfaults]
    rfl

/-- Two parentheses around a name and around a term with an order, and around a name that
stands at the limit already. -/
theorem compileStatement_grouped_age :
    let s (term : Node) : Statement :=
      ⟨[⟨[.sqlLiteral "id"], []⟩], [.sqlLiteral "name"] ++ term :: [], none, none⟩
    let age : Node := .sqlLiteral "age"
    let oldest : Node := .sort .descending age
    (∃ d, compileStatement ⟨⟨3⟩, .sql⟩ (s age) = .ok d ∧ age.Within 3 (1 + 2) ∧
      compileStatement ⟨⟨3⟩, .sql⟩ (s (age.grouped 2)) = .ok d) ∧
    (∃ d, compileStatement ⟨⟨4⟩, .sql⟩ (s oldest) = .ok d ∧ oldest.Within 4 (1 + 2) ∧
      compileStatement ⟨⟨4⟩, .sql⟩ (s (oldest.grouped 2)) =
        .error ⟨.notName "Statement" "sort term" (oldest.grouped 2), ["Statement"]⟩) ∧
    ∃ d, compileStatement ⟨⟨2⟩, .sql⟩ (s age) = .ok d ∧ ¬ age.Within 2 (1 + 2) ∧
      ∃ path, compileStatement ⟨⟨2⟩, .sql⟩ (s (age.grouped 2)) = .error ⟨.tooDeep 2, path⟩ := by
  intro s age oldest
  have hage : age.Within 3 (1 + 2) := Node.within_of_checks (rfl : Place.checks _ _ 2 _ _ = true)
  have holdest : oldest.Within 4 (1 + 2) :=
    Node.within_of_checks (rfl : Place.checks _ _ 3 _ _ = true)
  have hdeep : ¬ age.Within 2 (1 + 2) := fun h =>
    absurd (h 0 _ (.here _) (by simp)) (by decide)
  have hgrouped := fun limit term => compileStatement_grouped ⟨⟨limit⟩, .sql⟩
    [⟨[.sqlLiteral "id"], []⟩] [.sqlLiteral "name"] [] none none term (k := 2) (by decide)
  exact ⟨⟨_, rfl, hage, ((hgrouped 3 age).1 _).mpr ⟨rfl, rfl, hage⟩⟩,
    ⟨_, rfl, holdest, (hgrouped 4 oldest).2.1 _ rfl rfl holdest⟩,
    _, rfl, hdeep, (hgrouped 2 age).2.2 _ rfl hdeep⟩

/-- A descending term sorts, and the same term in parentheses is refused. -/
theorem compileStatement_grouped_descending :
    let oldest : Node := .sort .descending (.column ⟨none, "age", .undefined⟩)
    new.compileStatement ⟨[], [oldest], none, none⟩ =
        .ok (.object [("query", .object [("sort", .array [
          .object [("attribute", .object [("name", .string "age")]),
            ("order", .string "descending")]])])]) ∧
      new.compileStatement ⟨[], [.grouping oldest], none, none⟩ =
        .error ⟨.invalidShape "Statement"
          "sort term must resolve to an attribute name, got `Grouping`", ["Statement"]⟩ :=
  ⟨rfl, rfl⟩

end Compiler

end RelSearch
