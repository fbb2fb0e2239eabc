import RelSearch.Proofs.Steps

/-!
# RelSearch.Proofs.Domain

Which queries can be compiled, and to what.

`Node.Compilable` says it from the query alone: everything in it has a
counterpart in search documents, nothing that is visited lies past the limit,
every node that has to be a name is one, and no float is in the way.
`Compiler.compile_translates` says that exactly these queries compile, and that
the result is the document of `RelSearch.Proofs.Translation`.
-/

namespace RelSearch

/-- A query that can be compiled by a compiler with the given limit. -/
structure Node.Compilable (limit : Nat) (n : Node) : Prop where
  /-- Search documents have something for every node. -/
  translated : ∀ level p, n.Contains level p → p.node.isTranslated = true
  /-- No visited node lies past the limit. The core of a statement has a level
  but is not visited itself. -/
  within : ∀ level p, n.Visits level p → p.role ≠ .core → level ≤ limit
  /-- Every node that has to be a name is one. -/
  named : ∀ level owner part x, n.Contains level ⟨.name owner part, x⟩ → x.isName = true
  /-- No visited literal has a float that is not finite, quoted ones apart. -/
  finite : ∀ level p, n.Visits level p → p.node.isFinite = true

/-! ## Soundness of a single place -/

/-- Nothing is wrong with a place at its level, whatever its parts are. -/
structure Place.Sound (limit level : Nat) (p : Place) : Prop where
  translated : p.node.isTranslated = true
  within : p.role ≠ .core → level ≤ limit
  named : ∀ owner part, p.role = .name owner part → p.node.isName = true
  finite : p.node.isFinite = true

/-- There is no fault inside a node that documents have something for and whose visited parts have
none. -/
theorem Node.faultsInside_eq_nil_iff (limit : Nat) (above : NodePath) (level : Nat) (n : Node) :
    n.faultsInside limit above level = [] ↔ n.isTranslated = true ∧ n.isFinite = true ∧
      ∀ q ∈ n.visitedParts, q.faults limit (above ++ [n.kind]) (level + 1) = [] := by
  have hparts : (∀ q ∈ n.parts, q.faults limit (above ++ [n.kind]) (level + 1) = []) ↔
      ∀ q ∈ n.visitedParts, q.faults limit (above ++ [n.kind]) (level + 1) = [] := by
    constructor
    · intro h q hq
      exact h q (Node.mem_visitedParts.mp hq).1
    · rintro h ⟨role, x⟩ hq
      by_cases hrole : role = .skipped
      · rw [hrole, Place.faults_skipped]
      · exact h _ (Node.mem_visitedParts.mpr ⟨hq, hrole⟩)
  rw [Node.faultsInside, List.append_eq_nil_iff, List.map_eq_nil_iff, Node.ownFaults_eq_nil_iff,
    List.flatMap_eq_nil_iff, hparts, and_assoc]

namespace Place

/-- A visited node has no faults if it keeps the limit and has none inside. -/
theorem faults_value_eq_nil_iff (limit : Nat) (above : NodePath) (level : Nat) (n : Node) :
    faults limit above level ⟨.value, n⟩ = [] ↔
      level ≤ limit ∧ n.faultsInside limit above level = [] := by
  rw [faults_value]
  by_cases h : limit < level
  · simp [h, Nat.not_le.mpr h]
  · simp [h, Nat.not_lt.mp h]

/-- A node that has to be a name has no faults if it has none as a value and is a name. -/
theorem faults_name_eq_nil_iff (limit : Nat) (above : NodePath) (level : Nat) (n : Node)
    (owner part : String) :
    faults limit above level ⟨.name owner part, n⟩ = [] ↔
      faults limit above level ⟨.value, n⟩ = [] ∧ n.isName = true := by
  rw [faults_name]
  cases faults limit above level ⟨.value, n⟩ <;> cases n.isName <;> simp

/-- A place has no faults if nothing is wrong with it and its parts have none. -/
theorem faults_eq_nil_iff (limit : Nat) (above : NodePath) (level : Nat) (p : Place)
    (h : p.role ≠ .skipped) :
    p.faults limit above level = [] ↔ p.Sound limit level ∧
      ∀ q ∈ p.node.visitedParts, q.faults limit (above ++ [p.node.kind]) (level + 1) = [] := by
  obtain ⟨role, n⟩ := p
  have hinside := n.faultsInside_eq_nil_iff limit above level
  cases role with
  | skipped => exact absurd rfl h
  | core =>
      rw [faults_core, hinside]
      constructor
      · rintro ⟨ht, hf, hparts⟩
        exact ⟨⟨ht, fun hc => absurd rfl hc, nofun, hf⟩, hparts⟩
      · rintro ⟨hs, hparts⟩
        exact ⟨hs.translated, hs.finite, hparts⟩
  | value =>
      rw [faults_value_eq_nil_iff, hinside]
      constructor
      · rintro ⟨hl, ht, hf, hparts⟩
        exact ⟨⟨ht, fun _ => hl, nofun, hf⟩, hparts⟩
      · rintro ⟨hs, hparts⟩
        exact ⟨hs.within nofun, hs.translated, hs.finite, hparts⟩
  | name owner part =>
      rw [faults_name_eq_nil_iff, faults_value_eq_nil_iff, hinside]
      constructor
      · rintro ⟨⟨hl, ht, hf, hparts⟩, hn⟩
        exact ⟨⟨ht, fun _ => hl, fun _ _ _ => hn, hf⟩, hparts⟩
      · rintro ⟨hs, hparts⟩
        exact ⟨⟨hs.within nofun, hs.translated, hs.finite, hparts⟩, hs.named owner part rfl⟩

/-- A place has no faults if nothing is wrong with any place on a way down. -/
theorem faults_eq_nil_iff_forall_sound (limit : Nat) (above : NodePath) (level : Nat) (p : Place)
    (h : p.role ≠ .skipped) :
    p.faults limit above level = [] ↔
      ∀ k q, Reaches Node.visitedParts p k q → q.Sound limit (level + k) := by
  obtain ⟨role, n⟩ := p
  induction n using Node.induction_parts generalizing role above level with
  | step n ih =>
      have hparts : ∀ q ∈ n.visitedParts,
          (q.faults limit (above ++ [n.kind]) (level + 1) = [] ↔
            ∀ k r, Reaches Node.visitedParts q k r → r.Sound limit (level + (k + 1))) := by
        intro q hq
        obtain ⟨hmem, hrole⟩ := Node.mem_visitedParts.mp hq
        rw [ih q hmem (above ++ [n.kind]) (level + 1) q.role hrole]
        simp only [Nat.add_assoc, Nat.add_comm 1]
      rw [faults_eq_nil_iff limit above level _ h, forall_reaches_iff, Nat.add_zero]
      exact and_congr_right fun _ => forall₂_congr hparts

/-- A place that has no faults has none further up either. -/
theorem faults_eq_nil_of_le {limit level higher : Nat} {p : Place} (above top : NodePath)
    (hle : higher ≤ level) (h : p.faults limit above level = []) :
    p.faults limit top higher = [] := by
  by_cases hrole : p.role = .skipped
  · obtain ⟨role, n⟩ := p
    obtain rfl : role = .skipped := hrole
    exact faults_skipped limit top higher n
  · rw [faults_eq_nil_iff_forall_sound _ _ _ _ hrole] at h ⊢
    intro k q way
    obtain ⟨htranslated, hwithin, hnamed, hfinite⟩ := h k q way
    exact ⟨htranslated, fun hcore => by have := hwithin hcore; omega, hnamed, hfinite⟩

end Place

/-- What is visited in a query without faults has none as a query of its own. -/
theorem Node.faults_part_eq_nil {limit : Nat} {n : Node} {p : Place} (h : n.faults limit = [])
    (hp : p ∈ n.visitedParts) (hcore : p.role ≠ .core) : p.node.faults limit = [] := by
  have hpart := ((Place.faults_eq_nil_iff limit [] 0 ⟨.value, n⟩ nofun).mp h).2 p hp
  obtain ⟨role, x⟩ := p
  have hvalue : Place.faults limit ([] ++ [n.kind]) 1 ⟨.value, x⟩ = [] := by
    cases role with
    | core => exact absurd rfl hcore
    | value => exact hpart
    | name owner part => exact ((Place.faults_name_eq_nil_iff _ _ _ _ _ _).mp hpart).1
    | skipped => exact absurd rfl (Node.mem_visitedParts.mp hp).2
  exact Place.faults_eq_nil_of_le _ [] (Nat.zero_le 1) hvalue

/-- What is visited in a query without faults, at whatever depth, has none at its
level. -/
theorem Node.Visits.faults_eq_nil {limit level : Nat} {n : Node} {p : Place}
    (hp : n.Visits level p) (h : n.faults limit = []) (hcore : p.role ≠ .core)
    (hskipped : p.role ≠ .skipped) : Place.faults limit [] level ⟨.value, p.node⟩ = [] := by
  rw [Node.faults, Place.faults_eq_nil_iff_forall_sound limit [] 0 ⟨.value, n⟩ (by simp)] at h
  have hbelow : p.faults limit [] level = [] := by
    rw [Place.faults_eq_nil_iff_forall_sound _ _ _ _ hskipped]
    intro k q hq
    have hsound := h (level + k) q (hp.trans hq)
    rwa [Nat.zero_add] at hsound
  obtain ⟨role, x⟩ := p
  cases role with
  | core => exact absurd rfl hcore
  | value => exact hbelow
  | name owner part => exact ((Place.faults_name_eq_nil_iff _ _ _ _ _ _).mp hbelow).1
  | skipped => exact absurd rfl hskipped

/-- What is visited as a value in a query without faults has none itself. -/
theorem Node.faults_value_eq_nil {limit : Nat} {n x : Node} (h : n.faults limit = [])
    (hx : ⟨.value, x⟩ ∈ n.visitedParts) : x.faults limit = [] :=
  Node.faults_part_eq_nil h hx nofun

/-- What has to be a name in a query without faults is one. -/
theorem Node.isName_part {limit : Nat} {n x : Node} {owner part : String}
    (h : n.faults limit = []) (hx : ⟨.name owner part, x⟩ ∈ n.visitedParts) : x.isName = true := by
  have hpart := ((Place.faults_eq_nil_iff limit [] 0 ⟨.value, n⟩ nofun).mp h).2 _ hx
  exact ((Place.faults_name_eq_nil_iff _ _ _ _ _ _).mp hpart).2

/-! ## Places that are not visited -/

theorem Core.role_ne_skipped_of_mem_parts {c : Core} {p : Place} (h : p ∈ c.parts) :
    p.role ≠ .skipped := by
  simp only [Core.parts, List.mem_append, List.mem_map] at h
  rcases h with ⟨n, -, rfl⟩ | ⟨n, -, rfl⟩ <;> nofun

/-- The parts of a core are its projections and its conditions. -/
theorem Core.node_mem_of_mem_parts {c : Core} {p : Place} (h : p ∈ c.parts) :
    p.node ∈ c.projections ++ c.wheres := by
  simp only [Core.parts, List.mem_append, List.mem_map] at h ⊢
  rcases h with ⟨n, hn, rfl⟩ | ⟨n, hn, rfl⟩
  · exact .inl hn
  · exact .inr hn

theorem Statement.role_ne_skipped_of_mem_parts {s : Statement} {p : Place} (h : p ∈ s.parts) :
    p.role ≠ .skipped := by
  simp only [Statement.parts, List.mem_append, List.mem_map] at h
  rcases h with ((⟨c, -, rfl⟩ | ⟨n, -, rfl⟩) | ⟨n, -, rfl⟩) | ⟨n, -, rfl⟩
  · nofun
  · unfold Place.ofSortTerm
    split <;> nofun
  · nofun
  · nofun

/-- Below a node that search documents have something for, only the right side of a
test is not looked at, if it is a literal null. -/
theorem Node.eq_equality_of_skipped {n x : Node} (hn : n.isTranslated = true)
    (h : ⟨.skipped, x⟩ ∈ n.parts) :
    ∃ op left, n = .equality op left (some x) ∧ x.isNull = true := by
  cases n with
  | equality op left right =>
      simp only [Node.parts, List.mem_cons, Place.mk.injEq, reduceCtorEq, false_and, false_or,
        List.mem_map, Option.mem_toList] at h
      obtain ⟨r, rfl, hr⟩ := h
      unfold Place.ofRight at hr
      split at hr
      · next hnull =>
          obtain rfl := (Place.mk.inj hr).2
          exact ⟨op, left, rfl, hnull⟩
      · cases hr
  | statement s => exact absurd rfl (Statement.role_ne_skipped_of_mem_parts h)
  | subquery s => exact absurd rfl (Statement.role_ne_skipped_of_mem_parts h)
  | core c => exact absurd rfl (Core.role_ne_skipped_of_mem_parts h)
  | comparison op left right => cases hn
  | not operand => cases hn
  | namedFunction name args => cases hn
  | _ => simp [Node.parts] at h

/-- A literal null has nothing below it. -/
theorem Node.parts_eq_nil_of_isNull {n : Node} (h : n.isNull = true) : n.parts = [] := by
  cases n with
  | literal form value => rfl
  | _ => cases h

theorem Node.isTranslated_of_isNull {n : Node} (h : n.isNull = true) : n.isTranslated = true := by
  cases n with
  | literal form value => rfl
  | _ => cases h

/-- Where everything that is visited has something in search documents, a place
is visited or it is a literal null. -/
theorem Place.Reaches.visited_or_isNull {p q : Place} {k : Nat}
    (way : Reaches Node.parts p k q)
    (h : ∀ j r, Reaches Node.visitedParts p j r → r.node.isTranslated = true) :
    Reaches Node.visitedParts p k q ∨ q.role = .skipped ∧ q.node.isNull = true := by
  induction way with
  | here p => exact .inl (.here p)
  | @down p q r k part way ih =>
      rw [Place.forall_reaches_iff] at h
      by_cases hrole : q.role = .skipped
      · obtain ⟨role, x⟩ := q
        obtain rfl : role = .skipped := hrole
        obtain ⟨-, -, -, hnull⟩ := Node.eq_equality_of_skipped h.1 part
        -- a literal has no parts, so the way ends here
        cases way with
        | here => exact .inr ⟨rfl, hnull⟩
        | down part _ =>
            rw [Node.parts_eq_nil_of_isNull hnull] at part
            exact absurd part List.not_mem_nil
      · have hq : q ∈ p.node.visitedParts := Node.mem_visitedParts.mpr ⟨part, hrole⟩
        rcases ih (h.2 q hq) with hr | hr
        · exact .inl (.down hq hr)
        · exact .inr hr

/-- A query has no faults if it can be compiled. -/
theorem Node.faults_eq_nil_iff (limit : Nat) (n : Node) :
    n.faults limit = [] ↔ n.Compilable limit := by
  rw [Node.faults, Place.faults_eq_nil_iff_forall_sound limit [] 0 ⟨.value, n⟩ (by simp)]
  simp only [Nat.zero_add]
  constructor
  · intro h
    have htranslated := fun j r way => (h j r way).translated
    refine ⟨?_, fun level p hp hrole => (h level p hp).within hrole, ?_,
      fun level p hp => (h level p hp).finite⟩
    · intro level p hp
      rcases Place.Reaches.visited_or_isNull hp htranslated with hvisited | ⟨-, hnull⟩
      · exact (h level p hvisited).translated
      · exact Node.isTranslated_of_isNull hnull
    · intro level owner part x hx
      rcases Place.Reaches.visited_or_isNull hx htranslated with hvisited | ⟨hrole, -⟩
      · exact (h level _ hvisited).named owner part rfl
      · cases hrole
  · intro h level p hp
    have hcontains : n.Contains level p := Node.Visits.contains hp
    refine ⟨h.translated level p hcontains, h.within level p hp, ?_, h.finite level p hp⟩
    intro owner part hrole
    obtain ⟨role, x⟩ := p
    obtain rfl : role = .name owner part := hrole
    exact h.named level owner part x hcontains

theorem Node.isTranslated_of_faults_eq_nil {limit : Nat} {n : Node} (h : n.faults limit = []) :
    n.isTranslated = true :=
  ((Node.faults_eq_nil_iff limit n).mp h).translated 0 _ (.here _)

theorem Node.isFinite_of_faults_eq_nil {limit : Nat} {n : Node} (h : n.faults limit = []) :
    n.isFinite = true :=
  ((Node.faults_eq_nil_iff limit n).mp h).finite 0 _ (.here _)

namespace Compiler

variable (c : Compiler)

/-- The queries that compile, and what they compile to. -/
theorem compile_eq_ok_iff (n : Node) (d : Document) :
    c.compile n = .ok d ↔ n.Compilable c.settings.maxDepth ∧ d = n.document c.quoting := by
  rw [compile_eq_outcomeOf, outcomeOf_eq_ok_iff, Node.faults_eq_nil_iff]

/-- **Domain**: a compiler compiles exactly the queries that can be compiled with its limit,
and makes of each the document that it stands for, as `RelSearch.Proofs.Translation` writes
it out. A statement is no different. -/
theorem compile_translates :
    (∀ n d, c.compile n = .ok d ↔ n.Compilable c.settings.maxDepth ∧ d = n.document c.quoting) ∧
    ∀ s d, c.compileStatement s = .ok d ↔
      (Node.statement s).Compilable c.settings.maxDepth ∧ d = s.document c.quoting := by
  refine ⟨c.compile_eq_ok_iff, fun s d => ?_⟩
  rw [compileStatement_eq_compile, compile_eq_ok_iff, Node.document]

/-- A statement with every clause: it keeps a limit of four levels, and its document has every
section. -/
theorem compile_translates_statement :
    let s : Statement := ⟨[⟨[.column ⟨some "users", "id", .integer⟩],
        [.equality .notEqual (.sqlLiteral "age") (some (.literal .casted (.int 30))),
          .connective .or (.equality .equal (.sqlLiteral "email") none) (.bool true)]⟩],
      [.sort .descending (.sqlLiteral "age"), .grouping (.sqlLiteral "id")],
      some (.literal .plain (.uint 10)), some (.literal .quoted (.int 20))⟩
    let reference (name : String) : Document := .object [("name", .string name)]
    let filter (name : String) (parameter : Document) : Document :=
      .object [("filter", .object [("attribute", reference name), ("parameter", parameter)])]
    (Node.statement s).Compilable 4 ∧
      s.document .identity = .object [
        ("query", .object [
          ("projection", .array [reference "id"]),
          ("filter", .object [("and", .array [
            .object [("not", filter "age" (.object [("eq", .number (.int 30))]))],
            .object [("or", .array [
              filter "email" (.object [("is_null", .bool true)]), .bool true])]])]),
          ("sort", .array [
            .object [("attribute", reference "age"), ("order", .string "descending")],
            .object [("attribute", reference "id"), ("order", .string "ascending")]])]),
        ("per_page", .number (.int 10)),
        ("offset", .string "20")] := by
  intro s reference filter
  obtain ⟨hcompilable, hdocument⟩ := ((compile_translates ⟨⟨4⟩, .identity⟩).2 s _).mp rfl
  exact ⟨hcompilable, hdocument.symm⟩

end Compiler

end RelSearch
