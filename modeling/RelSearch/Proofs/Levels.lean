import RelSearch.Proofs.Domain

/-!
# RelSearch.Proofs.Levels

Which levels the limit of a compiler covers.

A compiler asks for the level of a node when it visits it. The core of a statement
is entered without being visited, so nobody asks for its level; whatever stands in
the core is visited one level further down, and that is enough unless the core is
empty. So the places of a query that compiles keep the limit, with one exception:
an empty core of a statement that stands exactly at the limit.

`Compiler.compile_eq_ok_iff_levels` adds that this is all the limit does: a query
that compiles under some limit compiles under every limit that its places keep in
this way.
-/

namespace RelSearch

/-- `p.Keeps limit level`: the place is not past the limit, or it is an empty core of
a statement that is not. -/
def Place.Keeps (limit level : Nat) (p : Place) : Prop :=
  level ≤ limit ∨ level = limit + 1 ∧ p = ⟨.core, .core .empty⟩

namespace Node

variable {limit level : Nat} {n : Node}

/-- In a query that compiles only literal nulls are not visited. -/
theorem Compilable.visited_or_isNull (h : n.Compilable limit) {p : Place}
    (hp : n.Contains level p) : n.Visits level p ∨ p.role = .skipped ∧ p.node.isNull = true :=
  Place.Reaches.visited_or_isNull hp fun j r way => h.translated j r (Visits.contains way)

/-- The core of a statement keeps the limit: its parts do, or it has none and the
statement does. -/
theorem Compilable.keeps_core (h : n.Compilable limit) {x : Node}
    (hp : n.Visits level ⟨.core, x⟩) : Place.Keeps limit level ⟨.core, x⟩ := by
  cases level with
  | zero => cases hp
  | succ level =>
      obtain ⟨owner, howner, hpart⟩ := hp.last_step
      obtain ⟨-, -, ⟨projections, wheres⟩, -, rfl⟩ :=
        statement_of_core_mem_parts (mem_visitedParts.mp hpart).1
      cases hparts : (⟨projections, wheres⟩ : Core).parts with
      | nil =>
          have hrole := (Visits.isVisited howner).role_ne_core hpart rfl
          have hle := h.within level owner howner hrole
          rcases Nat.lt_or_eq_of_le hle with hlt | rfl
          · exact .inl hlt
          · simp only [Core.parts, List.append_eq_nil_iff, List.map_eq_nil_iff] at hparts
            obtain ⟨rfl, rfl⟩ := hparts
            exact .inr ⟨rfl, rfl⟩
      | cons p ps =>
          have hmem : p ∈ (⟨projections, wheres⟩ : Core).parts := hparts ▸ List.mem_cons_self
          have hinside : p ∈ (Node.core ⟨projections, wheres⟩).visitedParts :=
            mem_visitedParts.mpr ⟨hmem, Core.role_ne_skipped_of_mem_parts hmem⟩
          have hvisited : n.Visits (level + 1 + 1) p := hp.trans (.down hinside (.here p))
          have hle := h.within _ p hvisited fun hcore =>
            (Visits.isVisited hp).role_ne_core hinside hcore rfl
          exact .inl (by omega)

/-- A literal null on the right of a test keeps the limit, since the left side does. -/
theorem Compilable.keeps_skipped (h : n.Compilable limit) {x : Node}
    (hp : n.Contains level ⟨.skipped, x⟩) : level ≤ limit := by
  cases level with
  | zero => cases hp
  | succ level =>
      obtain ⟨⟨role, owner⟩, howner, hpart⟩ := hp.last_step
      have htranslated := h.translated level _ howner
      obtain ⟨op, left, rfl, -⟩ := eq_equality_of_skipped htranslated hpart
      rcases h.visited_or_isNull howner with hvisited | ⟨-, hnull⟩
      · have hleft : n.Visits (level + 1) ⟨.name op.kind "left side", left⟩ :=
          hvisited.trans (.down (by simp [visitedParts, parts]) (.here _))
        exact h.within _ _ hleft (by simp)
      · cases hnull

/-- Every place of a query that compiles keeps the limit. -/
theorem Compilable.keeps (h : n.Compilable limit) {p : Place} (hp : n.Contains level p) :
    p.Keeps limit level := by
  obtain ⟨role, x⟩ := p
  rcases h.visited_or_isNull hp with hvisited | ⟨rfl, -⟩
  · by_cases hcore : role = .core
    · subst hcore
      exact h.keeps_core hvisited
    · exact .inl (h.within level _ hvisited hcore)
  · exact .inl (h.keeps_skipped hp)

end Node

/-- **Levels**: a query compiles exactly if it does under some limit and all its places
keep the limit of the compiler. -/
theorem Compiler.compile_eq_ok_iff_levels (c : Compiler) (n : Node) (d : Document) :
    c.compile n = .ok d ↔
      (∃ wider, Compiler.compile ⟨⟨wider⟩, c.quoting⟩ n = .ok d) ∧
        ∀ level p, n.Contains level p → p.Keeps c.settings.maxDepth level := by
  simp only [compile_eq_ok_iff]
  constructor
  · rintro ⟨h, rfl⟩
    exact ⟨⟨c.settings.maxDepth, h, rfl⟩, fun level p hp => h.keeps hp⟩
  · rintro ⟨⟨wider, h, rfl⟩, hkeeps⟩
    refine ⟨⟨h.translated, fun level p hp hcore => ?_, h.named, h.finite⟩, rfl⟩
    rcases hkeeps level p hp.contains with hle | ⟨-, rfl⟩
    · exact hle
    · exact absurd rfl hcore

/-- An empty core one level past the limit is compiled. -/
theorem Compiler.compile_empty_core :
    let n : Node := .grouping (.subquery ⟨[.empty], [], none, none⟩)
    Compiler.compile ⟨⟨1⟩, .identity⟩ n = .ok (.object [("query", .object [])]) ∧
      n.Contains 2 ⟨.core, .core .empty⟩ :=
  ⟨rfl, .down List.mem_cons_self (.down List.mem_cons_self (.here _))⟩

end RelSearch
