import RelSearch.Proofs.Domain

/-!
# RelSearch.Proofs.Grouping

Parentheses leave nothing behind. `Node.erase` takes all of them out of a query,
and `Compiler.compile_erase` says that this does not change what the query
compiles to, levels apart: without its parentheses a query is never deeper, and
with them it needs a limit that its deepest node keeps.

A compiler looks at a node before it compiles it in two places, and sees the
parentheses there:

1. a right side that is a literal null is a test for null, one in parentheses is
   an ordinary value;
2. a sort term with an order of its own keeps it, one in parentheses is asked for
   a name.

`Node.isPlain` rules these two out.
-/

namespace RelSearch

/-! ## Taking parentheses away -/

mutual

/-- A node without any parentheses in it. -/
def Node.erase : Node → Node
  | .grouping inner => inner.erase
  | .statement s => .statement s.erase
  | .subquery s => .subquery s.erase
  | .core c => .core c.erase
  | .equality op left none => .equality op left.erase none
  | .equality op left (some right) => .equality op left.erase (some right.erase)
  | .comparison op left right => .comparison op left.erase right.erase
  | .connective op left right => .connective op left.erase right.erase
  | .not operand => .not operand.erase
  | .sort order operand => .sort order operand.erase
  | .namedFunction name args => .namedFunction name (args.map fun n => n.erase)
  | .column a => .column a
  | .literal form value => .literal form value
  | .sqlLiteral text => .sqlLiteral text
  | .bool b => .bool b

/-- A core without any parentheses in it. -/
def Core.erase : Core → Core
  | ⟨projections, wheres⟩ => ⟨projections.map fun n => n.erase, wheres.map fun n => n.erase⟩

/-- A statement without any parentheses in it. -/
def Statement.erase : Statement → Statement
  | ⟨cores, orders, limit, offset⟩ =>
    ⟨cores.map fun c => c.erase, orders.map fun n => n.erase,
      match limit with
        | none => none
        | some n => some n.erase,
      match offset with
        | none => none
        | some n => some n.erase⟩

end

/-- Parentheses are taken away in every clause of a statement. -/
theorem Statement.erase_eq (s : Statement) :
    s.erase = ⟨s.cores.map (·.erase), s.orders.map (·.erase), s.limit.map (·.erase),
      s.offset.map (·.erase)⟩ := by
  obtain ⟨cores, orders, limit, offset⟩ := s
  cases limit <;> cases offset <;> simp only [Statement.erase, Option.map]

/-- A place with the node in it taken out of its parentheses. -/
def Place.erase (p : Place) : Place := ⟨p.role, p.node.erase⟩

@[simp] theorem Place.erase_mk (role : Role) (n : Node) :
    (⟨role, n⟩ : Place).erase = ⟨role, n.erase⟩ := rfl

namespace Node

def isGrouping : Node → Bool
  | .grouping _ => true
  | _ => false

/-- What stands inside all the parentheses around a node. -/
def stripped : Node → Node
  | .grouping inner => inner.stripped
  | n => n

/-- Whether a node is a literal null in parentheses. -/
def isGroupedNull (n : Node) : Bool := n.isGrouping && n.stripped.isNull

/-- Whether a node is a sort term with an order of its own, in parentheses. -/
def isGroupedSort (n : Node) : Bool := n.isGrouping && n.stripped.isSort

/-- Whether no parentheses stand directly below a node where a compiler does not
look through them. -/
def isPlain : Node → Bool
  | .equality _ _ (some right) => !right.isGroupedNull
  | .statement s => s.orders.all (!·.isGroupedSort)
  | .subquery s => s.orders.all (!·.isGroupedSort)
  | _ => true

/-- A query in which no right side is a null in parentheses and no sort term an
ordered one in parentheses. -/
def Plain (n : Node) : Prop := ∀ level p, n.Contains level p → p.node.isPlain = true

/-- What depends only on what a node is, once its parentheses are gone, can be read
off from inside the outer ones. -/
theorem apply_erase {α : Type} (f : Node → α)
    (h : ∀ n, n.isGrouping = false → f n.erase = f n) (n : Node) : f n.erase = f n.stripped := by
  fun_induction stripped n with
  | case1 inner ih => rw [erase, ih]
  | case2 n hn =>
      refine h n ?_
      cases n with
      | grouping inner => exact absurd rfl (hn inner)
      | _ => rfl

/-- A null stays one, unless it was in parentheses. -/
theorem isNull_erase {n : Node} (h : n.isGroupedNull = false) : n.erase.isNull = n.isNull := by
  have hstripped : n.erase.isNull = n.stripped.isNull := by
    refine apply_erase isNull (fun n hn => ?_) n
    cases n with
    | grouping inner => cases hn
    | equality op left right => cases right <;> simp [erase, isNull]
    | _ => simp [erase, isNull]
  rw [hstripped]
  cases n with
  | grouping inner => exact h
  | _ => rfl

/-- A sort term stays one, unless it was in parentheses. -/
theorem isSort_erase {n : Node} (h : n.isGroupedSort = false) : n.erase.isSort = n.isSort := by
  have hstripped : n.erase.isSort = n.stripped.isSort := by
    refine apply_erase isSort (fun n hn => ?_) n
    cases n with
    | grouping inner => cases hn
    | equality op left right => cases right <;> simp [erase, isSort]
    | _ => simp [erase, isSort]
  rw [hstripped]
  cases n with
  | grouping inner => exact h
  | _ => rfl

/-! ## Inside the parentheses -/

theorem isGrouping_stripped (n : Node) : n.stripped.isGrouping = false := by
  fun_induction stripped n with
  | case1 inner ih => exact ih
  | case2 n h =>
      cases n with
      | grouping inner => exact absurd rfl (h inner)
      | _ => rfl

/-- Parentheses leave nothing behind in a document. -/
theorem document_stripped (q : Quoting) (n : Node) : n.stripped.document q = n.document q := by
  fun_induction stripped n with
  | case1 inner ih => rw [ih, document]
  | case2 n h => rfl

/-- A query without faults has none without its parentheses. -/
theorem faults_stripped {limit : Nat} {n : Node} (h : n.faults limit = []) :
    n.stripped.faults limit = [] := by
  fun_induction stripped n with
  | case1 inner ih => exact ih (faults_value_eq_nil h (by simp [visitedParts, parts]))
  | case2 n hn => exact h

theorem isName_stripped (n : Node) : n.stripped.isName = n.isName := by
  fun_induction stripped n with
  | case1 inner ih => rw [ih, isName]
  | case2 n h => rfl

/-- Parentheses do not change a name. -/
theorem name_stripped (q : Quoting) (n : Node) : n.stripped.name q = n.name q := by
  fun_induction stripped n with
  | case1 inner ih => rw [ih, name]
  | case2 n h => rfl

/-! ## Names -/

/-- Without parentheses the same nodes are names. -/
theorem isName_erase (n : Node) : n.erase.isName = n.isName := by
  rw [← isName_stripped n]
  refine apply_erase isName (fun n hn => ?_) n
  cases n with
  | grouping inner => cases hn
  | equality op left right => cases right <;> simp [erase, isName]
  | _ => simp [erase, isName]

/-- Without parentheses the names are the same. -/
theorem name_erase (q : Quoting) (n : Node) : n.erase.name q = n.name q := by
  rw [← name_stripped q n]
  refine apply_erase (name q) (fun n hn => ?_) n
  cases n with
  | grouping inner => cases hn
  | equality op left right => cases right <;> simp [erase, name]
  | _ => simp [erase, name]

/-- A sort term is the same without the parentheses in it. -/
theorem sortTerm_erase (q : Quoting) {n : Node} (h : n.isGroupedSort = false) :
    n.erase.sortTerm q = n.sortTerm q := by
  by_cases hsort : n.isSort = true
  · cases n with
    | sort order operand => rw [erase, sortTerm, sortTerm, name_erase]
    | _ => cases hsort
  · rw [Bool.not_eq_true] at hsort
    rw [sortTerm_of_isSort_eq_false q hsort, sortTerm_of_isSort_eq_false q, name_erase]
    rw [isSort_erase h, hsort]

end Node

/-! ## Parts -/

/-- The right side of a test plays the same part without parentheses. -/
theorem Place.erase_ofRight {n : Node} (h : n.isGroupedNull = false) :
    (ofRight n).erase = ofRight n.erase := by
  unfold ofRight
  rw [Node.isNull_erase h]
  split <;> rfl

/-- A sort term plays the same part without parentheses. -/
theorem Place.erase_ofSortTerm {n : Node} (h : n.isGroupedSort = false) :
    (ofSortTerm n).erase = ofSortTerm n.erase := by
  unfold ofSortTerm
  rw [Node.isSort_erase h]
  split <;> rfl

theorem Core.parts_erase (c : Core) : c.erase.parts = c.parts.map .erase := by
  obtain ⟨projections, wheres⟩ := c
  simp [Core.erase, Core.parts, Function.comp_def]

/-- The parts of a statement are the same ones without parentheses. -/
theorem Statement.parts_erase {s : Statement} (h : s.orders.all (!·.isGroupedSort) = true) :
    s.erase.parts = s.parts.map .erase := by
  have horders : s.orders.map (fun n => (Place.ofSortTerm n).erase) =
      s.orders.map (fun n => Place.ofSortTerm n.erase) := by
    refine List.map_congr_left fun n hn => Place.erase_ofSortTerm ?_
    simpa using List.all_eq_true.mp h n hn
  rw [Statement.erase_eq]
  cases hlimit : s.limit <;> cases hoffset : s.offset <;>
    simp [Statement.parts, Node.erase, Function.comp_def, horders, hlimit, hoffset]

/-- Taking parentheses away changes the parts of a node, but not which there are. -/
theorem Node.parts_erase {n : Node} (hn : n.isGrouping = false) (h : n.isPlain = true) :
    n.erase.parts = n.parts.map .erase := by
  cases n with
  | grouping inner => cases hn
  | statement s =>
      rw [Node.erase]
      exact Statement.parts_erase h
  | subquery s =>
      rw [Node.erase]
      exact Statement.parts_erase h
  | core c =>
      rw [Node.erase]
      exact Core.parts_erase c
  | equality op left right =>
      cases right with
      | none => simp [Node.erase, Node.parts]
      | some right =>
          have hright : right.isGroupedNull = false := by simpa [Node.isPlain] using h
          simp [Node.erase, Node.parts, Place.erase_ofRight hright]
  | _ => simp [Node.erase, Node.parts, Function.comp_def]

/-- The same parts are visited without parentheses. -/
theorem Node.visitedParts_erase {n : Node} (hn : n.isGrouping = false) (h : n.isPlain = true) :
    n.erase.visitedParts = n.visitedParts.map .erase := by
  rw [Node.visitedParts, Node.parts_erase hn h, List.filter_map]
  rfl

/-! ## Documents -/

theorem Node.Plain.self {n : Node} (h : n.Plain) : n.isPlain = true := h 0 _ (.here _)

/-- The parts of a plain query are plain. -/
theorem Node.Plain.part {n : Node} (h : n.Plain) {p : Place} (hp : p ∈ n.parts) :
    p.node.Plain := by
  intro level q hq
  cases hq with
  | here => exact h 1 p (.down hp (.here p))
  | down part way => exact h _ _ (.down hp (.down part way))

section

variable (q : Quoting)

theorem Core.query_erase {c : Core}
    (h : ∀ p ∈ c.parts, p.node.erase.document q = p.node.document q) :
    c.erase.query q = c.query q := by
  obtain ⟨projections, wheres⟩ := c
  have hwheres : wheres.map (fun n => n.erase.document q) = wheres.map fun n => n.document q := by
    refine List.map_congr_left fun n hn => h ⟨.value, n⟩ ?_
    simp [Core.parts, hn]
  rw [Core.erase, Core.query, Core.query, List.map_map, List.map_map]
  simp only [Function.comp_def, Node.name_erase, hwheres]

/-- A statement has the same document without parentheses, if its parts have. -/
theorem Statement.document_erase {s : Statement} (horders : s.orders.all (!·.isGroupedSort) = true)
    (h : ∀ p ∈ s.parts, p.node.erase.document q = p.node.document q) :
    s.erase.document q = s.document q := by
  have hcores : s.cores.map (fun c => c.erase.query q) = s.cores.map fun c => c.query q := by
    refine List.map_congr_left fun c hc => ?_
    have hcore := h ⟨.core, .core c⟩ (by simp [Statement.parts, hc])
    simpa [Node.erase, Node.document_core, Document.ofQuery] using hcore
  have hsort : s.orders.map (fun n => n.erase.sortTerm q) = s.orders.map fun n => n.sortTerm q := by
    refine List.map_congr_left fun n hn => Node.sortTerm_erase q ?_
    simpa using List.all_eq_true.mp horders n hn
  have hlimit : s.limit.map (fun n => n.erase.document q) = s.limit.map fun n => n.document q := by
    refine Option.map_congr fun n hn => h ⟨.value, n⟩ ?_
    simp [Statement.parts, hn]
  have hoffset : s.offset.map (fun n => n.erase.document q) =
      s.offset.map fun n => n.document q := by
    refine Option.map_congr fun n hn => h ⟨.value, n⟩ ?_
    simp [Statement.parts, hn]
  rw [Statement.document_eq, Statement.document_eq, Statement.erase_eq]
  simp only [List.map_map, Option.map_map, Function.comp_def, hcores, hsort, hlimit, hoffset]

/-- Taking parentheses away does not change the document of a query. -/
theorem Node.document_erase {n : Node} (h : n.Plain) : n.erase.document q = n.document q := by
  induction n using Node.induction_parts with
  | step n ih =>
      have hparts : ∀ p ∈ n.parts, p.node.erase.document q = p.node.document q :=
        fun p hp => ih p hp (h.part hp)
      cases n with
      | grouping inner =>
          rw [Node.erase, Node.document]
          exact hparts ⟨.value, inner⟩ List.mem_cons_self
      | statement s =>
          rw [Node.erase, Node.document, Node.document]
          exact Statement.document_erase q h.self hparts
      | subquery s =>
          rw [Node.erase, Node.document, Node.document]
          exact Statement.document_erase q h.self hparts
      | core c =>
          rw [Node.erase, Node.document_core, Node.document_core, Core.query_erase q hparts]
      | equality op left right =>
          cases right with
          | none => cases op <;> simp [Node.erase, Node.document, Node.name_erase]
          | some right =>
              have hnull : right.erase.isNull = right.isNull :=
                Node.isNull_erase (by simpa [Node.isPlain] using h.self)
              have hright : right.erase.document q = right.document q := by
                simpa using hparts (.ofRight right) (by simp [Node.parts])
              cases op <;> simp [Node.erase, Node.document, Node.name_erase, hnull, hright]
      | connective op left right =>
          have hleft := hparts ⟨.value, left⟩ (by simp [Node.parts])
          have hright := hparts ⟨.value, right⟩ (by simp [Node.parts])
          rw [Node.erase, Node.document_connective, Node.document_connective, hleft, hright]
      | sort order operand => simp [Node.erase, Node.document, Node.name_erase]
      | _ => simp [Node.erase, Node.document]

end

/-! ## Faults, levels apart -/

namespace Place

/-- Nothing is wrong with a place, whatever its level and its parts are. -/
structure Fits (p : Place) : Prop where
  translated : p.node.isTranslated = true
  named : ∀ owner part, p.role = .name owner part → p.node.isName = true
  finite : p.node.isFinite = true

/-- Nothing is wrong with a place that fits and keeps the limit. -/
theorem sound_iff (limit level : Nat) (p : Place) :
    p.Sound limit level ↔ p.Fits ∧ (p.role ≠ .core → level ≤ limit) :=
  ⟨fun h => ⟨⟨h.translated, h.named, h.finite⟩, h.within⟩,
    fun ⟨h, hlevel⟩ => ⟨h.translated, hlevel, h.named, h.finite⟩⟩

/-- Parentheses fit wherever what is in them does. -/
theorem fits_grouping (role : Role) (inner : Node) :
    Fits ⟨role, .grouping inner⟩ ↔ ∀ owner part, role = .name owner part → inner.isName = true :=
  ⟨fun h => h.named, fun h => ⟨rfl, h, rfl⟩⟩

/-- A place fits with or without the parentheses below it. -/
theorem fits_erase {p : Place} (h : p.node.isGrouping = false) : p.erase.Fits ↔ p.Fits := by
  obtain ⟨role, n⟩ := p
  have htranslated : n.erase.isTranslated = n.isTranslated := by
    cases n with
    | grouping inner => cases h
    | equality op left right => cases right <;> simp [Node.erase, Node.isTranslated]
    | _ => simp [Node.erase, Node.isTranslated]
  have hfinite : n.erase.isFinite = n.isFinite := by
    cases n with
    | grouping inner => cases h
    | equality op left right => cases right <;> simp [Node.erase, Node.isFinite]
    | _ => simp [Node.erase, Node.isFinite]
  constructor
  · rintro ⟨ht, hn, hf⟩
    exact ⟨htranslated ▸ ht, fun owner part hrole => n.isName_erase ▸ hn owner part hrole,
      hfinite ▸ hf⟩
  · rintro ⟨ht, hn, hf⟩
    exact ⟨htranslated.trans ht, fun owner part hrole => n.isName_erase.trans (hn owner part hrole),
      hfinite.trans hf⟩

/-- Parentheses around a node are never in the way: all that is visited fits
exactly if all that is visited inside them fits in their place. -/
theorem forall_fits_grouping (role : Role) (inner : Node) :
    (∀ k q, Reaches Node.visitedParts ⟨role, .grouping inner⟩ k q → q.Fits) ↔
      ∀ k q, Reaches Node.visitedParts ⟨role, inner⟩ k q → q.Fits := by
  have hparts : (Node.grouping inner).visitedParts = [⟨.value, inner⟩] := rfl
  rw [forall_reaches_iff, fits_grouping]
  simp only [hparts, List.mem_singleton, forall_eq]
  rw [forall_reaches_iff, forall_reaches_iff (p := ⟨role, inner⟩)]
  constructor
  · rintro ⟨hname, hinner, hbelow⟩
    exact ⟨⟨hinner.translated, hname, hinner.finite⟩, hbelow⟩
  · rintro ⟨hinner, hbelow⟩
    exact ⟨hinner.named, ⟨hinner.translated, nofun, hinner.finite⟩, hbelow⟩

/-- What is visited fits with parentheses exactly if it fits without them. -/
theorem forall_fits_erase {p : Place} (h : p.node.Plain) :
    (∀ k q, Reaches Node.visitedParts p.erase k q → q.Fits) ↔
      ∀ k q, Reaches Node.visitedParts p k q → q.Fits := by
  obtain ⟨role, n⟩ := p
  induction n using Node.induction_parts generalizing role with
  | step n ih =>
      by_cases hgroup : n.isGrouping = true
      · cases n with
        | grouping inner =>
            have hinner : ⟨.value, inner⟩ ∈ (Node.grouping inner).parts := List.mem_cons_self
            have hplain : inner.Plain := h.part hinner
            rw [erase_mk, Node.erase, forall_fits_grouping]
            exact ih _ hinner role hplain
        | _ => cases hgroup
      · rw [Bool.not_eq_true] at hgroup
        rw [forall_reaches_iff, forall_reaches_iff (p := ⟨role, n⟩), fits_erase hgroup]
        refine and_congr_right fun _ => ?_
        rw [erase_mk, Node.visitedParts_erase hgroup h.self, List.forall_mem_map]
        refine forall₂_congr fun q hq => ?_
        have hmem := (Node.mem_visitedParts.mp hq).1
        exact ih q hmem q.role (h.part hmem)

/-- Every place that is visited without parentheses is visited with them, and lies
no higher there. -/
theorem Reaches.of_erase {p q : Place} {k : Nat} (h : p.node.Plain)
    (way : Reaches Node.visitedParts p.erase k q) :
    ∃ j r, k ≤ j ∧ r.role = q.role ∧ Reaches Node.visitedParts p j r := by
  obtain ⟨role, n⟩ := p
  induction n using Node.induction_parts generalizing role k with
  | step n ih =>
      by_cases hgroup : n.isGrouping = true
      · cases n with
        | grouping inner =>
            have hinner : ⟨.value, inner⟩ ∈ (Node.grouping inner).parts := List.mem_cons_self
            have hplain : inner.Plain := h.part hinner
            rw [erase_mk, Node.erase] at way
            obtain ⟨j, r, hj, hrole, way⟩ := ih _ hinner role hplain way
            -- the parentheses stand where what is inside them would stand
            cases way with
            | here => exact ⟨0, ⟨role, .grouping inner⟩, hj, hrole, .here _⟩
            | down part way =>
                have hvisited : ⟨.value, inner⟩ ∈ (Node.grouping inner).visitedParts :=
                  List.mem_cons_self
                exact ⟨_, r, Nat.le_succ_of_le hj, hrole, .down hvisited (.down part way)⟩
        | _ => cases hgroup
      · rw [Bool.not_eq_true] at hgroup
        cases way with
        | here => exact ⟨0, ⟨role, n⟩, Nat.le_refl 0, rfl, .here _⟩
        | down part way =>
            rw [erase_mk, Node.visitedParts_erase hgroup h.self, List.mem_map] at part
            obtain ⟨s, hs, rfl⟩ := part
            have hmem := (Node.mem_visitedParts.mp hs).1
            obtain ⟨j, r, hj, hrole, way⟩ := ih s hmem s.role (h.part hmem) way
            exact ⟨j + 1, r, Nat.succ_le_succ hj, hrole, .down hs way⟩

end Place

/-- A query has no faults if everything that is visited fits and nothing of it lies
past the limit. -/
theorem Node.faults_eq_nil_iff_fits (limit : Nat) (n : Node) :
    n.faults limit = [] ↔ (∀ k p, n.Visits k p → p.Fits) ∧
      ∀ k p, n.Visits k p → p.role ≠ .core → k ≤ limit := by
  rw [Node.faults, Place.faults_eq_nil_iff_forall_sound limit [] 0 ⟨.value, n⟩ (by simp)]
  simp only [Nat.zero_add, Place.sound_iff]
  exact ⟨fun h => ⟨fun k p hp => (h k p hp).1, fun k p hp => (h k p hp).2⟩,
    fun h k p hp => ⟨h.1 k p hp, h.2 k p hp⟩⟩

/-! ## Compiling without parentheses -/

namespace Compiler

/-- **Parentheses**: a query compiles to the same document without its
parentheses, under the same limit. With them it does so under every limit that no
node of it lies past. -/
theorem compile_erase (q : Quoting) {n : Node} (h : n.Plain) (d : Document) :
    (∀ limit, compile ⟨⟨limit⟩, q⟩ n = .ok d → compile ⟨⟨limit⟩, q⟩ n.erase = .ok d) ∧
      ∀ limit wide, compile ⟨⟨limit⟩, q⟩ n.erase = .ok d →
        (∀ level p, n.Contains level p → p.role ≠ .core → level ≤ wide) →
        compile ⟨⟨wide⟩, q⟩ n = .ok d := by
  have hfits : (∀ k p, n.erase.Visits k p → p.Fits) ↔ ∀ k p, n.Visits k p → p.Fits :=
    Place.forall_fits_erase (p := ⟨.value, n⟩) h
  simp only [compile_eq_outcomeOf, outcomeOf_eq_ok_iff, Node.faults_eq_nil_iff_fits, hfits,
    Node.document_erase q h]
  constructor
  · rintro limit ⟨⟨hall, hlevel⟩, hd⟩
    refine ⟨⟨hall, fun k p hp hcore => ?_⟩, hd⟩
    obtain ⟨j, r, hj, hrole, hr⟩ := Place.Reaches.of_erase (p := ⟨.value, n⟩) h hp
    exact Nat.le_trans hj (hlevel j r hr (hrole ▸ hcore))
  · rintro limit wide ⟨⟨hall, -⟩, hd⟩ hlevel
    refine ⟨⟨hall, fun k p hp => hlevel k p (hp.mono fun _ _ hq => ?_)⟩, hd⟩
    exact (Node.mem_visitedParts.mp hq).1

/-- A statement with parentheses around a projection, a condition, its right side
and a sort term. Without them it takes three levels less. -/
theorem compile_erase_statement :
    let condition (value : Node → Node) : Node :=
      .equality .equal (.sqlLiteral "age") (some (value (.literal .casted (.int 30))))
    let grouped : Node := .statement ⟨[⟨[.grouping (.sqlLiteral "id")],
      [.grouping (condition fun n => .grouping (.grouping n))]⟩], [.grouping (.sqlLiteral "age")],
      none, none⟩
    let plain : Node := .statement ⟨[⟨[.sqlLiteral "id"], [condition id]⟩], [.sqlLiteral "age"],
      none, none⟩
    grouped.Plain ∧ grouped.erase = plain ∧
      (∀ level p, grouped.Contains level p → p.role ≠ .core → level ≤ 6) ∧
      ∃ d, compile ⟨⟨3⟩, .sql⟩ plain = .ok d ∧ compile ⟨⟨6⟩, .sql⟩ grouped = .ok d ∧
        compile ⟨⟨6⟩, .sql⟩ grouped.erase = .ok d := by
  intro condition grouped plain
  have hplain : grouped.Plain :=
    Node.forall_contains_of_checks (fun _ p => p.node.isPlain) 7 rfl
  have herase : grouped.erase = plain := by
    simp [grouped, plain, condition, Node.erase, Statement.erase, Core.erase]
  have hlevel : ∀ level p, grouped.Contains level p → p.role ≠ .core → level ≤ 6 := by
    intro level p hp
    exact of_decide_eq_true
      (Node.forall_contains_of_checks (fun level p => p.role ≠ .core → level ≤ 6) 7 rfl level p hp)
  obtain ⟨d, hd⟩ : ∃ d, compile ⟨⟨3⟩, .sql⟩ plain = .ok d := ⟨_, rfl⟩
  obtain ⟨hdown, hup⟩ := compile_erase .sql hplain d
  have hgrouped := hup 3 6 (herase ▸ hd) hlevel
  exact ⟨hplain, herase, hlevel, d, hd, hgrouped, hdown 6 hgrouped⟩

end Compiler

end RelSearch
