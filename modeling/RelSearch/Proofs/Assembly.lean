import RelSearch.Proofs.Likeness

/-!
# RelSearch.Proofs.Assembly

How a statement is compiled from its clauses.

1. Every part of a statement that compiles has the document that it has as a query of
   its own, though it lies one to three levels further down: what has no fault there
   has none at the root (`Node.Visits.compile_eq`).
2. The document has one section for each clause, in a fixed order, and a clause that
   is missing leaves its section out (`Sections.document`). What is projected and the
   conditions are those of the last core.
3. All cores are compiled, in their order, and before the other clauses. The first
   core that fails decides the outcome, and if none does, the earlier ones have no
   influence on it.

`Compiler.compileStatement_sections` says 1 and 2 of every statement that compiles,
`Compiler.last_core_decides` says 3 of every statement.
-/

namespace RelSearch

/-! ## Sections with a list of entries -/

namespace Document

/-- A section with one entry for each source, in the order of the sources. Without a
source there is no section. -/
def IsListOf {α : Type} (entry : α → Document → Prop) (sources : List α) :
    Option Document → Prop
  | none => sources = []
  | some d => sources ≠ [] ∧ ∃ entries, d = .array entries ∧ List.Forall₂ entry sources entries

theorem forall₂_map {α : Type} {entry : α → Document → Prop} {sources : List α}
    {f : α → Document} (h : ∀ a ∈ sources, entry a (f a)) :
    List.Forall₂ entry sources (sources.map f) :=
  List.forall₂_map_right_iff.mpr (List.forall₂_same.mpr h)

/-- The section made from the entries of all sources has them in the order of the sources. -/
theorem isListOf_listSection {α : Type} {entry : α → Document → Prop} {sources : List α}
    {f : α → Document} (h : ∀ a ∈ sources, entry a (f a)) :
    IsListOf entry sources (listSection (sources.map f)) := by
  cases sources with
  | nil => rfl
  | cons a rest => exact ⟨List.cons_ne_nil a rest, _, rfl, forall₂_map h⟩

end Document

/-! ## What the sections hold -/

namespace Compiler

variable (c : Compiler)

/-- A node compiles to a document. -/
def Compiles (n : Node) (d : Document) : Prop := c.compile n = .ok d

/-- The entry of a projection: the name that it compiles to. -/
def Projects (n : Node) (d : Document) : Prop :=
  ∃ name, c.Compiles n (.string name) ∧ d = .object [("name", .string name)]

/-- The entry of a sort term: the name that its operand compiles to and its order. A
term without an order is a name itself, and ascending. -/
inductive Sorts : Node → Document → Prop
  | ascending {operand : Node} {name : String} (h : c.Compiles operand (.string name)) :
    Sorts (.sort .ascending operand)
      (.object [("attribute", .object [("name", .string name)]), ("order", .string "ascending")])
  | descending {operand : Node} {name : String} (h : c.Compiles operand (.string name)) :
    Sorts (.sort .descending operand)
      (.object [("attribute", .object [("name", .string name)]), ("order", .string "descending")])
  | bare {term : Node} {name : String} (hsort : term.isSort = false)
    (h : c.Compiles term (.string name)) :
    Sorts term
      (.object [("attribute", .object [("name", .string name)]), ("order", .string "ascending")])

/-- The section for conditions: a single one stands by itself, several share an
`and`. -/
inductive Filters : List Node → Option Document → Prop
  | none : Filters [] none
  | single {n : Node} {d : Document} (h : c.Compiles n d) : Filters [n] (some d)
  | several {ns : List Node} {ds : List Document} (hlength : 2 ≤ ns.length)
    (h : List.Forall₂ c.Compiles ns ds) : Filters ns (some (.object [("and", .array ds)]))

end Compiler

/-- The sections hold what a compiler makes of the clauses of a statement, each
compiled by itself. -/
structure Compiler.Assembles (c : Compiler) (s : Statement) (x : Document.Sections) : Prop where
  projection : Document.IsListOf c.Projects s.lastCore.projections x.projection
  filter : c.Filters s.lastCore.wheres x.filter
  sort : Document.IsListOf c.Sorts s.orders x.sort
  perPage : Option.Rel c.Compiles s.limit x.perPage
  offset : Option.Rel c.Compiles s.offset x.offset

/-! ## Parts compile by themselves -/

section

variable {c : Compiler} {n : Node} {level : Nat}

/-- What is visited in a query that compiles also compiles as a query of its own. -/
theorem Node.Visits.compile_eq {p : Place} (hp : n.Visits level p)
    (h : n.faults c.settings.maxDepth = []) (hcore : p.role ≠ .core) :
    c.compile p.node = .ok (p.node.document c.quoting) :=
  c.compile_eq_ok_of_faults_eq_nil <|
    Place.faults_eq_nil_of_le [] [] (Nat.zero_le level)
      (hp.faults_eq_nil h hcore hp.isVisited.1)

/-- What has to be a name in a query that compiles, compiles to its name by itself. -/
theorem Node.Visits.compile_name {x : Node} {owner part : String}
    (hp : n.Visits level ⟨.name owner part, x⟩) (h : n.faults c.settings.maxDepth = []) :
    c.compile x = .ok (.string (x.name c.quoting)) := by
  have hname : x.isName = true :=
    ((Node.faults_eq_nil_iff _ n).mp h).named level owner part x hp.contains
  rw [← (x.document_eq_string_iff c.quoting _).mpr ⟨hname, rfl⟩]
  exact hp.compile_eq h nofun

end

namespace Statement

variable {s : Statement}

/-- The parts of a statement lie one level below it. -/
theorem visits_part {p : Place} (hp : p ∈ s.parts) : (Node.statement s).Visits 1 p :=
  .down (Node.mem_visitedParts.mpr ⟨hp, role_ne_skipped_of_mem_parts hp⟩) (.here p)

/-- The projections and conditions of a core lie two levels below the statement. -/
theorem visits_corePart {core : Core} {p : Place} (hcore : core ∈ s.cores) (hp : p ∈ core.parts) :
    (Node.statement s).Visits 2 p := by
  have hpart : ⟨.core, .core core⟩ ∈ s.parts := by simp [parts, hcore]
  have hbelow : p ∈ (Node.core core).visitedParts :=
    Node.mem_visitedParts.mpr ⟨hp, Core.role_ne_skipped_of_mem_parts hp⟩
  exact (visits_part hpart).trans (.down hbelow (.here p))

/-- The operand of a sort term with an order has to be a name. -/
theorem visits_operand {order : SortOrder} {operand : Node} (h : .sort order operand ∈ s.orders) :
    (Node.statement s).Visits 2 ⟨.name order.kind "sort expression", operand⟩ := by
  have hterm : ⟨.value, .sort order operand⟩ ∈ s.parts := ofSortTerm_mem_parts h
  exact (visits_part hterm).trans (.down (by simp [Node.visitedParts, Node.parts]) (.here _))

/-- A sort term without an order has to be a name itself. -/
theorem visits_sortTerm {n : Node} (h : n ∈ s.orders) (hsort : n.isSort = false) :
    (Node.statement s).Visits 1 ⟨.name "Statement" "sort term", n⟩ := by
  have hterm := ofSortTerm_mem_parts h
  rw [Place.ofSortTerm, hsort] at hterm
  exact visits_part hterm

/-- The last core is one of the cores, or it is empty. -/
theorem visits_lastCore {p : Place} (hp : p ∈ s.lastCore.parts) :
    (Node.statement s).Visits 2 p := by
  unfold lastCore at hp
  cases hlast : s.cores.getLast? with
  | none =>
      rw [hlast] at hp
      simp [Core.empty, Core.parts] at hp
  | some core =>
      rw [hlast] at hp
      exact visits_corePart (List.mem_of_getLast? hlast) hp

end Statement

/-! ## Statements that compile -/

namespace Compiler

variable {c : Compiler} {s : Statement}

/-- The section for conditions that compile one by one. -/
theorem filters_filterSection {ns : List Node} (h : ∀ n ∈ ns, c.Compiles n (n.document c.quoting)) :
    c.Filters ns (Document.filterSection (ns.map (·.document c.quoting))) := by
  rcases ns with _ | ⟨n, _ | ⟨n', rest⟩⟩
  · exact .none
  · exact .single (h n List.mem_cons_self)
  · exact .several (Nat.le_add_left 2 rest.length) (Document.forall₂_map h)

/-- The sort terms of a statement without faults become entries of its sort section. -/
theorem sorts_sortTerm (h : (Node.statement s).faults c.settings.maxDepth = []) {n : Node}
    (hn : n ∈ s.orders) : c.Sorts n (n.sortTerm c.quoting) := by
  cases n with
  | sort order operand =>
      have hname := (Statement.visits_operand hn).compile_name h
      cases order with
      | ascending => exact .ascending hname
      | descending => exact .descending hname
  | _ => exact .bare rfl ((Statement.visits_sortTerm hn rfl).compile_name h)

theorem rel_map_document {x : Option Node} (h : ∀ n ∈ x, c.Compiles n (n.document c.quoting)) :
    Option.Rel c.Compiles x (x.map (·.document c.quoting)) := by
  cases x with
  | none => exact .none
  | some n => exact .some (h n rfl)

/-- The sections of a statement without faults hold what a compiler makes of its clauses. -/
theorem exists_assembles (hfaults : (Node.statement s).faults c.settings.maxDepth = []) :
    ∃ x : Document.Sections, c.Assembles s x ∧ s.document c.quoting = x.document := by
  have hpart : ∀ n, ⟨.value, n⟩ ∈ s.parts → c.Compiles n (n.document c.quoting) :=
    fun n hn => (Statement.visits_part hn).compile_eq hfaults nofun
  refine ⟨_, ⟨?_, ?_, ?_, ?_, ?_⟩, s.document_eq_sections c.quoting⟩
  · apply Document.isListOf_listSection
    intro n hn
    have hmem : ⟨.name "Core" "projection", n⟩ ∈ s.lastCore.parts := by simp [Core.parts, hn]
    exact ⟨_, (Statement.visits_lastCore hmem).compile_name hfaults, rfl⟩
  · apply filters_filterSection
    intro n hn
    have hmem : ⟨.value, n⟩ ∈ s.lastCore.parts := by simp [Core.parts, hn]
    exact (Statement.visits_lastCore hmem).compile_eq hfaults nofun
  · exact Document.isListOf_listSection fun n hn => sorts_sortTerm hfaults hn
  · apply rel_map_document
    intro n hn
    exact hpart n (by simp [Statement.parts, Option.mem_def.mp hn])
  · apply rel_map_document
    intro n hn
    exact hpart n (by simp [Statement.parts, Option.mem_def.mp hn])

/-- **Assembly**: a statement compiles to the document whose sections hold what its
clauses compile to by themselves. -/
theorem compileStatement_sections {d : Document} (h : c.compileStatement s = .ok d) :
    ∃ x : Document.Sections, c.Assembles s x ∧ d = x.document := by
  rw [compileStatement_eq_compile, compile_eq_outcomeOf, outcomeOf_eq_ok_iff] at h
  obtain ⟨hfaults, rfl⟩ := h
  rw [Node.document]
  exact exists_assembles hfaults

/-- Two conditions in the last core of two, a sort term with an order and one without,
and an offset but no limit. -/
theorem compileStatement_sections_offset :
    let active : Node := .equality .equal (.sqlLiteral "active") (some (.bool true))
    let last : Core := ⟨[.grouping (.sqlLiteral "id")], [active, .grouping (.bool true)]⟩
    let s : Statement := ⟨[⟨[.sqlLiteral "name"], []⟩, last],
      [.sort .descending (.sqlLiteral "age"), .sqlLiteral "id"], none,
      some (.literal .plain (.int 20))⟩
    ∃ d, Compiler.new.compileStatement s = .ok d ∧
      ∃ x : Document.Sections, Compiler.new.Assembles s x ∧ d = x.document :=
  ⟨_, rfl, compileStatement_sections rfl⟩

end Compiler

/-! ## Cores -/

/-- Only the last core has a share in the document. -/
theorem Statement.document_concat (q : Quoting) (cores : List Core) (last : Core)
    (orders : List Node) (limit offset : Option Node) :
    Statement.document q ⟨cores ++ [last], orders, limit, offset⟩ =
      Statement.document q ⟨[last], orders, limit, offset⟩ := by
  simp [Statement.document_eq]

namespace Compiler

variable (c : Compiler)

/-- The faults of a core in a statement. -/
def coreFaults (core : Core) : List CompileError :=
  Place.faults c.settings.maxDepth ["Statement"] 1 ⟨.core, .core core⟩

/-- The faults of the clauses of a statement that are not in a core. -/
def clauseFaults (orders : List Node) (limit offset : Option Node) : List CompileError :=
  (Statement.parts ⟨[], orders, limit, offset⟩).flatMap
    (·.faults c.settings.maxDepth ["Statement"] 1)

/-- A statement is compiled core by core, then clause by clause. -/
theorem compileStatement_eq_outcomeOf (s : Statement) :
    c.compileStatement s = outcomeOf (s.document c.quoting)
      (s.cores.flatMap c.coreFaults ++ c.clauseFaults s.orders s.limit s.offset) := by
  have hparts : s.parts = s.cores.map (⟨.core, .core ·⟩) ++
      Statement.parts ⟨[], s.orders, s.limit, s.offset⟩ := by
    simp [Statement.parts]
  have hfaults : (Node.statement s).faults c.settings.maxDepth =
      s.parts.flatMap (·.faults c.settings.maxDepth ["Statement"] 1) := by
    rw [Node.faults, Place.faults_value, if_neg (Nat.not_lt_zero _)]
    rfl
  rw [compileStatement_eq_compile, compile_eq_outcomeOf, Node.document, hfaults, hparts,
    List.flatMap_append, List.flatMap_map]
  rfl

/-- A core in a statement of its own has only its own faults. -/
theorem compileStatement_ofCore (core : Core) :
    c.compileStatement (.ofCore core) =
      outcomeOf ((Statement.ofCore core).document c.quoting) (c.coreFaults core) := by
  rw [compileStatement_eq_outcomeOf]
  simp [Statement.ofCore, clauseFaults, Statement.parts]

/-- A core without faults compiles in a statement of its own. -/
theorem compiles_ofCore {core : Core} (h : c.coreFaults core = []) :
    ∃ d, c.compileStatement (.ofCore core) = .ok d := by
  rw [compileStatement_ofCore, h]
  exact ⟨_, rfl⟩

/-- If no core has a fault, the other clauses decide. -/
theorem compileStatement_of_no_coreFaults {s : Statement}
    (h : ∀ core ∈ s.cores, c.coreFaults core = []) :
    c.compileStatement s =
      outcomeOf (s.document c.quoting) (c.clauseFaults s.orders s.limit s.offset) := by
  rw [compileStatement_eq_outcomeOf, List.flatMap_eq_nil_iff.mpr h, List.nil_append]

/-- The first core with a fault ends the statement. -/
theorem compileStatement_of_coreFaults {s : Statement} {before after : List Core} {core : Core}
    {e : CompileError} {more : List CompileError} (hcores : s.cores = before ++ core :: after)
    (hbefore : ∀ earlier ∈ before, c.coreFaults earlier = [])
    (hcore : c.coreFaults core = e :: more) : c.compileStatement s = .error e := by
  rw [compileStatement_eq_outcomeOf, hcores, List.flatMap_append,
    List.flatMap_eq_nil_iff.mpr hbefore, List.nil_append, List.flatMap_cons, hcore]
  rfl

/-- A core in a statement of its own fails with its first fault, and without one it has the
sections of its projections and conditions. -/
theorem compileStatement_ofCore_iff (core : Core) :
    (∀ e, c.compileStatement (.ofCore core) = .error e ↔ (c.coreFaults core).head? = some e) ∧
      ∀ d, c.compileStatement (.ofCore core) = .ok d →
        ∃ x : Document.Sections, c.Assembles (.ofCore core) x ∧ d = x.document := by
  constructor
  · intro e
    rw [compileStatement_ofCore, outcomeOf_eq_error_iff]
  · intro d h
    rw [compileStatement_eq_compile, compile_eq_outcomeOf, outcomeOf_eq_ok_iff] at h
    obtain ⟨hfaults, rfl⟩ := h
    rw [Node.document]
    exact exists_assembles hfaults

/-- **Last core**: the cores of a statement are compiled in their order. If each of them
compiles in a statement of its own, the statement has the same outcome, document or
error, as with its last core alone. Otherwise it has the error of the first core that
does not, whatever its other clauses are. In a statement of its own a core fails with its
first fault, and otherwise its projections and conditions fill the sections. -/
theorem last_core_decides (cores : List Core) (last : Core) (orders : List Node)
    (limit offset : Option Node) :
    let s : Statement := ⟨cores ++ [last], orders, limit, offset⟩
    (((∀ core ∈ s.cores, ∃ d, c.compileStatement (.ofCore core) = .ok d) ∧
      c.compileStatement s = c.compileStatement ⟨[last], orders, limit, offset⟩) ∨
    ∃ before core after e, s.cores = before ++ core :: after ∧
      (∀ earlier ∈ before, ∃ d, c.compileStatement (.ofCore earlier) = .ok d) ∧
      c.compileStatement (.ofCore core) = .error e ∧ c.compileStatement s = .error e) ∧
    ∀ core ∈ s.cores,
      (∀ e, c.compileStatement (.ofCore core) = .error e ↔ (c.coreFaults core).head? = some e) ∧
      ∀ d, c.compileStatement (.ofCore core) = .ok d →
        ∃ x : Document.Sections, c.Assembles (.ofCore core) x ∧ d = x.document := by
  intro s
  refine ⟨?_, fun core _ => c.compileStatement_ofCore_iff core⟩
  -- the first core with a fault, and the cores before it
  cases hfind : s.cores.find? fun core => !(c.coreFaults core).isEmpty with
  | none =>
      have hall : ∀ core ∈ s.cores, c.coreFaults core = [] := by simpa using hfind
      have hlast : ∀ core ∈ [last], c.coreFaults core = [] := by
        simpa using hall last (by simp [s])
      refine .inl ⟨fun core hcore => c.compiles_ofCore (hall core hcore), ?_⟩
      rw [c.compileStatement_of_no_coreFaults hall, c.compileStatement_of_no_coreFaults hlast,
        Statement.document_concat]
  | some core =>
      obtain ⟨hcore, before, after, hcores, hbefore⟩ := List.find?_eq_some_iff_append.mp hfind
      have hclean : ∀ earlier ∈ before, c.coreFaults earlier = [] := by simpa using hbefore
      obtain ⟨e, more, hfaults⟩ : ∃ e more, c.coreFaults core = e :: more :=
        List.exists_cons_of_ne_nil (by simpa using hcore)
      refine .inr ⟨before, core, after, e, hcores,
        fun earlier h => c.compiles_ofCore (hclean earlier h), ?_, ?_⟩
      · rw [compileStatement_ofCore, hfaults]
        rfl
      · exact c.compileStatement_of_coreFaults hcores hclean hfaults

/-- A fault in the first of two cores comes before one in the last core and one in a
sort term. -/
example :
    let first : Core := ⟨[], [.not (.bool true)]⟩
    let last : Core := ⟨[.bool true], []⟩
    Compiler.new.compileStatement ⟨[first, last], [.bool true], none, none⟩ =
      .error ⟨.unsupported "Not", ["Statement", "Core", "Not"]⟩ :=
  rfl

end Compiler

end RelSearch
