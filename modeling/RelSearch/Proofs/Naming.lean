import RelSearch.Proofs.Grouping
import RelSearch.Proofs.Location

/-!
# RelSearch.Proofs.Naming

What a compiler takes for the name of an attribute.

A name is asked for on the left of a test for equality, in a sorted expression, in
a projection and in a sort term without an order. The compiler looks at what the
node there has become, parentheses apart, and not at the node: whatever becomes a
string is a name.

1. Columns and SQL literals are names, as they should be.
2. So are the scalars that documents hold as text, in a plain or a cast literal,
   and all scalars in a quoted literal: their text is taken for the name of an
   attribute.
3. Any other scalar, and any other node, is refused with an invalid shape.

`Compiler.compile_names` says this of all places of a query where a name is asked
for, at any depth.
-/

namespace RelSearch

namespace Node

/-- Whether a node refers to an attribute: a column, or a piece of SQL. -/
def isReference : Node → Bool
  | .column _ | .sqlLiteral _ => true
  | _ => false

def isLiteral : Node → Bool
  | .literal _ _ => true
  | _ => false

/-- Whether a node is a literal that documents hold as text: a quoted one, or one
with a scalar that becomes a string. -/
def isTextLiteral : Node → Bool
  | .literal .quoted _ => true
  | .literal _ value => value.isText
  | _ => false

/-- Where a query asks for a name it has a reference or a literal that becomes text,
parentheses apart. -/
def Named (n : Node) : Prop :=
  ∀ level owner part x, n.Contains level ⟨.name owner part, x⟩ →
    x.stripped.isReference = true ∨ x.stripped.isTextLiteral = true

/-- Parentheses apart, names are references and the literals that become text. -/
theorem isName_iff (n : Node) :
    n.isName = true ↔ n.stripped.isReference = true ∨ n.stripped.isTextLiteral = true := by
  have hgroup := n.isGrouping_stripped
  rw [← isName_stripped]
  cases hn : n.stripped with
  | grouping inner => simp [hn, isGrouping] at hgroup
  | literal form value => cases form <;> simp [isName, isReference, isTextLiteral]
  | _ => simp [isName, isReference, isTextLiteral]

/-- A query compiles only if it has names where it asks for them. -/
theorem Compilable.isNamed {limit : Nat} {n : Node} (h : n.Compilable limit) : n.Named := by
  intro level owner part x hx
  exact x.isName_iff.mp (h.named level owner part x hx)

/-- A literal that does not become text is no name. -/
theorem isName_eq_false_of_isLiteral {n : Node} (h : n.stripped.isLiteral = true)
    (htext : n.stripped.isTextLiteral = false) : n.isName = false := by
  rw [← Bool.not_eq_true, isName_iff, htext]
  cases hn : n.stripped with
  | literal form value => simp [isReference]
  | _ => simp [hn, isLiteral] at h

/-- `n.Blocks limit e`: the path of `e` leads to a node that cannot be compiled
whatever stands where names are asked for, since search documents have nothing for
it or it lies past the limit. -/
def Blocks (limit : Nat) (n : Node) (e : CompileError) : Prop :=
  ∃ x, n.LeadsTo e.path x ∧
    (x.isTranslated = false ∧ e.fault = .unsupported x.kind ∨
      limit < e.path.length - 1 ∧ e.fault = .tooDeep limit)

/-- Every fault of a query is an invalid shape, or it blocks the query. -/
theorem invalidShape_or_blocks {limit : Nat} {n : Node} {e : CompileError}
    (h : e ∈ n.faults limit) :
    (∃ kind reason, e.fault = .invalidShape kind reason) ∨ n.Blocks limit e := by
  obtain ⟨x, way, raises⟩ := locates_of_mem_faults h
  rw [Nat.zero_add] at raises
  obtain ⟨fault, path⟩ := e
  cases raises with
  | tooDeep hlevel => exact .inr ⟨x, way, .inr ⟨hlevel, rfl⟩⟩
  | notName hpart hx => exact .inl ⟨_, _, rfl⟩
  | own hown =>
      cases x with
      | literal form value =>
          simp only [ownFaults, List.mem_ite_nil_left, List.mem_singleton] at hown
          exact .inl ⟨form.kind, _, hown.2⟩
      | _ =>
          simp only [ownFaults, List.mem_ite_nil_left, List.mem_singleton,
            Bool.not_eq_true] at hown
          exact .inr ⟨_, way, .inl hown⟩

end Node

/-- **Names**: a query that compiles has, wherever a name is asked for, a reference or
a literal that becomes text. One with any other literal there is refused, with an
invalid shape unless it is blocked otherwise. And literals that become text are
never refused: where nothing else is wrong, having names is enough. -/
theorem Compiler.compile_names (c : Compiler) (n : Node) :
    (∀ d, c.compile n = .ok d → n.Named) ∧
    (∀ level owner part x, n.Contains level ⟨.name owner part, x⟩ →
      x.stripped.isLiteral = true → x.stripped.isTextLiteral = false →
      ∃ e, c.compile n = .error e ∧
        ((∃ kind reason, e.fault = .invalidShape kind reason) ∨
          n.Blocks c.settings.maxDepth e)) ∧
    ((∀ level p, n.Contains level p → p.node.isTranslated = true ∧ p.node.isFinite = true ∧
        level ≤ c.settings.maxDepth) →
      n.Named → c.compile n = .ok (n.document c.quoting)) := by
  refine ⟨fun d h => ?_, fun level owner part x hx hliteral htext => ?_, fun hfits hnamed => ?_⟩
  · exact ((c.compile_eq_ok_iff n d).mp h).1.isNamed
  · cases hfaults : n.faults c.settings.maxDepth with
    | nil =>
        have hname := ((n.faults_eq_nil_iff _).mp hfaults).named level owner part x hx
        rw [Node.isName_eq_false_of_isLiteral hliteral htext] at hname
        cases hname
    | cons e faults =>
        refine ⟨e, by rw [compile_eq_outcomeOf, hfaults]; rfl, ?_⟩
        exact Node.invalidShape_or_blocks (hfaults ▸ List.mem_cons_self)
  · refine (c.compile_eq_ok_iff n _).mpr ⟨⟨?_, ?_, ?_, ?_⟩, rfl⟩
    · exact fun level p hp => (hfits level p hp).1
    · exact fun level p hp _ => (hfits level p hp.contains).2.2
    · exact fun level owner part x hx => x.isName_iff.mpr (hnamed level owner part x hx)
    · exact fun level p hp => (hfits level p hp.contains).2.1

/-- A sort term over a cast literal, in parentheses: a string is taken for a name, a
number is refused. -/
theorem Compiler.compile_names_sortTerm :
    let sorted (value : Scalar) : Node :=
      .statement ⟨[], [.sort .descending (.grouping (.literal .casted value))], none, none⟩
    (∃ d, new.compile (sorted (.string "active")) = .ok d) ∧ (sorted (.string "active")).Named ∧
      new.compile (sorted (.string "active")) =
        .ok ((sorted (.string "active")).document .identity) ∧
      ∃ e, new.compile (sorted (.int 1)) = .error e ∧
        ((∃ kind reason, e.fault = .invalidShape kind reason) ∨
          (sorted (.int 1)).Blocks Settings.defaultMaxDepth e) := by
  intro sorted
  obtain ⟨hnamed, -, hok⟩ := new.compile_names (sorted (.string "active"))
  obtain ⟨-, hrefused, -⟩ := new.compile_names (sorted (.int 1))
  obtain ⟨d, hd⟩ : ∃ d, new.compile (sorted (.string "active")) = .ok d := ⟨_, rfl⟩
  refine ⟨⟨d, hd⟩, hnamed d hd, hok (fun level p hp => ?_) (hnamed d hd), ?_⟩
  · have hcheck := Node.forall_contains_of_checks
      (fun level p => p.node.isTranslated && p.node.isFinite && level ≤ new.settings.maxDepth)
      4 rfl level p hp
    simpa [and_assoc] using hcheck
  · have hplace : (sorted (.int 1)).Contains 2
        ⟨.name "Descending" "sort expression", .grouping (.literal .casted (.int 1))⟩ :=
      .down List.mem_cons_self (.down List.mem_cons_self (.here _))
    exact hrefused 2 _ _ _ hplace rfl rfl

/-- A string on the left of a test is taken for the name of an attribute. -/
theorem Compiler.compile_literal_name :
    new.compile (.equality .equal (.literal .casted (.string "active"))
        (some (.column ⟨none, "status", .undefined⟩))) =
      .ok (.object [("filter", .object [("attribute", .object [("name", .string "active")]),
        ("parameter", .object [("eq", .string "status")])])]) := rfl

end RelSearch
