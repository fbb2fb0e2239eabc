import Mathlib.Data.List.Forall2
import RelSearch.Proofs.Grouping
import RelSearch.Proofs.Trace

/-!
# RelSearch.Proofs.Likeness

Queries that a compiler cannot tell apart, or that two compilers with different
policies cannot.

`Node.Like` compares two nodes by one step: either they have no parts that are visited
and are related as leaves, or they have the same operator and related parts. A relation
between nodes that implies `Like` can be followed down a query. Whatever nodes it
relates,

1. the steps of a compiler are the same (`Place.steps_eq_of_like`), and so are its
   reports and its errors (`Run.Alike`);
2. the documents are the same, as far as those of the leaves are
   (`Node.document_eq_of_like`);
3. one can be compiled exactly if the other can, even where the leaves differ in their
   kinds (`Place.faults_eq_nil_iff_of_like`).
-/

namespace RelSearch

/-! ## Runs that differ in their result only -/

/-- Two runs that report the same and fail alike; their results may differ. -/
structure Run.Alike {α : Type} (x y : Run α) : Prop where
  events : x.events = y.events
  succeeds_iff : (∃ a, x.outcome = .ok a) ↔ ∃ a, y.outcome = .ok a
  error_iff : ∀ e, x.outcome = .error e ↔ y.outcome = .error e

namespace Run.Alike

variable {α : Type}

/-- Runs of the same steps are alike, whatever their results are. -/
theorem ofSteps (a b : α) (steps : List Step) :
    (Run.ofSteps a steps).Alike (Run.ofSteps b steps) where
  events := by rw [events_ofSteps, events_ofSteps]
  succeeds_iff := by
    rw [outcome_ofSteps, outcome_ofSteps]
    cases steps.filterMap Step.fault? <;> simp [outcomeOf]
  error_iff := by
    rw [outcome_ofSteps, outcome_ofSteps]
    cases steps.filterMap Step.fault? <;> simp [outcomeOf]

/-- Of two runs that are alike, both have a result or both have the same error. -/
theorem outcome_cases {x y : Run α} (h : x.Alike y) :
    (∃ a b, x.outcome = .ok a ∧ y.outcome = .ok b) ∨
      ∃ e, x.outcome = .error e ∧ y.outcome = .error e := by
  cases hx : x.outcome with
  | ok a =>
      obtain ⟨b, hb⟩ := h.succeeds_iff.mp ⟨a, hx⟩
      exact .inl ⟨a, b, rfl, hb⟩
  | error e => exact .inr ⟨e, rfl, (h.error_iff e).mp hx⟩

/-- Below a node of the same kind, runs stay alike. -/
theorem under {x y : Run α} (h : x.Alike y) (kind : String) :
    (x.under kind).Alike (y.under kind) := by
  rcases h.outcome_cases with ⟨a, b, hx, hy⟩ | ⟨e, hx, hy⟩
  · exact ⟨h.events, by simp [hx, hy, Except.mapError], by simp [hx, hy, Except.mapError]⟩
  · exact ⟨h.events, by simp [hx, hy, Except.mapError], by simp [hx, hy, Except.mapError]⟩

/-- Behind the same event, runs stay alike. -/
theorem after {x y : Run α} (h : x.Alike y) (event : Event) :
    (Run.report event >>= fun _ => x).Alike (Run.report event >>= fun _ => y) where
  events := congrArg (event :: ·) h.events
  succeeds_iff := h.succeeds_iff
  error_iff := h.error_iff

end Run.Alike

namespace Compiler

/-- Nodes of one kind that are lowered alike are compiled alike. -/
theorem runNode_alike {c d : Compiler} {a b : Node} (hkind : a.kind = b.kind)
    (h : (c.lower a 0).Alike (d.lower b 0)) : (c.runNode a).Alike (d.runNode b) := by
  rcases h.outcome_cases with ⟨x, y, hx, hy⟩ | ⟨e, hx, hy⟩
  · exact ⟨by simp [runNode, hx, hy, hkind, h.events], by simp [runNode, hx, hy],
      by simp [runNode, hx, hy]⟩
  · exact ⟨by simp [runNode, hx, hy, hkind, h.events], by simp [runNode, hx, hy],
      by simp [runNode, hx, hy]⟩

end Compiler

/-! ## One step down -/

/-- Two statements whose parts are related one by one. -/
structure Statement.Like (R : Node → Node → Prop) (s t : Statement) : Prop where
  cores : List.Forall₂ (fun c d => R (.core c) (.core d)) s.cores t.cores
  orders : List.Forall₂ (fun x y => x.isSort = y.isSort ∧ R x y) s.orders t.orders
  limit : Option.Rel R s.limit t.limit
  offset : Option.Rel R s.offset t.offset

/-- Two nodes that are related as leaves, or that have the same operator and visited
parts that are related one by one. -/
inductive Node.Like (leaf R : Node → Node → Prop) : Node → Node → Prop
  | leaf {a b : Node} (h : leaf a b) : Like leaf R a b
  | statement {s t : Statement} (h : s.Like R t) : Like leaf R (.statement s) (.statement t)
  | subquery {s t : Statement} (h : s.Like R t) : Like leaf R (.subquery s) (.subquery t)
  | core {ps ps' ws ws' : List Node} (projections : List.Forall₂ R ps ps')
    (wheres : List.Forall₂ R ws ws') : Like leaf R (.core ⟨ps, ws⟩) (.core ⟨ps', ws'⟩)
  | nullTest (op : EqualityOp) {l l' : Node} (left : R l l') :
    Like leaf R (.equality op l none) (.equality op l' none)
  | equality (op : EqualityOp) {l l' r r' : Node} (left : R l l') (null : r.isNull = r'.isNull)
    (right : r.isNull = false → R r r') :
    Like leaf R (.equality op l (some r)) (.equality op l' (some r'))
  | connective (op : Connective) {l l' r r' : Node} (left : R l l') (right : R r r') :
    Like leaf R (.connective op l r) (.connective op l' r')
  | sort (order : SortOrder) {n n' : Node} (operand : R n n') :
    Like leaf R (.sort order n) (.sort order n')
  | grouping {n n' : Node} (inner : R n n') : Like leaf R (.grouping n) (.grouping n')

/-- Lists that are related item by item have the same image under functions that agree on related
items. -/
theorem map_eq_of_forall₂ {α β γ : Type} {R : α → β → Prop} {f : α → γ} {g : β → γ} {l : List α}
    {m : List β} (h : List.Forall₂ R l m) (hf : ∀ a ∈ l, ∀ b, R a b → f a = g b) :
    l.map f = m.map g := by
  induction h with
  | nil => rfl
  | @cons a b l m hab _ ih =>
      rw [List.map_cons, List.map_cons, hf a List.mem_cons_self b hab,
        ih fun x hx => hf x (List.mem_cons_of_mem a hx)]

/-- The same for a property of all items. -/
theorem forall_iff_of_forall₂ {α β : Type} {R : α → β → Prop} {P : α → Prop} {Q : β → Prop}
    {l : List α} {m : List β} (h : List.Forall₂ R l m)
    (hPQ : ∀ a ∈ l, ∀ b, R a b → (P a ↔ Q b)) : (∀ a ∈ l, P a) ↔ ∀ b ∈ m, Q b := by
  induction h with
  | nil => simp
  | @cons a b l m hab _ ih =>
      rw [List.forall_mem_cons, List.forall_mem_cons, hPQ a List.mem_cons_self b hab,
        ih fun x hx => hPQ x (List.mem_cons_of_mem a hx)]

/-- The same for what may be missing. -/
theorem map_eq_of_rel {α β γ : Type} {R : α → β → Prop} {f : α → γ} {g : β → γ} {x : Option α}
    {y : Option β} (h : Option.Rel R x y) (hf : ∀ a ∈ x, ∀ b, R a b → f a = g b) :
    x.map f = y.map g := by
  cases h with
  | some hab => exact congrArg some (hf _ rfl _ hab)
  | none => rfl

/-! ## Documents -/

section

variable {p q : Quoting} {leaf R : Node → Node → Prop}

/-- Nodes with the same name and document sort alike, if both have an order or none has. -/
theorem Node.sortTerm_eq {a b : Node} (hsort : a.isSort = b.isSort)
    (h : a.name p = b.name q ∧ a.document p = b.document q) : a.sortTerm p = b.sortTerm q := by
  cases ha : a.isSort with
  | true => rw [sortTerm_of_isSort p ha, sortTerm_of_isSort q (hsort ▸ ha), h.2]
  | false => rw [sortTerm_of_isSort_eq_false p ha, sortTerm_of_isSort_eq_false q (hsort ▸ ha), h.1]

/-- The sort terms of a statement are among its parts. -/
theorem Statement.ofSortTerm_mem_parts {s : Statement} {n : Node} (h : n ∈ s.orders) :
    .ofSortTerm n ∈ s.parts := by
  simp only [Statement.parts, List.mem_append]
  exact .inl (.inl (.inr (List.mem_map_of_mem h)))

/-- Statements whose parts become the same, become the same. -/
theorem Statement.document_eq_of_like {s t : Statement} (h : s.Like R t)
    (hR : ∀ x ∈ s.parts, ∀ b, R x.node b →
      x.node.name p = b.name q ∧ x.node.document p = b.document q) :
    s.document p = t.document q := by
  have hcores : s.cores.map (·.query p) = t.cores.map (·.query q) := by
    refine map_eq_of_forall₂ h.cores fun c hc d hcd => ?_
    have hcore := hR ⟨.core, .core c⟩ (by simp [Statement.parts, hc]) (.core d) hcd
    simpa [Node.document_core, Document.ofQuery] using hcore.2
  have hsort : s.orders.map (·.sortTerm p) = t.orders.map (·.sortTerm q) := by
    refine map_eq_of_forall₂ h.orders fun x hx y hxy => Node.sortTerm_eq hxy.1 ?_
    simpa using hR (.ofSortTerm x) (Statement.ofSortTerm_mem_parts hx) y (by simpa using hxy.2)
  have hlimit : s.limit.map (·.document p) = t.limit.map (·.document q) :=
    map_eq_of_rel h.limit fun x hx y hxy =>
      (hR ⟨.value, x⟩ (by simp_all [Statement.parts]) y hxy).2
  have hoffset : s.offset.map (·.document p) = t.offset.map (·.document q) :=
    map_eq_of_rel h.offset fun x hx y hxy =>
      (hR ⟨.value, x⟩ (by simp_all [Statement.parts]) y hxy).2
  rw [Statement.document_eq, Statement.document_eq, hcores, hsort, hlimit, hoffset]

/-- **Documents**: nodes that are alike, all the way down, have the same name and the same
document. -/
theorem Node.document_eq_of_like (hR : ∀ a b, R a b → Like leaf R a b)
    (hleaf : ∀ a b, leaf a b → a.name p = b.name q ∧ a.document p = b.document q) {a b : Node}
    (h : R a b) : a.name p = b.name q ∧ a.document p = b.document q := by
  induction a using Node.induction_parts generalizing b with
  | step a ih =>
      cases hR a b h with
      | leaf hab => exact hleaf _ _ hab
      | statement hst =>
          rw [Node.document, Node.document]
          exact ⟨rfl, Statement.document_eq_of_like hst fun x hx b hb => ih x hx hb⟩
      | subquery hst =>
          rw [Node.document, Node.document]
          exact ⟨rfl, Statement.document_eq_of_like hst fun x hx b hb => ih x hx hb⟩
      | @core ps ps' ws ws' projections wheres =>
          have hnames : (ps.map fun n => Document.attributeRef (n.name p)) =
              ps'.map fun n => Document.attributeRef (n.name q) := by
            refine map_eq_of_forall₂ projections fun x hx y hxy => ?_
            have hname := ih ⟨.name "Core" "projection", x⟩
              (by simp [Node.parts, Core.parts, hx]) hxy
            rw [hname.1]
          have hconditions : (ws.map fun n => n.document p) = ws'.map fun n => n.document q :=
            map_eq_of_forall₂ wheres fun x hx y hxy =>
              (ih ⟨.value, x⟩ (by simp [Node.parts, Core.parts, hx]) hxy).2
          simp only [Node.name, Node.document_core, Core.query, hnames, hconditions, and_self]
      | nullTest op left =>
          have hleft := ih _ List.mem_cons_self left
          cases op <;> simp only [Node.name, Node.document, hleft.1, and_self]
      | @equality op l l' r r' left null right =>
          have hleft := ih _ List.mem_cons_self left
          by_cases hnull : r.isNull = true
          · cases op <;>
              simp only [Node.name, Node.document, hleft.1, ← null, hnull, if_true, and_self]
          · have hright : r.document p = r'.document q := by
              have hr := ih (.ofRight r) (by simp [Node.parts]) (b := r')
              simpa using (hr (by simpa using right (eq_false_of_ne_true hnull))).2
            cases op <;>
              simp only [Node.name, Node.document, hleft.1, ← null, hnull, hright, if_false,
                Bool.false_eq_true, and_self]
      | connective op left right =>
          have hleft := ih _ List.mem_cons_self left
          have hright := ih _ (List.mem_cons_of_mem _ List.mem_cons_self) right
          simp only [Node.name, Node.document_connective, hleft.2, hright.2, and_self]
      | sort order operand =>
          have hoperand := ih _ List.mem_cons_self operand
          simp only [Node.name, Node.document, hoperand.1, and_self]
      | grouping inner =>
          have hinner := ih _ List.mem_cons_self inner
          simpa only [Node.name, Node.document] using hinner

end

/-! ## Steps -/

/-- Leaves that can stand in the same places: they are names or not and have faults or not,
and a compiler goes no further down. -/
structure Node.FitsAlike (a b : Node) : Prop where
  isName : a.isName = b.isName
  ownFaults_iff : a.ownFaults = [] ↔ b.ownFaults = []
  left : a.visitedParts = []
  right : b.visitedParts = []

/-- Leaves that a compiler cannot tell apart by its steps: what it asks of them is the
same, and it goes no further down. -/
structure Node.SameLeaf (a b : Node) : Prop where
  kind : a.kind = b.kind
  isName : a.isName = b.isName
  ownFaults : a.ownFaults = b.ownFaults
  left : a.visitedParts = []
  right : b.visitedParts = []

/-- Leaves with the same kind and faults fit in the same places. -/
theorem Node.SameLeaf.fitsAlike {a b : Node} (h : SameLeaf a b) : FitsAlike a b :=
  ⟨h.isName, by rw [h.ownFaults], h.left, h.right⟩

/-- Places with the same role and related nodes. -/
def Place.Like (R : Node → Node → Prop) (x y : Place) : Prop := x.role = y.role ∧ R x.node y.node

section

variable {leaf R : Node → Node → Prop}

/-- Statements that are alike have parts that are, in the same roles. -/
theorem Statement.parts_like {s t : Statement} (h : s.Like R t) :
    List.Forall₂ (Place.Like R) s.parts t.parts := by
  have hoptional : ∀ {x y : Option Node}, Option.Rel R x y →
      List.Forall₂ (Place.Like R) (x.toList.map (⟨.value, ·⟩)) (y.toList.map (⟨.value, ·⟩)) := by
    intro x y hxy
    cases hxy with
    | some hab => simpa [Place.Like] using hab
    | none => simp
  have hcores : List.Forall₂ (Place.Like R)
      (s.cores.map (⟨.core, .core ·⟩)) (t.cores.map (⟨.core, .core ·⟩)) := by
    simpa [Place.Like] using h.cores
  have horders : List.Forall₂ (Place.Like R)
      (s.orders.map .ofSortTerm) (t.orders.map .ofSortTerm) := by
    rw [List.forall₂_map_left_iff, List.forall₂_map_right_iff]
    refine h.orders.imp fun x y hxy => ?_
    simp only [Place.ofSortTerm, ← hxy.1]
    split <;> exact ⟨rfl, hxy.2⟩
  exact List.rel_append (List.rel_append (List.rel_append hcores horders) (hoptional h.limit))
    (hoptional h.offset)

/-- So have cores. -/
theorem Core.parts_like {ps ps' ws ws' : List Node} (projections : List.Forall₂ R ps ps')
    (wheres : List.Forall₂ R ws ws') :
    List.Forall₂ (Place.Like R) (Core.parts ⟨ps, ws⟩) (Core.parts ⟨ps', ws'⟩) := by
  refine List.rel_append ?_ ?_
  · simpa [Place.Like] using projections
  · simpa [Place.Like] using wheres

theorem Place.filter_eq_self {places : List Place} (h : ∀ x ∈ places, x.role ≠ .skipped) :
    places.filter (·.role ≠ .skipped) = places := by
  rw [List.filter_eq_self]
  simpa using h

namespace Node

/-- Nodes that are alike have visited parts that are alike. -/
theorem Like.visitedParts (hleaf : ∀ a b, leaf a b → FitsAlike a b) {a b : Node}
    (h : Like leaf R a b) : List.Forall₂ (Place.Like R) a.visitedParts b.visitedParts := by
  cases h with
  | leaf hab =>
      rw [(hleaf _ _ hab).left, (hleaf _ _ hab).right]
      exact .nil
  | @statement s t hst =>
      rw [Node.visitedParts, Node.visitedParts, Node.parts, Node.parts,
        Place.filter_eq_self fun _ => s.role_ne_skipped_of_mem_parts,
        Place.filter_eq_self fun _ => t.role_ne_skipped_of_mem_parts]
      exact Statement.parts_like hst
  | @subquery s t hst =>
      rw [Node.visitedParts, Node.visitedParts, Node.parts, Node.parts,
        Place.filter_eq_self fun _ => s.role_ne_skipped_of_mem_parts,
        Place.filter_eq_self fun _ => t.role_ne_skipped_of_mem_parts]
      exact Statement.parts_like hst
  | @core ps ps' ws ws' projections wheres =>
      rw [Node.visitedParts, Node.visitedParts, Node.parts, Node.parts,
        Place.filter_eq_self fun _ => (Core.mk ps ws).role_ne_skipped_of_mem_parts,
        Place.filter_eq_self fun _ => (Core.mk ps' ws').role_ne_skipped_of_mem_parts]
      exact Core.parts_like projections wheres
  | nullTest op left => simpa [Node.visitedParts, Node.parts, Place.Like] using left
  | @equality op l l' r r' left null right =>
      by_cases hnull : r.isNull = true
      · simpa [Node.visitedParts, Node.parts, Place.ofRight, Place.Like, ← null, hnull] using left
      · have hright := right (eq_false_of_ne_true hnull)
        simpa [Node.visitedParts, Node.parts, Place.ofRight, Place.Like, ← null, hnull]
          using ⟨left, hright⟩
  | connective op left right =>
      simpa [Node.visitedParts, Node.parts, Place.Like] using ⟨left, right⟩
  | sort order operand => simpa [Node.visitedParts, Node.parts, Place.Like] using operand
  | grouping inner => simpa [Node.visitedParts, Node.parts, Place.Like] using inner

/-- Nodes that are alike are of one kind. -/
theorem Like.kind (hleaf : ∀ a b, leaf a b → SameLeaf a b) {a b : Node} (h : Like leaf R a b) :
    a.kind = b.kind := by
  cases h with
  | leaf hab => exact (hleaf _ _ hab).kind
  | _ => rfl

/-- Nodes that are alike have the same faults of their own. -/
theorem Like.ownFaults (hleaf : ∀ a b, leaf a b → SameLeaf a b) {a b : Node} (h : Like leaf R a b) :
    a.ownFaults = b.ownFaults := by
  cases h with
  | leaf hab => exact (hleaf _ _ hab).ownFaults
  | _ => rfl

/-- Of two nodes that are alike, both are names or none is: parentheses are taken away from both.
-/
theorem isName_eq_of_like (hR : ∀ a b, R a b → Like leaf R a b)
    (hleaf : ∀ a b, leaf a b → FitsAlike a b) {a b : Node} (h : R a b) : a.isName = b.isName := by
  induction a using Node.induction_parts generalizing b with
  | step a ih =>
      cases hR a b h with
      | leaf hab => exact (hleaf _ _ hab).isName
      | grouping inner =>
          have hinner := ih _ List.mem_cons_self inner
          simpa [isName] using hinner
      | _ => rfl

/-- Only the parts that are visited have steps. -/
theorem stepsInside_eq_visitedParts (limit : Nat) (above : NodePath) (level : Nat) (n : Node) :
    n.stepsInside limit above level = n.ownFaults.map (.fault ⟨·, above ++ [n.kind]⟩) ++
      n.visitedParts.flatMap (·.steps limit (above ++ [n.kind]) (level + 1)) := by
  rw [stepsInside, Node.visitedParts]
  congr 1
  induction n.parts with
  | nil => rfl
  | cons x places ih =>
      obtain ⟨role, n⟩ := x
      by_cases hrole : role = .skipped
      · simpa [hrole, Place.steps_skipped] using ih
      · simpa [hrole] using ih

end Node

/-- **Steps**: at nodes that are alike, all the way down, a compiler takes the same
steps. -/
theorem Place.steps_eq_of_like (hR : ∀ a b, R a b → Node.Like leaf R a b)
    (hleaf : ∀ a b, leaf a b → Node.SameLeaf a b) (limit : Nat) (above : NodePath) (level : Nat)
    (role : Role) {a b : Node} (h : R a b) :
    steps limit above level ⟨role, a⟩ = steps limit above level ⟨role, b⟩ := by
  have hfits : ∀ a b, leaf a b → Node.FitsAlike a b := fun a b h => (hleaf a b h).fitsAlike
  induction a using Node.induction_parts generalizing role above level b with
  | step a ih =>
      have hab := hR a b h
      have hkind := hab.kind hleaf
      have hinside : a.stepsInside limit above level = b.stepsInside limit above level := by
        rw [Node.stepsInside_eq_visitedParts, Node.stepsInside_eq_visitedParts,
          hab.ownFaults hleaf, hkind]
        congr 1
        rw [List.flatMap_def, List.flatMap_def]
        refine congrArg List.flatten (map_eq_of_forall₂ (hab.visitedParts hfits) ?_)
        rintro ⟨role, x⟩ hx ⟨role', y⟩ ⟨hrole, hxy⟩
        obtain rfl : role = role' := hrole
        exact ih _ (Node.mem_visitedParts.mp hx).1 _ _ role hxy
      have hvalue : steps limit above level ⟨.value, a⟩ = steps limit above level ⟨.value, b⟩ := by
        rw [steps_value, steps_value, hinside, hkind]
      cases role with
      | core => rw [steps_core, steps_core, hinside]
      | value => exact hvalue
      | name owner part =>
          rw [steps_name, steps_name, hvalue, Node.isName_eq_of_like hR hfits h, Fault.notName,
            Fault.notName, hkind]
      | skipped => rw [steps_skipped, steps_skipped]

/-! ## Nodes that can be compiled -/

/-- Of two nodes that are alike, both have faults of their own or none has. -/
theorem Node.Like.ownFaults_eq_nil_iff (hleaf : ∀ a b, leaf a b → FitsAlike a b) {a b : Node}
    (h : Like leaf R a b) : a.ownFaults = [] ↔ b.ownFaults = [] := by
  cases h with
  | leaf hab => exact (hleaf _ _ hab).ownFaults_iff
  | _ => rfl

/-- **Faults**: of nodes that are alike, all the way down, one has faults exactly if the
other has. What the faults are may differ, if the leaves do. -/
theorem Place.faults_eq_nil_iff_of_like (hR : ∀ a b, R a b → Node.Like leaf R a b)
    (hleaf : ∀ a b, leaf a b → Node.FitsAlike a b) (limit : Nat) (above above' : NodePath)
    (level : Nat) (role : Role) {a b : Node} (h : R a b) :
    faults limit above level ⟨role, a⟩ = [] ↔ faults limit above' level ⟨role, b⟩ = [] := by
  induction a using Node.induction_parts generalizing role above above' level b with
  | step a ih =>
      have hab := hR a b h
      have hinside : a.faultsInside limit above level = [] ↔
          b.faultsInside limit above' level = [] := by
        have hown := hab.ownFaults_eq_nil_iff hleaf
        rw [Node.ownFaults_eq_nil_iff, Node.ownFaults_eq_nil_iff] at hown
        rw [Node.faultsInside_eq_nil_iff, Node.faultsInside_eq_nil_iff, ← and_assoc, ← and_assoc,
          hown]
        refine and_congr_right fun _ => forall_iff_of_forall₂ (hab.visitedParts hleaf) ?_
        rintro ⟨role, x⟩ hx ⟨role', y⟩ ⟨hrole, hxy⟩
        obtain rfl : role = role' := hrole
        exact ih _ (Node.mem_visitedParts.mp hx).1 _ _ _ role hxy
      have hvalue : faults limit above level ⟨.value, a⟩ = [] ↔
          faults limit above' level ⟨.value, b⟩ = [] := by
        rw [faults_value_eq_nil_iff, faults_value_eq_nil_iff, hinside]
      cases role with
      | core => rw [faults_core, faults_core, hinside]
      | value => exact hvalue
      | name owner part =>
          rw [faults_name_eq_nil_iff, faults_name_eq_nil_iff, hvalue,
            Node.isName_eq_of_like hR hleaf h]
      | skipped => rw [faults_skipped, faults_skipped]

end

end RelSearch
