import RelSearch.Proofs.Congruence
import RelSearch.Proofs.Faithful
import RelSearch.Proofs.FloatValue
import RelSearch.Proofs.RoundTrip

/-!
# RelSearch.Proofs.Equivalence

Equality of queries, taken apart into the tree and its scalars.

1. The skeleton of a query is its tree without the scalars. Queries are equal exactly if
   they have the same skeleton and equal scalars, one by one (`Node.beq_iff`); the
   induction is over the tree, and needs that a skeleton tells how many scalars there are.
2. Scalars are equal exactly if there is something that both are compared by: the number of
   a float or of a decimal, and otherwise the scalar itself (`Scalar.beq_iff_content?`). The
   comparison of decimals has to keep its carries for that (`Decimal.KeepsCarry`).
3. So equality is symmetric, fails to be reflexive at NaN only, and is transitive as far as
   carries are kept (`Node.equality_laws`).
-/

namespace RelSearch

/-! ## Skeletons -/

mutual

/-- A node with null in the place of every scalar. -/
def Node.skeleton : Node → Node
  | .statement s => .statement s.skeleton
  | .core c => .core c.skeleton
  | .equality op l r => .equality op l.skeleton (skeletonOptional r)
  | .comparison op l r => .comparison op l.skeleton r.skeleton
  | .connective op l r => .connective op l.skeleton r.skeleton
  | .not n => .not n.skeleton
  | .sort order n => .sort order n.skeleton
  | .column a => .column a
  | .literal form _ => .literal form .null
  | .sqlLiteral text => .sqlLiteral text
  | .bool b => .bool b
  | .grouping n => .grouping n.skeleton
  | .subquery s => .subquery s.skeleton
  | .namedFunction name args => .namedFunction name (skeletonNodes args)

def skeletonOptional : Option Node → Option Node
  | none => none
  | some n => some n.skeleton

def skeletonNodes : List Node → List Node
  | [] => []
  | n :: ns => n.skeleton :: skeletonNodes ns

def Core.skeleton : Core → Core
  | ⟨projections, wheres⟩ => ⟨skeletonNodes projections, skeletonNodes wheres⟩

def skeletonCores : List Core → List Core
  | [] => []
  | c :: cs => c.skeleton :: skeletonCores cs

def Statement.skeleton : Statement → Statement
  | ⟨cores, orders, limit, offset⟩ =>
    ⟨skeletonCores cores, skeletonNodes orders, skeletonOptional limit, skeletonOptional offset⟩

end

mutual

/-- A skeleton has as many scalars. -/
theorem Node.length_scalars_skeleton (n : Node) :
    n.skeleton.scalars.length = n.scalars.length := by
  cases n with
  | statement s => exact s.length_scalars_skeleton
  | core c => exact c.length_scalars_skeleton
  | equality op l r =>
      simp [Node.skeleton, Node.scalars, l.length_scalars_skeleton,
        length_scalarsOptional_skeleton r]
  | comparison op l r | connective op l r =>
      simp [Node.skeleton, Node.scalars, l.length_scalars_skeleton, r.length_scalars_skeleton]
  | not n => exact n.length_scalars_skeleton
  | sort order n => exact n.length_scalars_skeleton
  | column a => rfl
  | literal form v => rfl
  | sqlLiteral text => rfl
  | bool b => rfl
  | grouping n => exact n.length_scalars_skeleton
  | subquery s => exact s.length_scalars_skeleton
  | namedFunction name args => exact length_scalarsNodes_skeleton args

theorem length_scalarsOptional_skeleton (r : Option Node) :
    (scalarsOptional (skeletonOptional r)).length = (scalarsOptional r).length := by
  cases r with
  | none => rfl
  | some n => exact n.length_scalars_skeleton

theorem length_scalarsNodes_skeleton (ns : List Node) :
    (scalarsNodes (skeletonNodes ns)).length = (scalarsNodes ns).length := by
  cases ns with
  | nil => rfl
  | cons n ns =>
      simp [skeletonNodes, scalarsNodes, n.length_scalars_skeleton,
        length_scalarsNodes_skeleton ns]

theorem Core.length_scalars_skeleton (c : Core) :
    c.skeleton.scalars.length = c.scalars.length := by
  cases c with
  | mk projections wheres =>
      simp [Core.skeleton, Core.scalars, length_scalarsNodes_skeleton projections,
        length_scalarsNodes_skeleton wheres]

theorem length_scalarsCores_skeleton (cs : List Core) :
    (scalarsCores (skeletonCores cs)).length = (scalarsCores cs).length := by
  cases cs with
  | nil => rfl
  | cons c cs =>
      simp [skeletonCores, scalarsCores, c.length_scalars_skeleton,
        length_scalarsCores_skeleton cs]

theorem Statement.length_scalars_skeleton (s : Statement) :
    s.skeleton.scalars.length = s.scalars.length := by
  cases s with
  | mk cores orders limit offset =>
      simp [Statement.skeleton, Statement.scalars, length_scalarsCores_skeleton cores,
        length_scalarsNodes_skeleton orders, length_scalarsOptional_skeleton limit,
        length_scalarsOptional_skeleton offset]

end

/-! ## Equal scalars, one by one -/

/-- Two lists of scalars are equal, one by one. -/
def EqualScalars (l m : List Scalar) : Prop := List.Forall₂ (fun v w => (v == w) = true) l m

/-- Lists in two parts are equal exactly if the parts are, where it is known that the first
parts are of the same length. -/
theorem equalScalars_append_iff {p q : Prop} {l m l' m' : List Scalar}
    (h : p → l.length = m.length) :
    (p ∧ q) ∧ EqualScalars (l ++ l') (m ++ m') ↔
      (p ∧ EqualScalars l m) ∧ (q ∧ EqualScalars l' m') := by
  constructor
  · rintro ⟨⟨hp, hq⟩, hall⟩
    have hfront := List.forall₂_take l.length hall
    have hback := List.forall₂_drop l.length hall
    rw [List.take_left, h hp, List.take_left] at hfront
    rw [List.drop_left, h hp, List.drop_left] at hback
    exact ⟨⟨hp, hfront⟩, hq, hback⟩
  · rintro ⟨⟨hp, hfront⟩, hq, hback⟩
    exact ⟨⟨hp, hq⟩, List.rel_append hfront hback⟩

/-- Lists put together from lists of the same lengths have the same length. -/
theorem length_append_eq {p q : Prop} {l m l' m' : List Scalar} (hp : p → l.length = m.length)
    (hq : q → l'.length = m'.length) (h : p ∧ q) : (l ++ l').length = (m ++ m').length := by
  rw [List.length_append, List.length_append, hp h.1, hq h.2]

/-- What has the same skeleton has as many scalars: a skeleton keeps a scalar in each place. -/
theorem length_eq_of_skeleton_eq {α : Type} {skeleton : α → α} {scalars : α → List Scalar}
    (h : ∀ a, (scalars (skeleton a)).length = (scalars a).length) {a b : α}
    (hab : skeleton a = skeleton b) : (scalars a).length = (scalars b).length := by
  rw [← h a, hab, h b]

mutual

/-- Nodes are equal exactly if they have the same skeleton and equal scalars. -/
theorem Node.beq_iff (a b : Node) :
    a.beq b = true ↔ a.skeleton = b.skeleton ∧ EqualScalars a.scalars b.scalars := by
  -- nodes of two kinds are not equal, and their skeletons are of two kinds as well
  cases a with
  | statement s =>
      cases b with
      | statement t => simp [Node.beq, Node.skeleton, Node.scalars, s.beq_iff t]
      | _ => simp [Node.beq, Node.skeleton]
  | core c =>
      cases b with
      | core d => simp [Node.beq, Node.skeleton, Node.scalars, c.beq_iff d]
      | _ => simp [Node.beq, Node.skeleton]
  | equality op l r =>
      cases b with
      | equality op' l' r' =>
          rw [Node.beq, Bool.and_eq_true, Bool.and_eq_true, l.beq_iff l', beqOptional_iff r r',
            and_assoc,
            ← equalScalars_append_iff (length_eq_of_skeleton_eq Node.length_scalars_skeleton)]
          simp [Node.skeleton, Node.scalars, and_assoc]
      | _ => simp [Node.beq, Node.skeleton]
  | comparison op l r =>
      cases b with
      | comparison op' l' r' =>
          rw [Node.beq, Bool.and_eq_true, Bool.and_eq_true, l.beq_iff l', r.beq_iff r',
            and_assoc,
            ← equalScalars_append_iff (length_eq_of_skeleton_eq Node.length_scalars_skeleton)]
          simp [Node.skeleton, Node.scalars, and_assoc]
      | _ => simp [Node.beq, Node.skeleton]
  | connective op l r =>
      cases b with
      | connective op' l' r' =>
          rw [Node.beq, Bool.and_eq_true, Bool.and_eq_true, l.beq_iff l', r.beq_iff r',
            and_assoc,
            ← equalScalars_append_iff (length_eq_of_skeleton_eq Node.length_scalars_skeleton)]
          simp [Node.skeleton, Node.scalars, and_assoc]
      | _ => simp [Node.beq, Node.skeleton]
  | not n =>
      cases b with
      | not m => simp [Node.beq, Node.skeleton, Node.scalars, n.beq_iff m]
      | _ => simp [Node.beq, Node.skeleton]
  | sort order n =>
      cases b with
      | sort order' m => simp [Node.beq, Node.skeleton, Node.scalars, n.beq_iff m, and_assoc]
      | _ => simp [Node.beq, Node.skeleton]
  | column x =>
      cases b with
      | column y => simp [Node.beq, Node.skeleton, Node.scalars, EqualScalars]
      | _ => simp [Node.beq, Node.skeleton]
  | literal form v =>
      cases b with
      | literal form' w => simp [Node.beq, Node.skeleton, Node.scalars, EqualScalars]
      | _ => simp [Node.beq, Node.skeleton]
  | sqlLiteral text =>
      cases b with
      | sqlLiteral text' => simp [Node.beq, Node.skeleton, Node.scalars, EqualScalars]
      | _ => simp [Node.beq, Node.skeleton]
  | bool x =>
      cases b with
      | bool y => simp [Node.beq, Node.skeleton, Node.scalars, EqualScalars]
      | _ => simp [Node.beq, Node.skeleton]
  | grouping n =>
      cases b with
      | grouping m => simp [Node.beq, Node.skeleton, Node.scalars, n.beq_iff m]
      | _ => simp [Node.beq, Node.skeleton]
  | subquery s =>
      cases b with
      | subquery t => simp [Node.beq, Node.skeleton, Node.scalars, s.beq_iff t]
      | _ => simp [Node.beq, Node.skeleton]
  | namedFunction name args =>
      cases b with
      | namedFunction name' args' =>
          simp [Node.beq, Node.skeleton, Node.scalars, beqNodes_iff args args', and_assoc]
      | _ => simp [Node.beq, Node.skeleton]

/-- Parts that may be missing are equal if both are missing or both are there and equal. -/
theorem beqOptional_iff (r r' : Option Node) :
    beqOptional r r' = true ↔
      skeletonOptional r = skeletonOptional r' ∧
        EqualScalars (scalarsOptional r) (scalarsOptional r') := by
  cases r with
  | none =>
      cases r' with
      | none => simp [beqOptional, skeletonOptional, scalarsOptional, EqualScalars]
      | some m => simp [beqOptional, skeletonOptional]
  | some n =>
      cases r' with
      | none => simp [beqOptional, skeletonOptional]
      | some m => simp [beqOptional, skeletonOptional, scalarsOptional, n.beq_iff m]

/-- Lists of nodes are equal item by item, so that the scalars of the items can be put together.
-/
theorem beqNodes_iff (l m : List Node) :
    beqNodes l m = true ↔
      skeletonNodes l = skeletonNodes m ∧ EqualScalars (scalarsNodes l) (scalarsNodes m) := by
  cases l with
  | nil =>
      cases m with
      | nil => simp [beqNodes, skeletonNodes, scalarsNodes, EqualScalars]
      | cons b m => simp [beqNodes, skeletonNodes]
  | cons a l =>
      cases m with
      | nil => simp [beqNodes, skeletonNodes]
      | cons b m =>
          rw [beqNodes, Bool.and_eq_true, a.beq_iff b, beqNodes_iff l m,
            ← equalScalars_append_iff (length_eq_of_skeleton_eq Node.length_scalars_skeleton)]
          simp [skeletonNodes, scalarsNodes]

/-- Cores are equal if they have the same skeleton and equal scalars. -/
theorem Core.beq_iff (c d : Core) :
    c.beq d = true ↔ c.skeleton = d.skeleton ∧ EqualScalars c.scalars d.scalars := by
  cases c with
  | mk projections wheres =>
      cases d with
      | mk projections' wheres' =>
          rw [Core.beq, Bool.and_eq_true, beqNodes_iff projections projections',
            beqNodes_iff wheres wheres',
            ← equalScalars_append_iff (length_eq_of_skeleton_eq length_scalarsNodes_skeleton)]
          simp [Core.skeleton, Core.scalars]

/-- So are lists of cores. -/
theorem beqCores_iff (l m : List Core) :
    beqCores l m = true ↔
      skeletonCores l = skeletonCores m ∧ EqualScalars (scalarsCores l) (scalarsCores m) := by
  cases l with
  | nil =>
      cases m with
      | nil => simp [beqCores, skeletonCores, scalarsCores, EqualScalars]
      | cons d m => simp [beqCores, skeletonCores]
  | cons c l =>
      cases m with
      | nil => simp [beqCores, skeletonCores]
      | cons d m =>
          rw [beqCores, Bool.and_eq_true, c.beq_iff d, beqCores_iff l m,
            ← equalScalars_append_iff (length_eq_of_skeleton_eq Core.length_scalars_skeleton)]
          simp [skeletonCores, scalarsCores]

/-- So are statements. -/
theorem Statement.beq_iff (s t : Statement) :
    s.beq t = true ↔ s.skeleton = t.skeleton ∧ EqualScalars s.scalars t.scalars := by
  cases s with
  | mk cores orders limit offset =>
      cases t with
      | mk cores' orders' limit' offset' =>
          have hcores := length_eq_of_skeleton_eq length_scalarsCores_skeleton
            (a := cores) (b := cores')
          have horders := length_append_eq hcores
            (length_eq_of_skeleton_eq length_scalarsNodes_skeleton (a := orders) (b := orders'))
          have hlimit := length_append_eq horders
            (length_eq_of_skeleton_eq length_scalarsOptional_skeleton (a := limit) (b := limit'))
          rw [Statement.beq, Bool.and_eq_true, Bool.and_eq_true, Bool.and_eq_true,
            beqCores_iff cores cores', beqNodes_iff orders orders', beqOptional_iff limit limit',
            beqOptional_iff offset offset', ← equalScalars_append_iff hcores,
            ← equalScalars_append_iff horders, ← equalScalars_append_iff hlimit]
          simp [Statement.skeleton, Statement.scalars, and_assoc]

end

/-! ## What scalars are compared by -/

namespace Scalar

/-- What a scalar is compared by. -/
inductive Content where
  | float (v : Binary64.Extended)
  | decimal (q : ℚ)
  | other (v : Scalar)

/-- Floats and decimals are compared by their numbers, and everything else as it stands. NaN
has nothing to be compared by. -/
def content? : Scalar → Option Content
  | .float x => x.extended?.map .float
  | .decimal d => some (.decimal d.value)
  | v => some (.other v)

def isNaN : Scalar → Bool
  | .float x => x.isNaN
  | _ => false

/-- The comparison of two scalars loses no carry. Only that of decimals can. -/
def KeepsCarry : Scalar → Scalar → Prop
  | .decimal x, .decimal y => x.KeepsCarry y
  | _, _ => True

/-- Where the comparison loses no carry, equal scalars are those with the same content; a float
that is no number has none. -/
theorem beq_iff_content? {v w : Scalar} (h : v.KeepsCarry w) :
    (v == w) = true ↔ ∃ c, v.content? = some c ∧ w.content? = some c := by
  change v.beq w = true ↔ _
  cases v with
  | float x =>
      cases w with
      | float y =>
          rw [Scalar.beq, Binary64.sameNumber_iff]
          simp [content?]
      | _ => simp [Scalar.beq, content?]
  | decimal x =>
      cases w with
      | decimal y =>
          rw [Scalar.beq, Decimal.comparesEqual_iff_value_eq h, eq_comm]
          simp [content?]
      | _ => simp [Scalar.beq, content?]
  | _ => cases w <;> simp [Scalar.beq, content?] <;> exact eq_comm

/-- Scalars with the same content are equal exactly if their comparison loses no carry. -/
theorem beq_iff_keepsCarry {v w : Scalar} {c : Content} (hv : v.content? = some c)
    (hw : w.content? = some c) : (v == w) = true ↔ v.KeepsCarry w := by
  by_cases h : v.KeepsCarry w
  · exact iff_of_true ((beq_iff_content? h).mpr ⟨c, hv, hw⟩) h
  · fun_cases KeepsCarry v w with
    | case1 x y =>
        have hvalue : x.value = y.value := by simpa [content?] using hv.trans hw.symm
        exact Decimal.comparesEqual_iff_keepsCarry hvalue
    | case2 => simp [KeepsCarry] at h

/-- Equality of scalars is symmetric, even where a carry is lost. -/
theorem beq_comm (v w : Scalar) : (v == w) = (w == v) := by
  change v.beq w = w.beq v
  cases v with
  | float x =>
      cases w with
      | float y => exact Binary64.sameNumber_comm x y
      | _ => rfl
  | decimal x =>
      cases w with
      | decimal y => exact Decimal.comparesEqual_comm x y
      | _ => rfl
  | _ => cases w <;> first | rfl | exact BEq.comm

/-- Every scalar equals itself but a float that is no number. -/
theorem beq_self_iff (v : Scalar) : (v == v) = true ↔ v.isNaN = false := by
  change v.beq v = true ↔ _
  cases v with
  | float x => simp [Scalar.beq, isNaN, Binary64.sameNumber]
  | decimal d => simp [Scalar.beq, isNaN, Decimal.comparesEqual_self]
  | _ => simp [Scalar.beq, isNaN]

/-- Equal scalars have one type. -/
theorem sameType_of_beq {v w : Scalar} (h : (v == w) = true) : v.sameType w = true := by
  rcases cases_of_beq h with rfl | ⟨x, y, rfl, rfl, -⟩ | ⟨x, y, rfl, rfl, -⟩
  · cases v <;> rfl
  · rfl
  · rfl

end Scalar

/-! ## Equality of nodes -/

/-- No comparison of two lists of scalars, one by one, loses a carry. -/
def KeepsCarries (l m : List Scalar) : Prop := ∀ p ∈ l.zip m, p.1.KeepsCarry p.2

theorem keepsCarries_nil (m : List Scalar) : KeepsCarries [] m := by simp [KeepsCarries]

/-- Carries are kept pair by pair. -/
theorem keepsCarries_cons_iff {v w : Scalar} {l m : List Scalar} :
    KeepsCarries (v :: l) (w :: m) ↔ v.KeepsCarry w ∧ KeepsCarries l m := by
  simp [KeepsCarries]

/-- Equality of lists of scalars is symmetric. -/
theorem EqualScalars.symm {l m : List Scalar} (h : EqualScalars l m) : EqualScalars m l := by
  refine List.Forall₂.flip (h.imp fun v w hvw => ?_)
  rwa [flip, Scalar.beq_comm]

/-- Equality of lists of scalars goes on from the second to the third exactly if the
comparison of the first with the third loses no carry. -/
theorem EqualScalars.trans_iff {l m n : List Scalar} (hlm : EqualScalars l m)
    (hmn : EqualScalars m n) (klm : KeepsCarries l m) (kmn : KeepsCarries m n) :
    EqualScalars l n ↔ KeepsCarries l n := by
  induction hlm generalizing n with
  | nil =>
      cases hmn
      exact iff_of_true .nil (keepsCarries_nil [])
  | @cons u v l m huv hlm ih =>
      cases hmn with
      | @cons _ w _ n hvw hmn =>
          obtain ⟨kuv, klm⟩ := keepsCarries_cons_iff.mp klm
          obtain ⟨kvw, kmn⟩ := keepsCarries_cons_iff.mp kmn
          obtain ⟨c, hu, hv⟩ := (Scalar.beq_iff_content? kuv).mp huv
          obtain ⟨c', hv', hw⟩ := (Scalar.beq_iff_content? kvw).mp hvw
          obtain rfl : c = c' := Option.some.inj (hv.symm.trans hv')
          rw [keepsCarries_cons_iff, ← Scalar.beq_iff_keepsCarry hu hw, ← ih hmn klm kmn]
          exact List.forall₂_cons

namespace Node

/-- Equality of nodes is symmetric. -/
theorem beq_comm (a b : Node) : (a == b) = (b == a) := by
  change a.beq b = b.beq a
  rw [Bool.eq_iff_iff, beq_iff, beq_iff]
  exact and_congr eq_comm ⟨.symm, .symm⟩

/-- A node equals itself unless it has such a float. -/
theorem beq_self_iff (a : Node) : (a == a) = true ↔ ∀ v ∈ a.scalars, v.isNaN = false := by
  change a.beq a = true ↔ _
  rw [beq_iff, EqualScalars, List.forall₂_same]
  simp only [true_and, Scalar.beq_self_iff]

/-- Two equalities in a row that lose no carry give a third exactly if that one loses none. -/
theorem beq_trans_iff {a b c : Node} (hab : (a == b) = true) (hbc : (b == c) = true)
    (kab : KeepsCarries a.scalars b.scalars) (kbc : KeepsCarries b.scalars c.scalars) :
    (a == c) = true ↔ KeepsCarries a.scalars c.scalars := by
  obtain ⟨hab, eab⟩ := (beq_iff a b).mp hab
  obtain ⟨hbc, ebc⟩ := (beq_iff b c).mp hbc
  rw [← eab.trans_iff ebc kab kbc]
  exact (beq_iff a c).trans (and_iff_right (hab.trans hbc))

/-- **Equality is a partial equivalence**, as far as no carry is lost: nodes are equal
exactly if they have the same skeleton and equal scalars, and scalars are equal exactly if
they are of the same type and are compared by the same number or the same value. Equality
is symmetric, a node equals itself exactly if it has no NaN, and what equals the same node
is equal exactly if its own comparison loses no carry. -/
theorem equality_laws (a b c : Node) :
    ((a == b) = true ↔ a.skeleton = b.skeleton ∧
      List.Forall₂ (fun v w => (v == w) = true) a.scalars b.scalars) ∧
    (∀ v w : Scalar, ((v == w) = true → v.sameType w = true) ∧
      (v.KeepsCarry w → ((v == w) = true ↔ ∃ c, v.content? = some c ∧ w.content? = some c))) ∧
    (a == b) = (b == a) ∧
    ((a == a) = true ↔ ∀ v ∈ a.scalars, v.isNaN = false) ∧
    ((a == b) = true → (b == c) = true → KeepsCarries a.scalars b.scalars →
      KeepsCarries b.scalars c.scalars →
      ((a == c) = true ↔ KeepsCarries a.scalars c.scalars)) :=
  ⟨beq_iff a b, fun _ _ => ⟨Scalar.sameType_of_beq, Scalar.beq_iff_content?⟩, beq_comm a b,
    beq_self_iff a, beq_trans_iff⟩

/-- The same number at three scales, and zeros of both signs. With NaN in the place of the
zero, the node differs from itself. -/
theorem equality_laws_scales :
    let f (d : Decimal) (x : Binary64) : Node :=
      .namedFunction "f" [.literal .plain (.decimal d), .grouping (.literal .quoted (.float x))]
    let a := f ⟨15, 1⟩ ⟨0⟩
    let b := f ⟨150, 2⟩ ⟨0x8000000000000000⟩
    let c := f ⟨15000000000000, 13⟩ ⟨0⟩
    ((a == b) = true ∧ (b == c) = true ∧ KeepsCarries a.scalars b.scalars ∧
        KeepsCarries b.scalars c.scalars ∧ KeepsCarries a.scalars c.scalars) ∧
      (a == c) = true ∧ (c == a) = true ∧ (a == a) = true ∧
      (∃ v, (Scalar.decimal ⟨15, 1⟩).content? = some v ∧
        (Scalar.decimal ⟨150, 2⟩).content? = some v) ∧
      (f ⟨15, 1⟩ ⟨0x7FF8000000000000⟩ == f ⟨15, 1⟩ ⟨0x7FF8000000000000⟩) = false := by
  intro f a b c
  obtain ⟨-, hscalars, -, hself, htrans⟩ := equality_laws a b c
  obtain ⟨-, -, hcomm, -, -⟩ := equality_laws c a b
  obtain ⟨-, -, -, hnan, -⟩ := equality_laws (f ⟨15, 1⟩ ⟨0x7FF8000000000000⟩) a b
  have hscale : Decimal.KeepsCarry ⟨15, 1⟩ ⟨150, 2⟩ := Decimal.keepsCarry_of_scale (by decide)
  have hkeeps : ∀ {d e : Decimal} {x y : Binary64}, d.KeepsCarry e →
      KeepsCarries (f d x).scalars (f e y).scalars := by
    intro d e x y h
    exact keepsCarries_cons_iff.mpr ⟨h, keepsCarries_cons_iff.mpr ⟨trivial, keepsCarries_nil []⟩⟩
  have hab : (a == b) = true := by decide +kernel
  have hbc : (b == c) = true := by decide +kernel
  have kab : KeepsCarries a.scalars b.scalars := hkeeps hscale
  have kbc : KeepsCarries b.scalars c.scalars := hkeeps (Decimal.keepsCarry_of_scale (by decide))
  have kac : KeepsCarries a.scalars c.scalars := hkeeps (Decimal.keepsCarry_of_scale (by decide))
  have hac : (a == c) = true := (htrans hab hbc kab kbc).mpr kac
  refine ⟨⟨hab, hbc, kab, kbc, kac⟩, hac, hcomm.trans hac, hself.mpr (by decide), ?_, ?_⟩
  · exact ((hscalars (.decimal ⟨15, 1⟩) (.decimal ⟨150, 2⟩)).2 hscale).mp (by decide +kernel)
  · rw [← Bool.not_eq_true, hnan]
    decide

/-- Equality is not transitive where a carry is lost: from the first to the second and
from the second to the third decimal five zeros go into the coefficient, which are ten
from the first to the third. -/
theorem lost_carry_not_transitive :
    let a : Node := .literal .plain (.decimal ⟨7922816251677867879, -10⟩)
    let b : Node := .literal .plain (.decimal ⟨792281625167786787900000, -5⟩)
    let c : Node := .literal .plain (.decimal ⟨79228162516778678790000000000, 0⟩)
    (a == b) = true ∧ (b == c) = true ∧ (a == c) = false := by
  decide +kernel

end Node

end RelSearch
