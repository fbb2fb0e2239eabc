import RelSearch.Proofs.DecimalEquality
import RelSearch.Proofs.Likeness
import RelSearch.Query.Equality

/-!
# RelSearch.Proofs.Congruence

Equal queries are compiled alike.

Two queries that compare equal are the same tree, and their scalars are the same but for
two things: decimals are compared by their number and not by their scale, and the two
zeros of floats are equal.

1. Neither makes a difference to what a compiler reports and to its errors: decimals and
   zeros are never refused.
2. Decimals of the same number have the same text in documents, so the documents are the
   same too, unless the one zero has taken the place of the other.

The comparison of decimals is known to be numeric unless the scales differ by ten, where
a carry can be lost (`RelSearch.Proofs.DecimalEquality`). There it is an assumption of
`Compiler.runNode_congr`.
-/

namespace RelSearch

/-! ## Equal scalars -/

/-- The zero with a sign. -/
def Binary64.isNegativeZero (x : Binary64) : Bool := x.isZero && x.isNegative

/-- The zero that is not negative has no bit set. -/
theorem Binary64.bits_eq_zero {x : Binary64} (hzero : x.isZero = true)
    (h : x.isNegativeZero = false) : x.bits = 0 := by
  have hsign : x.isNegative = false := by simpa [isNegativeZero, hzero] using h
  simp only [isZero, biasedExponent, fraction, isNegative, Bool.and_eq_true, beq_iff_eq,
    decide_eq_false_iff_not] at hzero hsign
  have h11 : pow2 11 = 2048 := rfl
  have h52 : pow2 52 = 4503599627370496 := rfl
  have h63 : pow2 63 = 9223372036854775808 := rfl
  rw [h11, h52] at hzero
  rw [h63] at hsign
  apply UInt64.toNat_inj.mp
  rw [UInt64.toNat_zero]
  omega

/-- Zeros are finite. -/
theorem Binary64.isFinite_of_isZero {x : Binary64} (h : x.isZero = true) : x.isFinite = true := by
  simp only [isZero, isFinite, Bool.and_eq_true, beq_iff_eq] at h ⊢
  simp [h.1]

namespace Scalar

/-- Scalars that are equal are the same, or two decimals, or two zeros. -/
theorem cases_of_beq {v w : Scalar} (h : (v == w) = true) :
    v = w ∨ (∃ x y, v = .decimal x ∧ w = .decimal y ∧ x.comparesEqual y = true) ∨
      ∃ x y, v = .float x ∧ w = .float y ∧ x.isZero = true ∧ y.isZero = true := by
  change v.beq w = true at h
  fun_cases Scalar.beq v w with
  | case3 x y =>
      have hnumber : x = y ∨ x.isZero = true ∧ y.isZero = true := by
        simp only [Scalar.beq, Binary64.sameNumber, Bool.and_eq_true, Bool.or_eq_true,
          beq_iff_eq] at h
        exact h.2
      rcases hnumber with rfl | hzero
      · exact .inl rfl
      · exact .inr (.inr ⟨x, y, rfl, rfl, hzero⟩)
  | case4 x y => exact .inr (.inl ⟨x, y, rfl, rfl, h⟩)
  | _ => simp_all [Scalar.beq]

/-- A policy, and every document, writes two scalars the same. -/
structure WrittenAlike (q : Quoting) (v w : Scalar) : Prop where
  text : v.text = w.text
  json : v.json? = w.json?
  quote : q.quote v = q.quote w

namespace WrittenAlike

variable {q : Quoting}

theorem refl (v : Scalar) : WrittenAlike q v v := ⟨rfl, rfl, rfl⟩

/-- The built-in policies write a decimal by its normal form. -/
theorem ofDecimal (hq : q = .identity ∨ q = .sql) {x y : Decimal}
    (h : x.normalized = y.normalized) : WrittenAlike q (.decimal x) (.decimal y) where
  text := by simp [Scalar.text, Scalar.chars, h]
  json := by simp [Scalar.json?, Scalar.text, Scalar.chars, h]
  quote := by
    rcases hq with rfl | rfl
    · simp [Quoting.identity, Scalar.text, Scalar.chars, h]
    · simp [Quoting.sql, Quoting.sqlLiteral, Scalar.chars, h]

end WrittenAlike

end Scalar

/-! ## Equal nodes -/

/-- A query has a literal with the given scalar. -/
def Node.Holds (n : Node) (v : Scalar) : Prop :=
  ∃ level role form, n.Contains level ⟨role, .literal form v⟩

/-- A query has the scalars of its parts, and its own if it is a literal. -/
theorem Node.holds_iff {n : Node} {v : Scalar} :
    n.Holds v ↔ (∃ form, n = .literal form v) ∨ ∃ x ∈ n.parts, x.node.Holds v := by
  constructor
  · rintro ⟨level, role, form, hlevel⟩
    cases hlevel with
    | here => exact .inl ⟨form, rfl⟩
    | @down _ x _ k part way =>
        refine .inr ⟨x, part, ?_⟩
        cases way with
        | here => exact ⟨0, .value, form, .here _⟩
        | down part' way' => exact ⟨_, role, form, .down part' way'⟩
  · rintro (⟨form, rfl⟩ | ⟨x, hx, level, role, form, hlevel⟩)
    · exact ⟨0, .value, form, .here _⟩
    · obtain ⟨role', n'⟩ := x
      cases hlevel with
      | here => exact ⟨1, role', form, .down hx (.here _)⟩
      | down part way => exact ⟨_, role, form, .down hx (.down part way)⟩

/-- Leaves of equal queries: the same, or literals with equal scalars that are related
by `S`, or nodes that search documents have nothing for. -/
inductive Node.EqualLeaf (S : Scalar → Scalar → Prop) : Node → Node → Prop
  | column (a : Attribute) : EqualLeaf S (.column a) (.column a)
  | literal (form : LiteralForm) {v w : Scalar} (equal : (v == w) = true) (h : S v w) :
    EqualLeaf S (.literal form v) (.literal form w)
  | sqlLiteral (text : String) : EqualLeaf S (.sqlLiteral text) (.sqlLiteral text)
  | bool (b : Bool) : EqualLeaf S (.bool b) (.bool b)
  | comparison (op : ComparisonOp) (l l' r r' : Node) :
    EqualLeaf S (.comparison op l r) (.comparison op l' r')
  | not (n n' : Node) : EqualLeaf S (.not n) (.not n')
  | namedFunction (name : String) (args args' : List Node) :
    EqualLeaf S (.namedFunction name args) (.namedFunction name args')

/-- Equal queries in which equal scalars are related by `S`. -/
def Node.EqualBy (S : Scalar → Scalar → Prop) (a b : Node) : Prop :=
  a.beq b = true ∧ ∀ v w, a.Holds v → b.Holds w → (v == w) = true → S v w

/-- Equal lists are equal item by item. -/
theorem forall₂_of_beqNodes {R : Node → Node → Prop} {l m : List Node} (h : beqNodes l m = true)
    (hR : ∀ x ∈ l, ∀ y ∈ m, x.beq y = true → R x y) : List.Forall₂ R l m := by
  induction l generalizing m with
  | nil =>
      cases m with
      | nil => exact .nil
      | cons y m => simp [beqNodes] at h
  | cons x l ih =>
      cases m with
      | nil => simp [beqNodes] at h
      | cons y m =>
          rw [beqNodes, Bool.and_eq_true] at h
          refine .cons (hR x List.mem_cons_self y List.mem_cons_self h.1) (ih h.2 ?_)
          intro x' hx y' hy
          exact hR x' (List.mem_cons_of_mem x hx) y' (List.mem_cons_of_mem y hy)

/-- Cores are compared like the nodes around them. -/
theorem beqCores_eq_beqNodes (l m : List Core) :
    beqCores l m = beqNodes (l.map .core) (m.map .core) := by
  induction l generalizing m with
  | nil => cases m <;> simp [beqCores, beqNodes]
  | cons c l ih => cases m <;> simp [beqCores, beqNodes, Node.beq, ih]

/-- Equal parts are both missing or both there. -/
theorem rel_of_beqOptional {R : Node → Node → Prop} {x y : Option Node}
    (h : beqOptional x y = true) (hR : ∀ n ∈ x, ∀ m ∈ y, n.beq m = true → R n m) :
    Option.Rel R x y := by
  cases x with
  | none =>
      cases y with
      | none => exact .none
      | some m => simp [beqOptional] at h
  | some n =>
      cases y with
      | none => simp [beqOptional] at h
      | some m => exact .some (hR n rfl m rfl (by simpa [beqOptional] using h))

namespace Node

theorem isSort_eq_of_beq {a b : Node} (h : a.beq b = true) : a.isSort = b.isSort := by
  fun_cases Node.beq a b with
  | case15 => simp_all [Node.beq]
  | _ => rfl

/-- Of two equal nodes both are literal nulls or none is. -/
theorem isNull_eq_of_beq {a b : Node} (h : a.beq b = true) : a.isNull = b.isNull := by
  fun_cases Node.beq a b with
  | case9 form v form' w =>
      have hvw : (v == w) = true := by
        simp only [Node.beq, Bool.and_eq_true] at h
        exact h.2
      rcases Scalar.cases_of_beq hvw with rfl | ⟨x, y, rfl, rfl, -⟩ | ⟨x, y, rfl, rfl, -⟩ <;> rfl
  | case15 => simp_all [Node.beq]
  | _ => rfl

end Node

theorem Statement.mem_parts_of_mem_cores {s : Statement} {n : Node}
    (h : n ∈ s.cores.map .core) : (⟨.core, n⟩ : Place) ∈ s.parts := by
  obtain ⟨c, hc, rfl⟩ := List.mem_map.mp h
  simp [Statement.parts, hc]

/-- Equal statements have parts that are equal one by one. -/
theorem Statement.like_of_beq {R : Node → Node → Prop} {s t : Statement} (h : s.beq t = true)
    (hR : ∀ x ∈ s.parts, ∀ y ∈ t.parts, x.node.beq y.node = true → R x.node y.node) :
    s.Like R t := by
  obtain ⟨cores, orders, limit, offset⟩ := s
  obtain ⟨cores', orders', limit', offset'⟩ := t
  simp only [Statement.beq, Bool.and_eq_true, beqCores_eq_beqNodes] at h
  obtain ⟨⟨⟨hcores, horders⟩, hlimit⟩, hoffset⟩ := h
  refine ⟨?_, ?_, ?_, ?_⟩
  · have hrelated : List.Forall₂ R (cores.map .core) (cores'.map .core) := by
      refine forall₂_of_beqNodes hcores fun x hx y hy => ?_
      exact hR ⟨.core, x⟩ (mem_parts_of_mem_cores hx) ⟨.core, y⟩ (mem_parts_of_mem_cores hy)
    simpa using hrelated
  · refine forall₂_of_beqNodes horders fun x hx y hy hxy => ⟨Node.isSort_eq_of_beq hxy, ?_⟩
    simpa using hR _ (Statement.ofSortTerm_mem_parts hx) _ (Statement.ofSortTerm_mem_parts hy)
      (by simpa using hxy)
  · exact rel_of_beqOptional hlimit fun x hx y hy =>
      hR ⟨.value, x⟩ (by simp_all [Statement.parts]) ⟨.value, y⟩ (by simp_all [Statement.parts])
  · exact rel_of_beqOptional hoffset fun x hx y hy =>
      hR ⟨.value, x⟩ (by simp_all [Statement.parts]) ⟨.value, y⟩ (by simp_all [Statement.parts])

namespace Node

variable {S : Scalar → Scalar → Prop}

/-- Equal nodes are alike, one step down. -/
theorem EqualBy.like {a b : Node} (h : EqualBy S a b) : Like (EqualLeaf S) (EqualBy S) a b := by
  obtain ⟨hab, hS⟩ := h
  have hpart : ∀ x ∈ a.parts, ∀ y ∈ b.parts, x.node.beq y.node = true →
      EqualBy S x.node y.node := by
    intro x hx y hy hxy
    exact ⟨hxy, fun v w hv hw => hS v w (holds_iff.mpr (.inr ⟨x, hx, hv⟩))
      (holds_iff.mpr (.inr ⟨y, hy, hw⟩))⟩
  -- The nodes whose parts are visited come first, then the leaves.
  fun_cases Node.beq a b with
  | case1 s t =>
      rw [Node.beq] at hab
      exact .statement (Statement.like_of_beq hab hpart)
  | case13 s t =>
      rw [Node.beq] at hab
      exact .subquery (Statement.like_of_beq hab hpart)
  | case2 c d =>
      obtain ⟨ps, ws⟩ := c
      obtain ⟨ps', ws'⟩ := d
      simp only [Node.beq, Core.beq, Bool.and_eq_true] at hab
      refine .core (forall₂_of_beqNodes hab.1 fun x hx y hy => ?_)
        (forall₂_of_beqNodes hab.2 fun x hx y hy => ?_)
      · exact hpart ⟨.name "Core" "projection", x⟩ (by simp [Node.parts, Core.parts, hx])
          ⟨.name "Core" "projection", y⟩ (by simp [Node.parts, Core.parts, hy])
      · exact hpart ⟨.value, x⟩ (by simp [Node.parts, Core.parts, hx])
          ⟨.value, y⟩ (by simp [Node.parts, Core.parts, hy])
  | case3 op l r op' l' r' =>
      simp only [Node.beq, Bool.and_eq_true, beq_iff_eq] at hab
      obtain ⟨⟨rfl, hleft⟩, hright⟩ := hab
      have hl := hpart _ List.mem_cons_self _ List.mem_cons_self hleft
      cases r with
      | none =>
          cases r' with
          | none => exact .nullTest op hl
          | some r' => simp [beqOptional] at hright
      | some r =>
          cases r' with
          | none => simp [beqOptional] at hright
          | some r' =>
              have hr : r.beq r' = true := by simpa [beqOptional] using hright
              refine .equality op hl (isNull_eq_of_beq hr) fun _ => ?_
              simpa using hpart (.ofRight r) (by simp [Node.parts]) (.ofRight r')
                (by simp [Node.parts]) (by simpa using hr)
  | case5 op l r op' l' r' =>
      simp only [Node.beq, Bool.and_eq_true, beq_iff_eq] at hab
      obtain ⟨⟨rfl, hleft⟩, hright⟩ := hab
      exact .connective op (hpart _ List.mem_cons_self _ List.mem_cons_self hleft)
        (hpart _ (List.mem_cons_of_mem _ List.mem_cons_self) _
          (List.mem_cons_of_mem _ List.mem_cons_self) hright)
  | case7 order n order' m =>
      simp only [Node.beq, Bool.and_eq_true, beq_iff_eq] at hab
      obtain ⟨rfl, hoperand⟩ := hab
      exact .sort order (hpart _ List.mem_cons_self _ List.mem_cons_self hoperand)
  | case12 n m =>
      rw [Node.beq] at hab
      exact .grouping (hpart _ List.mem_cons_self _ List.mem_cons_self hab)
  | case9 form v form' w =>
      simp only [Node.beq, Bool.and_eq_true, beq_iff_eq] at hab
      obtain ⟨rfl, hvw⟩ := hab
      exact .leaf (.literal form hvw (hS v w ⟨0, _, form, .here _⟩ ⟨0, _, form, .here _⟩ hvw))
  | case8 c d =>
      obtain rfl : c = d := by simpa [Node.beq] using hab
      exact .leaf (.column c)
  | case10 t t' =>
      obtain rfl : t = t' := by simpa [Node.beq] using hab
      exact .leaf (.sqlLiteral t)
  | case11 x y =>
      obtain rfl : x = y := by simpa [Node.beq] using hab
      exact .leaf (.bool x)
  | case4 op l r op' l' r' =>
      simp only [Node.beq, Bool.and_eq_true, beq_iff_eq] at hab
      obtain ⟨⟨rfl, -⟩, -⟩ := hab
      exact .leaf (.comparison op l l' r r')
  | case6 n m => exact .leaf (.not n m)
  | case14 f args g args' =>
      simp only [Node.beq, Bool.and_eq_true, beq_iff_eq] at hab
      obtain ⟨rfl, -⟩ := hab
      exact .leaf (.namedFunction f args args')
  | case15 => simp_all [Node.beq]

/-- Nothing that a compiler asks of a leaf tells equal ones apart. -/
theorem EqualLeaf.sameLeaf {a b : Node} (h : EqualLeaf S a b) : SameLeaf a b := by
  cases h with
  | literal form equal _ =>
      rcases Scalar.cases_of_beq equal with rfl | ⟨x, y, rfl, rfl, -⟩ | ⟨x, y, rfl, rfl, hx, hy⟩
      · exact ⟨rfl, rfl, rfl, rfl, rfl⟩
      · cases form <;> exact ⟨rfl, rfl, by simp [Node.ownFaults, Node.isFinite], rfl, rfl⟩
      · have hx' := Binary64.isFinite_of_isZero hx
        have hy' := Binary64.isFinite_of_isZero hy
        cases form <;> exact ⟨rfl, rfl, by simp [Node.ownFaults, Node.isFinite, hx', hy'], rfl, rfl⟩
  | _ => exact ⟨rfl, rfl, rfl, by simp [visitedParts, parts], by simp [visitedParts, parts]⟩

/-- Leaves of equal queries are written the same if their scalars are. -/
theorem EqualLeaf.document_eq {q : Quoting} {a b : Node}
    (h : EqualLeaf (Scalar.WrittenAlike q) a b) :
    a.name q = b.name q ∧ a.document q = b.document q := by
  cases h with
  | literal form _ same =>
      cases form <;>
        simp [Node.name, Node.document, Scalar.document_eq, same.text, same.json, same.quote]
  | _ => simp [Node.name, Node.document]

end Node

/-! ## Compiling equal queries -/

/-- No float in a query is a negative zero. -/
def Node.NoNegativeZero (n : Node) : Prop := ∀ x, n.Holds (.float x) → x.isNegativeZero = false

/-- The comparison between the decimals of two queries is numeric. It is so wherever the
scales do not differ by ten (`Decimal.keepsCarry_of_scale`), so only the other pairs
are asked about. -/
def Node.ComparesByValue (a b : Node) : Prop :=
  ∀ x y, a.Holds (.decimal x) → b.Holds (.decimal y) →
    (x.scale.toInt - y.scale.toInt).natAbs = 10 → x.comparesEqual y = true → x.value = y.value

/-- Equal scalars of two queries are written the same by the built-in policies. -/
theorem Node.writtenAlike_of_beq {a b : Node} {q : Quoting} (hq : q = .identity ∨ q = .sql)
    (ha : a.NoNegativeZero) (hb : b.NoNegativeZero) (hab : a.ComparesByValue b) {v w : Scalar}
    (hv : a.Holds v) (hw : b.Holds w) (h : (v == w) = true) : Scalar.WrittenAlike q v w := by
  rcases Scalar.cases_of_beq h with rfl | ⟨x, y, rfl, rfl, hxy⟩ | ⟨x, y, rfl, rfl, hx, hy⟩
  · exact .refl v
  · refine .ofDecimal hq (Decimal.normalized_eq_of_value_eq ?_)
    by_cases hscale : (x.scale.toInt - y.scale.toInt).natAbs = 10
    · exact hab x y hv hw hscale hxy
    · exact (Decimal.comparesEqual_iff_value_eq (Decimal.keepsCarry_of_scale hscale)).mp hxy
  · have hbits : x.bits = y.bits := by
      rw [Binary64.bits_eq_zero hx (ha x hv), Binary64.bits_eq_zero hy (hb y hw)]
    obtain ⟨bits⟩ := x
    obtain rfl : bits = y.bits := hbits
    exact .refl _

namespace Compiler

variable (c : Compiler)

/-- **Congruence**: equal queries are compiled with the same reports, and fail with the same
errors. With a built-in policy the whole run is the same, document included, if there is
no negative zero in them and the comparison between their decimals is numeric. -/
theorem runNode_congr {a b : Node} (h : (a == b) = true) :
    (c.runNode a).Alike (c.runNode b) ∧
      (c.quoting = .identity ∨ c.quoting = .sql → a.NoNegativeZero → b.NoNegativeZero →
        a.ComparesByValue b → c.runNode a = c.runNode b) := by
  -- Steps do not depend on how scalars are written, so nothing is asked of them here.
  have hequal : Node.EqualBy (fun _ _ => True) a b := ⟨h, fun _ _ _ _ _ => trivial⟩
  have hsteps : Place.steps c.settings.maxDepth [] 0 ⟨.value, a⟩ =
      Place.steps c.settings.maxDepth [] 0 ⟨.value, b⟩ :=
    Place.steps_eq_of_like (fun _ _ => Node.EqualBy.like) (fun _ _ => Node.EqualLeaf.sameLeaf)
      _ _ _ _ hequal
  have hkind : a.kind = b.kind := hequal.like.kind fun _ _ => Node.EqualLeaf.sameLeaf
  refine ⟨runNode_alike hkind ?_, fun hq ha hb hab => ?_⟩
  · rw [run_lower, run_lower, hsteps]
    exact .ofSteps _ _ _
  · have hwritten : Node.EqualBy (Scalar.WrittenAlike c.quoting) a b :=
      ⟨h, fun _ _ => Node.writtenAlike_of_beq hq ha hb hab⟩
    have hdocument : a.document c.quoting = b.document c.quoting :=
      (Node.document_eq_of_like (fun _ _ => Node.EqualBy.like)
        (fun _ _ => Node.EqualLeaf.document_eq) hwritten).2
    have hlower : c.lower a 0 = c.lower b 0 := by
      rw [run_lower, run_lower, hsteps, hdocument]
    simp only [runNode, hlower, hkind]

/-- Fifteen with ten zeros after the point, and without: the scales are ten apart, so the
values have to be compared. -/
theorem runNode_congr_fifteen :
    let price (d : Decimal) : Node :=
      .equality .equal (.sqlLiteral "price") (some (.literal .quoted (.decimal d)))
    let a := price ⟨150000000000, 10⟩
    let b := price ⟨15, 0⟩
    (a == b) = true ∧ a.NoNegativeZero ∧ b.NoNegativeZero ∧ a.ComparesByValue b ∧
      runNode ⟨.default, .sql⟩ a = runNode ⟨.default, .sql⟩ b := by
  intro price a b
  have hequal : (a == b) = true := by decide +kernel
  have hprice : ∀ d v, (price d).Holds v → v = .decimal d := by
    intro d v h
    rcases Node.holds_iff.mp h with ⟨form, hform⟩ | ⟨x, hx, hv⟩
    · cases hform
    · simp only [price, Node.parts, Option.toList_some, List.map_cons, List.map_nil,
        List.mem_cons, List.not_mem_nil, or_false] at hx
      rcases hx with rfl | rfl
      · simp [Node.holds_iff (n := .sqlLiteral "price"), Node.parts] at hv
      · simpa [Node.holds_iff (n := .literal .quoted _), Node.parts, Eq.comm] using hv
  have hzero : ∀ d, (price d).NoNegativeZero := by
    intro d x hx
    cases hprice d _ hx
  have hvalue : a.ComparesByValue b := by
    intro x y hx hy _ _
    cases hprice _ _ hx
    cases hprice _ _ hy
    have hscale : (10 : Int64).toInt = 10 ∧ (0 : Int64).toInt = 0 := ⟨rfl, rfl⟩
    norm_num [Decimal.value, hscale]
  exact ⟨hequal, hzero _, hzero _, hvalue,
    (runNode_congr ⟨.default, .sql⟩ hequal).2 (.inr rfl) (hzero _) (hzero _) hvalue⟩

end Compiler

end RelSearch
