import RelSearch.Proofs.Carry
import RelSearch.Proofs.JsonText
import RelSearch.Query.Equality
import RelSearch.Wire.Decode
import RelSearch.Wire.Encode

/-!
# RelSearch.Proofs.RoundTrip

Queries that are written as JSON texts and read back.

1. A reader needs to open as many arrays and objects inside each other as the
   value has (`Wire.ReadsAs`): one more for each variant, record and array.
2. The fields of a record are found again under their names, and the content of a
   variant under its own.
3. A scalar comes back as it is, but for a decimal, which comes back as
   `Decimal.reread`. So does every literal of a node, and nothing else changes
   (`Wire.ComesBack`, one case per node).

The text of what comes back is therefore the same, and it is equal to what was
written exactly if no decimal in it loses a carry. Floats are left out.
-/

namespace RelSearch

/-! ## Depth -/

namespace Raw

mutual

/-- The number of arrays and objects that are open inside each other. -/
def depth : Raw → Nat
  | .array items => depthItems items + 1
  | .object members => depthMembers members + 1
  | _ => 0

def depthItems : List Raw → Nat
  | [] => 0
  | x :: xs => max x.depth (depthItems xs)

def depthMembers : List (List StringUnit × Raw) → Nat
  | [] => 0
  | (_, v) :: ms => max v.depth (depthMembers ms)

end

/-- An array is deeper than all its items. -/
theorem depth_array_le_iff {items : List Raw} {k : Nat} :
    (array items).depth ≤ k ↔ 0 < k ∧ ∀ x ∈ items, x.depth < k := by
  rw [depth, Nat.succ_le_iff]
  induction items with
  | nil => simp [depthItems]
  | cons x xs ih => rw [depthItems, Nat.max_lt, ih, List.forall_mem_cons, and_left_comm]

/-- An object is as deep as the array of its values. -/
theorem depth_object (members : List (List StringUnit × Raw)) :
    (object members).depth = (array (members.map (·.2))).depth := by
  rw [depth, depth]
  congr 1
  induction members with
  | nil => rfl
  | cons m ms ih => rw [depthMembers, List.map_cons, depthItems, ih]

/-- An object is deeper than all its values. -/
theorem depth_object_le_iff {members : List (List StringUnit × Raw)} {k : Nat} :
    (object members).depth ≤ k ↔ 0 < k ∧ ∀ m ∈ members, m.2.depth < k := by
  rw [depth_object, depth_array_le_iff, List.forall_mem_map]

end Raw

namespace Json

/-- The number of arrays and objects that are open inside each other, as they are in the tree
that is read from the text of the value. -/
def depth (j : Json) : Nat := j.raw.depth

@[simp] theorem depth_null : null.depth = 0 := by simp [depth, raw, Raw.depth]

@[simp] theorem depth_bool (b : Bool) : (bool b).depth = 0 := by simp [depth, raw, Raw.depth]

@[simp] theorem depth_number (n : Number) : (number n).depth = 0 := by
  cases n <;> simp [depth, raw, Raw.depth]

@[simp] theorem depth_string (s : String) : (string s).depth = 0 := by simp [depth, raw, Raw.depth]

theorem rawItems_eq_map (items : List Json) : rawItems items = items.map (·.raw) := by
  induction items with
  | nil => rfl
  | cons x xs ih => rw [rawItems, ih, List.map_cons]

/-- Members are exact if all their values are. -/
theorem haveExact_iff {members : List (String × Json)} :
    haveExact members = true ↔ ∀ m ∈ members, m.2.isExact = true := by
  induction members with
  | nil => simp [haveExact]
  | cons m ms ih => rw [haveExact, Bool.and_eq_true, ih, List.forall_mem_cons]

theorem rawMembers_eq_map (members : List (String × Json)) :
    rawMembers members = members.map fun m => (StringUnit.spelling m.1, m.2.raw) := by
  induction members with
  | nil => rfl
  | cons m ms ih => rw [rawMembers, ih, List.map_cons]

theorem depth_array_le_iff {items : List Json} {k : Nat} :
    (array items).depth ≤ k ↔ 0 < k ∧ ∀ x ∈ items, x.depth < k := by
  rw [depth, raw, Raw.depth_array_le_iff, rawItems_eq_map, List.forall_mem_map]
  rfl

theorem depth_object_le_iff {members : List (String × Json)} {k : Nat} :
    (object members).depth ≤ k ↔ 0 < k ∧ ∀ m ∈ members, m.2.depth < k := by
  rw [depth, raw, Raw.depth_object_le_iff, rawMembers_eq_map, List.forall_mem_map]
  rfl

end Json

namespace Wire

variable {α β : Type}

/-! ## Reading a written value -/

/-- A JSON value is read as `a`, by a reader that may open as many arrays and
objects as the value has inside each other. -/
structure ReadsAs (read : Nat → Raw → Option α) (j : Json) (a : α) : Prop where
  isExact : j.isExact = true
  read_eq : ∀ n, j.depth ≤ n → read n j.raw = some a

namespace ReadsAs

variable {read : Nat → Raw → Option α} {read' : Nat → Raw → Option β} {j : Json} {a : α} {b : β}

/-- What a reader makes of a value is what is decoded from its text, if the text does not nest too
deeply. -/
theorem decode? (h : ReadsAs read j a) (hdepth : j.depth ≤ nesting) :
    decode? read j.text = some a := by
  rw [Wire.decode?, Raw.ofText?_text h.isExact]
  exact h.read_eq nesting hdepth

/-- An object is read through its members, with one object more open. -/
theorem object {members : List (String × Json)} (hexact : ∀ m ∈ members, m.2.isExact = true)
    (hread : ∀ n, (∀ m ∈ members, m.2.depth ≤ n) →
      read (n + 1) (.object (Json.rawMembers members)) = some a) :
    ReadsAs read (.object members) a where
  isExact := Json.haveExact_iff.mpr hexact
  read_eq n hn := by
    obtain ⟨hpos, hmembers⟩ := Json.depth_object_le_iff.mp hn
    obtain ⟨n, rfl⟩ := Nat.exists_eq_succ_of_ne_zero (Nat.ne_of_gt hpos)
    exact hread n fun m hm => Nat.le_of_lt_succ (hmembers m hm)

/-- A variant is read through its content. -/
theorem tagged {variant : String} (f : α → Option β) (h : ReadsAs read j a) (hf : f a = some b)
    (hread : ∀ n raw, read' (n + 1) (.object [(StringUnit.spelling variant, raw)]) =
      (read n raw).bind f) :
    ReadsAs read' (tagged variant j) b := by
  refine .object (List.forall_mem_singleton.mpr h.isExact) fun n hn => ?_
  refine (hread n j.raw).trans ?_
  rw [h.read_eq n (hn _ List.mem_cons_self), Option.bind_some, hf]

/-- An empty array is read as an empty list. -/
theorem array_nil {read : Nat → Raw → Option (List α)}
    (hread : ∀ n, read (n + 1) (.array []) = some []) : ReadsAs read (.array []) [] where
  isExact := rfl
  read_eq n hn := by
    cases n with
    | zero => exact absurd hn (Nat.not_succ_le_zero _)
    | succ n => exact hread n

/-- An array is read item by item, with one array more open. -/
theorem array_cons {readItems : Nat → Raw → Option (List α)} {xs : List Json} {as : List α}
    (hread : ∀ n items, readItems (n + 1) (.array items) = items.mapM (read n))
    (h : ReadsAs read j a) (hxs : ReadsAs readItems (.array xs) as) :
    ReadsAs readItems (.array (j :: xs)) (a :: as) where
  isExact := by
    have hitems : Json.areExact xs = true := hxs.isExact
    rw [Json.isExact, Json.areExact, h.isExact, hitems]
    rfl
  read_eq n hn := by
    obtain ⟨hpos, hitem⟩ := Json.depth_array_le_iff.mp hn
    obtain ⟨n, rfl⟩ := Nat.exists_eq_succ_of_ne_zero (Nat.ne_of_gt hpos)
    rw [List.forall_mem_cons] at hitem
    have hitems := hxs.read_eq (n + 1) (Json.depth_array_le_iff.mpr ⟨hpos, hitem.2⟩)
    rw [Json.raw, hread] at hitems
    rw [Json.raw, Json.rawItems, hread, List.mapM_cons, h.read_eq n (Nat.le_of_lt_succ hitem.1),
      hitems]
    rfl

end ReadsAs

/-- Items that are all read are read together. -/
theorem mapM_eq_some {f : α → Option β} {g : α → β} {xs : List α}
    (h : ∀ x ∈ xs, f x = some (g x)) : xs.mapM f = some (xs.map g) := by
  induction xs with
  | nil => rfl
  | cons x xs ih =>
      have hx := h x List.mem_cons_self
      have hxs := ih fun y hy => h y (List.mem_cons_of_mem x hy)
      simp [hx, hxs]

/-- A member is found under its key, if no key is repeated. -/
theorem field?_of_mem {members : List (String × Raw)} (h : (members.map Prod.fst).Nodup)
    {m : String × Raw} (hm : m ∈ members) : field? members m.1 = some (some m.2) := by
  have hfilter : members.filter (·.1 == m.1) = [m] := by
    induction members with
    | nil => simp at hm
    | cons x xs ih =>
        rw [List.map_cons, List.nodup_cons] at h
        rcases List.mem_cons.mp hm with rfl | hm
        · have hnone : xs.filter (·.1 == m.1) = [] := by
            rw [List.filter_eq_nil_iff]
            intro y hy hkey
            exact h.1 (eq_of_beq hkey ▸ List.mem_map_of_mem hy)
          rw [List.filter_cons, if_pos (beq_self_eq_true m.1), hnone]
        · have hne : ¬ (x.1 == m.1) = true := fun hkey =>
            h.1 (eq_of_beq hkey ▸ List.mem_map_of_mem hm)
          rw [List.filter_cons, if_neg hne, ih h.2 hm]
  rw [field?, hfilter]

/-- The fields of a record that has been written are found again. -/
theorem fields?_rawMembers {names : List String} (h : names.Nodup)
    {members : List (String × Json)} (hnames : members.map Prod.fst = names) :
    fields? names (.object (Json.rawMembers members)) =
      some (members.map fun m => some m.2.raw) := by
  subst hnames
  have hnamed : (Json.rawMembers members).mapM
      (fun m => do return (← StringUnit.text? m.1, m.2)) =
        some (members.map fun m => (m.1, m.2.raw)) := by
    rw [Json.rawMembers_eq_map, List.mapM_map]
    apply mapM_eq_some
    intro m _
    simp [StringUnit.text?_spelling]
  rw [fields?, hnamed]
  change (members.map Prod.fst).mapM (field? (members.map fun m => (m.1, m.2.raw))) = _
  rw [List.mapM_map]
  apply mapM_eq_some
  intro m hm
  have hkeys : ((members.map fun m => (m.1, m.2.raw)).map Prod.fst).Nodup := by
    simpa [Function.comp_def] using h
  exact field?_of_mem hkeys (List.mem_map_of_mem hm)

end Wire

open Wire

/-! ## Scalars -/

namespace Scalar

/-- Whether the text of a scalar keeps its value: floats may be rounded, and the
least scale of a decimal has no exponent of its own. -/
def isWritable : Scalar → Bool
  | .float _ => false
  | .decimal d => d.scale != Int64.minValue
  | _ => true

/-- A decimal whose comparison with what is read back loses a carry. -/
def LosesCarry : Scalar → Prop
  | .decimal d => d.LosesCarry
  | _ => False

end Scalar

namespace Wire

/-- What comes back when `a` is written and read: the reader answers `b`, which is
written alike and is equal to `a` unless a scalar of `a` loses a carry. -/
structure ComesBack {α : Type} (read : Nat → Raw → Option α) (encode : α → Json)
    (beq : α → α → Bool) (scalars : List Scalar) (a b : α) : Prop where
  readsAs : ReadsAs read (encode a) b
  encode_eq : encode b = encode a
  beq_iff : beq b a = true ↔ ∀ v ∈ scalars, ¬ v.LosesCarry

/-- A string is read as it is. -/
theorem readsAs_string (s : String) : ReadsAs (fun _ => string?) (.string s) s where
  isExact := rfl
  read_eq _ _ := StringUnit.text?_spelling s

theorem readsAs_bool (b : Bool) : ReadsAs (fun _ => bool?) (.bool b) b where
  isExact := rfl
  read_eq _ _ := rfl

/-- An integer in range is read as it is. -/
theorem readsAs_int {least greatest n : Int} (hlow : Int64.minValue.toInt ≤ n)
    (hhigh : n < UInt64.size) (hleast : least ≤ n) (hgreatest : n ≤ greatest) :
    ReadsAs (fun _ => int? least greatest) (.int n) n where
  isExact := rfl
  read_eq _ _ := by
    have hnumber : number? (Json.int n).raw = some (.int n) := Numeral.number?_ofInt hlow hhigh
    rw [int?, hnumber]
    exact if_pos ⟨hleast, hgreatest⟩

end Wire

/-- A decimal is read from whatever text spells it. -/
theorem Decimal.readsAs_string {text : List Char} {d : Decimal}
    (h : Decimal.ofText? text = some d) :
    ReadsAs Decimal.decode? (.string (String.ofList text)) d where
  isExact := rfl
  read_eq n _ := by
    rw [Json.raw, Decimal.decode?, StringUnit.spelling, String.toList_ofList,
      StringUnit.chars?_spelling]
    exact h

/-- A decimal that is written is read as `Decimal.reread`. -/
theorem Decimal.readsAs_text (d : Decimal) :
    ReadsAs Decimal.decode? (.string (String.ofList d.text)) d.reread :=
  Decimal.readsAs_string d.ofText?_text

namespace Scalar

/-- A scalar is read by the name of its variant. -/
theorem decode?_variant (variant : String) (n : Nat) (raw : Raw) :
    Scalar.decode? (n + 1) (.object [(StringUnit.spelling variant, raw)]) =
      decodeVariant? n variant raw := by
  rw [Scalar.decode?, StringUnit.text?_spelling]
  rfl

/-- A scalar whose content is a text is read from that text. -/
theorem readsAs_text {α : Type} {ofText? : List Char → Option α} {text : List Char} {a : α}
    {variant : String} {wrap : α → Scalar} (h : ofText? text = some a)
    (hread : ∀ n raw, decodeVariant? n variant raw =
      (string? raw).bind fun s => (ofText? s.toList).bind fun a => some (wrap a)) :
    ReadsAs Scalar.decode? (tagged variant (.string (String.ofList text))) (wrap a) := by
  refine (readsAs_string (String.ofList text)).tagged
    (fun s => (ofText? s.toList).bind fun a => some (wrap a)) ?_ fun n raw => ?_
  · rw [String.toList_ofList, h, Option.bind_some]
  · rw [decode?_variant, hread]

/-- A scalar is read through the content of its variant. -/
theorem readsAs_variant {α : Type} {read : Nat → Raw → Option α} {content : Json} {a : α}
    {variant : String} (wrap : α → Scalar) (h : ReadsAs read content a)
    (hread : ∀ n raw, decodeVariant? n variant raw = (read n raw).map wrap) :
    ReadsAs Scalar.decode? (tagged variant content) (wrap a) := by
  refine h.tagged (fun a => some (wrap a)) rfl fun n raw => ?_
  rw [decode?_variant, hread, Option.map_eq_bind]
  rfl

/-- A scalar without a decimal comes back as it is. -/
theorem comesBack_self {v : Scalar} (h : ReadsAs Scalar.decode? v.encode v)
    (hbeq : v.beq v = true) (hcarry : ¬ v.LosesCarry) :
    ComesBack Scalar.decode? Scalar.encode Scalar.beq [v] v v where
  readsAs := h
  encode_eq := rfl
  beq_iff := iff_of_true hbeq (List.forall_mem_singleton.mpr hcarry)

/-- A scalar whose text keeps its value comes back, a decimal as `Decimal.reread`. -/
theorem comesBack (v : Scalar) (h : v.isWritable = true) :
    ∃ w, ComesBack Scalar.decode? Scalar.encode Scalar.beq [v] v w := by
  cases v with
  | int n =>
      have hmax : n.toInt ≤ 9223372036854775807 := n.toInt_le
      have hsize : ((UInt64.size : Nat) : Int) = 18446744073709551616 := rfl
      have hint := readsAs_int n.minValue_le_toInt (by omega) n.minValue_le_toInt n.toInt_le
      have hread : ReadsAs Scalar.decode? (Scalar.int n).encode (.int (.ofInt n.toInt)) :=
        readsAs_variant (fun i => .int (.ofInt i)) hint fun _ _ => rfl
      rw [Int64.ofInt_toInt] at hread
      exact ⟨_, comesBack_self hread (beq_self_eq_true n) id⟩
  | uint n =>
      have hmin : Int64.minValue.toInt = -9223372036854775808 := rfl
      have hsize : ((UInt64.size : Nat) : Int) = 18446744073709551616 := rfl
      have hlt : (n.toNat : Int) < UInt64.size := Int.ofNat_lt.mpr n.toNat_lt
      have hle : (n.toNat : Int) ≤ maxUnsigned := Int.le_sub_one_of_lt hlt
      have hint := readsAs_int (by omega) hlt (Int.natCast_nonneg n.toNat) hle
      have hread : ReadsAs Scalar.decode? (Scalar.uint n).encode
          (.uint (.ofNat (n.toNat : Int).toNat)) :=
        readsAs_variant (fun i : Int => .uint (.ofNat i.toNat)) hint fun _ _ => rfl
      rw [Int.toNat_natCast, UInt64.ofNat_toNat] at hread
      exact ⟨_, comesBack_self hread (beq_self_eq_true n) id⟩
  | float x => contradiction
  | decimal d =>
      refine ⟨.decimal d.reread, readsAs_variant .decimal d.readsAs_text fun _ _ => rfl, ?_, ?_⟩
      · rw [encode, encode, d.text_reread]
      · rw [List.forall_mem_singleton]
        exact d.comparesEqual_reread
  | string s =>
      exact ⟨_, comesBack_self (readsAs_variant .string (readsAs_string s) fun _ _ => rfl)
        (beq_self_eq_true s) id⟩
  | boolean b =>
      exact ⟨_, comesBack_self (readsAs_variant .boolean (readsAs_bool b) fun _ _ => rfl)
        (beq_self_eq_true b) id⟩
  | uuid u =>
      exact ⟨_, comesBack_self (readsAs_text u.ofText?_text fun _ _ => rfl) (beq_self_eq_true u) id⟩
  | date d =>
      exact ⟨_, comesBack_self (readsAs_text d.ofText?_text fun _ _ => rfl) (beq_self_eq_true d) id⟩
  | timestamp t =>
      exact ⟨_, comesBack_self (readsAs_text t.ofText?_text fun _ _ => rfl) (beq_self_eq_true t) id⟩
  | null =>
      have hread : ReadsAs Scalar.decode? (.string "Null") .null := ⟨rfl, fun _ _ => by
        rw [Json.raw, Scalar.decode?, StringUnit.text?_spelling]
        rfl⟩
      exact ⟨_, comesBack_self hread rfl id⟩

end Scalar

/-! ## Columns -/

namespace Attribute

/-- The kinds of attributes have different names. -/
theorem ofName?_name (kind : AttributeKind) : AttributeKind.ofName? kind.name = some kind := by
  cases kind <;> rfl

theorem readsAs_kind (kind : AttributeKind) :
    ReadsAs AttributeKind.decode? kind.encode kind where
  isExact := rfl
  read_eq n _ := by
    rw [AttributeKind.encode, Json.raw, AttributeKind.decode?, StringUnit.text?_spelling]
    exact ofName?_name kind

/-- An attribute is read as it is. -/
theorem readsAs_encode (a : Attribute) : ReadsAs Attribute.decode? a.encode a := by
  refine .object ?_ fun n _ => ?_
  · cases a.relation <;> simp [Wire.optional, Json.isExact, AttributeKind.encode]
  · have hname : string? (Json.string a.name).raw = some a.name := StringUnit.text?_spelling a.name
    have hkind := (readsAs_kind a.kind).read_eq n (Nat.zero_le n)
    have hrelation : optional? string? (some (Wire.optional (a.relation.map .string)).raw) =
        some a.relation := by
      cases a.relation with
      | none => rfl
      | some s => exact congrArg (Option.map some) (StringUnit.text?_spelling s)
    rw [Attribute.decode?, fields?_rawMembers (by decide)]
    · simp [hname, hkind, hrelation]
    · rfl

end Attribute

/-! ## Nodes -/

mutual

/-- The scalars of all literals of a node. -/
def Node.scalars : Node → List Scalar
  | .statement s => s.scalars
  | .core c => c.scalars
  | .equality _ l r => l.scalars ++ scalarsOptional r
  | .comparison _ l r => l.scalars ++ r.scalars
  | .connective _ l r => l.scalars ++ r.scalars
  | .not n => n.scalars
  | .sort _ n => n.scalars
  | .column _ => []
  | .literal _ v => [v]
  | .sqlLiteral _ => []
  | .bool _ => []
  | .grouping n => n.scalars
  | .subquery s => s.scalars
  | .namedFunction _ args => scalarsNodes args

def scalarsOptional : Option Node → List Scalar
  | none => []
  | some n => n.scalars

def scalarsNodes : List Node → List Scalar
  | [] => []
  | n :: ns => n.scalars ++ scalarsNodes ns

def Core.scalars : Core → List Scalar
  | ⟨projections, wheres⟩ => scalarsNodes projections ++ scalarsNodes wheres

def scalarsCores : List Core → List Scalar
  | [] => []
  | c :: cs => c.scalars ++ scalarsCores cs

/-- The scalars of all literals of a statement. -/
def Statement.scalars : Statement → List Scalar
  | ⟨cores, orders, limit, offset⟩ =>
    scalarsCores cores ++ scalarsNodes orders ++ scalarsOptional limit ++ scalarsOptional offset

end

namespace Wire

theorem comesBack_self {α : Type} {read : Nat → Raw → Option α} {encode : α → Json}
    {beq : α → α → Bool} {a : α} (h : ReadsAs read (encode a) a) (hbeq : beq a a = true) :
    ComesBack read encode beq [] a a :=
  ⟨h, rfl, iff_of_true hbeq (List.forall_mem_nil _)⟩

end Wire

/-- Every node is written as an object. -/
theorem Node.encode_eq_object (n : Node) : ∃ members, n.encode = .object members := by
  cases n <;> exact ⟨_, rfl⟩

/-- A node with one part comes back if the part does. -/
theorem Node.comesBack_wrap {α : Type} {read : Nat → Raw → Option α} {encode : α → Json}
    {beq : α → α → Bool} {scalars : List Scalar} {a b : α} {variant : String} (wrap : α → Node)
    (h : ComesBack read encode beq scalars a b)
    (hread : ∀ n raw, Node.decode? (n + 1) (.object [(StringUnit.spelling variant, raw)]) =
      (read n raw).bind fun a => some (wrap a))
    (hencode : ∀ a, (wrap a).encode = tagged variant (encode a))
    (hbeq : ∀ a b, (wrap a).beq (wrap b) = beq a b) :
    ComesBack Node.decode? Node.encode Node.beq scalars (wrap a) (wrap b) where
  readsAs := by
    rw [hencode]
    exact h.readsAs.tagged (fun a => some (wrap a)) rfl hread
  encode_eq := by rw [hencode, hencode, h.encode_eq]
  beq_iff := by rw [hbeq, h.beq_iff]

/-- A node with two sides comes back if both do. -/
theorem Node.comesBack_sides {l l' r r' : Node} {variant : String} (operator : Node → Node → Node)
    (hl : ComesBack Node.decode? Node.encode Node.beq l.scalars l l')
    (hr : ComesBack Node.decode? Node.encode Node.beq r.scalars r r')
    (hread : ∀ n raw, Node.decode? (n + 1) (.object [(StringUnit.spelling variant, raw)]) =
      decodeSides? operator n raw)
    (hencode : ∀ l r, (operator l r).encode = tagged variant (sides l.encode r.encode))
    (hbeq : ∀ l r l' r', (operator l r).beq (operator l' r') = (l.beq l' && r.beq r')) :
    ComesBack Node.decode? Node.encode Node.beq (l.scalars ++ r.scalars) (operator l r)
      (operator l' r') where
  readsAs := by
    have hsides : ReadsAs (decodeSides? operator) (sides l.encode r.encode) (operator l' r') := by
      refine .object ?_ fun n hn => ?_
      · simp [hl.readsAs.isExact, hr.readsAs.isExact]
      · simp only [List.forall_mem_cons] at hn
        rw [decodeSides?, fields?_rawMembers (by decide)]
        · simp [hl.readsAs.read_eq n hn.1, hr.readsAs.read_eq n hn.2.1]
        · rfl
    rw [hencode]
    exact hsides.tagged some rfl fun n raw => by rw [hread, Option.bind_fun_some]
  encode_eq := by rw [hencode, hencode, hl.encode_eq, hr.encode_eq]
  beq_iff := by rw [hbeq, Bool.and_eq_true, hl.beq_iff, hr.beq_iff, List.forall_mem_append]

mutual

/-- A node comes back with its literals reread, one case for each kind. -/
theorem Node.comesBack (n : Node) (h : ∀ v ∈ n.scalars, v.isWritable = true) :
    ∃ m, ComesBack Node.decode? Node.encode Node.beq n.scalars n m := by
  match n with
  | .statement s =>
    obtain ⟨t, hs⟩ := Statement.comesBack s h
    exact ⟨.statement t, Node.comesBack_wrap .statement hs
      (fun n raw => by rw [Node.decode?, StringUnit.text?_spelling]; rfl) (fun _ => rfl)
      (fun _ _ => by rw [Node.beq])⟩
  | .core c =>
    obtain ⟨d, hc⟩ := Core.comesBack c h
    exact ⟨.core d, Node.comesBack_wrap .core hc
      (fun n raw => by rw [Node.decode?, StringUnit.text?_spelling]; rfl) (fun _ => rfl)
      (fun _ _ => by rw [Node.beq])⟩
  | .equality op l r =>
    rw [Node.scalars, List.forall_mem_append] at h
    obtain ⟨l', hl, hlencode, hlbeq⟩ := Node.comesBack l h.1
    obtain ⟨r', hr, hrencode, hrbeq⟩ := comesBack_optional r h.2
    have hsides : ReadsAs (decodeEquality? op) (sides l.encode (encodeOptional r))
        (.equality op l' r') := by
      refine .object ?_ fun n hn => ?_
      · simp [hl.isExact, hr.isExact]
      · simp only [List.forall_mem_cons] at hn
        rw [decodeEquality?, fields?_rawMembers (by decide)]
        · simp [hl.read_eq n hn.1, hr.read_eq n hn.2.1]
        · rfl
    refine ⟨.equality op l' r', ?_, ?_, ?_⟩
    · exact hsides.tagged some rfl fun n raw => by
        cases op <;> (rw [Node.decode?, StringUnit.text?_spelling, Option.bind_fun_some]; rfl)
    · rw [Node.encode, Node.encode, hlencode, hrencode]
    · rw [Node.beq, beq_self_eq_true, Bool.true_and, Bool.and_eq_true, hlbeq, hrbeq, Node.scalars,
        List.forall_mem_append]
  | .comparison op l r =>
    rw [Node.scalars, List.forall_mem_append] at h
    obtain ⟨l', hl⟩ := Node.comesBack l h.1
    obtain ⟨r', hr⟩ := Node.comesBack r h.2
    refine ⟨.comparison op l' r',
      Node.comesBack_sides (.comparison op) hl hr ?_ (fun _ _ => rfl) ?_⟩
    · intro n raw
      cases op <;> (rw [Node.decode?, StringUnit.text?_spelling]; rfl)
    · intro l r l' r'
      rw [Node.beq, beq_self_eq_true, Bool.true_and]
  | .connective op l r =>
    rw [Node.scalars, List.forall_mem_append] at h
    obtain ⟨l', hl⟩ := Node.comesBack l h.1
    obtain ⟨r', hr⟩ := Node.comesBack r h.2
    refine ⟨.connective op l' r',
      Node.comesBack_sides (.connective op) hl hr ?_ (fun _ _ => rfl) ?_⟩
    · intro n raw
      cases op <;> (rw [Node.decode?, StringUnit.text?_spelling]; rfl)
    · intro l r l' r'
      rw [Node.beq, beq_self_eq_true, Bool.true_and]
  | .not n =>
    obtain ⟨m, hn⟩ := Node.comesBack n h
    exact ⟨.not m, Node.comesBack_wrap .not hn
      (fun n raw => by rw [Node.decode?, StringUnit.text?_spelling]; rfl) (fun _ => rfl)
      (fun _ _ => by rw [Node.beq])⟩
  | .sort order n =>
    obtain ⟨m, hn⟩ := Node.comesBack n h
    refine ⟨.sort order m, Node.comesBack_wrap (.sort order) hn ?_ (fun _ => rfl) ?_⟩
    · intro n raw
      cases order <;> (rw [Node.decode?, StringUnit.text?_spelling]; rfl)
    · intro n m
      rw [Node.beq, beq_self_eq_true, Bool.true_and]
  | .column a =>
    exact ⟨.column a, Node.comesBack_wrap .column
      (comesBack_self a.readsAs_encode (beq_self_eq_true a))
      (fun n raw => by rw [Node.decode?, StringUnit.text?_spelling]; rfl) (fun _ => rfl)
      (fun _ _ => by rw [Node.beq])⟩
  | .literal form v =>
    obtain ⟨w, hv⟩ := Scalar.comesBack v (h v List.mem_cons_self)
    refine ⟨.literal form w, Node.comesBack_wrap (.literal form) hv ?_ (fun _ => rfl) ?_⟩
    · intro n raw
      cases form <;> (rw [Node.decode?, StringUnit.text?_spelling]; rfl)
    · intro v w
      rw [Node.beq, beq_self_eq_true, Bool.true_and]
      rfl
  | .sqlLiteral text =>
    exact ⟨.sqlLiteral text, Node.comesBack_wrap .sqlLiteral
      (comesBack_self (readsAs_string text) (beq_self_eq_true text))
      (fun n raw => by rw [Node.decode?, StringUnit.text?_spelling]; rfl) (fun _ => rfl)
      (fun _ _ => by rw [Node.beq])⟩
  | .bool b =>
    exact ⟨.bool b, Node.comesBack_wrap .bool
      (comesBack_self (readsAs_bool b) (beq_self_eq_true b))
      (fun n raw => by rw [Node.decode?, StringUnit.text?_spelling]; rfl) (fun _ => rfl)
      (fun _ _ => by rw [Node.beq])⟩
  | .grouping n =>
    obtain ⟨m, hn⟩ := Node.comesBack n h
    exact ⟨.grouping m, Node.comesBack_wrap .grouping hn
      (fun n raw => by rw [Node.decode?, StringUnit.text?_spelling]; rfl) (fun _ => rfl)
      (fun _ _ => by rw [Node.beq])⟩
  | .subquery s =>
    obtain ⟨t, hs⟩ := Statement.comesBack s h
    exact ⟨.subquery t, Node.comesBack_wrap .subquery hs
      (fun n raw => by rw [Node.decode?, StringUnit.text?_spelling]; rfl) (fun _ => rfl)
      (fun _ _ => by rw [Node.beq])⟩
  | .namedFunction name args =>
    obtain ⟨args', hargs, hargsencode, hargsbeq⟩ := comesBack_nodes args h
    have hname : string? (Json.string name).raw = some name := StringUnit.text?_spelling name
    have hcall : ReadsAs decodeFunction?
        (.object [("name", .string name), ("args", .array (encodeNodes args))])
        (.namedFunction name args') := by
      refine .object ?_ fun n hn => ?_
      · simp [Json.isExact.eq_def (.string name), hargs.isExact]
      · simp only [List.forall_mem_cons] at hn
        rw [decodeFunction?, fields?_rawMembers (by decide)]
        · simp [hname, hargs.read_eq n hn.2.1]
        · rfl
    refine ⟨.namedFunction name args', ?_, ?_, ?_⟩
    · exact hcall.tagged some rfl fun n raw => by
        rw [Node.decode?, StringUnit.text?_spelling, Option.bind_fun_some]
        rfl
    · rw [Node.encode, Node.encode, hargsencode]
    · rw [Node.beq, beq_self_eq_true, Bool.true_and, hargsbeq, Node.scalars]

/-- A part that is missing is written as null and is missing again. -/
theorem comesBack_optional (r : Option Node) (h : ∀ v ∈ scalarsOptional r, v.isWritable = true) :
    ∃ r', ComesBack (fun n raw => optional? (Node.decode? n) (some raw)) encodeOptional
      beqOptional (scalarsOptional r) r r' := by
  match r with
  | none => exact ⟨none, comesBack_self ⟨rfl, fun _ _ => rfl⟩ (by rw [beqOptional])⟩
  | some n =>
    obtain ⟨m, hread, hencode, hbeq⟩ := Node.comesBack n h
    refine ⟨some m, ⟨hread.isExact, fun k hk => ?_⟩, hencode, by rwa [beqOptional]⟩
    obtain ⟨members, hobject⟩ := n.encode_eq_object
    have hmap : optional? (Node.decode? k) (some n.encode.raw) =
        (Node.decode? k n.encode.raw).map some := by
      rw [hobject]
      rfl
    rw [encodeOptional, hmap, hread.read_eq k hk, Option.map_some]

theorem comesBack_nodes (ns : List Node) (h : ∀ v ∈ scalarsNodes ns, v.isWritable = true) :
    ∃ ms, ComesBack decodeNodes? (fun ns => .array (encodeNodes ns)) beqNodes (scalarsNodes ns)
      ns ms := by
  match ns with
  | [] => exact ⟨[], comesBack_self (.array_nil fun _ => rfl) (by rw [beqNodes])⟩
  | n :: ns =>
    rw [scalarsNodes, List.forall_mem_append] at h
    obtain ⟨m, hn, hnencode, hnbeq⟩ := Node.comesBack n h.1
    obtain ⟨ms, hns, hnsencode, hnsbeq⟩ := comesBack_nodes ns h.2
    refine ⟨m :: ms, .array_cons (fun _ _ => rfl) hn hns, ?_, ?_⟩
    · rw [encodeNodes, encodeNodes, hnencode, Json.array.inj hnsencode]
    · rw [beqNodes, Bool.and_eq_true, hnbeq, hnsbeq, scalarsNodes, List.forall_mem_append]

theorem comesBack_cores (cs : List Core) (h : ∀ v ∈ scalarsCores cs, v.isWritable = true) :
    ∃ ds, ComesBack decodeCores? (fun cs => .array (encodeCores cs)) beqCores (scalarsCores cs)
      cs ds := by
  match cs with
  | [] => exact ⟨[], comesBack_self (.array_nil fun _ => rfl) (by rw [beqCores])⟩
  | c :: cs =>
    rw [scalarsCores, List.forall_mem_append] at h
    obtain ⟨d, hc, hcencode, hcbeq⟩ := Core.comesBack c h.1
    obtain ⟨ds, hcs, hcsencode, hcsbeq⟩ := comesBack_cores cs h.2
    refine ⟨d :: ds, .array_cons (fun _ _ => rfl) hc hcs, ?_, ?_⟩
    · rw [encodeCores, encodeCores, hcencode, Json.array.inj hcsencode]
    · rw [beqCores, Bool.and_eq_true, hcbeq, hcsbeq, scalarsCores, List.forall_mem_append]

/-- A core comes back. -/
theorem Core.comesBack (c : Core) (h : ∀ v ∈ c.scalars, v.isWritable = true) :
    ∃ d, ComesBack Core.decode? Core.encode Core.beq c.scalars c d := by
  match c with
  | ⟨projections, wheres⟩ =>
    rw [Core.scalars, List.forall_mem_append] at h
    obtain ⟨ps, hps, hpsencode, hpsbeq⟩ := comesBack_nodes projections h.1
    obtain ⟨ws, hws, hwsencode, hwsbeq⟩ := comesBack_nodes wheres h.2
    refine ⟨⟨ps, ws⟩, ?_, ?_, ?_⟩
    · refine .object ?_ fun n hn => ?_
      · simp [hps.isExact, hws.isExact]
      · simp only [List.forall_mem_cons] at hn
        rw [Core.decode?, fields?_rawMembers (by decide)]
        · simp [hps.read_eq n hn.1, hws.read_eq n hn.2.1]
        · rfl
    · rw [Core.encode, Core.encode, hpsencode, hwsencode]
    · rw [Core.beq, Bool.and_eq_true, hpsbeq, hwsbeq, Core.scalars, List.forall_mem_append]

/-- A statement comes back. -/
theorem Statement.comesBack (s : Statement) (h : ∀ v ∈ s.scalars, v.isWritable = true) :
    ∃ t, ComesBack Statement.decode? Statement.encode Statement.beq s.scalars s t := by
  match s with
  | ⟨cores, orders, limit, offset⟩ =>
    simp only [Statement.scalars, List.forall_mem_append] at h
    obtain ⟨⟨⟨hcores, horders⟩, hlimit⟩, hoffset⟩ := h
    obtain ⟨cs, hcs, hcsencode, hcsbeq⟩ := comesBack_cores cores hcores
    obtain ⟨os, hos, hosencode, hosbeq⟩ := comesBack_nodes orders horders
    obtain ⟨l, hl, hlencode, hlbeq⟩ := comesBack_optional limit hlimit
    obtain ⟨o, ho, hoencode, hobeq⟩ := comesBack_optional offset hoffset
    refine ⟨⟨cs, os, l, o⟩, ?_, ?_, ?_⟩
    · refine .object ?_ fun n hn => ?_
      · simp [hcs.isExact, hos.isExact, hl.isExact, ho.isExact]
      · simp only [List.forall_mem_cons] at hn
        obtain ⟨hncores, hnorders, hnlimit, hnoffset, -⟩ := hn
        rw [Statement.decode?, fields?_rawMembers (by decide)]
        · simp [hcs.read_eq n hncores, hos.read_eq n hnorders, hl.read_eq n hnlimit,
            ho.read_eq n hnoffset]
        · rfl
    · rw [Statement.encode, Statement.encode, hcsencode, hosencode, hlencode, hoencode]
    · simp only [Statement.beq, Bool.and_eq_true, hcsbeq, hosbeq, hlbeq, hobeq, Statement.scalars,
        List.forall_mem_append]

end

/-! ## Texts -/

namespace Wire

/-- The text of `a` is read back, as a value with the same text that is equal to
`a` exactly if no scalar of `a` loses a carry. -/
def RoundTrips {α : Type} [BEq α] (read : Nat → Raw → Option α) (encode : α → Json)
    (scalars : List Scalar) (a : α) : Prop :=
  ∃ b, decode? read (encode a).text = some b ∧ (encode b).text = (encode a).text ∧
    ((b == a) = true ↔ ∀ v ∈ scalars, ¬ v.LosesCarry)

/-- What comes back does so through its text, if that does not nest too deeply. -/
theorem ComesBack.roundTrips {α : Type} [BEq α] {read : Nat → Raw → Option α} {encode : α → Json}
    {scalars : List Scalar} {a b : α} (h : ComesBack read encode BEq.beq scalars a b)
    (hdepth : (encode a).depth ≤ nesting) : RoundTrips read encode scalars a :=
  ⟨b, h.readsAs.decode? hdepth, congrArg Json.text h.encode_eq, h.beq_iff⟩

/-- What is written for a node, a statement, a core or a scalar is read back, if
it nests no deeper than a reader goes. -/
theorem roundTrips_encode (n : Node) (s : Statement) (c : Core) (v : Scalar) :
    ((∀ w ∈ n.scalars, w.isWritable = true) → n.encode.depth ≤ nesting →
      RoundTrips Node.decode? Node.encode n.scalars n) ∧
    ((∀ w ∈ s.scalars, w.isWritable = true) → s.encode.depth ≤ nesting →
      RoundTrips Statement.decode? Statement.encode s.scalars s) ∧
    ((∀ w ∈ c.scalars, w.isWritable = true) → c.encode.depth ≤ nesting →
      RoundTrips Core.decode? Core.encode c.scalars c) ∧
    (v.isWritable = true → v.encode.depth ≤ nesting →
      RoundTrips Scalar.decode? Scalar.encode [v] v) := by
  refine ⟨fun h hdepth => ?_, fun h hdepth => ?_, fun h hdepth => ?_, fun h hdepth => ?_⟩
  · obtain ⟨m, hm⟩ := n.comesBack h
    exact ComesBack.roundTrips hm hdepth
  · obtain ⟨t, ht⟩ := s.comesBack h
    exact ComesBack.roundTrips ht hdepth
  · obtain ⟨d, hd⟩ := c.comesBack h
    exact ComesBack.roundTrips hd hdepth
  · obtain ⟨w, hw⟩ := v.comesBack h
    exact ComesBack.roundTrips hw hdepth

/-- Zeros that fill a number up to its point, in each of the four. -/
theorem roundTrips_filled :
    let v : Scalar := .decimal ⟨-120, -3⟩
    let n : Node := .grouping (.literal .casted v)
    let c : Core := ⟨[], [.equality .equal (.column ⟨none, "a\"b", .decimal⟩) (some n)]⟩
    let s : Statement := ⟨[c], [.sort .descending n], none, some n⟩
    ((∀ w ∈ n.scalars, w.isWritable = true) ∧ n.encode.depth ≤ nesting ∧
      RoundTrips Node.decode? Node.encode n.scalars n) ∧
    ((∀ w ∈ s.scalars, w.isWritable = true) ∧ s.encode.depth ≤ nesting ∧
      RoundTrips Statement.decode? Statement.encode s.scalars s) ∧
    ((∀ w ∈ c.scalars, w.isWritable = true) ∧ c.encode.depth ≤ nesting ∧
      RoundTrips Core.decode? Core.encode c.scalars c) ∧
    (v.isWritable = true ∧ v.encode.depth ≤ nesting ∧
      RoundTrips Scalar.decode? Scalar.encode [v] v) ∧ ¬ v.LosesCarry := by
  intro v n c s
  have hn : (∀ w ∈ n.scalars, w.isWritable = true) ∧ n.encode.depth ≤ nesting := by decide
  have hs : (∀ w ∈ s.scalars, w.isWritable = true) ∧ s.encode.depth ≤ nesting := by decide
  have hc : (∀ w ∈ c.scalars, w.isWritable = true) ∧ c.encode.depth ≤ nesting := by decide
  have hv : v.isWritable = true ∧ v.encode.depth ≤ nesting := by decide
  have hscale : ¬ (-3 : Int64) = -10 := by decide
  obtain ⟨hnode, hstatement, hcore, hscalar⟩ := roundTrips_encode n s c v
  exact ⟨⟨hn.1, hn.2, hnode hn.1 hn.2⟩, ⟨hs.1, hs.2, hstatement hs.1 hs.2⟩,
    ⟨hc.1, hc.2, hcore hc.1 hc.2⟩, ⟨hv.1, hv.2, hscalar hv.1 hv.2⟩, fun h => hscale h.1⟩

/-- A decimal that loses a carry comes back as a number that is not equal to it. -/
theorem lost_carry_reads_unequal :
    let n : Node := .literal .plain (.decimal ⟨7922816251677867879, -10⟩)
    let m : Node := .literal .plain (.decimal ⟨79228162516778678790000000000, 0⟩)
    (∀ v ∈ n.scalars, v.isWritable = true) ∧ n.encode.depth ≤ nesting ∧
      decode? Node.decode? n.encode.text = some m ∧ (m == n) = false := by
  intro n m
  have hreread : (⟨7922816251677867879, -10⟩ : Decimal).reread =
      ⟨79228162516778678790000000000, 0⟩ := by decide
  have hscalar : ReadsAs Scalar.decode? (Scalar.decimal ⟨7922816251677867879, -10⟩).encode
      (.decimal ⟨79228162516778678790000000000, 0⟩) :=
    hreread ▸ Scalar.readsAs_variant .decimal (Decimal.readsAs_text _) fun _ _ => rfl
  have hnode : ReadsAs Node.decode? n.encode m :=
    hscalar.tagged (fun v => some (.literal .plain v)) rfl fun n raw => by
      rw [Node.decode?, StringUnit.text?_spelling]
      rfl
  have hdepth : n.encode.depth ≤ nesting := by decide
  refine ⟨by decide, hdepth, hnode.decode? hdepth, ?_⟩
  change Node.beq _ _ = false
  rw [Node.beq]
  decide

end Wire

end RelSearch
