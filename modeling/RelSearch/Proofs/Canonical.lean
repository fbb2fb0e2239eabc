import RelSearch.Proofs.RoundTrip

/-!
# RelSearch.Proofs.Canonical

Texts that are read and written again.

A reader accepts many spellings of one value, and what is written for the value is
one of them. It is the same however the value was spelled, and it nests no deeper than
what was read:

1. fields lie inside their record, skipped ones too, and a missing field is written as
   `null`, which has no depth;
2. a record is as deep as an array as it is as an object, and a variant without
   content is not deeper as a bare string than as an object;
3. a reader that has room for `n` arrays and objects hands room for one less down, so
   what it reads can be written in the room that it had (`Wire.KeepsDepth`).

So the text that is written can always be read again, and `RelSearch.Proofs.RoundTrip`
says what comes back.
-/

namespace RelSearch

open Wire

/-! ## Depth -/

/-- The number of arrays and objects that a text opens inside each other. -/
def Raw.depthOf? (text : String) : Option Nat := (ofText? text).map depth

namespace Json

theorem depth_object_nil_le_iff {k : Nat} : (object []).depth ≤ k ↔ 0 < k := by
  simp [depth_object_le_iff]

/-- An object is as deep as its first value makes it, or as the others do. -/
theorem depth_object_cons_le_iff {name : String} {v : Json} {members : List (String × Json)}
    {k : Nat} :
    (object ((name, v) :: members)).depth ≤ k ↔ v.depth < k ∧ (object members).depth ≤ k := by
  rw [depth_object_le_iff, depth_object_le_iff, List.forall_mem_cons, and_left_comm]

end Json

/-! ## What a reader makes of a tree -/

namespace Wire

variable {α β : Type}

/-- What is among the results has been made from one of the items. -/
theorem mem_of_mapM_eq_some {f : α → Option β} {xs : List α} {ys : List β}
    (h : xs.mapM f = some ys) {y : β} (hy : y ∈ ys) : ∃ x ∈ xs, f x = some y := by
  induction xs generalizing ys with
  | nil =>
      cases h
      exact absurd hy List.not_mem_nil
  | cons x xs ih =>
      simp only [List.mapM_cons, Option.bind_eq_bind, Option.bind_eq_some_iff, Option.pure_def,
        Option.some.injEq] at h
      obtain ⟨z, hz, zs, hzs, rfl⟩ := h
      rcases List.mem_cons.mp hy with rfl | hy
      · exact ⟨x, List.mem_cons_self, hz⟩
      · obtain ⟨w, hw, hfw⟩ := ih hzs hy
        exact ⟨w, List.mem_cons_of_mem x hw, hfw⟩

/-- What is found under a name is one of the values. -/
theorem mem_of_field? {members : List (String × Raw)} {name : String} {x : Raw}
    (h : field? members name = some (some x)) : ∃ m ∈ members, m.2 = x := by
  rw [field?] at h
  split at h
  · cases h
  · next key value hfilter =>
      cases h
      have hmem : (key, x) ∈ members.filter (·.1 == name) := hfilter ▸ List.mem_singleton_self _
      exact ⟨_, (List.mem_filter.mp hmem).1, rfl⟩
  · cases h

/-- The fields of a record lie inside it. -/
theorem depth_lt_of_fields? {names : List String} {raw : Raw} {fields : List (Option Raw)}
    (h : fields? names raw = some fields) :
    0 < raw.depth ∧ ∀ x, some x ∈ fields → x.depth < raw.depth := by
  unfold fields? at h
  split at h
  · next members =>
      rw [Option.bind_eq_bind, Option.bind_eq_some_iff] at h
      obtain ⟨named, hnamed, hfields⟩ := h
      refine ⟨Nat.succ_pos _, fun x hx => ?_⟩
      obtain ⟨name, -, hfield⟩ := mem_of_mapM_eq_some hfields hx
      obtain ⟨m, hm, rfl⟩ := mem_of_field? hfield
      obtain ⟨⟨key, value⟩, hmember, heq⟩ := mem_of_mapM_eq_some hnamed hm
      simp only [Option.bind_eq_bind, Option.bind_eq_some_iff, Option.pure_def,
        Option.some.injEq] at heq
      obtain ⟨-, -, rfl⟩ := heq
      exact (Raw.depth_object_le_iff.mp (Nat.le_refl _)).2 _ hmember
  · next items =>
      split at h
      · cases h
        refine ⟨Nat.succ_pos _, fun x hx => ?_⟩
        obtain ⟨y, hy, heq⟩ := List.mem_map.mp hx
        cases heq
        exact (Raw.depth_array_le_iff.mp (Nat.le_refl _)).2 _ hy
      · cases h
  · cases h

/-- A record has been read from its fields. -/
theorem exists_fields? {names : List String} {raw : Raw} {f : List (Option Raw) → Option α} {a : α}
    (h : fields? names raw >>= f = some a) :
    ∃ fields, f fields = some a ∧ 0 < raw.depth ∧
      ∀ x, some x ∈ fields → x.depth < raw.depth := by
  rw [Option.bind_eq_bind, Option.bind_eq_some_iff] at h
  obtain ⟨fields, hfields, hf⟩ := h
  exact ⟨fields, hf, depth_lt_of_fields? hfields⟩

/-- What is read from a tree with room for `n` arrays and objects is written in the same
room, and no deeper than the tree. -/
def KeepsDepth (read : Nat → Raw → Option α) (encode : α → Json) (n : Nat) : Prop :=
  ∀ raw a, read n raw = some a → (encode a).depth ≤ min n raw.depth

/-- The same for the content of a node, which the node has one object around. -/
def KeepsContentDepth (read : Nat → Raw → Option Node) (n : Nat) : Prop :=
  ∀ raw a, read n raw = some a → a.encode.depth ≤ min n raw.depth + 1

/-- A variant is one object deeper than its content. -/
theorem depth_tagged (variant : String) (content : Json) :
    (tagged variant content).depth = content.depth + 1 := by
  simp [tagged, Json.depth, Json.raw, Json.rawMembers, Raw.depth, Raw.depthMembers]

namespace KeepsDepth

variable {read : Nat → Raw → Option α} {encode : α → Json} {n : Nat}

/-- A part of a tree is read with room for one array or object less. -/
theorem lt (h : KeepsDepth read encode n) {raw x : Raw} (hx : x.depth < raw.depth) {a : α}
    (hread : read n x = some a) : (encode a).depth < min (n + 1) raw.depth := by
  have hle := h x a hread
  omega

/-- Items that are read with less room are written in an array with the room of the array. -/
theorem items (h : KeepsDepth read encode n) {raws : List Raw} {as : List α}
    (hread : raws.mapM (read n) = some as) :
    (Json.array (as.map encode)).depth ≤ min (n + 1) (Raw.array raws).depth := by
  refine Json.depth_array_le_iff.mpr ⟨by simp [Raw.depth], fun j hj => ?_⟩
  obtain ⟨a, ha, rfl⟩ := List.mem_map.mp hj
  obtain ⟨x, hx, hreadx⟩ := mem_of_mapM_eq_some hread ha
  exact h.lt ((Raw.depth_array_le_iff.mp (Nat.le_refl _)).2 x hx) hreadx

/-- A node that is read through its content. -/
theorem content (h : KeepsDepth read encode n) {raw : Raw} {a : Node} {variant : String}
    (wrap : α → Node) (hencode : ∀ x, (wrap x).encode = tagged variant (encode x))
    (hread : (read n raw).bind (fun x => some (wrap x)) = some a) :
    a.encode.depth ≤ min n raw.depth + 1 := by
  rw [Option.bind_eq_some_iff] at hread
  obtain ⟨x, hx, hwrap⟩ := hread
  cases hwrap
  rw [hencode, depth_tagged]
  exact Nat.succ_le_succ (h raw x hx)

end KeepsDepth

theorem keepsDepth_string (n : Nat) : KeepsDepth (fun _ => string?) .string n := by
  intro raw s _
  simp

theorem keepsDepth_bool (n : Nat) : KeepsDepth (fun _ => bool?) .bool n := by
  intro raw b _
  simp

/-- A part that may be missing. -/
theorem depth_optional_lt {read : Raw → Option Node} {o : Option Raw} {r : Option Node} {k : Nat}
    (hk : 0 < k) (h : optional? read o = some r)
    (hread : ∀ raw a, o = some raw → read raw = some a → a.encode.depth < k) :
    (encodeOptional r).depth < k := by
  unfold optional? at h
  split at h
  · cases h
    exact hk
  · cases h
    exact hk
  · next raw _ =>
      obtain ⟨a, ha, rfl⟩ := Option.map_eq_some_iff.mp h
      exact hread raw a rfl ha

/-- The object of two sides is deeper than both. -/
theorem depth_sides_le {l r : Json} {k : Nat} (hk : 0 < k) (hl : l.depth < k) (hr : r.depth < k) :
    (sides l r).depth ≤ k := by
  simp only [sides, Json.depth_object_cons_le_iff, Json.depth_object_nil_le_iff]
  exact ⟨hl, hr, hk⟩

end Wire

/-! ## Scalars and columns -/

/-- A scalar opens one object at most. -/
theorem Scalar.depth_encode_le (v : Scalar) : v.encode.depth ≤ 1 := by
  cases v with
  | null => simp [encode]
  | float x =>
      rw [encode, depth_tagged]
      split <;> simp
  | _ => simp [encode, depth_tagged, Json.int]

/-- A scalar is written no deeper than it was read: only the null may have been a bare string. -/
theorem Scalar.keepsDepth (n : Nat) : KeepsDepth Scalar.decode? Scalar.encode n := by
  intro raw v h
  unfold Scalar.decode? at h
  split at h
  · -- a bare string is the null, which is written so
    simp only [Option.bind_eq_bind, Option.bind_eq_some_iff] at h
    obtain ⟨s, -, h⟩ := h
    split at h
    · cases h
      exact Nat.zero_le _
    · cases h
  · have hle := v.depth_encode_le
    simp only [Raw.depth]
    omega
  · cases h

theorem Attribute.depth_encode (a : Attribute) : a.encode.depth = 1 := by
  cases h : a.relation <;>
    simp [encode, h, Wire.optional, AttributeKind.encode, Json.depth, Json.raw, Json.rawMembers,
      Raw.depth, Raw.depthMembers]

/-- An attribute is a single object, as it was where it was read. -/
theorem Attribute.keepsDepth (n : Nat) : KeepsDepth Attribute.decode? Attribute.encode n := by
  intro raw a h
  cases n with
  | zero => simp [Attribute.decode?] at h
  | succ n =>
      obtain ⟨fields, -, hpos, -⟩ := exists_fields? h
      rw [a.depth_encode]
      omega

/-! ## Nodes -/

namespace Wire

theorem encodeNodes_eq_map (ns : List Node) : encodeNodes ns = ns.map (·.encode) := by
  induction ns with
  | nil => rfl
  | cons n ns ih => rw [encodeNodes, ih, List.map_cons]

theorem encodeCores_eq_map (cs : List Core) : encodeCores cs = cs.map (·.encode) := by
  induction cs with
  | nil => rfl
  | cons c cs ih => rw [encodeCores, ih, List.map_cons]

/-- All readers of nodes and their parts, with room for `n` arrays and objects. Each of
them calls the others with room for one less. -/
structure AllKeepDepth (n : Nat) : Prop where
  node : KeepsDepth Node.decode? Node.encode n
  equality : ∀ op, KeepsContentDepth (decodeEquality? op) n
  sides : ∀ operator variant,
    (∀ l r : Node, (operator l r).encode = tagged variant (sides l.encode r.encode)) →
      KeepsContentDepth (decodeSides? operator) n
  function : KeepsContentDepth decodeFunction? n
  nodes : KeepsDepth decodeNodes? (fun ns => .array (encodeNodes ns)) n
  core : KeepsDepth Core.decode? Core.encode n
  cores : KeepsDepth decodeCores? (fun cs => .array (encodeCores cs)) n
  statement : KeepsDepth Statement.decode? Statement.encode n

/-- Without room nothing but a scalar is read. -/
theorem allKeepDepth_zero : AllKeepDepth 0 where
  node := by
    intro raw a h
    simp [Node.decode?] at h
  equality := by
    intro op raw a h
    simp [decodeEquality?] at h
  sides := by
    intro operator variant _ raw a h
    simp [decodeSides?] at h
  function := by
    intro raw a h
    simp [decodeFunction?] at h
  nodes := by
    intro raw a h
    simp [decodeNodes?] at h
  core := by
    intro raw a h
    simp [Core.decode?] at h
  cores := by
    intro raw a h
    simp [decodeCores?] at h
  statement := by
    intro raw a h
    simp [Statement.decode?] at h

section Step

variable {n : Nat} (ih : AllKeepDepth n)

include ih

/-- A test is written with the room of its two sides; one that is missing is a null. -/
theorem keepsDepth_equality (op : EqualityOp) :
    KeepsContentDepth (decodeEquality? op) (n + 1) := by
  intro raw a h
  obtain ⟨fields, h, hpos, hlt⟩ := exists_fields? h
  split at h
  · next left right =>
      simp only [Option.bind_eq_bind, Option.bind_eq_some_iff] at h
      obtain ⟨l, hl, r, hr, h⟩ := h
      cases h
      have hk : 0 < min (n + 1) raw.depth := by omega
      have hleft := ih.node.lt (hlt left (by simp)) hl
      have hright := depth_optional_lt hk hr fun x a hx => ih.node.lt (hlt x (by simp [hx]))
      rw [Node.encode, depth_tagged]
      exact Nat.succ_le_succ (depth_sides_le hk hleft hright)
  · cases h

/-- So is any other operator with two sides. -/
theorem keepsDepth_sides {operator : Node → Node → Node} {variant : String}
    (hencode : ∀ l r, (operator l r).encode = tagged variant (sides l.encode r.encode)) :
    KeepsContentDepth (decodeSides? operator) (n + 1) := by
  intro raw a h
  obtain ⟨fields, h, hpos, hlt⟩ := exists_fields? h
  split at h
  · next left right =>
      simp only [Option.bind_eq_bind, Option.bind_eq_some_iff] at h
      obtain ⟨l, hl, r, hr, h⟩ := h
      cases h
      have hleft := ih.node.lt (hlt left (by simp)) hl
      have hright := ih.node.lt (hlt right (by simp)) hr
      rw [hencode, depth_tagged]
      exact Nat.succ_le_succ (depth_sides_le (by omega) hleft hright)
  · cases h

/-- A function is written with the room of its arguments. -/
theorem keepsDepth_function : KeepsContentDepth decodeFunction? (n + 1) := by
  intro raw a h
  obtain ⟨fields, h, hpos, hlt⟩ := exists_fields? h
  split at h
  · next name args =>
      simp only [Option.bind_eq_bind, Option.bind_eq_some_iff] at h
      obtain ⟨f, -, ns, hns, h⟩ := h
      cases h
      have hk : 0 < min (n + 1) raw.depth := by omega
      have hname : (Json.string f).depth < min (n + 1) raw.depth := by
        rwa [Json.depth_string]
      have hargs := ih.nodes.lt (hlt args (by simp)) hns
      rw [Node.encode, depth_tagged]
      apply Nat.succ_le_succ
      simp only [Json.depth_object_cons_le_iff, Json.depth_object_nil_le_iff]
      exact ⟨hname, hargs, hk⟩
  · cases h

theorem keepsDepth_nodes : KeepsDepth decodeNodes? (fun ns => .array (encodeNodes ns)) (n + 1) := by
  intro raw ns h
  unfold decodeNodes? at h
  split at h
  · next m items heq =>
      obtain rfl := Nat.succ.inj heq
      simp only [encodeNodes_eq_map]
      exact ih.node.items h
  · cases h

theorem keepsDepth_cores : KeepsDepth decodeCores? (fun cs => .array (encodeCores cs)) (n + 1) := by
  intro raw cs h
  unfold decodeCores? at h
  split at h
  · next m items heq =>
      obtain rfl := Nat.succ.inj heq
      simp only [encodeCores_eq_map]
      exact ih.core.items h
  · cases h

/-- A core is written with the room of its projections and conditions. -/
theorem keepsDepth_core : KeepsDepth Core.decode? Core.encode (n + 1) := by
  intro raw c h
  obtain ⟨fields, h, hpos, hlt⟩ := exists_fields? h
  split at h
  · next projections wheres =>
      simp only [Option.bind_eq_bind, Option.bind_eq_some_iff] at h
      obtain ⟨ps, hps, ws, hws, h⟩ := h
      cases h
      have hprojections := ih.nodes.lt (hlt projections (by simp)) hps
      have hwheres := ih.nodes.lt (hlt wheres (by simp)) hws
      simp only [Core.encode, Json.depth_object_cons_le_iff, Json.depth_object_nil_le_iff]
      exact ⟨hprojections, hwheres, by omega⟩
  · cases h

/-- A statement is written with the room of its clauses. -/
theorem keepsDepth_statement : KeepsDepth Statement.decode? Statement.encode (n + 1) := by
  intro raw s h
  obtain ⟨fields, h, hpos, hlt⟩ := exists_fields? h
  split at h
  · next cores orders limit offset =>
      simp only [Option.bind_eq_bind, Option.bind_eq_some_iff] at h
      obtain ⟨cs, hcs, os, hos, l, hl, o, ho, h⟩ := h
      cases h
      have hk : 0 < min (n + 1) raw.depth := by omega
      have hcores := ih.cores.lt (hlt cores (by simp)) hcs
      have horders := ih.nodes.lt (hlt orders (by simp)) hos
      have hlimit := depth_optional_lt hk hl fun x a hx => ih.node.lt (hlt x (by simp [hx]))
      have hoffset := depth_optional_lt hk ho fun x a hx => ih.node.lt (hlt x (by simp [hx]))
      simp only [Statement.encode, Json.depth_object_cons_le_iff, Json.depth_object_nil_le_iff]
      exact ⟨hcores, horders, hlimit, hoffset, hk⟩
  · cases h

/-- A node is read through the content of its variant. -/
theorem keepsDepth_node : KeepsDepth Node.decode? Node.encode (n + 1) := by
  intro raw a h
  unfold Node.decode? at h
  split at h
  · next m key content heq =>
      obtain rfl := Nat.succ.inj heq
      rw [Option.bind_eq_bind, Option.bind_eq_some_iff] at h
      obtain ⟨variant, -, h⟩ := h
      have hcontent : a.encode.depth ≤ min n content.depth + 1 := by
        split at h
        · exact ih.statement.content .statement (fun _ => rfl) h
        · exact ih.core.content .core (fun _ => rfl) h
        · exact ih.equality .equal content a h
        · exact ih.equality .notEqual content a h
        -- six comparisons and two connectives
        iterate 8
          next => exact ih.sides _ _ (fun _ _ => rfl) content a h
        · exact ih.node.content .not (fun _ => rfl) h
        · exact ih.node.content (.sort .ascending) (fun _ => rfl) h
        · exact ih.node.content (.sort .descending) (fun _ => rfl) h
        · exact (Attribute.keepsDepth n).content .column (fun _ => rfl) h
        · exact (Scalar.keepsDepth n).content (.literal .plain) (fun _ => rfl) h
        · exact (Scalar.keepsDepth n).content (.literal .quoted) (fun _ => rfl) h
        · exact (Scalar.keepsDepth n).content (.literal .casted) (fun _ => rfl) h
        · exact (keepsDepth_string n).content .sqlLiteral (fun _ => rfl) h
        · exact (keepsDepth_bool n).content .bool (fun _ => rfl) h
        · exact ih.node.content .grouping (fun _ => rfl) h
        · exact ih.statement.content .subquery (fun _ => rfl) h
        · exact ih.function content a h
        · cases h
      simp only [Raw.depth, Raw.depthMembers]
      omega
  · cases h

end Step

/-- All readers keep the depth, by induction over the room that they have. -/
theorem allKeepDepth (n : Nat) : AllKeepDepth n := by
  induction n with
  | zero => exact allKeepDepth_zero
  | succ n ih =>
      exact ⟨keepsDepth_node ih, keepsDepth_equality ih, fun _ _ => keepsDepth_sides ih,
        keepsDepth_function ih, keepsDepth_nodes ih, keepsDepth_core ih, keepsDepth_cores ih,
        keepsDepth_statement ih⟩

/-! ## Texts -/

/-- The text of `a`, which has been read from `text`, nests no deeper than that and is
read back, as a value with the same text that is equal to `a` exactly if no scalar of
`a` loses a carry. -/
def Canonicalizes {α : Type} [BEq α] (read : Nat → Raw → Option α) (encode : α → Json)
    (scalars : List Scalar) (text : String) (a : α) : Prop :=
  (∃ written given, Raw.depthOf? (encode a).text = some written ∧
    Raw.depthOf? text = some given ∧ written ≤ given) ∧ RoundTrips read encode scalars a

/-- What has been read and comes back has a canonical text. -/
theorem ComesBack.canonicalizes {α : Type} [BEq α] {read : Nat → Raw → Option α}
    {encode : α → Json} {scalars : List Scalar} {a b : α}
    (h : ComesBack read encode BEq.beq scalars a b) (hkeeps : KeepsDepth read encode nesting)
    {text : String} (hread : decode? read text = some a) :
    Canonicalizes read encode scalars text a := by
  rw [decode?, Option.bind_eq_bind, Option.bind_eq_some_iff] at hread
  obtain ⟨raw, hraw, hread⟩ := hread
  have hdepth : (encode a).depth ≤ min nesting raw.depth := hkeeps raw a hread
  have hwritten : Raw.depthOf? (encode a).text = some (encode a).depth := by
    rw [Raw.depthOf?, Raw.ofText?_text h.readsAs.isExact, Option.map_some, Json.depth]
  have hgiven : Raw.depthOf? text = some raw.depth := by
    rw [Raw.depthOf?, hraw, Option.map_some]
  exact ⟨⟨_, _, hwritten, hgiven, by omega⟩, h.roundTrips (by omega)⟩

/-- A decimal as a plain literal, however its number is spelled. -/
theorem readsAs_decimalLiteral {text : List Char} {d : Decimal}
    (h : Decimal.ofText? text = some d) :
    ReadsAs Node.decode? (tagged "Literal" (tagged "Decimal" (.string (String.ofList text))))
      (.literal .plain (.decimal d)) := by
  have hscalar : ReadsAs Scalar.decode? (tagged "Decimal" (.string (String.ofList text)))
      (.decimal d) :=
    Scalar.readsAs_variant .decimal (Decimal.readsAs_string h) fun _ _ => rfl
  refine hscalar.tagged (fun v => some (.literal .plain v)) rfl fun n raw => ?_
  rw [Node.decode?, StringUnit.text?_spelling]
  rfl

/-- **Canonical texts**: from whatever text a node, a statement, a core or a scalar has
been read, the text that is written for it nests no deeper and is read back, with
the same text once more. -/
theorem decode_canonicalizes (text : String) :
    (∀ n, decode? Node.decode? text = some n → (∀ v ∈ n.scalars, v.isWritable = true) →
      Canonicalizes Node.decode? Node.encode n.scalars text n) ∧
    (∀ s, decode? Statement.decode? text = some s → (∀ v ∈ s.scalars, v.isWritable = true) →
      Canonicalizes Statement.decode? Statement.encode s.scalars text s) ∧
    (∀ c, decode? Core.decode? text = some c → (∀ v ∈ c.scalars, v.isWritable = true) →
      Canonicalizes Core.decode? Core.encode c.scalars text c) ∧
    (∀ v, decode? Scalar.decode? text = some v → v.isWritable = true →
      Canonicalizes Scalar.decode? Scalar.encode [v] text v) := by
  have hkeep := allKeepDepth nesting
  refine ⟨fun n hread h => ?_, fun s hread h => ?_, fun c hread h => ?_, fun v hread h => ?_⟩
  · obtain ⟨m, hm⟩ := n.comesBack h
    exact ComesBack.canonicalizes hm hkeep.node hread
  · obtain ⟨t, ht⟩ := s.comesBack h
    exact ComesBack.canonicalizes ht hkeep.statement hread
  · obtain ⟨d, hd⟩ := c.comesBack h
    exact ComesBack.canonicalizes hd hkeep.core hread
  · obtain ⟨w, hw⟩ := v.comesBack h
    exact ComesBack.canonicalizes hw (Scalar.keepsDepth nesting) hread

/-- Arrays in place of records, fields in another order, an unknown one and a missing
one, a variant without content as an object, and blanks. -/
theorem decode_canonicalizes_lenient :
    let node := "\x7b\"Equality\":[\x7b\"Quoted\":\"Null\"\x7d,null]\x7d"
    let statement := "\x7b\"orders\":[],\"limit\":\x7b\"Bool\":true\x7d,\"cores\":[[[],[]]]\x7d"
    let core := "\x7b\"wheres\":[\x7b\"Literal\":\"Null\"\x7d],\"x\":[[]],\"projections\":[]\x7d"
    let scalar := "\x7b \"Null\": null \x7d"
    ∃ n s c v,
      (decode? Node.decode? node = some n ∧ (∀ w ∈ n.scalars, w.isWritable = true) ∧
        Canonicalizes Node.decode? Node.encode n.scalars node n) ∧
      (decode? Statement.decode? statement = some s ∧ (∀ w ∈ s.scalars, w.isWritable = true) ∧
        Canonicalizes Statement.decode? Statement.encode s.scalars statement s) ∧
      (decode? Core.decode? core = some c ∧ (∀ w ∈ c.scalars, w.isWritable = true) ∧
        Canonicalizes Core.decode? Core.encode c.scalars core c) ∧
      (decode? Scalar.decode? scalar = some v ∧ v.isWritable = true ∧
        Canonicalizes Scalar.decode? Scalar.encode [v] scalar v) := by
  have hnode : decode? Node.decode? "\x7b\"Equality\":[\x7b\"Quoted\":\"Null\"\x7d,null]\x7d" =
      some (.equality .equal (.literal .quoted .null) none) := by
    cbv
  have hstatement : decode? Statement.decode?
      "\x7b\"orders\":[],\"limit\":\x7b\"Bool\":true\x7d,\"cores\":[[[],[]]]\x7d" =
      some ⟨[⟨[], []⟩], [], some (.bool true), none⟩ := by
    cbv
  have hcore : decode? Core.decode?
      "\x7b\"wheres\":[\x7b\"Literal\":\"Null\"\x7d],\"x\":[[]],\"projections\":[]\x7d" =
      some ⟨[], [.literal .plain .null]⟩ := by
    cbv
  have hscalar : decode? Scalar.decode? "\x7b \"Null\": null \x7d" = some .null := by
    cbv
  exact ⟨_, _, _, _,
    ⟨hnode, by decide, (decode_canonicalizes _).1 _ hnode (by decide)⟩,
    ⟨hstatement, by decide, (decode_canonicalizes _).2.1 _ hstatement (by decide)⟩,
    ⟨hcore, by decide, (decode_canonicalizes _).2.2.1 _ hcore (by decide)⟩,
    ⟨hscalar, rfl, (decode_canonicalizes _).2.2.2 _ hscalar rfl⟩⟩

/-- A decimal that loses a carry is given with an exponent and written with zeros, which
are read as a number that is not equal to it. -/
theorem lost_carry_canonicalizes_unequal :
    let text := (tagged "Literal" (tagged "Decimal" (.string "7922816251677867879e10"))).text
    let n : Node := .literal .plain (.decimal ⟨7922816251677867879, -10⟩)
    let m : Node := .literal .plain (.decimal ⟨79228162516778678790000000000, 0⟩)
    decode? Node.decode? text = some n ∧ (∀ v ∈ n.scalars, v.isWritable = true) ∧
      decode? Node.decode? n.encode.text = some m ∧ (m == n) = false := by
  intro text n m
  have hgiven : Decimal.ofText? "7922816251677867879e10".toList =
      some ⟨7922816251677867879, -10⟩ := by decide
  have hreread : (⟨7922816251677867879, -10⟩ : Decimal).reread =
      ⟨79228162516778678790000000000, 0⟩ := by decide
  have hwritten := readsAs_decimalLiteral (Decimal.ofText?_text ⟨7922816251677867879, -10⟩)
  rw [hreread] at hwritten
  refine ⟨(readsAs_decimalLiteral hgiven).decode? (by decide), by decide,
    hwritten.decode? (by decide), ?_⟩
  change Node.beq _ _ = false
  rw [Node.beq]
  decide

end Wire

end RelSearch
