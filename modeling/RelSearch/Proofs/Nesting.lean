import RelSearch.Proofs.Canonical
import RelSearch.Proofs.Descent
import RelSearch.Proofs.SortTerm

/-!
# RelSearch.Proofs.Nesting

How deep a query can be that is read from a text.

Levels of a query and arrays and objects of a text are counted differently. A grouped
node costs one object for one level, a condition of a statement five arrays and objects
for two levels. But no level comes for free:

1. the form of a part lies inside the form of its node (`Node.depth_lt_of_mem_parts`), so
   a node at level `k` is written with more than `k` arrays and objects around its content;
2. what has been read from a text can be written in the room that its reader had
   (`RelSearch.Proofs.Canonical`).

So no level of a query from a text reaches the number of arrays and objects that a text may
open, which is far below the default limit of a compiler.
-/

namespace RelSearch

open Wire

/-! ## Depth of written parts -/

namespace Json

/-- An item is less deep than its array. -/
theorem depth_lt_of_mem_array {items : List Json} {x : Json} (h : x ∈ items) :
    x.depth < (array items).depth :=
  (depth_array_le_iff.mp (Nat.le_refl _)).2 x h

/-- A value is less deep than its object. -/
theorem depth_lt_of_mem_object {members : List (String × Json)} {m : String × Json}
    (h : m ∈ members) : m.2.depth < (object members).depth :=
  (depth_object_le_iff.mp (Nat.le_refl _)).2 m h

end Json

namespace Wire

theorem depth_lt_of_mem_encodeNodes {ns : List Node} {n : Node} (h : n ∈ ns) :
    n.encode.depth < (Json.array (encodeNodes ns)).depth := by
  rw [encodeNodes_eq_map]
  exact Json.depth_lt_of_mem_array (List.mem_map_of_mem h)

theorem depth_lt_of_mem_encodeCores {cs : List Core} {c : Core} (h : c ∈ cs) :
    c.encode.depth < (Json.array (encodeCores cs)).depth := by
  rw [encodeCores_eq_map]
  exact Json.depth_lt_of_mem_array (List.mem_map_of_mem h)

theorem depth_lt_sides_left (l r : Json) : l.depth < (sides l r).depth :=
  Json.depth_lt_of_mem_object (m := ("left", l)) List.mem_cons_self

theorem depth_lt_sides_right (l r : Json) : r.depth < (sides l r).depth :=
  Json.depth_lt_of_mem_object (m := ("right", r)) (by simp)

end Wire

/-- A part of a core lies in an array in the object of the core. -/
theorem Core.depth_lt_of_mem_parts {c : Core} {p : Place} (h : p ∈ c.parts) :
    p.node.encode.depth < c.encode.depth := by
  obtain ⟨projections, wheres⟩ := c
  rw [Core.encode]
  simp only [Core.parts, List.mem_append, List.mem_map] at h
  rcases h with ⟨n, hn, rfl⟩ | ⟨n, hn, rfl⟩
  · exact Nat.lt_trans (depth_lt_of_mem_encodeNodes hn)
      (Json.depth_lt_of_mem_object (m := ("projections", _)) (by simp))
  · exact Nat.lt_trans (depth_lt_of_mem_encodeNodes hn)
      (Json.depth_lt_of_mem_object (m := ("wheres", _)) (by simp))

/-- A part of a statement lies in the object of the statement. A core has no object of its
own as a node there, but an array around it. -/
theorem Statement.depth_lt_of_mem_parts {s : Statement} {p : Place} (h : p ∈ s.parts) :
    p.node.encode.depth < s.encode.depth := by
  obtain ⟨cores, orders, limit, offset⟩ := s
  rw [Statement.encode]
  simp only [Statement.parts, List.mem_append, List.mem_map, Option.mem_toList] at h
  rcases h with ((⟨c, hc, rfl⟩ | ⟨n, hn, rfl⟩) | ⟨n, rfl, rfl⟩) | ⟨n, rfl, rfl⟩
  · rw [Node.encode, depth_tagged]
    exact Nat.lt_of_le_of_lt (depth_lt_of_mem_encodeCores hc)
      (Json.depth_lt_of_mem_object (m := ("cores", _)) (by simp))
  · rw [Place.node_ofSortTerm]
    exact Nat.lt_trans (depth_lt_of_mem_encodeNodes hn)
      (Json.depth_lt_of_mem_object (m := ("orders", _)) (by simp))
  · exact Json.depth_lt_of_mem_object (m := ("limit", n.encode)) (by simp [encodeOptional])
  · exact Json.depth_lt_of_mem_object (m := ("offset", n.encode)) (by simp [encodeOptional])

/-- The form of a part lies inside the form of its node. -/
theorem Node.depth_lt_of_mem_parts {n : Node} {p : Place} (h : p ∈ n.parts) :
    p.node.encode.depth < n.encode.depth := by
  cases n with
  | statement s =>
      rw [Node.encode, depth_tagged]
      exact Nat.lt_succ_of_lt (Statement.depth_lt_of_mem_parts h)
  | subquery s =>
      rw [Node.encode, depth_tagged]
      exact Nat.lt_succ_of_lt (Statement.depth_lt_of_mem_parts h)
  | core c =>
      rw [Node.encode, depth_tagged]
      exact Nat.lt_succ_of_lt (Core.depth_lt_of_mem_parts h)
  | equality op left right =>
      rw [Node.encode, depth_tagged]
      apply Nat.lt_succ_of_lt
      simp only [Node.parts, List.mem_cons, List.mem_map, Option.mem_toList] at h
      rcases h with rfl | ⟨r, rfl, rfl⟩
      · exact depth_lt_sides_left _ _
      · rw [Place.node_ofRight]
        exact depth_lt_sides_right _ r.encode
  | comparison op left right =>
      rw [Node.encode, depth_tagged]
      apply Nat.lt_succ_of_lt
      simp only [Node.parts, List.mem_cons, List.not_mem_nil, or_false] at h
      rcases h with rfl | rfl
      · exact depth_lt_sides_left _ _
      · exact depth_lt_sides_right _ _
  | connective op left right =>
      rw [Node.encode, depth_tagged]
      apply Nat.lt_succ_of_lt
      simp only [Node.parts, List.mem_cons, List.not_mem_nil, or_false] at h
      rcases h with rfl | rfl
      · exact depth_lt_sides_left _ _
      · exact depth_lt_sides_right _ _
  | namedFunction name args =>
      rw [Node.encode, depth_tagged]
      apply Nat.lt_succ_of_lt
      obtain ⟨n, hn, rfl⟩ := List.mem_map.mp h
      exact Nat.lt_trans (depth_lt_of_mem_encodeNodes hn)
        (Json.depth_lt_of_mem_object (m := ("args", _)) (by simp))
  | not operand =>
      obtain rfl := List.mem_singleton.mp h
      rw [Node.encode, depth_tagged]
      exact Nat.lt_succ_self _
  | sort order operand =>
      obtain rfl := List.mem_singleton.mp h
      rw [Node.encode, depth_tagged]
      exact Nat.lt_succ_self _
  | grouping inner =>
      obtain rfl := List.mem_singleton.mp h
      rw [Node.encode, depth_tagged]
      exact Nat.lt_succ_self _
  | column a => exact absurd h List.not_mem_nil
  | literal form value => exact absurd h List.not_mem_nil
  | sqlLiteral text => exact absurd h List.not_mem_nil
  | bool b => exact absurd h List.not_mem_nil

/-! ## Levels -/

/-- Every level of a way down opens another array or object. -/
theorem Place.Reaches.depth_le {p q : Place} {k : Nat} (way : Reaches Node.parts p k q) :
    k + q.node.encode.depth ≤ p.node.encode.depth := by
  induction way with
  | here p => rw [Nat.zero_add]
  | down part _ ih =>
      have hpart := Node.depth_lt_of_mem_parts part
      omega

/-- Every node opens an object. -/
theorem Node.depth_encode_pos (n : Node) : 0 < n.encode.depth := by
  obtain ⟨members, h⟩ := n.encode_eq_object
  rw [h, Json.depth]
  exact Nat.succ_pos _

/-- The levels of a node stay below the depth of its form. -/
theorem Node.Contains.level_lt {n : Node} {level : Nat} {p : Place} (h : n.Contains level p) :
    level < n.encode.depth := by
  have hdepth := Place.Reaches.depth_le h
  have hpos := p.node.depth_encode_pos
  exact Nat.lt_of_lt_of_le (Nat.lt_add_of_pos_right hpos) hdepth

/-- So do those of a statement, which has no object of its own as a node. -/
theorem Statement.level_lt {s : Statement} {level : Nat} {p : Place}
    (h : (Node.statement s).Contains level p) : level < s.encode.depth := by
  cases h with
  | here =>
      obtain ⟨cores, orders, limit, offset⟩ := s
      rw [Statement.encode, Json.depth]
      exact Nat.succ_pos _
  | @down _ q _ k part way =>
      have hpart : q.node.encode.depth < s.encode.depth := Statement.depth_lt_of_mem_parts part
      have hway := way.depth_le
      have hpos := p.node.depth_encode_pos
      omega

/-! ## Limits -/

/-- A way past the limit has a visited place past it. -/
theorem Place.Falls.exists_past {limit level : Nat} {p : Place} {way : List Place}
    (h : Falls limit level p way) :
    ∃ k q, Reaches Node.visitedParts p k q ∧ limit < level + k := by
  induction h with
  | @here level p past _ => exact ⟨0, p, .here p, past⟩
  | down _ part _ ih =>
      obtain ⟨k, q, hway, hpast⟩ := ih
      exact ⟨k + 1, q, .down part hway, by omega⟩

/-- The outcome is not that a node lies too deep. -/
def Compiler.NotTooDeep (outcome : Except CompileError Document) : Prop :=
  ∀ limit path, outcome ≠ .error ⟨.tooDeep limit, path⟩

/-- A query whose levels all keep the limit of a compiler is not too deep for it. -/
theorem Compiler.notTooDeep_compile {c : Compiler} {n : Node}
    (h : ∀ level p, n.Contains level p → level ≤ c.settings.maxDepth) :
    NotTooDeep (c.compile n) := by
  intro limit path herror
  rw [compile_eq_outcomeOf, outcomeOf_eq_error_iff] at herror
  obtain ⟨rfl, way, hway, -⟩ := Place.falls_of_mem_faults (List.mem_of_mem_head? herror)
  obtain ⟨k, q, hreaches, hpast⟩ := hway.exists_past
  have hlevel := h k q (Node.Visits.contains hreaches)
  omega

/-! ## Queries from texts -/

namespace Wire

/-- A reader gives back no more than a text has room for. -/
theorem depth_le_nesting {α : Type} {read : Nat → Raw → Option α} {encode : α → Json}
    (hkeeps : KeepsDepth read encode nesting) {text : String} {a : α}
    (hread : decode? read text = some a) : (encode a).depth ≤ nesting := by
  rw [decode?, Option.bind_eq_bind, Option.bind_eq_some_iff] at hread
  obtain ⟨raw, -, hread⟩ := hread
  have hdepth := hkeeps raw a hread
  omega

/-- **Nesting**: no node of a query that has been read from a text lies below level 126. So
compilers with the default limit never find such a query too deep, whatever their
policy. -/
theorem decode_levels (text : String) :
    (∀ n, decode? Node.decode? text = some n →
      (∀ level p, n.Contains level p → level ≤ 126) ∧
        ∀ quoting, Compiler.NotTooDeep (Compiler.compile ⟨.default, quoting⟩ n)) ∧
    (∀ s, decode? Statement.decode? text = some s →
      (∀ level p, (Node.statement s).Contains level p → level ≤ 126) ∧
        ∀ quoting, Compiler.NotTooDeep (Compiler.compileStatement ⟨.default, quoting⟩ s)) := by
  have hkeep := allKeepDepth nesting
  have hdefault : 126 ≤ Settings.default.maxDepth := by decide
  refine ⟨fun n hread => ?_, fun s hread => ?_⟩
  · have hdepth := depth_le_nesting hkeep.node hread
    have hlevels : ∀ level p, n.Contains level p → level ≤ 126 := fun level p hp =>
      Nat.le_of_lt_succ (Nat.lt_of_lt_of_le hp.level_lt hdepth)
    exact ⟨hlevels, fun quoting => Compiler.notTooDeep_compile fun level p hp =>
      Nat.le_trans (hlevels level p hp) hdefault⟩
  · have hdepth := depth_le_nesting hkeep.statement hread
    have hlevels : ∀ level p, (Node.statement s).Contains level p → level ≤ 126 :=
      fun level p hp => Nat.le_of_lt_succ (Nat.lt_of_lt_of_le (Statement.level_lt hp) hdepth)
    refine ⟨hlevels, fun quoting => ?_⟩
    rw [Compiler.compileStatement_eq_compile]
    exact Compiler.notTooDeep_compile fun level p hp => Nat.le_trans (hlevels level p hp) hdefault

/-- Every pair of parentheses opens another one. -/
theorem depth_encode_grouped (k : Nat) (n : Node) :
    (n.grouped k).encode.depth = n.encode.depth + k := by
  induction k with
  | zero => rfl
  | succ k ih => rw [Node.grouped, Node.encode, depth_tagged, ih, Nat.add_assoc]

/-- Any number of parentheses is read back, if the text may open so many objects. -/
theorem readsAs_grouped (k : Nat) (b : Bool) :
    ReadsAs Node.decode? (Node.grouped k (.bool b)).encode (.grouped k (.bool b)) := by
  induction k with
  | zero =>
      refine (readsAs_bool b).tagged (fun b => some (.bool b)) rfl fun n raw => ?_
      rw [Node.decode?, StringUnit.text?_spelling]
      rfl
  | succ k ih =>
      refine ih.tagged (fun n => some (.grouping n)) rfl fun n raw => ?_
      rw [Node.decode?, StringUnit.text?_spelling]
      rfl

/-- Level 126 is reached, by a truth value in 126 pairs of parentheses. -/
theorem decode_levels_grouped :
    let n : Node := .grouped 126 (.bool true)
    let s : Statement := ⟨[⟨[], []⟩], [], some (.bool true), none⟩
    (decode? Node.decode? n.encode.text = some n ∧ n.Contains 126 ⟨.value, .bool true⟩ ∧
      (∀ level p, n.Contains level p → level ≤ 126) ∧
        Compiler.NotTooDeep (Compiler.compile ⟨.default, .sql⟩ n)) ∧
    (decode? Statement.decode?
        "\x7b\"orders\":[],\"limit\":\x7b\"Bool\":true\x7d,\"cores\":[[[],[]]]\x7d" = some s ∧
      Compiler.NotTooDeep (Compiler.compileStatement ⟨.default, .sql⟩ s)) := by
  intro n s
  have hread : decode? Node.decode? n.encode.text = some n :=
    (readsAs_grouped 126 true).decode? (Nat.le_of_eq (depth_encode_grouped 126 _))
  have hway : ∀ k, (Node.grouped k (.bool true)).Contains k ⟨.value, .bool true⟩ := by
    intro k
    induction k with
    | zero => exact .here _
    | succ k ih => exact .down List.mem_cons_self ih
  have hstatement : decode? Statement.decode?
      "\x7b\"orders\":[],\"limit\":\x7b\"Bool\":true\x7d,\"cores\":[[[],[]]]\x7d" = some s := by
    cbv
  obtain ⟨hlevels, hcompile⟩ := (decode_levels _).1 n hread
  exact ⟨⟨hread, hway 126, hlevels, hcompile .sql⟩, hstatement,
    ((decode_levels _).2 s hstatement).2 .sql⟩

end Wire

end RelSearch
