import RelSearch.Proofs.Steps

/-!
# RelSearch.Proofs.Limit

The limit of a compiler decides only how deep it goes. Where two compilers with
different limits go down one query, they come upon the same faults until the
lower limit is met, and what is met there is a node that lies too deep. So a
lower limit turns outcomes into `tooDeep` and leaves every other outcome as it
is: `Compiler.narrows_compile`.
-/

namespace RelSearch

/-! ## Lists of faults under two limits -/

/-- Two lists of faults that start alike, unless the first one starts with a node
past the limit. -/
inductive AgreeUpTo (limit : Nat) : List CompileError → List CompileError → Prop
  /-- No faults. -/
  | nil : AgreeUpTo limit [] []
  /-- The same first fault. -/
  | same (e : CompileError) (faults wider : List CompileError) :
    AgreeUpTo limit (e :: faults) (e :: wider)
  /-- A node past the limit, and whatever is found below it with a higher one. -/
  | tooDeep (path : NodePath) (faults wider : List CompileError) :
    AgreeUpTo limit (⟨.tooDeep limit, path⟩ :: faults) wider

namespace AgreeUpTo

variable {limit : Nat}

theorem refl (faults : List CompileError) : AgreeUpTo limit faults faults := by
  cases faults with
  | nil => exact .nil
  | cons e faults => exact .same e faults faults

/-- Lists of faults that agree may be put behind each other. -/
theorem append {faults wider more widerMore : List CompileError}
    (h : AgreeUpTo limit faults wider) (hmore : AgreeUpTo limit more widerMore) :
    AgreeUpTo limit (faults ++ more) (wider ++ widerMore) := by
  cases h with
  | nil => exact hmore
  | same e faults wider => exact .same e (faults ++ more) (wider ++ widerMore)
  | tooDeep path faults wider => exact .tooDeep path (faults ++ more) (wider ++ widerMore)

/-- So may any number of them. -/
theorem flatMap {α : Type} {l : List α} {f g : α → List CompileError}
    (h : ∀ a ∈ l, AgreeUpTo limit (f a) (g a)) : AgreeUpTo limit (l.flatMap f) (l.flatMap g) := by
  induction l with
  | nil => exact .nil
  | cons a l ih =>
      rw [List.flatMap_cons, List.flatMap_cons]
      exact (h a List.mem_cons_self).append (ih fun b hb => h b (List.mem_cons_of_mem a hb))

/-- A fault that is raised only where there is no other one keeps the lists alike. -/
theorem orElse {faults wider : List CompileError} (h : AgreeUpTo limit faults wider)
    (check : Bool) (e : CompileError) :
    AgreeUpTo limit (if faults.isEmpty && check then [e] else faults)
      (if wider.isEmpty && check then [e] else wider) := by
  cases h with
  | nil => exact refl _
  | same f faults wider => exact .same f faults wider
  | tooDeep path faults wider => exact .tooDeep path faults _

end AgreeUpTo

/-- Two limits find the same faults of a place until the lower one is met. -/
theorem Place.agreeUpTo_faults {limit wider : Nat} (h : limit ≤ wider) (above : NodePath)
    (level : Nat) (p : Place) :
    AgreeUpTo limit (p.faults limit above level) (p.faults wider above level) := by
  obtain ⟨role, n⟩ := p
  induction n using Node.induction_parts generalizing role above level with
  | step n ih =>
      have hinside : AgreeUpTo limit (n.faultsInside limit above level)
          (n.faultsInside wider above level) :=
        (AgreeUpTo.refl _).append (.flatMap fun q hq => ih q hq _ _ q.role)
      have hvalue : AgreeUpTo limit (faults limit above level ⟨.value, n⟩)
          (faults wider above level ⟨.value, n⟩) := by
        rw [faults_value, faults_value]
        by_cases hlevel : limit < level
        · -- whatever the higher limit finds from here on does not matter
          rw [if_pos hlevel]
          exact .tooDeep _ _ _
        · rw [if_neg hlevel, if_neg (by omega)]
          exact hinside
      cases role with
      | core =>
          rw [faults_core, faults_core]
          exact hinside
      | value => exact hvalue
      | name owner part =>
          rw [faults_name, faults_name]
          exact hvalue.orElse _ _
      | skipped =>
          rw [faults_skipped, faults_skipped]
          exact .nil

/-! ## Outcomes under two limits -/

/-- How an outcome compares with the outcome under a higher limit. -/
structure Narrows (limit : Nat) (narrow wide : Except CompileError Document) : Prop where
  /-- They are the same, unless a node was found past the limit. -/
  eq_or_tooDeep : narrow = wide ∨ ∃ path, narrow = .error ⟨.tooDeep limit, path⟩
  /-- A document stays what it is. -/
  document : ∀ d, narrow = .ok d → wide = .ok d
  /-- Any other error stays what it is, its path included. -/
  error : ∀ e, narrow = .error e → (∀ l, e.fault ≠ .tooDeep l) → wide = .error e

/-- Where the faults agree up to the limit, so do the outcomes. -/
theorem AgreeUpTo.narrows {limit : Nat} {faults wider : List CompileError}
    (h : AgreeUpTo limit faults wider) (d : Document) :
    Narrows limit (outcomeOf d faults) (outcomeOf d wider) := by
  cases h with
  | nil => exact ⟨.inl rfl, fun _ h => h, fun _ h _ => h⟩
  | same e faults wider => exact ⟨.inl rfl, fun _ h => h, fun _ h _ => h⟩
  | tooDeep path faults wider =>
      refine ⟨.inr ⟨path, rfl⟩, nofun, fun e he hfault => ?_⟩
      obtain rfl := Except.error.inj he
      exact absurd rfl (hfault limit)

/-- **Limit**: a lower limit turns outcomes into `tooDeep` and changes nothing
else, for nodes as for statements. -/
theorem Compiler.narrows_compile (q : Quoting) {limit wider : Nat} (h : limit ≤ wider) :
    (∀ n, Narrows limit (Compiler.compile ⟨⟨limit⟩, q⟩ n) (Compiler.compile ⟨⟨wider⟩, q⟩ n)) ∧
      ∀ s, Narrows limit (Compiler.compileStatement ⟨⟨limit⟩, q⟩ s)
        (Compiler.compileStatement ⟨⟨wider⟩, q⟩ s) := by
  have hnode : ∀ n, Narrows limit (Compiler.compile ⟨⟨limit⟩, q⟩ n)
      (Compiler.compile ⟨⟨wider⟩, q⟩ n) := by
    intro n
    rw [compile_eq_outcomeOf, compile_eq_outcomeOf]
    exact (Place.agreeUpTo_faults h [] 0 ⟨.value, n⟩).narrows (n.document q)
  refine ⟨hnode, fun s => ?_⟩
  rw [compileStatement_eq_compile, compileStatement_eq_compile]
  exact hnode (.statement s)

/-- A node two levels down lies too deep for the lowest limit, and is compiled
under the next one. -/
theorem Compiler.narrows_compile_grouping :
    let n : Node := .grouping (.grouping (.bool true))
    Compiler.compile ⟨⟨1⟩, .sql⟩ n = .error ⟨.tooDeep 1, ["Grouping", "Grouping", "Bool"]⟩ ∧
      Compiler.compile ⟨⟨2⟩, .sql⟩ n = .ok (.bool true) ∧
      Narrows 1 (Compiler.compile ⟨⟨1⟩, .sql⟩ n) (Compiler.compile ⟨⟨2⟩, .sql⟩ n) :=
  ⟨rfl, rfl, (Compiler.narrows_compile .sql (by decide)).1 _⟩

end RelSearch
