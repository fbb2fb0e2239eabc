import RelSearch.Compiler.Registry
import RelSearch.Proofs.Descent

/-!
# RelSearch.Proofs.Lineage

How the compilers of a registry came about.

The compiler in a slot was started at some time, with default or with given settings,
and may have got other policies since; it may have been copied from another slot on the
way. `Registry.lineage` reads these steps off the commands of the past, without any
compiler. A command that fails leaves no step.

1. A compiler is what the last start and the last policy since then make of it
   (`Build.of_compiler?_eq_some`).
2. A registry holds what the lineages of its slots make (`Registry.Records`). One
   command keeps that up, and so does every run of commands.
3. The lineage of a slot does not change by commands that store into other slots.

So the answers of a compiler in a registry are those of one that was built just for the
question. Its limit can be used, so that a node past it has at least two nodes above.
-/

namespace RelSearch

/-! ## The making of a compiler -/

/-- A step in the making of a compiler. -/
inductive Build where
  /-- A new compiler with the given settings and unescaped literals. -/
  | start (settings : Settings)
  /-- Another policy. -/
  | requote (quoting : Quoting)

namespace Build

def settings? : Build → Option Settings
  | .start settings => some settings
  | .requote _ => none

def quoting? : Build → Option Quoting
  | .start _ => none
  | .requote quoting => some quoting

/-- The settings of the last start; the last step comes first. -/
def settingsOf? (made : List Build) : Option Settings := made.findSome? settings?

/-- The last policy since the last start; literals are not escaped before there is one. -/
def quotingOf (made : List Build) : Quoting :=
  ((made.takeWhile fun build => build.settings?.isNone).findSome? quoting?).getD .identity

/-- The compiler that the steps make. -/
def compiler? : List Build → Option Compiler
  | [] => none
  | .start settings :: _ => (Compiler.ofSettings settings).toOption
  | .requote quoting :: made => (compiler? made).map (·.requote quoting)

/-- A compiler is made from every limit but zero. -/
theorem toOption_ofSettings_eq_some_iff (settings : Settings) (c : Compiler) :
    (Compiler.ofSettings settings).toOption = some c ↔
      0 < settings.maxDepth ∧ c = ⟨settings, .identity⟩ := by
  unfold Compiler.ofSettings Settings.validate
  by_cases h : settings.maxDepth = 0
  · simp [h, Except.toOption, bind, Except.bind]
  · simp [h, Nat.pos_of_ne_zero h, Except.toOption, bind, Except.bind, pure, Except.pure, eq_comm]

/-- What the steps make has the settings of the last start, which can be used, and the
last policy since then. -/
theorem of_compiler?_eq_some {made : List Build} {c : Compiler} (h : compiler? made = some c) :
    0 < c.settings.maxDepth ∧ settingsOf? made = some c.settings ∧ quotingOf made = c.quoting := by
  induction made generalizing c with
  | nil => cases h
  | cons build made ih =>
      cases build with
      | start settings =>
          obtain ⟨hpos, rfl⟩ := (toOption_ofSettings_eq_some_iff settings c).mp h
          exact ⟨hpos, rfl, rfl⟩
      | requote quoting =>
          obtain ⟨d, hd, rfl⟩ := Option.map_eq_some_iff.mp h
          obtain ⟨hpos, hsettings, -⟩ := ih hd
          exact ⟨hpos, hsettings, rfl⟩

end Build

/-! ## Lineages -/

/-- The slot in which a command stores a compiler, if it succeeds. -/
def Command.target? : Command → Option String
  | .new slot => some slot
  | .configure slot _ => some slot
  | .requote slot _ => some slot
  | .copy _ slot => some slot
  | .compile _ _ => none
  | .compileStatement _ _ => none

namespace Registry

/-- How the compiler in a slot was made, the last step first. The commands of the past
are given with the last one first, too. -/
def lineage : (past : List Command) → (slot : String) → List Build
  | [], _ => []
  | .new target :: past, slot =>
    if slot = target then .start .default :: lineage past slot else lineage past slot
  | .configure target settings :: past, slot =>
    if slot = target ∧ 0 < settings.maxDepth then .start settings :: lineage past slot
    else lineage past slot
  | .requote target quoting :: past, slot =>
    if slot = target ∧ lineage past slot ≠ [] then .requote quoting :: lineage past slot
    else lineage past slot
  | .copy source target :: past, slot =>
    if slot = target ∧ lineage past source ≠ [] then lineage past source else lineage past slot
  | .compile _ _ :: past, slot => lineage past slot
  | .compileStatement _ _ :: past, slot => lineage past slot

/-- A command that stores into another slot is no part of a lineage. -/
theorem lineage_cons_of_target?_ne {command : Command} {slot : String}
    (h : command.target? ≠ some slot) (past : List Command) :
    lineage (command :: past) slot = lineage past slot := by
  have hne : ∀ target, some target ≠ some slot → ¬ slot = target :=
    fun target hne heq => hne (congrArg some heq.symm)
  cases command with
  | new target => simp [lineage, hne target h]
  | configure target settings => simp [lineage, hne target h]
  | requote target quoting => simp [lineage, hne target h]
  | copy source target => simp [lineage, hne target h]
  | compile target node => rfl
  | compileStatement target statement => rfl

/-- Commands for other slots leave no trace in the lineage of a slot. -/
theorem lineage_append_of_target?_ne {commands : List Command} {slot : String}
    (h : ∀ command ∈ commands, command.target? ≠ some slot) (past : List Command) :
    lineage (commands ++ past) slot = lineage past slot := by
  induction commands with
  | nil => rfl
  | cons command commands ih =>
      rw [List.forall_mem_cons] at h
      rw [List.cons_append, lineage_cons_of_target?_ne h.1, ih h.2]

/-- The compilers in a registry are those that the lineages make. -/
structure Records (r : Registry) (past : List Command) : Prop where
  get?_eq : ∀ slot, r.get? slot = Build.compiler? (lineage past slot)
  eq_nil : ∀ slot, r.get? slot = none → lineage past slot = []

namespace Records

variable {r : Registry} {past : List Command}

theorem empty : Records .empty [] where
  get?_eq _ := rfl
  eq_nil _ _ := rfl

/-- A slot is empty if it has no lineage. -/
theorem eq_none_iff (h : Records r past) (slot : String) :
    r.get? slot = none ↔ lineage past slot = [] := by
  refine ⟨h.eq_nil slot, fun hnil => ?_⟩
  rw [h.get?_eq, hnil, Build.compiler?]

theorem ne_nil (h : Records r past) {slot : String} {c : Compiler} (hc : r.get? slot = some c) :
    lineage past slot ≠ [] := by
  rw [ne_eq, ← h.eq_none_iff, hc]
  exact Option.some_ne_none c

/-- A compiler is stored. -/
theorem put (h : Records r past) {command : Command} {target : String} {c : Compiler}
    (htarget : command.target? = some target)
    (hc : Build.compiler? (lineage (command :: past) target) = some c) :
    Records (r.put target c) (command :: past) := by
  have hother : ∀ slot, slot ≠ target → lineage (command :: past) slot = lineage past slot := by
    intro slot hslot
    apply lineage_cons_of_target?_ne
    rw [htarget]
    exact fun heq => hslot (Option.some.inj heq).symm
  constructor
  · intro slot
    rw [get?_put]
    by_cases hslot : slot = target
    · rw [if_pos hslot, hslot, hc]
    · rw [if_neg hslot, hother slot hslot, h.get?_eq]
  · intro slot hnone
    rw [get?_put] at hnone
    by_cases hslot : slot = target
    · rw [if_pos hslot] at hnone
      cases hnone
    · rw [if_neg hslot] at hnone
      rw [hother slot hslot, h.eq_nil slot hnone]

/-- Nothing is stored. -/
theorem unchanged (h : Records r past) {command : Command}
    (hall : ∀ slot, lineage (command :: past) slot = lineage past slot) :
    Records r (command :: past) := by
  constructor
  · intro slot
    rw [hall, h.get?_eq]
  · intro slot hnone
    rw [hall, h.eq_nil slot hnone]

/-- **One command**: the lineages grow as the compilers change. -/
theorem step (h : Records r past) (command : Command) :
    Records (r.step command).1 (command :: past) := by
  cases command with
  | new target =>
      refine h.put rfl ?_
      rw [lineage, if_pos rfl]
      rfl
  | configure target settings =>
      simp only [Registry.step]
      cases hc : Compiler.ofSettings settings with
      | ok c =>
          have hmade : (Compiler.ofSettings settings).toOption = some c := by
            rw [hc]
            rfl
          have hpos := ((Build.toOption_ofSettings_eq_some_iff settings c).mp hmade).1
          refine h.put rfl ?_
          rw [lineage, if_pos ⟨rfl, hpos⟩]
          exact hmade
      | error e =>
          have hzero : ¬ 0 < settings.maxDepth := by
            intro hpos
            have hmade := (Build.toOption_ofSettings_eq_some_iff settings _).mpr ⟨hpos, rfl⟩
            rw [hc] at hmade
            cases hmade
          refine h.unchanged fun slot => ?_
          simp [lineage, hzero]
  | requote target quoting =>
      simp only [Registry.step]
      cases hc : r.get? target with
      | some c =>
          refine h.put rfl ?_
          rw [lineage, if_pos ⟨rfl, h.ne_nil hc⟩, Build.compiler?, ← h.get?_eq, hc, Option.map_some]
      | none =>
          refine h.unchanged fun slot => ?_
          by_cases hslot : slot = target
          · simp [lineage, hslot, h.eq_nil target hc]
          · simp [lineage, hslot]
  | copy source target =>
      simp only [Registry.step]
      cases hc : r.get? source with
      | some c =>
          refine h.put rfl ?_
          rw [lineage, if_pos ⟨rfl, h.ne_nil hc⟩, ← h.get?_eq, hc]
      | none =>
          refine h.unchanged fun slot => ?_
          simp [lineage, h.eq_nil source hc]
  | compile target node =>
      simp only [Registry.step]
      cases r.get? target <;> exact h.unchanged fun _ => rfl
  | compileStatement target statement =>
      simp only [Registry.step]
      cases r.get? target <;> exact h.unchanged fun _ => rfl

/-- A run of commands keeps the record, by induction over the commands. -/
theorem runAll (h : Records r past) (commands : List Command) :
    Records (r.runAll commands).1 (commands.reverse ++ past) := by
  induction commands generalizing r past with
  | nil => exact h
  | cons command commands ih =>
      rw [List.reverse_cons, List.append_assoc]
      exact ih (h.step command)

end Records

/-- Every run from the empty registry is recorded. -/
theorem records_runAll (commands : List Command) :
    Records (Registry.empty.runAll commands).1 commands.reverse := by
  have h := Records.empty.runAll commands
  rwa [List.append_nil] at h

/-! ## Replies -/

/-- A run can be interrupted anywhere. -/
theorem runAll_append (r : Registry) (commands more : List Command) :
    r.runAll (commands ++ more) =
      (((r.runAll commands).1.runAll more).1,
        (r.runAll commands).2 ++ ((r.runAll commands).1.runAll more).2) := by
  induction commands generalizing r with
  | nil => rfl
  | cons command commands ih => simp only [List.cons_append, runAll, ih]

/-- Every command has one reply. -/
theorem length_replies (r : Registry) (commands : List Command) :
    (r.runAll commands).2.length = commands.length := by
  induction commands generalizing r with
  | nil => rfl
  | cons command commands ih => simp only [runAll, List.length_cons, ih]

/-- The reply to a command comes from the registry that the commands before it left. -/
theorem getElem?_replies (r : Registry) (before : List Command) (command : Command)
    (after : List Command) :
    (r.runAll (before ++ command :: after)).2[before.length]? =
      some ((r.runAll before).1.step command).2 := by
  rw [runAll_append, ← length_replies r before, List.getElem?_append_right (Nat.le_refl _),
    Nat.sub_self]
  rfl

/-- Every reply comes from a step in the middle of a run. -/
theorem exists_of_mem_replies {r : Registry} {commands : List Command} {reply : Reply}
    (h : reply ∈ (r.runAll commands).2) :
    ∃ before command, reply = ((r.runAll before).1.step command).2 := by
  induction commands generalizing r with
  | nil => exact absurd h List.not_mem_nil
  | cons command commands ih =>
      simp only [runAll, List.mem_cons] at h
      rcases h with rfl | h
      · exact ⟨[], command, rfl⟩
      · obtain ⟨before, other, rfl⟩ := ih h
        exact ⟨command :: before, other, rfl⟩

end Registry

/-! ## Nodes past the limit -/

/-- A path to a node past a limit that can be used has at least three segments. -/
theorem Compiler.three_le_length {c : Compiler} (hc : 0 < c.settings.maxDepth) {n : Node}
    {limit : Nat} {path : NodePath} (h : c.compile n = .error ⟨.tooDeep limit, path⟩) :
    3 ≤ path.length := by
  rw [compile_eq_outcomeOf, outcomeOf_eq_error_iff] at h
  obtain ⟨-, way, hway, rfl⟩ := Place.falls_of_mem_faults (List.mem_of_mem_head? h)
  rw [List.nil_append, List.length_map]
  rcases hway.length_eq ⟨by simp, by simp⟩ (by simp) (by simp) with hlength | ⟨hlength, -⟩
  · omega
  · omega

namespace Registry

/-- A path to a node that is too deep has three segments at least: no compiler in a registry has
the limit zero. -/
theorem Records.three_le_length {r : Registry} {past : List Command} (h : Records r past)
    {command : Command} {limit : Nat} {path : NodePath}
    (hreply : (r.step command).2 = .outcome (.error ⟨.tooDeep limit, path⟩)) :
    3 ≤ path.length := by
  have hpos : ∀ {slot c}, r.get? slot = some c → 0 < c.settings.maxDepth := by
    intro slot c hc
    rw [h.get?_eq] at hc
    exact (Build.of_compiler?_eq_some hc).1
  cases command with
  | new target => cases hreply
  | configure target settings =>
      simp only [Registry.step] at hreply
      cases hc : Compiler.ofSettings settings <;> simp [hc, store] at hreply
  | requote target quoting =>
      simp only [Registry.step] at hreply
      cases hc : r.get? target <;> simp [hc, store] at hreply
  | copy source target =>
      simp only [Registry.step] at hreply
      cases hc : r.get? source <;> simp [hc, store] at hreply
  | compile target node =>
      simp only [Registry.step] at hreply
      cases hc : r.get? target with
      | none => simp [hc] at hreply
      | some c =>
          simp only [hc, Reply.outcome.injEq] at hreply
          exact Compiler.three_le_length (hpos hc) hreply
  | compileStatement target statement =>
      simp only [Registry.step] at hreply
      cases hc : r.get? target with
      | none => simp [hc] at hreply
      | some c =>
          simp only [hc, Reply.outcome.injEq, Compiler.compileStatement_eq_compile] at hreply
          exact Compiler.three_le_length (hpos hc) hreply

/-- **Lineage**: after any commands, a slot is filled exactly if it has a lineage. The
compiler in it has a limit of at least one, the settings of the last start and the last
policy since then, and it answers as one that is built from these on the spot, whatever
is stored into other slots in between. No path to a node past a limit has fewer than
three segments. -/
theorem runAll_lineage (before : List Command) :
    (∀ slot, (Registry.empty.runAll before).1.get? slot = none ↔
      lineage before.reverse slot = []) ∧
    (∀ slot c, (Registry.empty.runAll before).1.get? slot = some c →
      1 ≤ c.settings.maxDepth ∧
      Build.settingsOf? (lineage before.reverse slot) = some c.settings ∧
      Build.quotingOf (lineage before.reverse slot) = c.quoting ∧
      ∃ fresh, Compiler.ofSettings c.settings = .ok fresh ∧
        ∀ others after, (∀ command ∈ others, command.target? ≠ some slot) →
          (∀ node, (Registry.empty.runAll
              ((before ++ others) ++ .compile slot node :: after)).2[(before ++ others).length]? =
            some (.outcome ((fresh.requote c.quoting).compile node))) ∧
          ∀ statement, (Registry.empty.runAll
              ((before ++ others) ++ .compileStatement slot statement :: after)).2[
                (before ++ others).length]? =
            some (.outcome ((fresh.requote c.quoting).compileStatement statement))) ∧
    ∀ limit path, .outcome (.error ⟨.tooDeep limit, path⟩) ∈ (Registry.empty.runAll before).2 →
      3 ≤ path.length := by
  have hrecords := records_runAll before
  refine ⟨hrecords.eq_none_iff, fun slot c hc => ?_, fun limit path hreply => ?_⟩
  · have hmade : Build.compiler? (lineage before.reverse slot) = some c := by
      rw [← hrecords.get?_eq, hc]
    obtain ⟨hpos, hsettings, hquoting⟩ := Build.of_compiler?_eq_some hmade
    have hfresh : Compiler.ofSettings c.settings = .ok ⟨c.settings, .identity⟩ := by
      simp [Compiler.ofSettings, Settings.validate, Nat.ne_of_gt hpos, bind, Except.bind, pure,
        Except.pure]
    refine ⟨hpos, hsettings, hquoting, _, hfresh, fun others after hothers => ?_⟩
    have hget : (Registry.empty.runAll (before ++ others)).1.get? slot = some c := by
      rw [(records_runAll (before ++ others)).get?_eq, List.reverse_append,
        lineage_append_of_target?_ne (by simpa using hothers), hmade]
    constructor
    · intro node
      rw [getElem?_replies, step, hget]
      rfl
    · intro statement
      rw [getElem?_replies, step, hget]
      rfl
  · obtain ⟨earlier, command, heq⟩ := exists_of_mem_replies hreply
    exact (records_runAll earlier).three_le_length heq.symm

/-- A copy keeps its policy and its limit while the compiler that it was taken from gets
another policy and is then replaced, and while it is itself refused other settings. -/
theorem runAll_lineage_copy :
    let before : List Command :=
      [.new "a", .requote "a" .sql, .copy "a" "b", .configure "b" ⟨0⟩]
    let others : List Command := [.requote "a" .identity, .configure "a" ⟨1⟩]
    let node : Node := .grouping (.grouping (.literal .quoted (.string "o'n")))
    (Registry.empty.runAll before).1.get? "b" = some ⟨.default, .sql⟩ ∧
      (∀ command ∈ others, command.target? ≠ some "b") ∧
      Build.settingsOf? (lineage before.reverse "b") = some .default ∧
      (Registry.empty.runAll (before ++ others ++ [.compile "b" node])).2[6]? =
        some (.outcome (.ok (.string "'o''n'"))) ∧
      (Registry.empty.runAll (before ++ others ++ [.compile "a" node])).2[6]? =
        some (.outcome (.error ⟨.tooDeep 1, ["Grouping", "Grouping", "Quoted"]⟩)) ∧
      3 ≤ ["Grouping", "Grouping", "Quoted"].length := by
  intro before others node
  have hget : (Registry.empty.runAll before).1.get? "b" = some ⟨.default, .sql⟩ := rfl
  have hothers : ∀ command ∈ others, command.target? ≠ some "b" := by
    simp [others, Command.target?]
  obtain ⟨-, hslots, -⟩ := runAll_lineage before
  obtain ⟨-, hsettings, -, fresh, hfresh, hanswers⟩ := hslots "b" _ hget
  obtain rfl : (⟨.default, .identity⟩ : Compiler) = fresh := Except.ok.inj hfresh
  have hpast : (Registry.empty.runAll (before ++ others ++ [.compile "a" node])).2[6]? =
      some (.outcome (.error ⟨.tooDeep 1, ["Grouping", "Grouping", "Quoted"]⟩)) := rfl
  obtain ⟨-, -, hpaths⟩ := runAll_lineage (before ++ others ++ [.compile "a" node])
  exact ⟨hget, hothers, hsettings, (hanswers others [] hothers).1 node, hpast,
    hpaths 1 _ (List.mem_of_getElem? hpast)⟩

end Registry

end RelSearch
