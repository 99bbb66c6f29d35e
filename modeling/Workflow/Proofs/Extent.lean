import Workflow.Proofs.Keeping
import Workflow.Proofs.Permissions

/-!
What a level answers for. All levels of a graph share the registry of the graph, so that asking any
of them for its states or permissions is asking the outermost one. That is right for the outermost
level, whose document shows just these states; a nested level shows fewer than it answers for.
-/

namespace Workflow

namespace Nested

variable {ι κ α β : Type}

theorem preorder_map (f : ι → κ) (g : α → β) (t : Nested ι α) :
    (map f g t).preorder = t.preorder.map g := by
  induction t using induct with
  | step i es ih =>
    rw [map_node, preorder_node, preorder_node, List.flatMap_map, List.map_flatMap]
    refine List.flatMap_congr fun e entry => ?_
    rw [List.flatMap_map, List.map_cons, List.map_flatMap]
    exact congrArg _ (List.flatMap_congr fun t member => ih e entry t member)

end Nested

namespace Level

theorem allStates_of_untimed {level other : Level} (same : level.untimed = other.untimed) :
    level.allStates = other.allStates := by
  have members := congrArg Nested.preorder same
  simp only [untimed, Nested.preorder_map, List.map_id] at members
  rw [allStates, members, allStates]

/-- A level that is nested in another shows fewer states, as it leaves out its start at least. -/
theorem allStates_ne_of_at? {level nested : Level} {step : StateId × Nat} {path : LevelPath}
    (distinct : level.allStates.Nodup) (start : level.info.start ∈ states level.entries)
    (down : at? (step :: path) level = some nested) : nested.allStates ≠ level.allStates := by
  obtain ⟨s, i⟩ := step
  obtain ⟨e, entry, -, first, at_i, rest⟩ := at?_cons_eq_some down
  have outside := not_mem_nested distinct start entry (List.mem_of_getElem? at_i)
  have below := (Nested.preorder_sublist_of_mem_levels (mem_levels_of_at? rest)).map (·.state)
  intro same
  have inside := mem_allStates_of_mem_levels (Nested.mem_levels_self level) start
  rw [← same] at inside
  exact outside (below.subset inside)

end Level

namespace Graph

/-- Whether the registry that is kept for a graph lists the states of its levels in order and each
once, and the graph starts at one of the outermost. -/
structure Whole (g : Graph) (c : Compiled) : Prop where
  listed : c.registry.map (·.state) = (g.level c).allStates
  distinct : (g.level c).allStates.Nodup
  start : g.start ∈ Level.states c.members

theorem Whole.of_untimed {g other : Graph} (same : g.untimed = other.untimed)
    (whole : ∀ c, other.compiled = some c → other.Whole c) {c : Compiled}
    (kept : g.compiled = some c) : g.Whole c := by
  obtain ⟨start, rest⟩ := Prod.mk.inj same
  obtain ⟨-, compiled⟩ := Prod.mk.inj rest
  rw [kept, Option.map_some] at compiled
  obtain ⟨c', kept', same⟩ := Option.map_eq_some_iff.mp compiled.symm
  obtain ⟨levels, registry⟩ := Prod.mk.inj same
  have whole := whole c' kept'
  have states := Level.allStates_of_untimed levels
  obtain ⟨-, members, -⟩ := Level.untimed_eq levels
  constructor
  case listed => rw [← registry, whole.listed, states]
  case distinct => exact states ▸ whole.distinct
  case start =>
    rw [start]
    exact members ▸ whole.start

end Graph

namespace Workspace

theorem whole_of_compile {w : Workspace} {g : Graph} {c : Compiled}
    (ok : w.compile g.label g.start = .ok c) : g.Whole c := by
  obtain ⟨registered, -, sound⟩ := compile_ok ok g.timeout
  have listed := states_of_compile ok
  constructor
  case listed => exact listed
  case distinct => exact listed ▸ registered.nodup_states
  case start => exact (sound _ (Nested.mem_levels_self _)).start

end Workspace

namespace Runs

variable {w w' : Workspace} {ops : List Operation} {ref : GraphRef}

/-- What is kept for a graph is whole at any time of a history. -/
theorem whole (runs : Runs {} ops w) {g : GraphId} (known : w.HasGraph g) :
    ∀ c, (w.graph g).compiled = some c → (w.graph g).Whole c := by
  revert g
  refine runs.keeps (P := fun v => ∀ {g}, v.HasGraph g →
    ∀ c, (v.graph g).compiled = some c → (v.graph g).Whole c) ?_ ?_
  · intro v op _ within held g known
    rcases Workspace.graph_cases within known with ⟨there, same⟩ | ⟨-, -, c, ok, same⟩ | ⟨-, -, ok⟩
    · exact fun c kept => .of_untimed same (held there) kept
    · rw [same]
      rintro c' ⟨⟩
      exact Workspace.whole_of_compile ok
    · exact fun c kept => Workspace.whole_of_compile (ok c kept)
  · rintro ⟨i⟩ known
    cases known

theorem whole_of_compiled (runs : Runs {} ops w) {g : GraphId} (known : w.HasGraph g) {c : Compiled}
    (ok : w.compiled (w.graph g) = .ok c) : (w.graph g).Whole c := by
  cases kept : (w.graph g).compiled with
  | none => exact Workspace.whole_of_compile (Workspace.compiled_of_fresh kept ▸ ok)
  | some c' =>
    rw [Workspace.compiled, kept] at ok
    obtain rfl := Except.ok.inj ok
    exact runs.whole known c' kept

/-- Every level answers for all states of the outermost one: these are its own states and those
nested in it, as its document shows them, if it is the outermost one itself and otherwise never. -/
theorem answers_span (runs : Runs {} ops w) (known : w.HasGraph ref.root) {level : Level}
    (ok : Build.level ref w = .ok level w') :
    ∃ top, Build.level ⟨ref.root, []⟩ w = .ok top w' ∧ level ∈ top.levels ∧
      (∀ document, Build.document ref w = .ok document w' →
        document.toJson.names = level.preorder.map (·.name)) ∧
      Build.allStates ref w = .ok top.allStates w' ∧
      ((∀ t ∈ w.needs top, t.checkHashable = .ok ()) →
        Build.statements ref w = .ok (Statement.distinct (w.needs top)) w') ∧
      (Level.at? ref.path top = some level →
        (top.allStates = level.allStates ↔ ref.path = [])) := by
  obtain ⟨c, compiled, rfl, same⟩ := Build.level_ok ok
  have whole := runs.whole_of_compiled known compiled
  have all : Build.allStates ref w = .ok ((w.graph ref.root).level c).allStates
      (w.keep ref.root c) := by
    simp only [Build.allStates, Build.bind_eq_ok, Build.compiled_eq_ok, Build.pure_eq_ok]
    exact ⟨c, _, ⟨compiled, rfl⟩, whole.listed, rfl⟩
  refine ⟨_, Build.level_eq_ok.mpr ⟨c, compiled, rfl, rfl⟩, Build.mem_levels_of_level same, ?_, all,
    ?_, ?_⟩
  · intro document handed
    obtain ⟨level', ok', rendered⟩ := Build.level_of_document handed
    obtain ⟨rfl, -⟩ := EStateM.Result.ok.inj (ok.symm.trans ok')
    exact Workspace.names_of_fits (runs.document_fits known handed) rendered
  · intro hashable
    simp only [Build.statements, Build.bind_eq_ok, Build.get_eq_ok, Build.lift_eq_ok,
      Build.pure_eq_ok]
    exact ⟨_, _, all, _, _, ⟨rfl, rfl⟩, (), _, ⟨Outcome.forM_eq_ok.mpr hashable, rfl⟩, rfl, rfl⟩
  · intro down
    constructor
    · intro equal
      cases path : ref.path with
      | nil => rfl
      | cons step rest =>
        rw [path] at down
        exact absurd equal.symm (Level.allStates_ne_of_at? whole.distinct whole.start down)
    · intro path
      rw [path] at down
      cases down
      rfl

/-- Two branches that need different permissions. -/
def siblings : List Operation :=
  [.edit (.scope "T" none), .edit (.state ⟨0⟩ "Both" none {} (.parallel {})),
    .edit (.state ⟨0⟩ "Left" none {} (.task (.ok (.invoked "arn:left")) {})),
    .edit (.state ⟨0⟩ "Right" none {} (.task (.ok (.invoked "arn:right")) {})),
    .edit (.branches ⟨0⟩ [⟨1⟩, ⟨2⟩]), .edit (.stop ⟨0⟩), .edit (.stop ⟨1⟩), .edit (.stop ⟨2⟩),
    .inquiry (.graph (some ⟨0⟩) "" .null)]

/-- The first of two branches answers for the whole graph, which it is only a part of. -/
theorem siblings_span :
    ∃ w w' level, Runs {} siblings w ∧ w.HasGraph ⟨0⟩ ∧
      Build.level ⟨⟨0⟩, [(⟨0⟩, 0)]⟩ w = .ok level w' ∧
      ∃ top, Build.level ⟨⟨0⟩, []⟩ w = .ok top w' ∧ level ∈ top.levels ∧
        Build.allStates ⟨⟨0⟩, [(⟨0⟩, 0)]⟩ w = .ok top.allStates w' ∧
        Build.statements ⟨⟨0⟩, [(⟨0⟩, 0)]⟩ w = .ok (Statement.distinct (w.needs top)) w' ∧
        top.allStates ≠ level.allStates := by
  have runs : Runs {} siblings _ := .of_allows (by decide)
  have ok : Build.level ⟨⟨0⟩, [(⟨0⟩, 0)]⟩ (Workspace.run {} siblings) = .ok _ _ := rfl
  obtain ⟨top, outermost, within, -, states, statements, other⟩ :=
    answers_span runs (by decide) ok
  have outer : Build.level ⟨⟨0⟩, []⟩ (Workspace.run {} siblings) = .ok _ _ := rfl
  obtain ⟨rfl, -⟩ := EStateM.Result.ok.inj (outermost.symm.trans outer)
  refine ⟨_, _, _, runs, by decide, ok, _, outermost, within, states, ?_, ?_⟩
  · exact statements (Outcome.forM_eq_ok.mp rfl)
  · intro same
    cases (other rfl).mp same

/-- A branch reports states and permissions of its sibling. -/
theorem sibling_reported :
    ∃ w w' level, Runs {} siblings w ∧ Build.level ⟨⟨0⟩, [(⟨0⟩, 0)]⟩ w = .ok level w' ∧
      level.allStates = [⟨1⟩] ∧
      w.needs level = [.allow "lambda:InvokeFunction" (.string "arn:left")] ∧
      Build.allStates ⟨⟨0⟩, [(⟨0⟩, 0)]⟩ w = .ok [⟨0⟩, ⟨1⟩, ⟨2⟩] w' ∧
      Build.statements ⟨⟨0⟩, [(⟨0⟩, 0)]⟩ w =
        .ok [.allow "lambda:InvokeFunction" (.string "arn:left"),
          .allow "lambda:InvokeFunction" (.string "arn:right")] w' ∧
      Build.allStates ⟨⟨0⟩, [(⟨0⟩, 0)]⟩ w ≠ .ok level.allStates w' ∧
      Build.statements ⟨⟨0⟩, [(⟨0⟩, 0)]⟩ w ≠ .ok (Statement.distinct (w.needs level)) w' := by
  have runs : Runs {} siblings _ := .of_allows (by decide)
  have ok : Build.level ⟨⟨0⟩, [(⟨0⟩, 0)]⟩ (Workspace.run {} siblings) = .ok _ _ := rfl
  have states : Build.allStates ⟨⟨0⟩, [(⟨0⟩, 0)]⟩ (Workspace.run {} siblings) =
      .ok [⟨0⟩, ⟨1⟩, ⟨2⟩] _ := rfl
  have statements : Build.statements ⟨⟨0⟩, [(⟨0⟩, 0)]⟩ (Workspace.run {} siblings) =
      .ok [.allow "lambda:InvokeFunction" (.string "arn:left"),
        .allow "lambda:InvokeFunction" (.string "arn:right")] _ := rfl
  refine ⟨_, _, _, runs, ok, rfl, rfl, states, statements, ?_, ?_⟩
  · intro same
    obtain ⟨equal, -⟩ := EStateM.Result.ok.inj (states.symm.trans same)
    exact absurd (congrArg List.length equal) (by decide)
  · intro same
    obtain ⟨equal, -⟩ := EStateM.Result.ok.inj (statements.symm.trans same)
    exact absurd (congrArg List.length equal) (by decide)

end Runs
end Workflow
