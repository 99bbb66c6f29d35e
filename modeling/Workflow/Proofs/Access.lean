import Workflow.Graph.Access

/-!
What asking for a graph yields: when it succeeds, and in which workspace. A graph is compiled at
most once, and being asked changes nothing but what is kept for it.
-/

namespace Workflow

namespace Build

variable {α β : Type} {w w' : Workspace}

theorem bind_eq_ok {first : Build α} {next : α → Build β} {b : β} :
    (first >>= next) w = .ok b w' ↔ ∃ a v, first w = .ok a v ∧ next a v = .ok b w' := by
  cases outcome : first w with
  | error fault v => simp [bind, EStateM.bind, outcome]
  | ok a v =>
    simp only [bind, EStateM.bind, outcome, EStateM.Result.ok.injEq]
    constructor
    · exact fun rest => ⟨a, v, ⟨rfl, rfl⟩, rest⟩
    · rintro ⟨_, _, ⟨rfl, rfl⟩, rest⟩
      exact rest

theorem pure_eq_ok {a b : α} : (pure a : Build α) w = .ok b w' ↔ a = b ∧ w = w' := by
  change EStateM.Result.ok a w = .ok b w' ↔ a = b ∧ w = w'
  simp

theorem get_eq_ok {v : Workspace} : (get : Build Workspace) w = .ok v w' ↔ w = v ∧ w = w' := by
  change EStateM.Result.ok w w = .ok v w' ↔ w = v ∧ w = w'
  simp

theorem set_eq_ok {v : Workspace} {a : PUnit} : (set v : Build PUnit) w = .ok a w' ↔ v = w' := by
  change EStateM.Result.ok PUnit.unit v = .ok a w' ↔ v = w'
  simp

theorem lift_eq_ok {outcome : Except Fault α} {a : α} :
    lift outcome w = .ok a w' ↔ outcome = .ok a ∧ w = w' := by
  cases outcome with
  | error fault =>
    change EStateM.Result.error fault w = .ok a w' ↔ Except.error fault = .ok a ∧ w = w'
    simp
  | ok b =>
    change EStateM.Result.ok b w = .ok a w' ↔ Except.ok b = .ok a ∧ w = w'
    simp

end Build

namespace Workspace

variable {w : Workspace}

/-- The workspace in which a graph is compiled. -/
def keep (w : Workspace) (g : GraphId) (c : Compiled) : Workspace :=
  w.setGraph g { w.graph g with compiled := some c }

theorem compiled_of_fresh {g : GraphId} (fresh : (w.graph g).compiled = none) :
    w.compiled (w.graph g) = w.compile (w.graph g).label (w.graph g).start := by
  rw [compiled, fresh]

theorem header_keep (w : Workspace) (g : GraphId) (c : Compiled) :
    ((w.keep g c).graph g).header = (w.graph g).header := by
  simp only [graph, keep, setGraph, Array.getD_eq_getD_getElem?, Array.getElem?_setIfInBounds]
  by_cases inside : g.index < w.graphs.size
  · simp [inside, Graph.header]
  · simp [inside]

/-- What is kept for a graph is what the graph is compiled to from then on. -/
theorem compiled_keep {g : GraphId} {c : Compiled} (ok : w.compiled (w.graph g) = .ok c) :
    (w.keep g c).compiled ((w.keep g c).graph g) = .ok c := by
  by_cases inside : g.index < w.graphs.size
  · have kept : ((w.keep g c).graph g).compiled = some c := by
      simp [graph, keep, setGraph, Array.getD_eq_getD_getElem?, inside]
    rw [compiled, kept]
  · have same : w.keep g c = w := by
      rw [keep, setGraph, Array.setIfInBounds_eq_of_size_le (Nat.le_of_not_lt inside)]
    rw [same, ok]

theorem keep_keep (w : Workspace) (g : GraphId) (c : Compiled) :
    (w.keep g c).keep g c = w.keep g c := by
  have header := header_keep w g c
  simp only [Graph.header, Header.mk.injEq] at header
  obtain ⟨start, label, timeout⟩ := header
  change (w.keep g c).setGraph g ⟨_, _, _, some c⟩ = w.keep g c
  rw [start, label, timeout]
  simp [keep, setGraph, Array.setIfInBounds_setIfInBounds]

end Workspace

namespace Build

variable {w w' : Workspace} {g : GraphId}

theorem compiled_eq_ok {c : Compiled} :
    compiled g w = .ok c w' ↔ w.compiled (w.graph g) = .ok c ∧ w.keep g c = w' := by
  simp only [compiled, bind_eq_ok, get_eq_ok, lift_eq_ok, set_eq_ok, pure_eq_ok]
  constructor
  · rintro ⟨_, _, ⟨rfl, rfl⟩, _, _, ⟨ok, rfl⟩, _, _, rfl, rfl, rfl⟩
    exact ⟨ok, rfl⟩
  · rintro ⟨ok, rfl⟩
    exact ⟨w, w, ⟨rfl, rfl⟩, c, w, ⟨ok, rfl⟩, ⟨⟩, _, rfl, rfl, rfl⟩

/-- The outermost level of a graph. -/
theorem level_eq_ok {level : Level} :
    Build.level ⟨g, []⟩ w = .ok level w' ↔
      ∃ c, w.compiled (w.graph g) = .ok c ∧ w.keep g c = w' ∧ (w.graph g).level c = level := by
  simp only [Build.level, bind_eq_ok, compiled_eq_ok, get_eq_ok, pure_eq_ok]
  constructor
  · rintro ⟨c, _, ⟨ok, rfl⟩, _, _, ⟨rfl, rfl⟩, rfl, rfl⟩
    exact ⟨c, ok, rfl, by simp [Level.at?, Graph.level, Workspace.header_keep]⟩
  · rintro ⟨c, ok, rfl, rfl⟩
    refine ⟨c, _, ⟨ok, rfl⟩, _, _, ⟨rfl, rfl⟩, ?_, rfl⟩
    simp [Level.at?, Graph.level, Workspace.header_keep]

theorem document_eq_ok {document : Document} :
    Build.document ⟨g, []⟩ w = .ok document w' ↔
      ∃ c, w.compiled (w.graph g) = .ok c ∧ w.keep g c = w' ∧
        w.document ((w.graph g).level c) = .ok document := by
  simp only [Build.document, bind_eq_ok, level_eq_ok, get_eq_ok, lift_eq_ok]
  constructor
  · rintro ⟨_, _, ⟨c, ok, rfl, rfl⟩, _, _, ⟨rfl, rfl⟩, rendered, rfl⟩
    exact ⟨c, ok, rfl, rendered⟩
  · rintro ⟨c, ok, rfl, rendered⟩
    exact ⟨_, _, ⟨c, ok, rfl, rfl⟩, _, _, ⟨rfl, rfl⟩, rendered, rfl⟩

theorem allStates_eq_ok {states : List StateId} :
    Build.allStates ⟨g, []⟩ w = .ok states w' ↔
      ∃ c, w.compiled (w.graph g) = .ok c ∧ w.keep g c = w' ∧
        c.registry.map (·.state) = states := by
  simp only [Build.allStates, bind_eq_ok, compiled_eq_ok, pure_eq_ok]
  constructor
  · rintro ⟨c, _, ⟨ok, rfl⟩, rfl, rfl⟩
    exact ⟨c, ok, rfl, rfl⟩
  · rintro ⟨c, ok, rfl, rfl⟩
    exact ⟨c, _, ⟨ok, rfl⟩, rfl, rfl⟩

end Build

namespace Workspace

/-- A graph with a loop and a branch: what was asked for is awaited until it is approved. -/
def approval : Workspace where
  scopes := #[{ id := "approval", path := "approval", parent := none }]
  states := #[
    { scope := ⟨0⟩, id := "ask", path := "approval/ask", name := "Ask", common := {},
      kind := .parallel {} [⟨1⟩], exit := .next (.state ⟨2⟩),
      catches := [⟨[.string "States.ALL"], .name "Done", .null⟩] },
    { scope := ⟨0⟩, id := "wait", path := "approval/wait", name := "Wait", common := {},
      kind := .wait { seconds := .nat 5 }, exit := .stop },
    { scope := ⟨0⟩, id := "decide", path := "approval/decide", name := "Decide", common := {},
      kind := .choice [⟨.compare "$.approved" "BooleanEquals" (.bool false), .state ⟨0⟩⟩] [],
      exit := .next (.state ⟨3⟩) },
    { scope := ⟨0⟩, id := "done", path := "approval/done", name := "Done", common := {},
      kind := .succeed }]
  graphs := #[{ start := ⟨0⟩, label := "approval", timeout := none }]

end Workspace
end Workflow
