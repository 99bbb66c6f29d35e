import Workflow.Proofs.Changes

/-!
What inquiries leave. No inquiry changes a scope or a state. A graph that is asked for is compiled
in the workspace as it is, and one that was compiled before stays as it was but for its timeouts.
With what edits do this gives the principles by which histories are reasoned about.
-/

namespace Workflow

namespace Level

/-- A level without its timeouts, which can be set at any time. -/
def untimed : Level → Level := Nested.map (fun header => { header with timeout := none }) id

theorem untimed_node (header : Header) (members : Members) :
    untimed (.node header members) =
      .node { header with timeout := none } (members.map fun e => (e.1, e.2.map untimed)) :=
  Nested.map_node _ _ _ _

theorem map_modify_of_same {α β : Type} {f : α → α} {g : α → β} (same : ∀ a, g (f a) = g a)
    (items : List α) (i : Nat) : (items.modify i f).map g = items.map g := by
  apply List.ext_getElem?
  intro j
  rw [List.getElem?_map, List.getElem?_map, List.getElem?_modify]
  split <;> simp [Function.comp_def, same]

theorem untimed_modify (timeout : Option Nat) (path : LevelPath) (level : Level) :
    (modify ({ · with timeout }) path level).untimed = level.untimed := by
  induction path generalizing level with
  | nil =>
    obtain ⟨header, members⟩ := level
    rw [modify, untimed_node, untimed_node]
  | cons step path ih =>
    obtain ⟨s, i⟩ := step
    obtain ⟨header, members⟩ := level
    rw [modify, untimed_node, untimed_node, List.map_map]
    congr 1
    apply List.map_congr_left
    intro e _
    simp only [Function.comp_apply]
    split
    · rw [map_modify_of_same ih]
    · rfl

end Level

/-- A graph without its timeouts: where it starts, what it is called and what it was compiled to. -/
def Graph.untimed (g : Graph) : StateId × String × Option (Level × Registry) :=
  (g.start, g.label, g.compiled.map fun c => ((g.level c).untimed, c.registry))

namespace Workspace

variable {w v : Workspace}

/-- What an inquiry leaves. -/
inductive Asked (w : Workspace) : Workspace → Prop
  | unchanged : Asked w w
  | keep {g : GraphId} {c : Compiled} : w.compiled (w.graph g) = .ok c → Asked w (w.keep g c)
  | graph {new : Graph} : new.compiled = none → new.label.isEmpty = false →
      w.HasState new.start → Asked w { w with graphs := w.graphs.push new }
  | machine {new : Graph} {c : Compiled} : w.compile new.label new.start = .ok c →
      new.label.isEmpty = false → w.HasState new.start →
      Asked w { w with graphs := w.graphs.push { new with compiled := some c } }
  | timeout {g : GraphId} {new : Graph} : new.untimed = (w.graph g).untimed →
      Asked w (w.setGraph g new)

theorem Asked.states (asked : w.Asked v) : v.states = w.states := by
  cases asked <;> rfl

theorem Asked.scopes (asked : w.Asked v) : v.scopes = w.scopes := by
  cases asked <;> rfl

theorem graph_setGraph (w : Workspace) (g h : GraphId) (new : Graph) :
    (w.setGraph g new).graph h = if h = g ∧ w.HasGraph g then new else w.graph h := by
  obtain ⟨i⟩ := g
  obtain ⟨j⟩ := h
  simp only [graph, setGraph, HasGraph, Array.getD_eq_getD_getElem?, Array.getElem?_setIfInBounds,
    GraphId.mk.injEq]
  by_cases same : j = i
  · subst same
    by_cases inside : j < w.graphs.size <;> simp [inside]
  · simp [same, Ne.symm same]

theorem graph_push (w : Workspace) (h : GraphId) (new : Graph) :
    Workspace.graph { w with graphs := w.graphs.push new } h =
      if h = ⟨w.graphs.size⟩ then new else w.graph h := by
  obtain ⟨i⟩ := h
  simp only [graph, Array.getD_eq_getD_getElem?, Array.getElem?_push, GraphId.mk.injEq]
  split <;> rfl

/-- What may become of a graph: it is kept but for its timeouts, it is compiled where it had not
been, or it is new. A graph that is new has a label and is compiled at once or not at all. -/
def Succeeds (w : Workspace) (g : GraphId) (new : Graph) : Prop :=
  w.HasGraph g ∧ new.untimed = (w.graph g).untimed ∨
    w.HasGraph g ∧ (w.graph g).compiled = none ∧ (∃ c,
      w.compile (w.graph g).label (w.graph g).start = .ok c ∧
        new = { w.graph g with compiled := some c }) ∨
    w.HasState new.start ∧ new.label.isEmpty = false ∧
      ∀ c, new.compiled = some c → w.compile new.label new.start = .ok c

theorem Asked.graph_cases (asked : w.Asked v) {g : GraphId} (known : v.HasGraph g) :
    w.Succeeds g (v.graph g) := by
  rw [Succeeds]
  have pushed {new : Graph} (known : Workspace.HasGraph { w with graphs := w.graphs.push new } g)
      (other : g ≠ ⟨w.graphs.size⟩) : w.HasGraph g := by
    obtain ⟨i⟩ := g
    rw [HasGraph, Array.size_push] at known
    exact Nat.lt_of_le_of_ne (Nat.le_of_lt_succ known) fun same => other (congrArg GraphId.mk same)
  cases asked with
  | unchanged => exact .inl ⟨known, rfl⟩
  | @keep h c ok =>
    have there : w.HasGraph g := by simpa [HasGraph, Workspace.keep, setGraph] using known
    rw [Workspace.keep, graph_setGraph]
    split
    · rename_i here
      obtain ⟨rfl, -⟩ := here
      cases compiled : (w.graph g).compiled with
      | none => exact .inr (.inl ⟨there, rfl, c, compiled_of_fresh compiled ▸ ok, rfl⟩)
      | some old =>
        rw [Workspace.compiled, compiled] at ok
        cases ok
        exact .inl ⟨there, by rw [← compiled]⟩
    · exact .inl ⟨there, rfl⟩
  | graph fresh labelled start =>
    rw [graph_push]
    split
    · rw [fresh]
      exact .inr (.inr ⟨start, labelled, fun c same => by cases same⟩)
    · exact .inl ⟨pushed known ‹_›, rfl⟩
  | machine ok labelled start =>
    rw [graph_push]
    split
    · exact .inr (.inr ⟨start, labelled, fun c same => Option.some.inj same ▸ ok⟩)
    · exact .inl ⟨pushed known ‹_›, rfl⟩
  | @timeout h new same =>
    have there : w.HasGraph g := by simpa [HasGraph, setGraph] using known
    rw [graph_setGraph]
    split
    · rename_i here
      exact .inl ⟨there, here.1 ▸ same⟩
    · exact .inl ⟨there, rfl⟩

end Workspace

namespace Build

open Workspace

variable {α β : Type} {w : Workspace}

theorem after_bind {first : Build α} {next : α → Build β} (rest : ∀ a v, (next a).after v = v) :
    (first >>= next).after w = first.after w := by
  rcases after_bind_cases first next w with same | ⟨a, -, same⟩
  · exact same
  · exact same.trans (rest a _)

theorem asked_get {next : Workspace → Build α} (rest : w.Asked ((next w).after w)) :
    w.Asked ((get >>= next).after w) := rest

theorem asked_lift {outcome : Except Fault α} {next : α → Build β}
    (rest : ∀ a, outcome = .ok a → w.Asked ((next a).after w)) :
    w.Asked ((lift outcome >>= next).after w) := by
  cases outcome with
  | error fault => exact .unchanged
  | ok a => exact rest a rfl

theorem asked_compiled (g : GraphId) : w.Asked ((compiled g).after w) := by
  refine asked_get (asked_lift ?_)
  intro c ok
  exact .keep ok

theorem after_level (ref : GraphRef) : (Build.level ref).after w = (compiled ref.root).after w :=
  after_bind fun _ _ => rfl

theorem after_allStates (ref : GraphRef) :
    (Build.allStates ref).after w = (compiled ref.root).after w :=
  after_bind fun _ _ => rfl

theorem after_document (ref : GraphRef) :
    (Build.document ref).after w = (compiled ref.root).after w := by
  rw [← after_level]
  exact after_bind fun _ _ => after_lift _

theorem after_subgraphs (ref : GraphRef) (s : StateId) :
    (Build.subgraphs ref s).after w = (compiled ref.root).after w := by
  rw [← after_level]
  exact after_bind fun _ _ => rfl

theorem after_statements (ref : GraphRef) :
    (Build.statements ref).after w = (compiled ref.root).after w := by
  rw [← after_allStates]
  refine after_bind fun states v => ?_
  change (Build.after (lift _ >>= fun _ => pure _) v) = v
  rw [after_bind fun _ _ => rfl, after_lift]

theorem untimed_setTimeout (g : Graph) (timeout : Option Nat) (path : LevelPath) :
    let level := Level.modify ({ · with timeout }) path
      (.node g.header ((g.compiled.map Compiled.members).getD []))
    Graph.untimed { g with
      timeout := level.info.timeout
      compiled := g.compiled.map ({ · with members := level.entries }) } = g.untimed := by
  intro level
  cases compiled : g.compiled with
  | none => simp [Graph.untimed, compiled]
  | some c =>
    have same : level.untimed = (g.level c).untimed := by
      simp only [level, compiled]
      exact Level.untimed_modify timeout path _
    obtain ⟨header, members⟩ := level
    rw [Graph.level, Level.untimed_node, Level.untimed_node] at same
    obtain ⟨-, members⟩ := Nested.node.inj same
    simp only [Graph.untimed, compiled, Option.map_some, Graph.level, Level.untimed_node]
    rw [← members]
    rfl

theorem asked_setTimeout (ref : GraphRef) (value : Json) :
    w.Asked ((Build.setTimeout ref value).after w) := by
  refine asked_get (asked_lift ?_)
  intro timeout _
  exact .timeout (untimed_setTimeout _ timeout ref.path)

theorem newGraph_ok {start : Option StateId} {label : String} {timeout : Json} {new : Graph}
    (ok : w.newGraph start label timeout = .ok new) :
    new.compiled = none ∧ new.label.isEmpty = false ∧ start = some new.start := by
  unfold newGraph at ok
  split at ok
  · cases ok
  · obtain ⟨timeout, -, made⟩ := Outcome.bind_eq_ok.mp ok
    cases made
    refine ⟨rfl, ?_, rfl⟩
    by_cases empty : label.isEmpty = true
    · rw [if_pos empty]
      simp [toString, ← String.toList_eq_nil_iff]
    · rw [if_neg empty]
      exact Bool.not_eq_true _ ▸ empty

theorem asked_graph {start : Option StateId} (known : ∀ s ∈ start, w.HasState s) (label : String)
    (timeout : Json) : w.Asked ((Build.graph start label timeout).after w) := by
  refine asked_get (asked_lift ?_)
  intro new made
  obtain ⟨fresh, labelled, same⟩ := newGraph_ok made
  exact .graph fresh labelled (known new.start same)

theorem asked_machine {definition : Option StateId} (known : ∀ s ∈ definition, w.HasState s)
    (role : Json) (name : Option String) (timeout : Json) :
    w.Asked ((Build.machine definition role name timeout).after w) := by
  unfold Build.machine
  by_cases empty : role.isEmpty = true
  · rw [if_pos empty]
    exact .unchanged
  rw [if_neg empty]
  refine asked_get (asked_lift ?_)
  intro graph made
  refine asked_lift ?_
  intro c compiled
  refine asked_lift ?_
  intro document _
  refine asked_lift ?_
  intro _ _
  obtain ⟨-, labelled, same⟩ := newGraph_ok made
  exact .machine compiled labelled (known graph.start same)

end Build

namespace Workspace

theorem asked_inquiry {w : Workspace} {q : Inquiry} (within : q.Within w) :
    w.Asked (q.after w) := by
  cases q with
  | graph start label timeout => exact Build.asked_graph within label timeout
  | setTimeout ref value => exact Build.asked_setTimeout ref value
  | machine definition role name timeout => exact Build.asked_machine within role name timeout
  | level ref =>
    rw [Inquiry.after, Build.after_level]
    exact Build.asked_compiled ref.root
  | allStates ref =>
    rw [Inquiry.after, Build.after_allStates]
    exact Build.asked_compiled ref.root
  | subgraphs ref s =>
    rw [Inquiry.after, Build.after_subgraphs]
    exact Build.asked_compiled ref.root
  | document ref =>
    rw [Inquiry.after, Build.after_document]
    exact Build.asked_compiled ref.root
  | statements ref =>
    rw [Inquiry.after, Build.after_statements]
    exact Build.asked_compiled ref.root

variable {w v : Workspace} {op : Operation}

/-- Edits leave all graphs as they are, and inquiries are about one. -/
theorem graph_cases (within : op.Within w) {g : GraphId} (known : (op.after w).HasGraph g) :
    w.Succeeds g ((op.after w).graph g) := by
  cases op with
  | edit e =>
    have graphs : (e.after w).graphs = w.graphs := graphs_edit within
    change (e.after w).HasGraph g at known
    change w.Succeeds g ((e.after w).graph g)
    rw [HasGraph, graphs] at known
    rw [graph, graphs]
    exact .inl ⟨known, rfl⟩
  | inquiry q => exact (asked_inquiry within).graph_cases known

/-- What is known stays known, whatever is done. -/
theorem hasState_after {s : StateId} (within : op.Within w) (known : w.HasState s) :
    (op.after w).HasState s := by
  cases op with
  | edit e => exact hasState_edit within known
  | inquiry q =>
    have states : (q.after w).states = w.states := (asked_inquiry within).states
    change (q.after w).HasState s
    rwa [HasState, states]

theorem hasChain_after {c : Chain} (within : op.Within w) (known : w.HasChain c) :
    (op.after w).HasChain c :=
  ⟨hasState_after within known.1, fun s member => hasState_after within (known.2 s member)⟩

theorem state_of_states (states : v.states = w.states) : v.state = w.state := by
  funext s
  rw [state, state, states]

end Workspace

namespace Runs

variable {u w : Workspace} {ops : List Operation}

/-- What is kept by changes and renamings, and is not about graphs, is kept by a history. -/
theorem keeps_of_change {P : Workspace → Prop} (runs : Runs u ops w)
    (change : ∀ {v v' : Workspace}, v.Change v' → P v → P v')
    (rename : ∀ {v : Workspace} {s : StateId} {name : String},
      .edit (.rename s name) ∈ ops → P v → P (v.rename s name))
    (graphs : ∀ {v v' : Workspace}, v'.states = v.states → v'.scopes = v.scopes → P v → P v')
    (before : P u) : P w := by
  refine runs.keeps ?_ before
  rintro v (e | q) member within held
  · rcases Workspace.changes_or_rename within with changes | ⟨s, name, rfl⟩
    · change P (e.after v)
      generalize e.after v = v' at changes
      induction changes with
      | refl => exact held
      | tail _ last ih => exact change last ih
    · exact rename member held
  · have asked : v.Asked (q.after v) := Workspace.asked_inquiry within
    exact graphs asked.states asked.scopes held

/-- What holds of a state when it is defined, and is kept by changes to it and by renaming, holds of
every state at any time of a history. -/
theorem keeps_state {P : State → Prop} (runs : Runs {} ops w)
    (new : ∀ {s : State} {c : ScopeId}, s.New c → P s)
    (step : ∀ {known : StateId → Prop} {s new : State}, s.Change known new → P s → P new)
    (rename : ∀ {s : State} (name : String), P s → P { s with name }) (s : StateId) :
    P (w.state s) := by
  revert s
  refine runs.keeps_of_change (P := fun w => ∀ s, P (w.state s)) ?_ ?_ ?_ ?_
  · intro v v' change held s
    exact change.state_cases (P := fun before after => P before → P after) (fun _ before => before)
      (fun _ _ fresh _ => new fresh) (fun _ _ changed before => step changed before) s (held s)
  · intro v s name _ held t
    exact v.rename_cases (P := fun before after => P before → P after) (fun _ before => before)
      (fun _ name before => rename name before) s t name (held t)
  · intro v v' states _ held
    rw [Workspace.state_of_states states]
    exact held
  · intro s
    rw [Workspace.state_of_not_hasState (by simp [Workspace.HasState])]
    exact new (c := ⟨0⟩) ⟨rfl, ⟨.plain, rfl⟩, rfl, rfl, rfl⟩

end Runs
end Workflow
