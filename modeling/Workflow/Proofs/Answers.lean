import Workflow.Proofs.Attempts
import Workflow.Proofs.Decoding
import Workflow.Proofs.Inquiries

/-!
Answers of graphs. What a graph answers that is asked for anything depends on the states and scopes
of the workspace, on its header and on what is kept for it. Being asked changes none of these but
for keeping what the graph is compiled to. Hence graphs answer the same in whatever order they are
asked, and a graph that was asked in vain before answers what a new one answers.
-/

namespace Workflow

/-- What can be asked of a graph or of a level nested in it. -/
inductive Question where
  | level
  | allStates
  | subgraphs (s : StateId)
  | document
  | statements

/-- Levels below the one that was asked are answered by their paths. -/
inductive Answer where
  | level (level : Level)
  | states (states : List StateId)
  | paths (paths : List LevelPath)
  | document (document : Document)
  | statements (statements : List Statement)

namespace Question

def ask (q : Question) (ref : GraphRef) : Build Answer :=
  match q with
  | level => Answer.level <$> Build.level ref
  | allStates => Answer.states <$> Build.allStates ref
  | subgraphs s => (fun refs => Answer.paths (refs.map (·.path))) <$> Build.subgraphs ref s
  | document => Answer.document <$> Build.document ref
  | statements => Answer.statements <$> Build.statements ref

/-- What asking comes to. -/
def outcome (q : Question) (ref : GraphRef) (w : Workspace) : Except Fault Answer :=
  Outcome.of (q.ask ref w)

/-- The answer that is read off the states and what a graph was compiled to. -/
def read (q : Question) (w : Workspace) (path : LevelPath) (g : Graph) (c : Compiled) :
    Except Fault Answer :=
  let top := g.level c
  let level := (Level.at? path top).getD top
  let states := c.registry.map (·.state)
  match q with
  | .level => .ok (.level level)
  | .allStates => .ok (.states states)
  | .subgraphs s =>
    .ok (.paths ((Level.nestedIn level.entries s).zipIdx.map fun (_, i) => path ++ [(s, i)]))
  | .document => (w.document level).map .document
  | .statements => do
    let needed := states.flatMap fun s => (w.state s).statements
    needed.forM Statement.checkHashable
    return .statements (Statement.distinct needed)

end Question

namespace Workspace

variable {v w : Workspace}

/-- What graphs answer that are asked one after the other. -/
def answers (w : Workspace) : List (GraphRef × Question) → List (Except Fault Answer)
  | [] => []
  | (ref, q) :: rest => q.outcome ref w :: ((q.ask ref).after w).answers rest

theorem walk_of_states (states : v.states = w.states) (scopes : v.scopes = w.scopes) :
    v.walk = w.walk := by
  obtain ⟨_, _, graphs⟩ := v
  obtain ⟨scopes', states', graphs'⟩ := w
  cases states
  cases scopes
  funext fuel
  induction fuel with
  | zero => rfl
  | succ fuel ih =>
    funext label registry found pending
    rw [walk, walk, ih]
    rfl

theorem compile_of_states (states : v.states = w.states) (scopes : v.scopes = w.scopes) :
    v.compile = w.compile := by
  funext label start
  simp only [compile, compileLevel, walk_of_states states scopes, states]
  obtain ⟨_, _, graphs⟩ := v
  obtain ⟨scopes', states', graphs'⟩ := w
  cases states
  cases scopes
  rfl

theorem document_of_states (states : v.states = w.states) : v.document = w.document := by
  obtain ⟨scopes, _, graphs⟩ := v
  obtain ⟨scopes', states', graphs'⟩ := w
  cases states
  rfl

end Workspace

theorem Question.read_of_states {v w : Workspace} (states : v.states = w.states) {g h : Graph}
    (header : g.header = h.header) (path : LevelPath) (c : Compiled) (q : Question) :
    q.read v path g c = q.read w path h c := by
  have level : g.level c = h.level c := congrArg (Nested.node · c.members) header
  simp only [read, level, Workspace.document_of_states states, Workspace.state_of_states states]

namespace Build

open Workspace

variable {w : Workspace}

theorem compiled_eq (g : GraphId) : compiled g w =
    match w.compiled (w.graph g) with
    | .ok c => .ok c (w.keep g c)
    | .error fault => .error fault w := by
  cases outcome : w.compiled (w.graph g) with
  | ok c => exact compiled_eq_ok.mpr ⟨outcome, rfl⟩
  | error fault =>
    change (lift _ >>= fun c => _) w = _
    rw [outcome]
    rfl

theorem level_eq (ref : GraphRef) : Build.level ref w =
    match w.compiled (w.graph ref.root) with
    | .ok c =>
      .ok ((Level.at? ref.path ((w.graph ref.root).level c)).getD ((w.graph ref.root).level c))
        (w.keep ref.root c)
    | .error fault => .error fault w := by
  change (compiled ref.root >>= fun c => _) w = _
  simp only [bind, EStateM.bind, compiled_eq]
  cases w.compiled (w.graph ref.root) with
  | error fault => rfl
  | ok c =>
    have same : ((w.keep ref.root c).graph ref.root).level c = (w.graph ref.root).level c :=
      congrArg (Nested.node · c.members) (header_keep w ref.root c)
    dsimp only
    rw [← same]
    rfl

theorem allStates_eq (ref : GraphRef) : Build.allStates ref w =
    match w.compiled (w.graph ref.root) with
    | .ok c => .ok (c.registry.map (·.state)) (w.keep ref.root c)
    | .error fault => .error fault w := by
  change (compiled ref.root >>= fun c => _) w = _
  simp only [bind, EStateM.bind, compiled_eq]
  cases w.compiled (w.graph ref.root) <;> rfl

/-- What is asked of a graph is read off what the graph is compiled to. -/
theorem outcome_eq (q : Question) (ref : GraphRef) :
    q.outcome ref w =
      w.compiled (w.graph ref.root) >>= q.read w ref.path (w.graph ref.root) := by
  cases q with
  | level =>
    simp only [Question.outcome, Question.ask, Functor.map, EStateM.map, level_eq]
    cases w.compiled (w.graph ref.root) <;> rfl
  | allStates =>
    simp only [Question.outcome, Question.ask, Functor.map, EStateM.map, allStates_eq]
    cases w.compiled (w.graph ref.root) <;> rfl
  | subgraphs s =>
    change Outcome.of (EStateM.map _ (Build.level ref >>= fun level => _) w) = _
    simp only [bind, EStateM.bind, EStateM.map, level_eq]
    cases w.compiled (w.graph ref.root) with
    | error fault => rfl
    | ok c =>
      change Except.ok (Answer.paths (List.map _ (List.map _ _))) = Except.ok _
      rw [List.map_map]
      rfl
  | document =>
    change Outcome.of (EStateM.map _ (Build.level ref >>= fun level => _) w) = _
    simp only [bind, EStateM.bind, EStateM.map, level_eq]
    cases w.compiled (w.graph ref.root) with
    | error fault => rfl
    | ok c =>
      change Outcome.of (EStateM.map _ (lift (w.document _)) _) = (w.document _).map Answer.document
      cases w.document _ <;> rfl
  | statements =>
    change Outcome.of (EStateM.map _ (Build.allStates ref >>= fun states => _) w) = _
    simp only [bind, EStateM.bind, EStateM.map, allStates_eq]
    cases w.compiled (w.graph ref.root) with
    | error fault => rfl
    | ok c =>
      let needed := (c.registry.map (·.state)).flatMap fun s => (w.state s).statements
      change Outcome.of (EStateM.map _ (lift (needed.forM Statement.checkHashable) >>= _) _) =
        (needed.forM Statement.checkHashable >>= _)
      cases needed.forM Statement.checkHashable <;> rfl

theorem after_map {α β : Type} (f : α → β) (m : Build α) : (f <$> m).after w = m.after w := by
  change Build.after (EStateM.map f m) w = _
  unfold Build.after EStateM.map
  cases m w <;> rfl

theorem after_ask (q : Question) (ref : GraphRef) :
    (q.ask ref).after w = (compiled ref.root).after w := by
  cases q with
  | level => rw [Question.ask, after_map, after_level]
  | allStates => rw [Question.ask, after_map, after_allStates]
  | subgraphs s => rw [Question.ask, after_map, after_subgraphs]
  | document => rw [Question.ask, after_map, after_document]
  | statements => rw [Question.ask, after_map, after_statements]

/-- Being asked changes no state and no scope, whether there is an answer or not. -/
theorem asked_ask (q : Question) (ref : GraphRef) : w.Asked ((q.ask ref).after w) :=
  after_ask q ref ▸ asked_compiled ref.root

/-- What is kept for one graph does not change what any graph answers. -/
theorem outcome_keep {g : GraphId} {c : Compiled} (ok : w.compiled (w.graph g) = .ok c)
    (q : Question) (ref : GraphRef) : q.outcome ref (w.keep g c) = q.outcome ref w := by
  have states : (w.keep g c).states = w.states := rfl
  have graph : (w.keep g c).compiled ((w.keep g c).graph ref.root) =
        w.compiled (w.graph ref.root) ∧
      ((w.keep g c).graph ref.root).header = (w.graph ref.root).header := by
    by_cases same : ref.root = g
    · rw [same, compiled_keep ok, ok]
      exact ⟨rfl, header_keep w g c⟩
    · have other : (w.keep g c).graph ref.root = w.graph ref.root := by
        rw [keep, graph_setGraph, if_neg fun h => same h.1]
      rw [other, Workspace.compiled, Workspace.compiled, compile_of_states states rfl]
      exact ⟨rfl, rfl⟩
  rw [outcome_eq, outcome_eq, graph.1]
  congr 1
  funext c'
  exact q.read_of_states states graph.2 ref.path c'

theorem outcome_after (earlier q : Question) (ref ref' : GraphRef) :
    q.outcome ref ((earlier.ask ref').after w) = q.outcome ref w := by
  rw [after_ask, Build.after, compiled_eq]
  cases ok : w.compiled (w.graph ref'.root) with
  | error fault => rfl
  | ok c => exact outcome_keep ok q ref

end Build

namespace Workspace

variable {w : Workspace}

/-- Graphs that are asked one after the other answer what each would answer at first. -/
theorem answers_eq (asked : List (GraphRef × Question)) :
    w.answers asked = asked.map fun a => a.2.outcome a.1 w := by
  induction asked generalizing w with
  | nil => rfl
  | cons first rest ih =>
    rw [answers, ih, List.map_cons]
    exact congrArg _ (List.map_congr_left fun a _ => Build.outcome_after first.2 a.2 a.1 first.1)

end Workspace

/-- What a graph answers that was not compiled before. -/
theorem Build.outcome_fresh {w : Workspace} {g : GraphId} (fresh : (w.graph g).compiled = none)
    (q : Question) (path : LevelPath) :
    q.outcome ⟨g, path⟩ w =
      w.compile (w.graph g).label (w.graph g).start >>= q.read w path (w.graph g) := by
  rw [outcome_eq, Workspace.compiled_of_fresh fresh]

/-- What a new graph is compiled to. -/
theorem Workspace.compiled_push (w : Workspace) {new : Graph} (fresh : new.compiled = none) :
    Workspace.compiled { w with graphs := w.graphs.push new }
        (Workspace.graph { w with graphs := w.graphs.push new } ⟨w.graphs.size⟩) =
      w.compile new.label new.start := by
  have compile : Workspace.compile { w with graphs := w.graphs.push new } = w.compile :=
    Workspace.compile_of_states rfl rfl
  rw [Workspace.graph_push, if_pos rfl, Workspace.compiled, fresh, compile]

theorem Build.outcome_push (w : Workspace) {new : Graph} (fresh : new.compiled = none)
    (q : Question) (path : LevelPath) :
    q.outcome ⟨⟨w.graphs.size⟩, path⟩ { w with graphs := w.graphs.push new } =
      w.compile new.label new.start >>= q.read w path new := by
  rw [outcome_eq, Workspace.compiled_push w fresh, Workspace.graph_push, if_pos rfl]
  exact congrArg _ (funext fun c => q.read_of_states rfl rfl path c)

/-- The timeout of a graph as it is given for a new graph. -/
def Graph.givenTimeout (g : Graph) : Json := g.timeout.elim .null .nat

namespace Build

open Workspace

variable {w : Workspace}

theorem checkTimeout_given (g : Graph) (label : String) :
    Graph.checkTimeout label g.givenTimeout = .ok g.timeout := by
  rw [Graph.givenTimeout]
  cases g.timeout with
  | none => rfl
  | some n =>
    simp only [Graph.checkTimeout, Option.elim_some, Json.nat?_nat]
    rfl

theorem graph_again {g : Graph} (labelled : g.label.isEmpty = false) :
    Build.graph (some g.start) g.label g.givenTimeout w =
      .ok ⟨w.graphs.size⟩ { w with graphs := w.graphs.push { g with compiled := none } } := by
  have made : w.newGraph (some g.start) g.label g.givenTimeout =
      .ok { g with compiled := none } := by
    simp only [newGraph, labelled, Bool.false_eq_true, if_false, checkTimeout_given]
    rfl
  change (lift (w.newGraph _ _ _) >>= addGraph) w = _
  rw [made]
  rfl

/-- Without a label a graph is made that is called by its start. -/
theorem graph_alike (g : Graph) : ∃ new : Graph, new.start = g.start ∧ new.timeout = g.timeout ∧
    new.compiled = none ∧ Build.graph (some g.start) g.label g.givenTimeout w =
      .ok ⟨w.graphs.size⟩ { w with graphs := w.graphs.push new } := by
  have made : ∃ label, w.newGraph (some g.start) g.label g.givenTimeout =
      .ok { start := g.start, label, timeout := g.timeout } :=
    ⟨_, by simp only [newGraph, checkTimeout_given]; rfl⟩
  obtain ⟨label, made⟩ := made
  refine ⟨{ start := g.start, label, timeout := g.timeout }, rfl, rfl, rfl, ?_⟩
  change (lift (w.newGraph _ _ _) >>= addGraph) w = _
  rw [made]
  rfl

end Build

namespace Runs

variable {w : Workspace} {ops : List Operation} {g : GraphId}

theorem labelled (runs : Runs {} ops w) (known : w.HasGraph g) :
    (w.graph g).label.isEmpty = false := by
  revert g
  refine runs.keeps (P := fun v => ∀ {g}, v.HasGraph g → (v.graph g).label.isEmpty = false) ?_ ?_
  · intro v op _ within held g known
    rcases Workspace.graph_cases within known with
      ⟨there, same⟩ | ⟨there, -, c, -, same⟩ | ⟨-, labelled, -⟩
    · obtain ⟨label, -⟩ := Prod.mk.inj (Prod.mk.inj same).2
      rw [label]
      exact held there
    · rw [same]
      exact held there
    · exact labelled
  · rintro ⟨i⟩ known
    cases known

/-- A graph that was asked in vain answers like a new one that starts alike, is called alike and has
the same timeout, whatever is left of the attempts: it is compiled to the same, or fails alike.
Graphs that are asked change no state and no scope, and answer the same in any order. -/
theorem attempts_leave_no_trace (runs : Runs {} ops w) (known : w.HasGraph g)
    (fresh : (w.graph g).compiled = none) :
    (∃ v, Build.graph (some (w.graph g).start) (w.graph g).label (w.graph g).givenTimeout w =
        .ok ⟨w.graphs.size⟩ v ∧
      ∀ (q : Question) (path : LevelPath),
        q.outcome ⟨g, path⟩ w = q.outcome ⟨⟨w.graphs.size⟩, path⟩ v ∧
        ∀ h, Compiling.Attempted (w.graph g).label (w.graph g).start h →
          (Outcome.of (Compiling.ask w (w.graph g).label (w.graph g).start h) >>=
            q.read w path (w.graph g)) = q.outcome ⟨⟨w.graphs.size⟩, path⟩ v) ∧
    (∀ (q : Question) (ref : GraphRef), ((q.ask ref).after w).states = w.states ∧
      ((q.ask ref).after w).scopes = w.scopes) ∧
    ∀ asked, w.answers asked = asked.map fun a => a.2.outcome a.1 w := by
  refine ⟨⟨_, Build.graph_again (runs.labelled known), fun q path => ?_⟩, ?_, w.answers_eq⟩
  · let new : Graph := { w.graph g with compiled := none }
    have again : q.outcome ⟨⟨w.graphs.size⟩, path⟩ { w with graphs := w.graphs.push new } =
        w.compile (w.graph g).label (w.graph g).start >>= q.read w path (w.graph g) :=
      Build.outcome_push w rfl q path
    constructor
    · rw [Build.outcome_fresh fresh, again]
    · intro h attempted
      rw [attempted.outcome, again]
  · intro q ref
    exact ⟨(Build.asked_ask q ref).states, (Build.asked_ask q ref).scopes⟩

/-- A graph is asked in vain while its last state leads nowhere, and the state is marked as an end
afterwards. -/
def mended : List Operation :=
  [.edit (.scope "T" none), .edit (.state ⟨0⟩ "Split" none {} (.parallel {})),
    .edit (.state ⟨0⟩ "Inner" none {} .succeed), .edit (.state ⟨0⟩ "Last" none {} (.pass {})),
    .edit (.branches ⟨0⟩ [⟨1⟩]), .edit (.wire ⟨0⟩ (.state ⟨2⟩)),
    .inquiry (.graph (some ⟨0⟩) "" .null), .inquiry (.document ⟨⟨0⟩, []⟩), .edit (.stop ⟨2⟩)]

/-- The attempt leaves three states registered and a level that was compiled. -/
theorem mended_leaves_no_trace :
    ∃ w h v document, Runs {} mended w ∧ w.HasGraph ⟨0⟩ ∧ (w.graph ⟨0⟩).compiled = none ∧
      Compiling.Attempted (w.graph ⟨0⟩).label (w.graph ⟨0⟩).start h ∧
      h.registry.map (·.name) = ["Split", "Inner", "Last"] ∧ (h.nested ⟨0⟩).length = 1 ∧
      document.toJson.keys = ["Split", "Last"] ∧
      Build.graph (some ⟨0⟩) "graph starting at 'Split'" .null w = .ok ⟨1⟩ v ∧
      Question.document.outcome ⟨⟨1⟩, []⟩ v = .ok (.document document) ∧
      (Outcome.of (Compiling.ask w (w.graph ⟨0⟩).label (w.graph ⟨0⟩).start h) >>=
        Question.document.read w [] (w.graph ⟨0⟩)) = .ok (.document document) := by
  have runs : Runs {} mended _ := .of_allows (by decide)
  have failed : Compiling.ask (Workspace.run {} (mended.take 7)) "graph starting at 'Split'"
    ⟨0⟩ {} = .error _ _ := rfl
  have attempted := Compiling.Attempted.new.failed failed
  obtain ⟨document, ok, keys⟩ : ∃ document,
      Question.document.outcome ⟨⟨0⟩, []⟩ (Workspace.run {} mended) = .ok (.document document) ∧
        document.toJson.keys = ["Split", "Last"] := ⟨_, rfl, rfl⟩
  obtain ⟨⟨v, made, same⟩, -, -⟩ := attempts_leave_no_trace (g := ⟨0⟩) runs (by decide) rfl
  obtain ⟨here, before⟩ := same .document []
  have new := here.symm.trans ok
  exact ⟨_, _, v, document, runs, by decide, rfl, attempted, rfl, rfl, keys, made, new,
    (before _ attempted).trans new⟩

end Runs
end Workflow
