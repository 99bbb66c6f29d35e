import Workflow.Proofs.Decoding
import Workflow.Proofs.Links
import Workflow.Proofs.Wiring

/-!
What documents tell of graphs. The abstract graph of a graph holds all that there is to say of its
states, taken from the states and the graph themselves and not from what is written of them, and the
document of a graph decodes to it. For this the states have to be as building leaves them: only what
can fail has retries and handlers, the way out is as the type allows, and conditions are those that
can be made.
-/

namespace Workflow

namespace Nested

variable {ι α : Type}

/-- What is in the preorder of a sequence is listed by it or by a sequence within it. -/
theorem exists_level_of_mem_preorder {t : Nested ι α} {a : α} (member : a ∈ t.preorder) :
    ∃ l ∈ t.levels, ∃ e ∈ l.entries, e.1 = a := by
  induction t using induct with
  | step i es ih =>
    rw [preorder_node] at member
    obtain ⟨e, entry, member⟩ := List.mem_flatMap.mp member
    rcases List.mem_cons.mp member with rfl | inner
    · exact ⟨_, mem_levels_self _, e, entry, rfl⟩
    · obtain ⟨t, nested, inner⟩ := List.mem_flatMap.mp inner
      obtain ⟨l, within, found⟩ := ih e entry t nested inner
      exact ⟨l, mem_levels_of_nested (t := node i es) entry nested within, found⟩

end Nested

namespace Workspace

variable {w v : Workspace}

def way (w : Workspace) (s : State) : Way :=
  match s.exit with
  | .unset => .nowhere
  | .next target => .next (w.nameOf target)
  | .stop => .stop

/-- What a state does: the values that were given for it and, for a choice, its rules with the names
that they lead to. A state without a place in documents does nothing. -/
def activity (w : Workspace) : Kind → Option Content
  | .task resource fields => some (.task resource.arn fields)
  | .pass fields => some (.pass fields)
  | .wait fields => some (.wait fields)
  | .choice rules _ =>
    some (.choice (rules.map fun rule => { rule with target := w.nameOf rule.target }))
  | .parallel fields _ => some (.parallel fields)
  | .map fields _ => some (.map fields)
  | .succeed => some .succeed
  | .fail fields => some (.fail fields)
  | .plain | .unbound => none

/-- What there is to say of a state. -/
def summary (w : Workspace) (s : StateId) : Summary where
  name := (w.state s).name
  common := (w.state s).common
  content := w.activity (w.state s).kind
  way := w.way (w.state s)
  retries := (w.state s).retries
  catches := (w.state s).catches.map fun c => ⟨c.errors, w.nameOf c.target, c.resultPath⟩

/-- The abstract level of the states that were found from a start, in their order. Levels nested in
it start where the states say that run them, and have no timeout. -/
def abstractLevel (w : Workspace) : Level → (start : StateId) → (timeout : Option Nat) →
    AbstractGraph :=
  Nested.fold fun _ found start timeout =>
    .node ⟨(w.state start).name, timeout⟩ (found.map fun e =>
      (w.summary e.1.state,
        List.zipWith (fun level start => level start none) e.2 (w.state e.1.state).nestedStarts))

/-- The abstract graph of a graph that compiles. -/
def abstractGraph (w : Workspace) (g : GraphId) : Except Fault AbstractGraph := do
  let c ← w.compile (w.graph g).label (w.graph g).start
  return w.abstractLevel ((w.graph g).level c) (w.graph g).start (w.graph g).timeout

/-- Documents leave out nothing that a state does. -/
theorem content?_eq (w : Workspace) (s : State) : w.content? s = w.activity s.kind := by
  rw [content?]
  cases s.kind <;> rfl

/-- The headers of sound levels say where they start and how long they may take. -/
theorem abstractLevel_eq {level : Level} (sound : ∀ l ∈ level.levels, w.Sound l) :
    w.abstractLevel level level.info.start level.info.timeout =
      level.map w.heading fun m => w.summary m.state := by
  induction level using Nested.induct with
  | step header members ih =>
    obtain ⟨top, nested⟩ := Nested.forall_mem_levels_node.mp sound
    rw [Nested.map_node, abstractLevel, Nested.fold_node, List.map_map]
    refine congrArg _ (List.map_congr_left fun e entry => ?_)
    have explored := top.explored e entry
    have untimed : ∀ l ∈ e.2, l.info.timeout = none := by
      intro l member
      have listed := explored.nested ▸ List.mem_map_of_mem (f := Nested.info) member
      obtain ⟨graph, -, same⟩ := List.mem_map.mp listed
      rw [← same]
    refine congrArg (Prod.mk _) ?_
    dsimp only
    rw [← explored.nested_starts, List.zipWith_map, List.zipWith_self]
    refine List.map_congr_left fun l member => ?_
    rw [← ih e entry l member (nested e entry l member), untimed l member]
    rfl

theorem eq_of_entry {m : Member} {r : Entry} (ok : w.entry m = .ok r) : r = {
    name := m.name
    common := (w.state m.state).common
    content := r.content
    next := (w.state m.state).onward.map w.nameOf
    retries := (w.state m.state).retries
    catches := (w.state m.state).catches.map
      fun c => ⟨c.errors, w.nameOf c.target, c.resultPath⟩ } := by
  unfold entry at ok
  cases content : w.content? (w.state m.state) with
  | none => simp [content] at ok
  | some c =>
    simp only [content, Except.ok.injEq] at ok
    subst ok
    rfl

/-- Whether a state is as building leaves it. -/
structure Built (s : State) : Prop where
  orderly : s.Orderly
  made : ∀ rule ∈ s.rules, rule.condition.Made

theorem kept_of_entry {m : Member} {r : Entry} (built : Built (w.state m.state))
    (ok : w.entry m = .ok r) : r.Kept := by
  obtain ⟨content, -⟩ := entry_eq_ok ok
  have typed := type_of_content? content
  have leads (listed : (w.state m.state).retries ≠ [] ∨ (w.state m.state).catches ≠ []) :
      r.Leads := by
    apply Entry.leads_of_canFail
    rcases built.orderly.failing listed with type | type | type <;> rw [type] at typed <;>
      rw [← Option.some.inj typed] <;> rfl
  constructor
  case made =>
    intro rules choice rule member
    rw [choice] at content
    obtain ⟨given, tails, kind, rfl⟩ := choice_of_content? content
    obtain ⟨rule', listed, rfl⟩ := List.mem_map.mp member
    exact built.made rule' (by rw [State.rules, kind]; exact listed)
  case retries =>
    by_cases none : (w.state m.state).retries = []
    · right
      rw [eq_of_entry ok]
      exact none
    · exact .inl (leads (.inl none))
  case catches =>
    by_cases none : (w.state m.state).catches = []
    · right
      rw [eq_of_entry ok, none]
      rfl
    · exact .inl (leads (.inr none))

theorem exit_of_terminal {s : State} (orderly : s.Orderly)
    (type : s.type? = some .succeed ∨ s.type? = some .fail) : s.exit = .unset := by
  obtain ⟨next, stopped⟩ := orderly.terminal type
  have other : s.type? ≠ some .choice := by
    rcases type with type | type <;> rw [type] <;> simp
  rw [State.next?, if_neg other] at next
  cases exit : s.exit with
  | unset => rfl
  | next target => simp [State.onward, exit] at next
  | stop => simp [State.isStopped, exit] at stopped

theorem way_of_entry {m : Member} {r : Entry} (orderly : (w.state m.state).Orderly)
    (complete : (w.state m.state).validate = .ok ()) (ok : w.entry m = .ok r) :
    r.way = w.way (w.state m.state) := by
  obtain ⟨content, -, next, -⟩ := entry_eq_ok ok
  have typed := type_of_content? content
  unfold Entry.way way
  rw [next]
  cases shown : r.content
  case succeed | fail =>
    rw [shown] at typed
    rw [exit_of_terminal orderly (by simp [typed, Content.type])]
  case choice =>
    rw [shown] at typed
    have stopped := orderly.choice typed
    cases exit : (w.state m.state).exit <;> simp [State.onward, State.isStopped, exit] at stopped ⊢
  all_goals
    rw [shown] at typed
    have set := (State.validate_eq_ok.mp complete).exit (by simp [typed, Content.type])
      (by simp [State.isTerminal, typed, Content.type, StateType.isTerminal])
    cases exit : (w.state m.state).exit <;> simp [State.onward, exit] at set ⊢

theorem summary_of_entry {m : Member} {r : Entry} (built : Built (w.state m.state))
    (complete : (w.state m.state).validate = .ok ()) (named : m.name = (w.state m.state).name)
    (ok : w.entry m = .ok r) : r.summary = w.summary m.state := by
  have way := way_of_entry built.orderly complete ok
  obtain ⟨content, -⟩ := entry_eq_ok ok
  rw [Entry.summary, summary, way, ← content?_eq, content, ← named, eq_of_entry ok]

theorem map_document {β : Type} {f : Entry → β} {f' : Member → β} {level : Level}
    {document : Document} (ok : w.document level = .ok document)
    (same : ∀ m ∈ level.preorder, ∀ r, w.entry m = .ok r → f r = f' m) :
    document.map id f = level.map w.heading f' := by
  induction level using Nested.induct generalizing document with
  | step header members ih =>
    obtain ⟨es, each, rfl⟩ := document_node ok
    have each : List.Forall₂ (fun e r => e ∈ members ∧ w.Rendered e r) members es :=
      (List.forall₂_and_left _ _).mpr ⟨fun e entry => entry, each⟩
    rw [Nested.map_node, Nested.map_node]
    refine congrArg _ (Outcome.map_eq_of_forall₂ each ?_).symm
    rintro e r ⟨entry, rendered⟩
    have inner : List.Forall₂ (fun l d => l ∈ e.2 ∧ w.document l = .ok d) e.2 r.2 :=
      (List.forall₂_and_left _ _).mpr ⟨fun l nested => nested, rendered.nested⟩
    have listed {m : Member} (within : m = e.1 ∨ ∃ l ∈ e.2, m ∈ l.preorder) :
        m ∈ (Nested.node header members : Level).preorder := by
      rw [Nested.preorder_node]
      refine List.mem_flatMap.mpr ⟨e, entry, ?_⟩
      rcases within with rfl | below
      · exact List.mem_cons_self
      · exact List.mem_cons_of_mem _ (List.mem_flatMap.mpr below)
    refine Prod.ext (same e.1 (listed (.inl rfl)) r.1 rendered.entry).symm ?_
    apply Outcome.map_eq_of_forall₂ inner
    rintro l d ⟨nested, ok⟩
    refine (ih e entry l nested ok fun m member => ?_).symm
    exact same m (listed (.inr ⟨l, nested, member⟩))

/-- A document of a compiled level decodes to the abstract level. -/
theorem decode_document {level : Level} {document : Document}
    (built : ∀ s, Built (w.state s)) (sound : ∀ l ∈ level.levels, w.Sound l)
    (ok : w.document level = .ok document) :
    document.toJson.decode = w.abstractLevel level level.info.start level.info.timeout := by
  have explored : ∀ m ∈ level.preorder, (w.state m.state).validate = .ok () ∧
      m.name = (w.state m.state).name := by
    intro m member
    obtain ⟨l, within, e, entry, rfl⟩ := Nested.exists_level_of_mem_preorder member
    have explored := (sound l within).explored e entry
    exact ⟨explored.complete, explored.named⟩
  rw [abstractLevel_eq sound, Document.decode_toJson (fits_of_sound ok sound)]
  · apply map_document ok
    intro m member r rendered
    obtain ⟨complete, named⟩ := explored m member
    exact summary_of_entry (built m.state) complete named rendered
  · intro r member
    obtain ⟨m, -, rendered⟩ := Outcome.exists_of_forall₂_right (document_preorder ok) member
    exact kept_of_entry (built m.state) rendered

end Workspace

theorem State.New.made {s : State} {c : ScopeId} (fresh : s.New c) :
    ∀ rule ∈ s.rules, rule.condition.Made := by
  obtain ⟨description, kind⟩ := fresh.kind
  have none : s.rules = [] := by
    rw [State.rules, kind]
    cases description with
    | task resource => cases resource <;> rfl
    | _ => rfl
  simp [none]

theorem State.Change.made {s new : State} {known : StateId → Prop} (change : s.Change known new)
    (made : ∀ rule ∈ s.rules, rule.condition.Made) : ∀ rule ∈ new.rules, rule.condition.Made := by
  cases change with
  | rule rule more kind fresh =>
    rw [State.rules, kind] at made
    refine List.forall_mem_append.mpr ⟨made, ?_⟩
    intro other member
    exact List.mem_singleton.mp member ▸ fresh
  | tails more kind =>
    rw [State.rules, kind] at made
    exact made
  | branches | iterator =>
    intro rule member
    cases member
  | wire | stop | retry | handle => exact made

namespace Runs

variable {w w' : Workspace} {ops : List Operation} {g : GraphId} {document : Document}

theorem made (runs : Runs {} ops w) (s : StateId) :
    ∀ rule ∈ (w.state s).rules, rule.condition.Made :=
  runs.keeps_state (P := fun s => ∀ rule ∈ s.rules, rule.condition.Made) State.New.made
    State.Change.made (fun _ made => made) s

/-- Whatever was done before, a graph that was not compiled comes to a document that decodes to the
abstract graph. So graphs that differ in it never come to the same document. -/
theorem document_decodes (runs : Runs {} ops w) (fresh : (w.graph g).compiled = none)
    (ok : Build.document ⟨g, []⟩ w = .ok document w') :
    w.abstractGraph g = .ok document.toJson.decode ∧
      ∀ more v v' h other, Runs {} more v → (v.graph h).compiled = none →
        Build.document ⟨h, []⟩ v = .ok other v' → other.toJson = document.toJson →
        v.abstractGraph h = w.abstractGraph g := by
  have decodes {ops : List Operation} {w w' : Workspace} {g : GraphId} {document : Document}
      (runs : Runs {} ops w) (fresh : (w.graph g).compiled = none)
      (ok : Build.document ⟨g, []⟩ w = .ok document w') :
      w.abstractGraph g = .ok document.toJson.decode := by
    obtain ⟨c, compiled, -, rendered⟩ := Build.document_eq_ok.mp ok
    rw [Workspace.compiled_of_fresh fresh] at compiled
    obtain ⟨sound, -, -⟩ := Workspace.level_of_compile compiled
    have built : ∀ s, Workspace.Built (w.state s) := fun s => ⟨runs.orderly s, runs.made s⟩
    rw [Workspace.abstractGraph, compiled, Workspace.decode_document built sound rendered]
    rfl
  refine ⟨decodes runs fresh ok, ?_⟩
  intro more v v' h other runs' fresh' ok' same
  rw [decodes runs fresh ok, decodes runs' fresh' ok', same]

/-- A parallel state with a branch and a retry leads to a choice. -/
def review : List Operation :=
  [.edit (.scope "T" none), .edit (.state ⟨0⟩ "Ask" none {} (.parallel {})),
    .edit (.state ⟨0⟩ "Wait" none {} (.wait { seconds := .nat 5 })), .edit (.stop ⟨1⟩),
    .edit (.branches ⟨0⟩ [⟨1⟩]), .edit (.retry ⟨0⟩ { backoffRate := .nat 2 }),
    .edit (.state ⟨0⟩ "Decide" none {} .choice), .edit (.wire ⟨0⟩ (.state ⟨2⟩)),
    .edit (.state ⟨0⟩ "Done" none {} .succeed),
    .edit (.rule ⟨2⟩ (.ok ⟨.compare "$.approved" "BooleanEquals" (.bool false), .comparison
      (rfl : Condition.comparison (.string "$.approved") "BooleanEquals" (.bool false) = .ok _)⟩)
      (.state ⟨0⟩)),
    .edit (.otherwise ⟨2⟩ (.state ⟨3⟩)), .inquiry (.graph (some ⟨0⟩) "" (.nat 60))]

/-- As `review`, with a handler of timeouts that leads to a task. -/
def timedReview : List Operation :=
  review ++ [
    .edit (.state ⟨0⟩ "Tell" none { comment := .string "Tells why" }
      (.task (.ok ⟨.string "arn:tell", []⟩) { timeoutSeconds := .nat 30 })),
    .edit (.handle ⟨0⟩ (.state ⟨4⟩) (.array [.string "States.Timeout"]) (.string "$.error")),
    .edit (.wire ⟨4⟩ (.state ⟨3⟩))]

theorem timedReview_decodes :
    ∃ w document w', Runs {} timedReview w ∧ (w.graph ⟨0⟩).compiled = none ∧
      Build.document ⟨⟨0⟩, []⟩ w = .ok document w' ∧
      document.toJson.decode = .node ⟨"Ask", some 60⟩ [
        (⟨"Ask", {}, some (.parallel {}), .next "Decide",
            [⟨[.string "States.ALL"], 1, 3, .int 2⟩],
            [⟨[.string "States.Timeout"], "Tell", .string "$.error"⟩]⟩,
          [.node ⟨"Wait", none⟩ [
            (⟨"Wait", {}, some (.wait { seconds := .nat 5 }), .stop, [], []⟩, [])]]),
        (⟨"Decide", {}, some (.choice [
            ⟨.compare "$.approved" "BooleanEquals" (.bool false), "Ask"⟩]), .next "Done", [], []⟩,
          []),
        (⟨"Done", {}, some .succeed, .nowhere, [], []⟩, []),
        (⟨"Tell", { comment := .string "Tells why" },
            some (.task (.string "arn:tell") { timeoutSeconds := .nat 30 }), .next "Done", [], []⟩,
          [])] ∧
      ∀ more v v' h other, Runs {} more v → (v.graph h).compiled = none →
        Build.document ⟨h, []⟩ v = .ok other v' → other.toJson = document.toJson →
        v.abstractGraph h = w.abstractGraph ⟨0⟩ := by
  have runs : Runs {} timedReview _ := .of_allows (by decide)
  have fresh : ((Workspace.run {} timedReview).graph ⟨0⟩).compiled = none := rfl
  obtain ⟨document, w', ok⟩ : ∃ document w',
      Build.document ⟨⟨0⟩, []⟩ (Workspace.run {} timedReview) = .ok document w' := ⟨_, _, rfl⟩
  obtain ⟨decodes, unique⟩ := document_decodes runs fresh ok
  have shown : (Workspace.run {} timedReview).abstractGraph ⟨0⟩ = .ok _ := rfl
  exact ⟨_, document, w', runs, fresh, ok, Except.ok.inj (decodes.symm.trans shown), unique⟩

end Runs
end Workflow
