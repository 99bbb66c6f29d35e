import Workflow.Proofs.Inquiries

/-!
Wiring over time. A state has one way out at most by what it is: its exit leads on or stops, and
that of a choice is its default. Building sees to it that the way out is as the type allows, and
that only states that can fail have retries and handlers of errors. What is set stays set, and what
is listed stays listed in its place, whatever is done later and whether it succeeds or fails.
-/

namespace Workflow

namespace State

/-- Where a state other than a choice leads. -/
def next? (s : State) : Option Target := if s.type? = some .choice then none else s.onward

/-- Where a choice leads if no rule applies. -/
def default? (s : State) : Option Target := if s.type? = some .choice then s.onward else none

def rules (s : State) : List (Rule Target) :=
  match s.kind with
  | .choice rules _ => rules
  | _ => []

def branches (s : State) : List StateId :=
  match s.kind with
  | .parallel _ branches => branches
  | _ => []

def iterator? (s : State) : Option StateId :=
  match s.kind with
  | .map _ iterator => iterator
  | _ => none

/-- A state that ends its path leads nowhere. -/
theorem next?_eq_none_of_isStopped {s : State} (stopped : s.isStopped = true) : s.next? = none := by
  rw [isStopped] at stopped
  cases exit : s.exit <;> simp [next?, onward, exit] at stopped ⊢

/-- A choice leads on by its rules and its default alone. -/
theorem next?_eq_none_of_choice {s : State} (choice : s.type? = some .choice) : s.next? = none :=
  if_pos choice

/-- Which ways out and which handlers of errors a state may have. -/
structure Orderly (s : State) : Prop where
  terminal : s.type? = some .succeed ∨ s.type? = some .fail → s.next? = none ∧ s.isStopped = false
  choice : s.type? = some .choice → s.isStopped = false
  failing : s.retries ≠ [] ∨ s.catches ≠ [] →
    s.type? = some .task ∨ s.type? = some .parallel ∨ s.type? = some .map

/-- What stays of a state as time goes by. -/
structure Lasting (s later : State) : Prop where
  next : ∀ t, s.next? = some t → later.next? = some t
  default : ∀ t, s.default? = some t → later.default? = some t
  stopped : s.isStopped = true → later.isStopped = true
  iterator : ∀ start, s.iterator? = some start → later.iterator? = some start
  rules : s.rules <+: later.rules
  retries : s.retries <+: later.retries
  catches : s.catches <+: later.catches
  branches : s.branches <+: later.branches

theorem Lasting.refl (s : State) : s.Lasting s where
  next _ set := set
  default _ set := set
  stopped set := set
  iterator _ set := set
  rules := List.prefix_rfl
  retries := List.prefix_rfl
  catches := List.prefix_rfl
  branches := List.prefix_rfl

theorem Lasting.trans {s t u : State} (first : s.Lasting t) (later : t.Lasting u) :
    s.Lasting u where
  next target set := later.next target (first.next target set)
  default target set := later.default target (first.default target set)
  stopped set := later.stopped (first.stopped set)
  iterator start set := later.iterator start (first.iterator start set)
  rules := first.rules.trans later.rules
  retries := first.retries.trans later.retries
  catches := first.catches.trans later.catches
  branches := first.branches.trans later.branches

variable {s new : State} {known : StateId → Prop}

theorem onward_of_exit (exit : new.exit = s.exit) : new.onward = s.onward := by
  rw [onward, onward, exit]

theorem isStopped_of_exit (exit : new.exit = s.exit) : new.isStopped = s.isStopped := by
  rw [isStopped, isStopped, exit]

theorem Change.type_eq (change : s.Change known new) : new.type? = s.type? := by
  cases change with
  | rule _ _ kind | tails _ kind | branches _ kind | iterator _ kind =>
    rw [type?, type?, kind]
    rfl
  | _ => rfl

theorem type_of_canFail (able : s.canFail = true) :
    s.type? = some .task ∨ s.type? = some .parallel ∨ s.type? = some .map := by
  unfold canFail at able
  cases type : s.type? with
  | none => simp [type] at able
  | some t => cases t <;> simp [type, StateType.canFail] at able ⊢

theorem Open.not_terminal (free : s.Open) :
    ¬ (s.type? = some .succeed ∨ s.type? = some .fail) := by
  have lasting := free.lasting
  unfold isTerminal at lasting
  rintro (type | type) <;> simp [type, StateType.isTerminal] at lasting

/-- A state without a way out has none that could be lost. -/
theorem Open.next?_eq_none (free : s.Open) : s.next? = none := by
  rw [next?, free.unset, ite_self]

theorem Open.default?_eq_none (free : s.Open) : s.default? = none := by
  rw [default?, free.unset, ite_self]

/-- Only what can fail may have got retries or handlers; otherwise the way out is as it was. -/
theorem Orderly.of_exit (orderly : s.Orderly) (type : new.type? = s.type?)
    (exit : new.exit = s.exit)
    (failing : s.canFail = true ∨ new.retries = s.retries ∧ new.catches = s.catches) :
    new.Orderly := by
  have onward := onward_of_exit exit
  have stopped := isStopped_of_exit exit
  have next : new.next? = s.next? := by rw [next?, next?, type, onward]
  constructor
  case terminal =>
    rw [type, next, stopped]
    exact orderly.terminal
  case choice =>
    rw [type, stopped]
    exact orderly.choice
  case failing =>
    rw [type]
    rcases failing with able | ⟨retries, catches⟩
    · exact fun _ => type_of_canFail able
    · rw [retries, catches]
      exact orderly.failing

theorem Change.orderly (change : s.Change known new) (orderly : s.Orderly) : new.Orderly := by
  have type := change.type_eq
  cases change with
  | wire target free =>
    constructor
    case terminal => exact fun terminal => absurd terminal free.not_terminal
    case choice => exact fun _ => rfl
    case failing => exact orderly.failing
  | stop free other =>
    constructor
    case terminal => exact fun terminal => absurd terminal free.not_terminal
    case choice => exact fun choice => absurd choice other
    case failing => exact orderly.failing
  | retry retry able => exact orderly.of_exit rfl rfl (.inl able)
  | handle handler able => exact orderly.of_exit rfl rfl (.inl able)
  | rule | tails | branches | iterator => exact orderly.of_exit type rfl (.inr ⟨rfl, rfl⟩)

theorem lasting_of_exit (type : new.type? = s.type?) (exit : new.exit = s.exit)
    (iterator : ∀ start, s.iterator? = some start → new.iterator? = some start)
    (rules : s.rules <+: new.rules) (retries : s.retries <+: new.retries)
    (catches : s.catches <+: new.catches) (branches : s.branches <+: new.branches) :
    s.Lasting new := by
  have onward := onward_of_exit exit
  have stopped := isStopped_of_exit exit
  refine ⟨?_, ?_, ?_, iterator, rules, retries, catches, branches⟩
  · rw [next?, next?, type, onward]
    exact fun _ set => set
  · rw [default?, default?, type, onward]
    exact fun _ set => set
  · rw [stopped]
    exact fun set => set

theorem Change.lasting (change : s.Change known new) (orderly : s.Orderly) : s.Lasting new := by
  have type := change.type_eq
  have same := Lasting.refl s
  cases change with
  | wire target free =>
    refine ⟨?_, ?_, ?_, same.iterator, same.rules, same.retries, same.catches, same.branches⟩
    · simp [free.next?_eq_none]
    · simp [free.default?_eq_none]
    · intro stopped
      -- Only a choice could be stopped and still be wired, and no choice is stopped.
      have running := orderly.choice (free.unstopped stopped)
      rw [stopped] at running
      cases running
  | stop free other =>
    refine ⟨?_, ?_, fun _ => rfl, same.iterator, same.rules, same.retries, same.catches,
      same.branches⟩
    · simp [free.next?_eq_none]
    · simp [free.default?_eq_none]
  | retry retry able =>
    exact lasting_of_exit rfl rfl same.iterator same.rules (List.prefix_append _ _) same.catches
      same.branches
  | handle handler able =>
    exact lasting_of_exit rfl rfl same.iterator same.rules same.retries (List.prefix_append _ _)
      same.branches
  | rule _ _ kind | tails _ kind | branches _ kind | iterator _ kind =>
    refine lasting_of_exit type rfl ?_ ?_ same.retries same.catches ?_
    · simp [iterator?, kind]
    · simp [State.rules, kind]
    · simp [State.branches, kind]

theorem Orderly.rename (orderly : s.Orderly) (name : String) :
    State.Orderly { s with name } :=
  orderly.of_exit rfl rfl (.inr ⟨rfl, rfl⟩)

theorem lasting_rename (s : State) (name : String) : s.Lasting { s with name } := by
  have same := Lasting.refl s
  exact lasting_of_exit rfl rfl same.iterator same.rules same.retries same.catches same.branches

theorem New.orderly {c : ScopeId} (fresh : s.New c) : s.Orderly := by
  have next : s.next? = none := by simp [next?, onward, fresh.exit]
  have stopped : s.isStopped = false := by simp [isStopped, fresh.exit]
  constructor
  case terminal => exact fun _ => ⟨next, stopped⟩
  case choice => exact fun _ => stopped
  case failing => simp [fresh.retries, fresh.catches]

/-- Where there is no state yet, nothing can be lost. -/
theorem lasting_default (s : State) : State.Lasting default s where
  next _ set := by cases set
  default _ set := by cases set
  stopped set := by cases set
  iterator _ set := by cases set
  rules := List.nil_prefix
  retries := List.nil_prefix
  catches := List.nil_prefix
  branches := List.nil_prefix

end State

namespace Workspace

variable {w v : Workspace}

theorem Change.orderly (change : w.Change v) (orderly : ∀ s, (w.state s).Orderly) (s : StateId) :
    (v.state s).Orderly := by
  have kept := change.state_cases (P := fun before after => before.Orderly → after.Orderly)
    (fun _ before => before) (fun _ _ fresh _ => fresh.orderly)
    (fun _ _ changed before => changed.orderly before) s
  exact kept (orderly s)

theorem Change.lasting (change : w.Change v) (orderly : ∀ s, (w.state s).Orderly) (s : StateId) :
    (w.state s).Lasting (v.state s) :=
  change.state_cases State.Lasting.refl (fun new _ _ => State.lasting_default new)
    (fun s _ changed => changed.lasting (orderly s)) s

end Workspace

namespace Runs

variable {w w' : Workspace} {ops : List Operation}

theorem orderly (runs : Runs {} ops w) (s : StateId) : (w.state s).Orderly :=
  runs.keeps_state (P := State.Orderly) State.New.orderly State.Change.orderly
    (fun name orderly => orderly.rename name) s

/-- At any time of a history a state has at most one way out, as its type allows, and only what can
fail has retries and handlers; and from then on what is set stays set and lists grow at the end. -/
theorem wiring_lasting {before after : List Operation} (built : Runs {} before w)
    (later : Runs w after w') (s : StateId) :
    ((w.state s).isStopped = true ∨ (w.state s).type? = some .choice → (w.state s).next? = none) ∧
      (w.state s).Orderly ∧ (w.state s).Lasting (w'.state s) := by
  refine ⟨?_, built.orderly s, ?_⟩
  · rintro (stopped | choice)
    · exact State.next?_eq_none_of_isStopped stopped
    · exact State.next?_eq_none_of_choice choice
  have kept : (∀ s, (w'.state s).Orderly) ∧ ∀ s, (w.state s).Lasting (w'.state s) := by
    refine later.keeps_of_change
      (P := fun v => (∀ s, (v.state s).Orderly) ∧ ∀ s, (w.state s).Lasting (v.state s)) ?_ ?_ ?_ ?_
    · rintro v v' change ⟨orderly, lasting⟩
      exact ⟨change.orderly orderly, fun s => (lasting s).trans (change.lasting orderly s)⟩
    · rintro v s name _ ⟨orderly, lasting⟩
      constructor
      · intro t
        exact v.rename_cases (P := fun before after => before.Orderly → after.Orderly)
          (fun _ orderly => orderly) (fun _ name orderly => orderly.rename name) s t name
          (orderly t)
      · intro t
        exact (lasting t).trans
          (v.rename_cases State.Lasting.refl State.lasting_rename s t name)
    · intro v v' states _ held
      rw [Workspace.state_of_states states]
      exact held
    · exact ⟨built.orderly, fun s => State.Lasting.refl _⟩
  exact kept.2 s

/-- A chain with a repeated open end is linked in part, and what came of that cannot be undone. -/
theorem repeated_end_lasting :
    let before : List Operation :=
      [.edit (.scope "T" none), .edit (.state ⟨0⟩ "C" none {} .choice),
        .edit (.state ⟨0⟩ "A" none {} (.pass {})),
        .edit (.next ⟨⟨1⟩, [⟨1⟩, ⟨1⟩]⟩ (.state ⟨0⟩))]
    let after : List Operation := [.edit (.stop ⟨1⟩), .edit (.next ⟨⟨0⟩, [⟨0⟩]⟩ (.name "A"))]
    ∃ w w', Runs {} before w ∧ Runs w after w' ∧
      ((w.state ⟨1⟩).isStopped = true ∨ (w.state ⟨1⟩).type? = some .choice →
        (w.state ⟨1⟩).next? = none) ∧ (w.state ⟨1⟩).Orderly ∧ (w.state ⟨1⟩).Lasting (w'.state ⟨1⟩) ∧
      (w.state ⟨1⟩).next? = some (.state ⟨0⟩) ∧ (w'.state ⟨0⟩).default? = some (.name "A") := by
  intro before after
  have built : Runs {} before _ := .of_allows (by decide)
  have later : Runs (Workspace.run {} before) after _ := .of_allows (by decide)
  obtain ⟨single, orderly, lasting⟩ := wiring_lasting built later ⟨1⟩
  exact ⟨_, _, built, later, single, orderly, lasting, rfl, rfl⟩

end Runs
end Workflow
