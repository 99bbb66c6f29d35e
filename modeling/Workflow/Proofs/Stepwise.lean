import Workflow.Proofs.Positions
import Workflow.Proofs.Termination

/-!
Compiling one step at a time, as a machine that is not told how many steps it has: it works on one
level, or on the levels that a state runs, and remembers the states whose levels are still being
compiled. It comes to an end for every start, however states lead to each other and run each other's
graphs, and to what `compile` comes to. On the way it registers no state twice, validates what it
registers, and opens no more levels than the states it registered declare. The end is shown along
the steps of `walk`, the rest by what a single step preserves.
-/

namespace Workflow

/-- What compiling does that can be counted. -/
inductive Act where
  | register (s : StateId)
  | validate (s : StateId)
  | nest (owner : StateId) (i : Nat)

namespace Act

def registered (acts : List Act) : List StateId :=
  acts.filterMap fun | register s => some s | _ => none

def validated (acts : List Act) : List StateId :=
  acts.filterMap fun | validate s => some s | _ => none

/-- The levels that were opened: for which state, and which of its levels. -/
def nested (acts : List Act) : List (StateId × Nat) :=
  acts.filterMap fun | nest owner i => some (owner, i) | _ => none

@[simp]
theorem registered_append (acts more : List Act) :
    registered (acts ++ more) = registered acts ++ registered more := List.filterMap_append

@[simp]
theorem validated_append (acts more : List Act) :
    validated (acts ++ more) = validated acts ++ validated more := List.filterMap_append

@[simp]
theorem nested_append (acts more : List Act) :
    nested (acts ++ more) = nested acts ++ nested more := List.filterMap_append

end Act

/-- A level that is being compiled: what was found in it and what is still pending. -/
structure Frame where
  label : String
  start : StateId
  found : Members
  pending : List StateId

/-- A state of a level whose own levels are being compiled: those that are done and the starts of
those that are left. -/
structure Nesting where
  frame : Frame
  owner : StateId
  done : List Level
  left : List (String × StateId)

inductive Control where
  | walk (frame : Frame)
  | nest (nesting : Nesting)
  | back (level : Level)

structure Config where
  registry : Registry
  control : Control
  callers : List Nesting

namespace Config

def registered (c : Config) : List StateId := c.registry.map (·.state)

/-- The states whose levels are being compiled, each with the first of its levels that has not been
opened. -/
def unfinished (c : Config) : List (Nesting × Nat) :=
  (match c.control with
    | .nest n => [(n, n.done.length)]
    | _ => []) ++ c.callers.map fun n => (n, n.done.length + 1)

/-- What holds of a configuration that compiling gets to: the states whose levels are being compiled
are registered and no two of them the same, and the levels left of each are the last it declares. -/
structure Sound (w : Workspace) (c : Config) : Prop where
  distinct : (c.unfinished.map (·.1.owner)).Nodup
  known : ∀ u ∈ c.unfinished, u.1.owner ∈ c.registered
  left : ∀ u ∈ c.unfinished, (w.state u.1.owner).nestedStarts.drop u.2 = u.1.left.map (·.2)

/-- What is done from a configuration on, as far as it is counted. -/
structure Account (w : Workspace) (c : Config) (acts : List Act) : Prop where
  once : (Act.registered acts).Nodup
  new : ∀ s ∈ Act.registered acts, s ∉ c.registered
  validated : Act.validated acts = Act.registered acts
  apart : (Act.nested acts).Nodup
  declared : ∀ o ∈ Act.nested acts, o.2 < (w.state o.1).nestedStarts.length
  owned : ∀ o ∈ Act.nested acts, o.1 ∈ Act.registered acts ∨
    ∃ u ∈ c.unfinished, u.1.owner = o.1 ∧ u.2 ≤ o.2

theorem account_nil (w : Workspace) (c : Config) : c.Account w [] := by
  constructor <;> simp [Act.registered, Act.validated, Act.nested]

variable {w : Workspace} {c c' : Config} {later : List Act} {n : Nesting}

/-- What is done from a configuration on is done from one before it on that has the same states
registered, where what was unfinished later was unfinished already. -/
theorem Account.earlier (rest : c'.Account w later) (same : c'.registered = c.registered)
    (waits : ∀ u ∈ c'.unfinished, ∃ u' ∈ c.unfinished, u'.1.owner = u.1.owner ∧ u'.2 ≤ u.2) :
    c.Account w later := by
  refine ⟨rest.once, same ▸ rest.new, rest.validated, rest.apart, rest.declared, ?_⟩
  intro o opened
  refine (rest.owned o opened).imp_right ?_
  rintro ⟨u, waiting, owner, next⟩
  obtain ⟨u', waiting', owner', next'⟩ := waits u waiting
  exact ⟨u', waiting', owner'.trans owner, next'.trans next⟩

/-- A state that is registered anew is validated, and its levels are the next to be opened. -/
theorem Account.visit {s : StateId} (rest : c'.Account w later) (unknown : s ∉ c.registered)
    (grown : c'.registered = c.registered ++ [s]) (nesting : n.owner = s)
    (waits : c'.unfinished = (n, 0) :: c.unfinished) :
    c.Account w ([.register s, .validate s] ++ later) := by
  obtain ⟨once, new, validated, apart, declared, owned⟩ := rest
  rw [grown] at new
  constructor
  case once =>
    refine List.nodup_cons.mpr ⟨fun again => ?_, once⟩
    exact new s again (List.mem_append_right _ List.mem_cons_self)
  case new =>
    refine List.forall_mem_cons.mpr ⟨unknown, fun t later old => ?_⟩
    exact new t later (List.mem_append_left _ old)
  case validated => exact congrArg (s :: ·) validated
  case apart => exact apart
  case declared => exact declared
  case owned =>
    intro o opened
    rcases owned o opened with registered | ⟨u, waiting, same, next⟩
    · exact .inl (List.mem_cons_of_mem _ registered)
    · rw [waits] at waiting
      rcases List.mem_cons.mp waiting with rfl | waiting
      · exact .inl (List.mem_cons.mpr (.inl (same.symm.trans nesting)))
      · exact .inr ⟨u, waiting, same, next⟩

/-- A level that is declared and has not been opened is opened. -/
theorem Account.nest {i : Nat} (rest : c.Account w later)
    (first : (n.owner, i) ∉ Act.nested later) (waits : (n, i) ∈ c.unfinished)
    (declared : i < (w.state n.owner).nestedStarts.length) :
    c.Account w ([.nest n.owner i] ++ later) where
  once := rest.once
  new := rest.new
  validated := rest.validated
  apart := List.nodup_cons.mpr ⟨first, rest.apart⟩
  declared := List.forall_mem_cons.mpr ⟨declared, rest.declared⟩
  owned := List.forall_mem_cons.mpr ⟨.inr ⟨_, waits, rfl, le_rfl⟩, rest.owned⟩

/-- A level is not opened again once a later one of the same state is the next. -/
theorem Account.not_again {i : Nat} (rest : c'.Account w later)
    (known : n.owner ∈ c'.registered)
    (once : ∀ u ∈ c'.unfinished, u.1.owner = n.owner → i < u.2) :
    (n.owner, i) ∉ Act.nested later := by
  intro again
  rcases rest.owned _ again with registered | ⟨u, waiting, same, next⟩
  · exact rest.new _ registered known
  · exact absurd (once u waiting same) (Nat.not_lt_of_le next)

end Config

namespace Workspace

/-- Where a level begins. -/
def beginning (label : String) (start : StateId) : Control := .walk ⟨label, start, [], [start]⟩

/-- The level of a frame after a state and its levels. -/
def resumed (w : Workspace) (n : Nesting) : Frame :=
  let found := n.frame.found ++ [(⟨(w.state n.owner).name, n.owner⟩, n.done)]
  let targets := (w.state n.owner).successors.filter fun t => !w.lists found t
  { n.frame with found, pending := targets ++ n.frame.pending }

/-- A single step: what is done, and the configuration it leads to or the fault it ends with. -/
inductive Step (w : Workspace) : Config → List Act → Except Fault Config → Prop
  | skip {registry frame callers s pending} : frame.pending = s :: pending →
      w.lists frame.found s = true →
      Step w ⟨registry, .walk frame, callers⟩ []
        (.ok ⟨registry, .walk { frame with pending }, callers⟩)
  | refuse {registry frame callers s pending fault} : frame.pending = s :: pending →
      w.lists frame.found s = false → w.register frame.label registry s = .error fault →
      Step w ⟨registry, .walk frame, callers⟩ [] (.error fault)
  | invalid {registry frame callers s pending entered fault} : frame.pending = s :: pending →
      w.lists frame.found s = false → w.register frame.label registry s = .ok entered →
      (w.state s).validate = .error fault →
      Step w ⟨registry, .walk frame, callers⟩ [.register s, .validate s] (.error fault)
  | visit {registry frame callers s pending entered} : frame.pending = s :: pending →
      w.lists frame.found s = false → w.register frame.label registry s = .ok entered →
      (w.state s).validate = .ok () →
      Step w ⟨registry, .walk frame, callers⟩ [.register s, .validate s] (.ok ⟨entered,
        .nest ⟨{ frame with pending }, s, [], (w.state s).nestedGraphs frame.label⟩, callers⟩)
  | descend {registry n callers label start left} : n.left = (label, start) :: left →
      Step w ⟨registry, .nest n, callers⟩ [.nest n.owner n.done.length]
        (.ok ⟨registry, beginning label start, { n with left } :: callers⟩)
  | resume {registry n callers} : n.left = [] →
      Step w ⟨registry, .nest n, callers⟩ [] (.ok ⟨registry, .walk (w.resumed n), callers⟩)
  | unresolved {registry frame callers fault} : frame.pending = [] →
      w.resolveLevel frame.label frame.found = .error fault →
      Step w ⟨registry, .walk frame, callers⟩ [] (.error fault)
  | close {registry frame callers} : frame.pending = [] →
      w.resolveLevel frame.label frame.found = .ok () →
      Step w ⟨registry, .walk frame, callers⟩ []
        (.ok ⟨registry, .back (.node ⟨frame.start, frame.label, none⟩ frame.found), callers⟩)
  | ascend {registry level n callers} :
      Step w ⟨registry, .back level, n :: callers⟩ []
        (.ok ⟨registry, .nest { n with done := n.done ++ [level] }, callers⟩)

/-- Steps to an end: a level that no state waits for, or a fault. -/
inductive Ends (w : Workspace) : Config → List Act → Except Fault (Registry × Level) → Prop
  | finish {registry level} : Ends w ⟨registry, .back level, []⟩ [] (.ok (registry, level))
  | fail {c acts fault} : Step w c acts (.error fault) → Ends w c acts (.error fault)
  | step {c c' acts later outcome} : Step w c acts (.ok c') → Ends w c' later outcome →
      Ends w c (acts ++ later) outcome

variable {w : Workspace} {c c' : Config} {acts acts' : List Act} {next next' : Except Fault Config}
  {outcome outcome' : Except Fault (Registry × Level)}

/-- There is one way to go on. -/
theorem Step.unique (step : w.Step c acts next) (step' : w.Step c acts' next') :
    acts = acts' ∧ next = next' := by
  cases step <;> cases step' <;> simp_all

theorem Ends.unique (ends : w.Ends c acts outcome) (ends' : w.Ends c acts' outcome') :
    acts = acts' ∧ outcome = outcome' := by
  induction ends generalizing acts' outcome' with
  | finish =>
    cases ends' with
    | finish => exact ⟨rfl, rfl⟩
    | fail step => cases step
    | step step => cases step
  | fail step =>
    cases ends' with
    | finish => cases step
    | fail step' =>
      obtain ⟨rfl, same⟩ := step.unique step'
      cases same
      exact ⟨rfl, rfl⟩
    | step step' => cases (step.unique step').2
  | step step _ ih =>
    cases ends' with
    | finish => cases step
    | fail step' => cases (step.unique step').2
    | step step' later' =>
      obtain ⟨rfl, same⟩ := step.unique step'
      cases same
      obtain ⟨rfl, rfl⟩ := ih later'
      exact ⟨rfl, rfl⟩

/-- Whether a configuration ends with what a computation ends with that comes to a fault or to
another configuration. -/
def Leads (w : Workspace) (c : Config) : Except Fault Config → Prop
  | .ok c' => ∀ outcome, (∃ acts, w.Ends c' acts outcome) → ∃ acts, w.Ends c acts outcome
  | .error fault => ∃ acts, w.Ends c acts (.error fault)

theorem Step.leads (step : w.Step c acts next) : w.Leads c next := by
  cases next with
  | error fault => exact ⟨acts, .fail step⟩
  | ok c' => exact fun outcome ⟨later, ends⟩ => ⟨acts ++ later, .step step ends⟩

theorem Leads.refl : w.Leads c (.ok c) := fun _ ends => ends

theorem Leads.trans (first : w.Leads c (.ok c')) (rest : w.Leads c' next) : w.Leads c next := by
  cases next with
  | error fault => exact first _ rest
  | ok c'' => exact fun outcome ends => first outcome (rest outcome ends)

theorem Leads.bind {α : Type} {x : Except Fault α} {f : α → Config} {g : α → Except Fault Config}
    (first : w.Leads c (f <$> x)) (rest : ∀ a, x = .ok a → w.Leads (f a) (g a)) :
    w.Leads c (x >>= g) := by
  cases x with
  | error fault => exact first
  | ok a => exact first.trans (rest a rfl)

section Simulation

variable {registry : Registry} {callers : List Nesting} {fuel : Nat}

/-- States that are listed already are passed over. -/
theorem leads_dropWhile (frame : Frame) :
    w.Leads ⟨registry, .walk frame, callers⟩ (.ok ⟨registry,
      .walk { frame with pending := frame.pending.dropWhile (w.lists frame.found) }, callers⟩) := by
  obtain ⟨label, start, found, pending⟩ := frame
  induction pending with
  | nil => exact .refl
  | cons s pending ih =>
    rw [List.dropWhile_cons]
    cases listed : w.lists found s with
    | false => exact .refl
    | true => exact (Step.skip rfl listed).leads.trans ih

theorem leads_compileBy {label : String} {start : StateId}
    {find : String → Registry → Members → List StateId → Except Fault (Registry × Members)}
    (walks : ∀ callers, w.Leads ⟨registry, beginning label start, callers⟩
      ((fun r => ⟨r.1, .walk ⟨label, start, r.2, []⟩, callers⟩) <$>
        find label registry [] [start])) :
    w.Leads ⟨registry, beginning label start, callers⟩
      ((fun r => ⟨r.1, .back r.2, callers⟩) <$> w.compileBy find label registry start) := by
  rw [compileBy, map_bind]
  refine (walks callers).bind ?_
  rintro ⟨explored, found⟩ -
  dsimp only
  cases resolved : w.resolveLevel label found with
  | error fault => exact Step.leads (.unresolved rfl resolved)
  | ok => exact Step.leads (.close rfl resolved)

/-- The levels of a state are compiled one after the other. -/
theorem leads_compileLevels
    {compile : String → Registry → StateId → Except Fault (Registry × Level)} (n : Nesting)
    (grows : ∀ {label registry start registry' level},
      compile label registry start = .ok (registry', level) → ∃ more, registry' = registry ++ more)
    (each : ∀ label more start callers,
      w.Leads ⟨registry ++ more, beginning label start, callers⟩
        ((fun r => ⟨r.1, .back r.2, callers⟩) <$> compile label (registry ++ more) start)) :
    w.Leads ⟨registry, .nest n, callers⟩
      ((fun r => ⟨r.1, .nest { n with done := n.done ++ r.2, left := [] }, callers⟩) <$>
        compileLevels compile registry n.left) := by
  obtain ⟨frame, owner, done, left⟩ := n
  induction left generalizing registry done with
  | nil =>
    rw [compileLevels]
    simp only [Functor.map, Except.map, List.append_nil]
    exact .refl
  | cons graph left ih =>
    obtain ⟨label, start⟩ := graph
    rw [compileLevels, map_bind]
    have first := each label [] start (⟨frame, owner, done, left⟩ :: callers)
    rw [List.append_nil] at first
    refine (Step.descend rfl).leads.trans (first.bind ?_)
    rintro ⟨between, level⟩ first
    obtain ⟨grown, rfl⟩ := grows first
    refine Step.ascend.leads.trans ?_
    have compiles label more start callers :
        w.Leads ⟨registry ++ grown ++ more, beginning label start, callers⟩
          ((fun r => ⟨r.1, .back r.2, callers⟩) <$>
            compile label (registry ++ grown ++ more) start) := by
      rw [List.append_assoc]
      exact each label (grown ++ more) start callers
    have later := ih compiles (done ++ [level])
    simpa only [map_bind, bind_pure_comp, Functor.map_map, List.append_assoc, List.singleton_append]
      using later

/-- A walk that has enough steps is what the machine does until nothing is pending. -/
theorem leads_walk (frame : Frame) (enough : (w.unregistered registry).card < fuel) :
    w.Leads ⟨registry, .walk frame, callers⟩
      ((fun r => ⟨r.1, .walk { frame with found := r.2, pending := [] }, callers⟩) <$>
        w.walk fuel frame.label registry frame.found frame.pending) := by
  induction fuel generalizing registry frame callers with
  | zero => exact absurd enough (Nat.not_lt_zero _)
  | succ fuel ih =>
    refine (leads_dropWhile frame).trans ?_
    rw [walk]
    have unlisted := List.head?_dropWhile_not (w.lists frame.found) frame.pending
    cases next : frame.pending.dropWhile (w.lists frame.found) with
    | nil => exact .refl
    | cons s pending =>
      replace unlisted : w.lists frame.found s = false := by simpa [next] using unlisted
      simp only [map_bind]
      cases registered : w.register frame.label registry s with
      | error fault => exact Step.leads (.refuse rfl unlisted registered)
      | ok entered =>
        cases complete : (w.state s).validate with
        | error fault => exact Step.leads (.invalid rfl unlisted registered complete)
        | ok =>
          have fewer := card_unregistered_lt registered complete
          have left (more : Registry) : (w.unregistered (entered ++ more)).card < fuel := by
            have := w.card_unregistered_append_le entered more
            omega
          refine Leads.trans (Step.leads (.visit rfl unlisted registered complete)) ?_
          change w.Leads _ (compileLevels _ _ _ >>= fun _ => _)
          refine (leads_compileLevels _ (fun ok => ⟨_, (compileBy_walk_ok ok).grown⟩) ?_).bind ?_
          · intro label more start callers
            exact leads_compileBy fun callers => ih ⟨label, start, [], [start]⟩ (left more)
          · rintro ⟨between, levels⟩ nested
            obtain ⟨rfl, -⟩ := compileLevels_ok compileBy_walk_ok nested
            exact (Step.resume rfl).leads.trans (ih _ (left _))

end Simulation

theorem not_mem_of_register {registry entered : Registry} {label : String} {s : StateId}
    (registered : w.register label registry s = .ok entered) :
    s ∉ registry.map (·.state) ∧ entered.map (·.state) = registry.map (·.state) ++ [s] := by
  obtain ⟨new, -, -, rfl⟩ := register_eq_ok.mp registered
  refine ⟨fun old => ?_, List.map_append⟩
  obtain ⟨r, listed, same⟩ := List.mem_map.mp old
  exact new r listed same

/-- A step leads from a sound configuration to a sound one. -/
theorem Step.sound (step : w.Step c acts (.ok c')) (sound : c.Sound w) : c'.Sound w := by
  obtain ⟨distinct, known, left⟩ := sound
  cases step with
  | skip | close => exact ⟨distinct, known, left⟩
  | @visit registry frame callers s _ entered _ _ registers =>
    obtain ⟨new, grown⟩ := not_mem_of_register registers
    change ∀ u : Nesting × Nat, u ∈ _ → u.1.owner ∈ registry.map (·.state) at known
    constructor
    case distinct =>
      refine List.nodup_cons.mpr ⟨fun old => ?_, distinct⟩
      obtain ⟨u, member, same⟩ := List.mem_map.mp old
      have same : u.1.owner = s := same
      exact new (same ▸ known u member)
    case known =>
      change ∀ u : Nesting × Nat, u ∈ _ → u.1.owner ∈ entered.map (·.state)
      rw [grown]
      refine List.forall_mem_cons.mpr ⟨List.mem_append_right _ List.mem_cons_self, ?_⟩
      exact fun u member => List.mem_append_left _ (known u member)
    case left =>
      exact List.forall_mem_cons.mpr ⟨(State.nestedGraphs_starts _ _).symm, left⟩
  | descend more =>
    obtain ⟨here, others⟩ := List.forall_mem_cons.mp left
    refine ⟨distinct, List.forall_mem_cons.mpr (List.forall_mem_cons.mp known),
      List.forall_mem_cons.mpr ⟨?_, others⟩⟩
    rw [more, List.map_cons] at here
    rw [← List.drop_drop, here]
    rfl
  | resume =>
    exact ⟨(List.nodup_cons.mp distinct).2, fun u member => known u (List.mem_cons_of_mem _ member),
      fun u member => left u (List.mem_cons_of_mem _ member)⟩
  | ascend =>
    obtain ⟨here, others⟩ := List.forall_mem_cons.mp left
    refine ⟨distinct, List.forall_mem_cons.mpr (List.forall_mem_cons.mp known),
      List.forall_mem_cons.mpr ⟨?_, others⟩⟩
    rw [List.length_append]
    exact here

/-- What is done by a step and after it. -/
theorem Step.account {later : List Act} (step : w.Step c acts (.ok c')) (sound : c.Sound w)
    (rest : c'.Account w later) : c.Account w (acts ++ later) := by
  cases step with
  | skip | close => exact rest.earlier rfl fun u waiting => ⟨u, waiting, rfl, le_rfl⟩
  | visit _ _ registers =>
    obtain ⟨unknown, grown⟩ := not_mem_of_register registers
    exact rest.visit unknown grown rfl rfl
  | @descend registry n callers label start left more =>
    have apart := (List.nodup_cons.mp sound.distinct).1
    have first : (n.owner, n.done.length) ∉ Act.nested later := by
      refine rest.not_again (sound.known _ List.mem_cons_self) fun u waiting same => ?_
      rcases List.mem_cons.mp waiting with rfl | waiting
      · exact Nat.lt_succ_self _
      · exact absurd (List.mem_map.mpr ⟨u, waiting, same⟩) apart
    have declared : n.done.length < (w.state n.owner).nestedStarts.length := by
      have left := sound.left _ List.mem_cons_self
      by_contra none
      rw [List.drop_eq_nil_of_le (Nat.le_of_not_lt none), more] at left
      cases left
    have earlier : Config.Account w ⟨registry, .nest n, callers⟩ later := by
      refine rest.earlier rfl fun u waiting => ?_
      rcases List.mem_cons.mp waiting with rfl | waiting
      · exact ⟨_, List.mem_cons_self, rfl, Nat.le_succ _⟩
      · exact ⟨u, List.mem_cons_of_mem _ waiting, rfl, le_rfl⟩
    exact earlier.nest first List.mem_cons_self declared
  | resume =>
    exact rest.earlier rfl fun u waiting => ⟨u, List.mem_cons_of_mem _ waiting, rfl, le_rfl⟩
  | ascend =>
    refine rest.earlier rfl fun u waiting => ?_
    rcases List.mem_cons.mp waiting with rfl | waiting
    · exact ⟨_, List.mem_cons_self, rfl, by simp⟩
    · exact ⟨u, List.mem_cons_of_mem _ waiting, rfl, le_rfl⟩

theorem Step.registered (step : w.Step c acts (.ok c')) :
    c'.registered = c.registered ++ Act.registered acts := by
  cases step with
  | visit _ _ registers => exact (not_mem_of_register registers).2
  | _ => exact (List.append_nil _).symm

/-- What is done up to a fault is a registration and a validation at most. -/
theorem Step.account_of_error {fault : Fault} (step : w.Step c acts (.error fault)) :
    c.Account w acts := by
  cases step with
  | invalid _ _ registers =>
    obtain ⟨unknown, -⟩ := not_mem_of_register registers
    constructor <;> simp [Act.registered, Act.validated, Act.nested]
    exact unknown
  | _ => exact Config.account_nil w _

theorem Ends.account (ends : w.Ends c acts outcome) (sound : c.Sound w) :
    c.Account w acts ∧ ∀ r, outcome = .ok r →
      r.1.map (·.state) = c.registered ++ Act.registered acts := by
  induction ends with
  | finish =>
    refine ⟨Config.account_nil w _, ?_⟩
    rintro r ⟨⟩
    exact (List.append_nil _).symm
  | fail step => exact ⟨step.account_of_error, fun r same => by cases same⟩
  | step step _ ih =>
    obtain ⟨account, registry⟩ := ih (step.sound sound)
    refine ⟨step.account sound account, fun r same => ?_⟩
    rw [registry r same, step.registered, List.append_assoc, Act.registered_append]

/-- Compiling ends, whatever leads where and whatever runs what, with a result or a fault: step by
step, without a bound on the steps, it comes to one end, which is what `compile` comes to. Until
then every state is registered at most once and validated when it is registered, and the levels
that are opened are each declared by a registered state and opened once. -/
theorem compilation_ends (w : Workspace) (label : String) (start : StateId) :
    ∃ acts outcome, w.Ends ⟨[], beginning label start, []⟩ acts outcome ∧
      (∀ acts' outcome', w.Ends ⟨[], beginning label start, []⟩ acts' outcome' →
        acts' = acts ∧ outcome' = outcome) ∧
      w.compile label start = (fun r => ⟨r.2.entries, r.1⟩) <$> outcome ∧
      outcome ≠ .error .exhausted ∧
      (Act.registered acts).Nodup ∧ Act.validated acts = Act.registered acts ∧
      (Act.nested acts).Nodup ∧
      (∀ o ∈ Act.nested acts, o.1 ∈ Act.registered acts ∧
        o.2 < (w.state o.1).nestedStarts.length) ∧
      ∀ r, outcome = .ok r → r.1.map (·.state) = Act.registered acts := by
  have ends : ∃ acts, w.Ends ⟨[], beginning label start, []⟩ acts
      (w.compileLevel label [] start) := by
    have leads : w.Leads ⟨[], beginning label start, []⟩ (_ <$> w.compileLevel label [] start) :=
      w.leads_compileBy fun callers =>
        leads_walk ⟨label, start, [], [start]⟩ (Nat.lt_succ_of_le (w.card_unregistered_le []))
    cases outcome : w.compileLevel label [] start with
    | error fault =>
      rw [outcome] at leads
      exact leads
    | ok r =>
      rw [outcome] at leads
      exact leads _ ⟨[], .finish⟩
  obtain ⟨acts, ends⟩ := ends
  have sound : Config.Sound w ⟨[], beginning label start, []⟩ := by
    constructor <;> simp [Config.unfinished, beginning]
  obtain ⟨account, registry⟩ := ends.account sound
  refine ⟨acts, _, ends, fun acts' outcome' ends' => ends'.unique ends, ?_,
    compileLevel_ne_exhausted, account.once, account.validated, account.apart, ?_, registry⟩
  · rw [compile]
    cases w.compileLevel label [] start <;> rfl
  · intro o opened
    refine ⟨?_, account.declared o opened⟩
    rcases account.owned o opened with registered | ⟨u, ⟨⟩, -⟩
    exact registered

/-- A state whose branch starts at the state itself is found to belong to two levels. -/
example :
    let again : State :=
      { scope := ⟨0⟩, id := "again", path := "loop/again", name := "Again", common := {}
        kind := .parallel {} [⟨0⟩], exit := .stop }
    compile { states := #[again] } "loop" ⟨0⟩ =
      .error (.misconfigured "Again" (.shared "loop / Again branch 1" "loop")) := rfl

end Workspace
end Workflow
