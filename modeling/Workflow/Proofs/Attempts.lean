import Mathlib.Logic.Function.Basic
import Workflow.Proofs.Positions

/-!
Attempts. A graph is compiled step by step and holds at once what every step has found, so that an
attempt that fails leaves what it held by then: names that were registered and levels that were
compiled. The next attempt drops what it finds before it begins. Hence attempts come to what
compiling comes to that starts from nothing, whatever is left of those before. The two are compared
step by step, with what is held left arbitrary but for what the steps so far must have put there.
-/

namespace Workflow

/-- What a graph holds: the registry, the levels nested in its states and, when all went well, its
members. -/
structure Holding where
  registry : Registry := []
  nested : StateId → List Level := fun _ => []
  members : Option (List Member) := none

/-- The steps of an attempt. What a step changes before it fails stays changed. -/
abbrev Compiling := EStateM Fault Holding

namespace Holding

/-- Members with the levels that are held for them. -/
def unfolded (h : Holding) (members : List Member) : Members :=
  members.map fun m => (m, h.nested m.state)

/-- Holds one more level for a state. -/
def hold (h : Holding) (s : StateId) (level : Level) : Holding :=
  { h with nested := Function.update h.nested s (h.nested s ++ [level]) }

end Holding

/-- Members without the levels that they run. -/
def Level.bare (members : List Member) : Members := members.map fun m => (m, [])

namespace Compiling

def lift {α : Type} : Except Fault α → Compiling α
  | .ok a => pure a
  | .error fault => throw fault

/-- Compiles a level for a state. The level holds what is its own and shares the registry, whether
it comes about or not. -/
def nest (compile : String → StateId → Compiling (List Member)) (s : StateId) (label : String)
    (start : StateId) : Compiling Unit := fun h =>
  match compile label start { registry := h.registry } with
  | .ok members inner =>
    .ok () ({ h with registry := inner.registry }.hold s
      (.node ⟨start, label, none⟩ (inner.unfolded members)))
  | .error fault inner => .error fault { h with registry := inner.registry }

def nestAll (compile : String → StateId → Compiling (List Member)) (s : StateId) :
    List (String × StateId) → Compiling Unit
  | [] => pure ()
  | (label, start) :: rest => do
    nest compile s label start
    nestAll compile s rest

def register (w : Workspace) (label : String) (s : StateId) : Compiling Unit := do
  let h ← get
  let registry ← lift (w.register label h.registry s)
  set { h with registry }

/-- Compiles what starts at a state. Nothing that was nested before stays. -/
def compileBy (w : Workspace)
    (find : String → List Member → List StateId → Compiling (List Member))
    (label : String) (start : StateId) : Compiling (List Member) := do
  modify fun h => { h with nested := fun _ => [] }
  let members ← find label [] [start]
  lift (w.resolveLevel label (Level.bare members))
  modify fun h => { h with members := some members }
  return members

def walk (w : Workspace) : (fuel : Nat) → (label : String) → (found : List Member) →
    (pending : List StateId) → Compiling (List Member)
  | 0, _, _, _ => throw .exhausted
  | fuel + 1, label, found, pending =>
    match pending.dropWhile (w.lists (Level.bare found)) with
    | [] => pure found
    | s :: pending => do
      let state := w.state s
      register w label s
      lift state.validate
      nestAll (compileBy w (walk w fuel)) s (state.nestedGraphs label)
      let found := found ++ [⟨state.name, s⟩]
      let targets := state.successors.filter fun t => !w.lists (Level.bare found) t
      walk w fuel label found (targets ++ pending)

/-- The members of a graph. It is compiled, with a registry of its own, unless that was done
before. -/
def ensure (w : Workspace) (label : String) (start : StateId) : Compiling (List Member) := fun h =>
  match h.members with
  | some members => .ok members h
  | none => compileBy w (walk w (w.states.size + 1)) label start { h with registry := [] }

/-- What a graph answers that is asked what it is compiled to. -/
def ask (w : Workspace) (label : String) (start : StateId) : Compiling Compiled := do
  let members ← ensure w label start
  let h ← get
  return ⟨h.unfolded members, h.registry⟩

/-- Whether steps come to what a computation comes to that holds nothing: both to values that are
related, or both to the same fault, in which case there are no members still. -/
def Agrees {α β : Type} (R : α → Holding → β → Prop) :
    EStateM.Result Fault Holding α → Except Fault β → Prop
  | .ok a h, .ok b => R a h b
  | .error fault h, .error other => fault = other ∧ h.members = none
  | _, _ => False

section Agreement

variable {α β γ δ : Type} {h : Holding}

theorem Agrees.bind {R : α → Holding → β → Prop} {S : γ → Holding → δ → Prop} {m : Compiling α}
    {p : Except Fault β} {next : α → Compiling γ} {next' : β → Except Fault δ}
    (first : Agrees R (m h) p)
    (rest : ∀ {a h' b}, R a h' b → Agrees S (next a h') (next' b)) :
    Agrees S ((m >>= next) h) (p >>= next') := by
  cases outcome : m h with
  | error fault left =>
    cases p with
    | error other => simpa [Bind.bind, EStateM.bind, Except.bind, outcome, Agrees] using first
    | ok b => simp [outcome, Agrees] at first
  | ok a left =>
    cases p with
    | error other => simp [outcome, Agrees] at first
    | ok b =>
      rw [outcome] at first
      simpa [Bind.bind, EStateM.bind, Except.bind, outcome] using rest first

theorem Agrees.lift {outcome : Except Fault α} (unlisted : h.members = none) :
    Agrees (fun a h' b => a = b ∧ outcome = .ok b ∧ h' = h) (Compiling.lift outcome h) outcome := by
  cases outcome with
  | error fault => exact ⟨rfl, unlisted⟩
  | ok a => exact ⟨rfl, rfl, rfl⟩

theorem Agrees.mono {R S : α → Holding → β → Prop} {result : EStateM.Result Fault Holding α}
    {p : Except Fault β} (agrees : Agrees R result p) (rest : ∀ {a h' b}, R a h' b → S a h' b) :
    Agrees S result p := by
  unfold Agrees at *
  split <;> simp_all

theorem Agrees.map {R : α → Holding → β → Prop} {S : α → Holding → γ → Prop}
    {result : EStateM.Result Fault Holding α} {p : Except Fault β} {f : β → γ}
    (first : Agrees R result p) (rest : ∀ {a h' b}, R a h' b → S a h' (f b)) :
    Agrees S result (p >>= fun b => .ok (f b)) := by
  cases result with
  | error fault left =>
    cases p with
    | error other => exact first
    | ok b => exact first.elim
  | ok a left =>
    cases p with
    | error other => exact first.elim
    | ok b => exact rest first

theorem Agrees.outcome {R : α → Holding → α → Prop} {result : EStateM.Result Fault Holding α}
    {p : Except Fault α} (agrees : Agrees R result p) (same : ∀ {a h' b}, R a h' b → a = b) :
    Outcome.of result = p := by
  cases result with
  | error fault left =>
    cases p with
    | error other => exact congrArg _ agrees.1
    | ok b => exact agrees.elim
  | ok a left =>
    cases p with
    | error other => exact agrees.elim
    | ok b => exact congrArg _ (same agrees)

theorem Agrees.unlisted {R : α → Holding → β → Prop} {fault : Fault} {p : Except Fault β}
    (agrees : Agrees R (.error fault h) p) : h.members = none := by
  cases p with
  | error other => exact agrees.2
  | ok b => exact agrees.elim

end Agreement

section Steps

variable {w : Workspace} {label : String} {registry : Registry} {h : Holding}

theorem lists_bare {members : List Member} {found : Members} (same : members = found.map (·.1)) :
    w.lists (Level.bare members) = w.lists found := by
  funext s
  simp only [Workspace.lists, Level.named?, Level.bare, same, List.find?_map, Option.map_map,
    Function.comp_def]
  rfl

theorem resolveLevel_bare {members : List Member} {found : Members}
    (same : members = found.map (·.1)) :
    w.resolveLevel label (Level.bare members) = w.resolveLevel label found := by
  simp only [Workspace.resolveLevel, Level.bare, same, List.map_map, List.forM_eq_forM,
    List.forM_map, List.any_map, Function.comp_def]

/-- What compiling a level leaves: the level is what is held, for the states that were registered
besides those before. -/
structure Yields (label : String) (registry : Registry) (start : StateId) (members : List Member)
    (h : Holding) (compiled : Registry × Level) : Prop where
  entered : h.registry = compiled.1
  level : compiled.2 = .node ⟨start, label, none⟩ (h.unfolded members)
  listed : h.members = some members
  grown : registry ⊆ compiled.1

section Nesting

variable {compile : String → StateId → Compiling (List Member)}
  {compile' : String → Registry → StateId → Except Fault (Registry × Level)}
  (same : ∀ {label start} {h : Holding}, h.members = none →
    Agrees (Yields label h.registry start) (compile label start h)
      (compile' label h.registry start))

include same

theorem nest_agrees (unlisted : h.members = none) (s start : StateId) :
    Agrees (fun _ h' c => h' = { h with registry := c.1 }.hold s c.2 ∧ h.registry ⊆ c.1)
      (nest compile s label start h) (compile' label h.registry start) := by
  have inner : Agrees (Yields label h.registry start)
    (compile label start { registry := h.registry }) (compile' label h.registry start) := same rfl
  rw [nest]
  cases outcome : compile label start { registry := h.registry } with
  | error fault left =>
    rw [outcome] at inner
    cases pure : compile' label h.registry start with
    | error other =>
      rw [pure] at inner
      exact ⟨inner.1, unlisted⟩
    | ok c =>
      rw [pure] at inner
      exact inner.elim
  | ok members left =>
    rw [outcome] at inner
    cases pure : compile' label h.registry start with
    | error other =>
      rw [pure] at inner
      exact inner.elim
    | ok c =>
      rw [pure] at inner
      exact ⟨by rw [inner.level, inner.entered], inner.grown⟩

theorem nestAll_agrees (unlisted : h.members = none) (s : StateId)
    (graphs : List (String × StateId)) :
    Agrees (fun _ h' c => h'.registry = c.1 ∧ h.registry ⊆ c.1 ∧ h'.members = none ∧
        h'.nested = Function.update h.nested s (h.nested s ++ c.2))
      (nestAll compile s graphs h) (Workspace.compileLevels compile' h.registry graphs) := by
  induction graphs generalizing h with
  | nil => exact ⟨rfl, List.Subset.refl _, unlisted, by simp⟩
  | cons graph graphs ih =>
    obtain ⟨label, start⟩ := graph
    refine (nest_agrees same unlisted s start).bind ?_
    rintro ⟨⟩ h' ⟨registry, level⟩ ⟨rfl, first⟩
    have rest := ih (h := { h with registry }.hold s level) unlisted
    refine rest.map (f := fun c => (c.1, level :: c.2)) ?_
    rintro ⟨⟩ h'' ⟨registry', levels⟩ ⟨known, later, unlisted, nested⟩
    refine ⟨known, List.Subset.trans first later, unlisted, ?_⟩
    rw [nested]
    simp [Holding.hold]

end Nesting

/-- Whether what is held is what the steps so far have found. -/
structure Follows (h : Holding) (registry : Registry) (found : Members) : Prop where
  entered : h.registry = registry
  nested : h.nested = Level.nestedIn found
  unlisted : h.members = none
  known : ∀ s ∈ Level.states found, ∃ r ∈ registry, r.state = s
  distinct : (Level.states found).Nodup

theorem Follows.unfolded {found : Members} (follows : Follows h registry found) :
    h.unfolded (found.map (·.1)) = found := by
  have each : ∀ e ∈ found, (e.1, h.nested e.1.state) = e := by
    intro e entry
    obtain ⟨e', entry', state, nested⟩ :=
      Level.nestedIn_eq (Level.mem_states.mpr ⟨e, entry, rfl⟩)
    obtain rfl := List.inj_on_of_nodup_map follows.distinct entry' entry state
    rw [follows.nested, nested]
  rw [Holding.unfolded, List.map_map]
  exact (List.map_congr_left each).trans (List.map_id _)

/-- A state that is registered is held with the levels that are nested in it. -/
theorem Follows.append {found : Members} {entered explored : Registry} {s : StateId}
    {levels : List Level} {h' : Holding} (follows : Follows h registry found)
    (registered : w.register label registry s = .ok entered) (grown : entered ⊆ explored)
    (known : h'.registry = explored) (unlisted : h'.members = none)
    (nested : h'.nested = Function.update h.nested s (h.nested s ++ levels)) :
    Follows h' explored (found ++ [(⟨(w.state s).name, s⟩, levels)]) := by
  obtain ⟨newState, -, -, rfl⟩ := Workspace.register_eq_ok.mp registered
  have new : s ∉ Level.states found := by
    intro listed
    obtain ⟨r, member, same⟩ := follows.known s listed
    exact newState r member same
  have none : found.find? (fun e => e.1.state = s) = none := by
    simpa [Level.mem_states] using new
  constructor
  case entered => exact known
  case unlisted => exact unlisted
  case nested =>
    funext t
    rw [nested, follows.nested, Function.update_apply]
    by_cases same : t = s
    · subst same
      simp [Level.nestedIn, none]
    · simp [Level.nestedIn, same, Ne.symm same]
  case known =>
    rw [Level.states_append, List.forall_mem_append]
    constructor
    · intro t listed
      obtain ⟨r, member, same⟩ := follows.known t listed
      exact ⟨r, grown (List.mem_append_left _ member), same⟩
    · intro t here
      obtain rfl : t = s := by simpa [Level.states] using here
      exact ⟨_, grown (List.mem_append_right _ List.mem_cons_self), rfl⟩
  case distinct =>
    rw [Level.states_append, List.nodup_append]
    refine ⟨follows.distinct, List.nodup_singleton _, ?_⟩
    rintro t listed t' here rfl
    obtain rfl : t = s := by simpa [Level.states] using here
    exact new listed

theorem register_agrees (unlisted : h.members = none) (label : String) (s : StateId) :
    Agrees (fun _ h' c => h' = { h with registry := c } ∧ w.register label h.registry s = .ok c)
      (register w label s h) (w.register label h.registry s) := by
  change Agrees _ ((lift _ >>= fun registry => set { h with registry }) h) _
  cases registered : w.register label h.registry s with
  | error fault => exact ⟨rfl, unlisted⟩
  | ok entered => exact ⟨rfl, rfl⟩

/-- What a walk leaves: the members that it found are held with the levels that they run. -/
structure Finds (registry : Registry) (members : List Member) (h : Holding)
    (found : Registry × Members) : Prop where
  listed : members = found.2.map (·.1)
  grown : registry ⊆ found.1
  follows : Follows h found.1 found.2

theorem compileBy_agrees {find : String → List Member → List StateId → Compiling (List Member)}
    {find' : String → Registry → Members → List StateId → Except Fault (Registry × Members)}
    (same : ∀ {label : String} {pending : List StateId} {h : Holding}, Follows h h.registry [] →
      Agrees (Finds h.registry) (find label [] pending h) (find' label h.registry [] pending))
    {start : StateId} (unlisted : h.members = none) :
    Agrees (Yields label h.registry start) (compileBy w find label start h)
      (w.compileBy find' label h.registry start) := by
  have empty : Follows { h with nested := fun _ => [] } h.registry [] :=
    ⟨rfl, rfl, unlisted, by simp [Level.states], List.nodup_nil⟩
  refine (same empty).bind ?_
  rintro members h' ⟨registry', found⟩ ⟨listed, grown, follows⟩
  dsimp only
  rw [← resolveLevel_bare listed]
  refine (Agrees.lift follows.unlisted).bind ?_
  rintro ⟨⟩ h'' ⟨⟩ ⟨-, -, rfl⟩
  constructor
  case entered => exact follows.entered
  case level => exact congrArg _ (listed ▸ follows.unfolded).symm
  case listed => rfl
  case grown => exact grown

theorem walk_agrees {fuel : Nat} {found : Members} {pending : List StateId}
    (follows : Follows h h.registry found) :
    Agrees (Finds h.registry) (walk w fuel label (found.map (·.1)) pending h)
      (w.walk fuel label h.registry found pending) := by
  induction fuel generalizing label found pending h with
  | zero => exact ⟨rfl, follows.unlisted⟩
  | succ fuel ih =>
    rw [walk, Workspace.walk, lists_bare rfl]
    cases pending.dropWhile (w.lists found) with
    | nil => exact ⟨rfl, List.Subset.refl _, follows⟩
    | cons s rest =>
      refine (register_agrees follows.unlisted label s).bind ?_
      rintro ⟨⟩ _ entered ⟨rfl, registered⟩
      have unlisted : ({ h with registry := entered } : Holding).members = none := follows.unlisted
      refine (Agrees.lift unlisted).bind ?_
      rintro ⟨⟩ _ ⟨⟩ ⟨-, -, rfl⟩
      have below {label : String} {start : StateId} {h : Holding} (unlisted : h.members = none) :
          Agrees (Yields label h.registry start) (compileBy w (walk w fuel) label start h)
            (w.compileBy (w.walk fuel) label h.registry start) :=
        compileBy_agrees ih unlisted
      refine (nestAll_agrees below unlisted s ((w.state s).nestedGraphs label)).bind ?_
      rintro ⟨⟩ h' ⟨explored, levels⟩ ⟨rfl, grown, unlisted, nested⟩
      have extended := follows.append registered grown rfl unlisted nested
      have listed : found.map (·.1) ++ [⟨(w.state s).name, s⟩] =
          List.map (·.1) (found ++ [((⟨(w.state s).name, s⟩ : Member), levels)]) := by
        rw [List.map_append, List.map_singleton]
      dsimp only at grown ⊢
      rw [listed, lists_bare rfl]
      refine (ih extended).mono ?_
      rintro members h'' c ⟨same, later, follows⟩
      obtain ⟨-, -, -, rfl⟩ := Workspace.register_eq_ok.mp registered
      have entered : h.registry ⊆ h'.registry :=
        List.Subset.trans (List.subset_append_left _ _) grown
      exact ⟨same, List.Subset.trans entered later, follows⟩

theorem compileBy_walk_agrees {fuel : Nat} {start : StateId} (unlisted : h.members = none) :
    Agrees (Yields label h.registry start) (compileBy w (walk w fuel) label start h)
      (w.compileBy (w.walk fuel) label h.registry start) :=
  compileBy_agrees walk_agrees unlisted

theorem ask_of_listed {members : List Member} (listed : h.members = some members)
    (start : StateId) : ask w label start h = .ok ⟨h.unfolded members, h.registry⟩ h := by
  change (ensure w label start >>= fun _ => _) h = _
  simp only [Bind.bind, EStateM.bind, ensure, listed]
  rfl

/-- A graph that was not compiled before is asked in vain or answers what it is compiled to. From
then on it answers the same, whatever becomes of its states. -/
theorem ask_agrees {start : StateId} (unlisted : h.members = none) :
    Agrees (fun c h' c' => c = c' ∧ ∀ v, ask v label start h' = .ok c h')
      (ask w label start h) (w.compile label start) := by
  have anew : Agrees (Yields label [] start) (ensure w label start h)
      (w.compileLevel label [] start) := by
    simp only [ensure, unlisted]
    exact compileBy_walk_agrees rfl
  refine anew.bind ?_
  rintro members h' ⟨_, _⟩ ⟨rfl, rfl, listed, -⟩
  exact ⟨rfl, fun v => ask_of_listed listed start⟩

end Steps

/-- What a graph may hold that was asked in vain, any number of times and whatever was done in
between. -/
inductive Attempted (label : String) (start : StateId) : Holding → Prop
  | new : Attempted label start {}
  | failed {w : Workspace} {h h' : Holding} {fault : Fault} : Attempted label start h →
      ask w label start h = .error fault h' → Attempted label start h'

theorem Attempted.unlisted {label : String} {start : StateId} {h : Holding}
    (attempted : Attempted label start h) : h.members = none := by
  induction attempted with
  | new => rfl
  | @failed w h h' fault _ failed ih =>
    have agrees : Agrees _ (ask w label start h) (w.compile label start) := ask_agrees ih
    rw [failed] at agrees
    exact agrees.unlisted

/-- A graph that was asked in vain before answers what a new one answers, or fails as it does. -/
theorem Attempted.outcome {label : String} {start : StateId} {h : Holding}
    (attempted : Attempted label start h) (w : Workspace) :
    Outcome.of (ask w label start h) = w.compile label start :=
  (ask_agrees attempted.unlisted).outcome And.left

end Compiling
end Workflow
