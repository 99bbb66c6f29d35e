import Mathlib.Logic.Relation
import Workflow.Proofs.Access
import Workflow.Proofs.History
import Workflow.Proofs.Outcome

/-!
What edits do. An edit gives a state another name or is a sequence of changes to single scopes and
states, however far it gets before it fails. Every change says under which condition it is made.
-/

namespace Workflow

namespace State

/-- The states that a state refers to by identity, by its transitions and as starts. -/
def references (s : State) : List StateId := s.successors ++ s.nestedStarts

/-- A state that can be given a way out: it has none that it would lose, and does not end a path. -/
structure Open (s : State) : Prop where
  unset : s.onward = none
  unstopped : s.isStopped = true → s.type? = some .choice
  lasting : s.isTerminal = false

/-- A change to what a state does and where it leads, which makes it refer to `known` states
only. -/
inductive Change (known : StateId → Prop) (s : State) : State → Prop
  | wire (target : Target) : s.Open → (∀ t, target = .state t → known t) →
      Change known s { s with exit := .next target }
  | stop : s.Open → s.type? ≠ some .choice → Change known s { s with exit := .stop }
  | retry (retry : Retry) : s.canFail = true → retry.backoffRate.belowOne = false →
      Change known s { s with retries := s.retries ++ [retry] }
  | handle (handler : Catch Target) : s.canFail = true →
      (∀ t, handler.target = .state t → known t) →
      Change known s { s with catches := s.catches ++ [handler] }
  | rule {rules : List (Rule Target)} {tails : List StateId} (rule : Rule Target)
      (more : List StateId) : s.kind = .choice rules tails → rule.condition.Made →
      (∀ t, rule.target = .state t → known t) → (∀ t ∈ more, t ∈ tails ∨ known t) →
      Change known s { s with kind := .choice (rules ++ [rule]) more }
  | tails {rules : List (Rule Target)} {tails : List StateId} (more : List StateId) :
      s.kind = .choice rules tails → (∀ t ∈ more, t ∈ tails ∨ known t) →
      Change known s { s with kind := .choice rules more }
  | branches {fields : ParallelFields} {branches : List StateId} (starts : List StateId) :
      s.kind = .parallel fields branches → (∀ start ∈ starts, known start) →
      Change known s { s with kind := .parallel fields (branches ++ starts) }
  | iterator {fields : MapFields} (start : StateId) : s.kind = .map fields none → known start →
      Change known s { s with kind := .map fields (some start) }

/-- A state as it is when it is defined. -/
structure New (s : State) (c : ScopeId) : Prop where
  scope : s.scope = c
  kind : ∃ description : Description, s.kind = description.kind
  exit : s.exit = .unset
  retries : s.retries = []
  catches : s.catches = []

end State

namespace Workspace

variable {w v : Workspace}

/-- The workspace with a state defined in a scope. -/
def define (w : Workspace) (c : ScopeId) (s : State) : Workspace :=
  { w with states := w.states.push s }.setScope c ((w.scope c).define s.name ⟨w.states.size⟩)

def rename (w : Workspace) (s : StateId) (name : String) : Workspace :=
  w.setState s { w.state s with name }

/-- A change to scopes and states that leaves the names of states alone. -/
inductive Change (w : Workspace) : Workspace → Prop
  | allocate {id granted : String} {scope : Scope} (c : ScopeId) :
      (w.scope c).allocate id = .ok (granted, scope) → Change w (w.setScope c scope)
  | scope (scope : Scope) : scope.states = [] → scope.names = [] →
      Change w { w with scopes := w.scopes.push scope }
  | define {c : ScopeId} {s : State} : w.HasScope c → s.New c → Change w (w.define c s)
  | state {new : State} (s : StateId) : (w.state s).Change w.HasState new →
      Change w (w.setState s new)

abbrev Changes : Workspace → Workspace → Prop := Relation.ReflTransGen Change

theorem hasState_setState {s t : StateId} {new : State} :
    (w.setState s new).HasState t ↔ w.HasState t := by
  simp [HasState, setState]

theorem Change.hasState {s : StateId} (change : w.Change v) (known : w.HasState s) :
    v.HasState s := by
  cases change with
  | allocate | scope => exact known
  | define => exact Nat.lt_of_lt_of_le known (by simp [Workspace.define, setScope])
  | state => exact hasState_setState.mpr known

theorem Change.hasScope {c : ScopeId} (change : w.Change v) (known : w.HasScope c) :
    v.HasScope c := by
  cases change with
  | allocate | define => simpa [HasScope, Workspace.define, setScope] using known
  | scope => exact Nat.lt_of_lt_of_le known (by simp)
  | state => exact known

theorem Change.graphs (change : w.Change v) : v.graphs = w.graphs := by
  cases change <;> rfl

theorem Changes.hasState {s : StateId} (changes : w.Changes v) (known : w.HasState s) :
    v.HasState s := by
  induction changes with
  | refl => exact known
  | tail _ change ih => exact change.hasState ih

theorem Changes.hasScope {c : ScopeId} (changes : w.Changes v) (known : w.HasScope c) :
    v.HasScope c := by
  induction changes with
  | refl => exact known
  | tail _ change ih => exact change.hasScope ih

theorem Changes.graphs (changes : w.Changes v) : v.graphs = w.graphs := by
  induction changes with
  | refl => rfl
  | tail _ change ih => exact change.graphs.trans ih

theorem state_of_not_hasState {s : StateId} (unknown : ¬ w.HasState s) : w.state s = default := by
  rw [state, Array.getD_eq_getD_getElem?, Array.getElem?_eq_none (Nat.le_of_not_lt unknown)]
  rfl

theorem state_push (w : Workspace) (new : State) (s : StateId) :
    Workspace.state { w with states := w.states.push new } s =
      if s = ⟨w.states.size⟩ then new else w.state s := by
  obtain ⟨i⟩ := s
  simp only [state, Array.getD_eq_getD_getElem?, Array.getElem?_push, StateId.mk.injEq]
  split <;> rfl

theorem state_define (w : Workspace) (c : ScopeId) (new : State) (s : StateId) :
    (w.define c new).state s = if s = ⟨w.states.size⟩ then new else w.state s := by
  rw [define, state_setScope, state_push]

/-- What becomes of a state by a change to the workspace: it is new, or it is changed itself. -/
theorem Change.state_cases {P : State → State → Prop} (change : w.Change v)
    (same : ∀ s, P s s) (new : ∀ s c, s.New c → P default s)
    (step : ∀ s new, (w.state s).Change w.HasState new → P (w.state s) new) (s : StateId) :
    P (w.state s) (v.state s) := by
  cases change with
  | allocate | scope => exact same _
  | @define c fresh known isNew =>
    rw [state_define]
    split
    · rename_i last
      rw [state_of_not_hasState (by simp [HasState, last])]
      exact new fresh c isNew
    · exact same _
  | state t changed =>
    rw [state_setState]
    split
    · rename_i here
      rw [← here.1]
      exact step t _ changed
    · exact same _

/-- What becomes of a state by a renaming: it may be the one that is renamed. -/
theorem rename_cases {P : State → State → Prop} (w : Workspace) (same : ∀ s, P s s)
    (renamed : ∀ (s : State) (name : String), P s { s with name }) (s t : StateId) (name : String) :
    P (w.state t) ((w.rename s name).state t) := by
  rw [rename, state_setState]
  split
  · rename_i here
    rw [← here.1]
    exact renamed _ name
  · exact same _

/-- A target that a destination is resolved to is known if the destination is. -/
theorem known_of_resolve {destination : Destination} {target : Target} {openEnds : List StateId}
    (known : w.HasDestination destination)
    (resolved : w.resolve destination = .ok (target, openEnds)) :
    ∀ t, target = .state t → w.HasState t := by
  unfold resolve at resolved
  split at resolved
  case h_1 s =>
    cases resolved
    rintro t ⟨⟩
    exact known
  case h_2 c =>
    cases resolved
    rintro t ⟨⟩
    exact known.1
  case h_3 name =>
    split at resolved
    · cases resolved
    · cases resolved
      rintro t ⟨⟩
  case h_4 => cases resolved

theorem openEnds_subset (w : Workspace) (s : StateId) : ∀ t ∈ w.openEnds s, t = s := by
  intro t member
  rw [openEnds] at member
  split at member
  · cases member
  · exact List.mem_singleton.mp member

/-- Open ends that a destination brings with it are known if the destination is. -/
theorem known_openEnds_of_resolve {destination : Destination} {target : Target}
    {openEnds : List StateId} (known : w.HasDestination destination)
    (resolved : w.resolve destination = .ok (target, openEnds)) :
    ∀ t ∈ openEnds, w.HasState t := by
  unfold resolve at resolved
  split at resolved
  case h_1 s =>
    cases resolved
    exact fun t member => openEnds_subset w s t member ▸ known
  case h_2 c =>
    cases resolved
    exact known.2
  case h_3 name =>
    split at resolved
    · cases resolved
    · cases resolved
      rintro t ⟨⟩
  case h_4 => cases resolved

theorem open_of_checkUnwired {s : StateId} {attempt : Attempt}
    (ok : w.checkUnwired s attempt = .ok ()) : (w.state s).Open := by
  have free : w.wired? (w.state s) = none := by
    unfold checkUnwired at ok
    split at ok
    · cases ok
    · assumption
  unfold wired? at free
  split at free
  case h_1 => cases free
  case h_2 rules tails exit kind next =>
    refine ⟨?_, ?_, ?_⟩
    · unfold State.onward
      split
      · exact absurd ‹_› (next _)
      · rfl
    · intro
      rw [State.type?, kind, Kind.type?]
    · rw [State.isTerminal, State.type?, kind]
      rfl
  case h_3 => cases free
  case h_4 => cases free
  case h_5 unset _ =>
    refine ⟨?_, ?_, ?_⟩
    · rw [State.onward, unset]
    · rw [State.isStopped, unset]
      intro stopped
      cases stopped
    · rw [State.isTerminal]
      cases type : (w.state s).type? with
      | none => rfl
      | some t => simpa [type] using free

theorem open_of_checkStoppable {s : StateId} (ok : w.checkStoppable s = .ok ()) :
    (w.state s).Open ∧ (w.state s).type? ≠ some .choice := by
  unfold checkStoppable at ok
  split at ok
  case h_1 => cases ok
  case h_2 other =>
    refine ⟨open_of_checkUnwired ok, ?_⟩
    intro choice
    unfold State.type? Kind.type? at choice
    split at choice
    case h_4 rules tails kind => exact other rules tails kind
    all_goals cases choice

theorem canFail_of_checkCanFail {s : State} {what : String}
    (ok : Build.checkCanFail s what = .ok ()) : s.canFail = true := by
  unfold Build.checkCanFail at ok
  split at ok
  · assumption
  · split at ok <;> cases ok

end Workspace

namespace Build

open Workspace

variable {α β : Type} {w v : Workspace}

/-- Whether a computation makes a sequence of changes and nothing else. -/
def Makes (m : Build α) (w : Workspace) : Prop := w.Changes (m.after w)

theorem makes_pure (a : α) : Makes (pure a) w := .refl

theorem makes_throw (fault : Fault) : Makes (throw fault : Build α) w := .refl

theorem after_lift (outcome : Except Fault α) : (lift outcome).after w = w := by
  cases outcome <;> rfl

theorem after_get {next : Workspace → Build α} : (get >>= next).after w = (next w).after w := rfl

theorem makes_lift (outcome : Except Fault α) : Makes (lift outcome) w := by
  rw [Makes, after_lift]

/-- A sequence leaves what its first part leaves or what the rest makes of that. -/
theorem after_bind_cases (first : Build α) (next : α → Build β) (w : Workspace) :
    (first >>= next).after w = first.after w ∨ ∃ a, first w = .ok a (first.after w) ∧
      (first >>= next).after w = (next a).after (first.after w) := by
  unfold after
  cases outcome : first w with
  | error fault v => exact .inl (by simp only [bind, EStateM.bind, outcome])
  | ok a v => exact .inr ⟨a, rfl, by simp only [bind, EStateM.bind, outcome]⟩

theorem makes_bind {first : Build α} {next : α → Build β} (makes : Makes first w)
    (rest : ∀ a, first w = .ok a (first.after w) → Makes (next a) (first.after w)) :
    Makes (first >>= next) w := by
  rw [Makes] at makes ⊢
  rcases after_bind_cases first next w with same | ⟨a, ok, same⟩
  · rwa [same]
  · rw [same]
    exact makes.trans (rest a ok)

theorem makes_get {next : Workspace → Build α} (rest : Makes (next w) w) :
    Makes (get >>= next) w := rest

theorem makes_lift_bind {outcome : Except Fault α} {next : α → Build β}
    (rest : ∀ a, outcome = .ok a → Makes (next a) w) : Makes (lift outcome >>= next) w := by
  refine makes_bind (makes_lift outcome) ?_
  intro a ok
  rw [after_lift]
  exact rest a (lift_eq_ok.mp ok).1

theorem makes_modifyState {s : StateId} {f : State → State}
    (change : (w.state s).Change w.HasState (f (w.state s))) : Makes (modifyState s f) w :=
  .single (.state s change)

theorem makes_forM {items : List α} {f : α → Build Unit}
    (each : ∀ a ∈ items, ∀ v, w.Changes v → Makes (f a) v) : Makes (items.forM f) w := by
  induction items generalizing w with
  | nil => exact makes_pure ()
  | cons a items ih =>
    have first : Makes (f a) w := each a List.mem_cons_self w .refl
    refine makes_bind first ?_
    intro _ _
    apply ih
    intro b member v later
    exact each b (List.mem_cons_of_mem _ member) v (first.trans later)

theorem makes_allocate (c : ScopeId) (id : String) : Makes (allocate c id) w := by
  refine makes_get (makes_lift_bind ?_)
  rintro ⟨granted, scope⟩ ok
  exact .single (.allocate c ok)

theorem makes_scope (id : String) (parent : Option ScopeId) : Makes (scope id parent) w := by
  unfold scope
  by_cases empty : id.isEmpty = true
  · rw [if_pos empty]
    exact makes_throw _
  by_cases separated : '/' ∈ id.toList
  · rw [if_neg empty, if_pos separated]
    exact makes_throw _
  rw [if_neg empty, if_neg separated]
  cases parent with
  | none => exact .single (.scope _ rfl rfl)
  | some c =>
    refine makes_bind (makes_allocate c id) ?_
    intro granted _
    exact .single (.scope _ rfl rfl)

theorem makes_state {c : ScopeId} (known : w.HasScope c) (id : String) (name : Option String)
    (common : CommonFields) (description : Description) :
    Makes (state c id name common description) w := by
  refine makes_bind (makes_allocate c id) ?_
  intro granted _
  generalize allocated : (allocate c id).after w = v
  have known : v.HasScope c := by
    rw [← allocated]
    exact Changes.hasScope (makes_allocate c id) known
  have defined (path name : String) :
      v.Changes (v.define c
        { scope := c, id := granted, path, name, common, kind := description.kind }) :=
    .single (.define known ⟨rfl, ⟨description, rfl⟩, rfl, rfl, rfl⟩)
  -- A task whose resource is refused is defined all the same.
  cases description with
  | task resource fields => cases resource <;> exact defined _ _
  | _ => exact defined _ _

theorem makes_wire {s : StateId} {target : Target}
    (known : ∀ t, target = .state t → w.HasState t) : Makes (wire s target) w := by
  refine makes_get (makes_lift_bind ?_)
  intro _ unwired
  exact makes_modifyState (.wire target (open_of_checkUnwired unwired) known)

theorem kind_after_wire (s t : StateId) (target : Target) :
    (((wire s target).after w).state t).kind = (w.state t).kind := by
  change ((Build.after (lift (w.checkUnwired s (w.wiring s target)) >>= fun _ =>
    modifyState s ({ · with exit := .next target })) w).state t).kind = _
  cases w.checkUnwired s (w.wiring s target) with
  | error fault => rfl
  | ok =>
    change ((w.setState s { w.state s with exit := .next target }).state t).kind = _
    rw [state_setState]
    split
    · rename_i same
      rw [same.1]
    · rfl

theorem makes_stop (s : StateId) : Makes (stop s) w := by
  refine makes_get (makes_lift_bind ?_)
  intro _ stoppable
  obtain ⟨free, other⟩ := open_of_checkStoppable stoppable
  exact makes_modifyState (.stop free other)

theorem makes_wireTo {s : StateId} {destination : Destination}
    (known : w.HasDestination destination) : Makes (wireTo s destination) w := by
  refine makes_get (makes_lift_bind ?_)
  rintro ⟨target, openEnds⟩ resolved
  exact makes_wire (known_of_resolve known resolved)

theorem checkRate_eq_ok {state : String} {given : Json} {rate : Number} :
    checkRate state given = .ok rate ↔ given = .number rate ∧ rate.belowOne = false := by
  cases given with
  | number n =>
    cases least : n.belowOne
    · simp only [checkRate, least, Bool.false_eq_true, if_false, Except.ok.injEq,
        Json.number.injEq]
      exact ⟨fun same => ⟨same, same ▸ least⟩, And.left⟩
    · simp only [checkRate, least, if_true, reduceCtorEq, Json.number.injEq, false_iff, not_and]
      rintro rfl below
      rw [least] at below
      cases below
  | _ => simp [checkRate]

theorem makes_addRetry (s : StateId) (parts : Retry.Parts) : Makes (addRetry s parts) w := by
  refine makes_get (makes_lift_bind ?_)
  intro retry ok
  simp only [Outcome.bind_eq_ok] at ok
  obtain ⟨⟨⟩, able, _, -, _, -, rate, checked, _, -, made⟩ := ok
  cases made
  obtain ⟨-, least⟩ := checkRate_eq_ok.mp checked
  exact makes_modifyState (.retry _ (canFail_of_checkCanFail able) least)

theorem makes_addCatch {s : StateId} {destination : Destination}
    (known : w.HasDestination destination) (errors resultPath : Json) :
    Makes (addCatch s destination errors resultPath) w := by
  refine makes_get (makes_lift_bind ?_)
  intro handler ok
  simp only [Outcome.bind_eq_ok] at ok
  obtain ⟨⟨⟩, able, ⟨target, openEnds⟩, resolved, errors, -, made⟩ := ok
  cases made
  exact makes_modifyState
    (.handle _ (canFail_of_checkCanFail able) (known_of_resolve known resolved))

theorem after_choice (s : StateId) (operation : String) : (choice s operation).after w = w := by
  unfold choice
  rw [after_get]
  dsimp only
  cases (w.state s).kind <;> rfl

theorem kind_of_choice {s : StateId} {operation : String} {rules : List (Rule Target)}
    {tails : List StateId} (ok : choice s operation w = .ok (rules, tails) v) :
    (w.state s).kind = .choice rules tails := by
  simp only [choice, bind_eq_ok, get_eq_ok] at ok
  obtain ⟨_, _, ⟨rfl, rfl⟩, ok⟩ := ok
  cases kind : (w.state s).kind with
  | choice given held =>
    simp only [kind] at ok
    obtain ⟨⟨⟩, -⟩ := pure_eq_ok.mp ok
    rfl
  | _ =>
    simp only [kind] at ok
    cases ok

theorem makes_choice_bind {s : StateId} {operation : String}
    {next : List (Rule Target) × List StateId → Build α}
    (rest : ∀ rules tails, (w.state s).kind = .choice rules tails → Makes (next (rules, tails)) w) :
    Makes (choice s operation >>= next) w := by
  have unchanged : (choice s operation).after w = w := after_choice s operation
  refine makes_bind (by rw [Makes, unchanged]) ?_
  rintro ⟨rules, tails⟩ ok
  rw [unchanged]
  exact rest rules tails (kind_of_choice ok)

theorem mem_extend {tails openEnds : List StateId} {t : StateId} :
    t ∈ extend tails openEnds ↔ t ∈ tails ∨ t ∈ openEnds := by
  rw [extend]
  induction openEnds generalizing tails with
  | nil => simp
  | cons s openEnds ih =>
    rw [List.foldl_cons, ih, List.mem_cons]
    split
    · rename_i old
      constructor
      · exact fun member => member.imp_right .inr
      · rintro (member | rfl | member)
        · exact .inl member
        · exact .inl old
        · exact .inr member
    · rw [List.mem_append, List.mem_singleton, or_assoc]

theorem makes_addRule {s : StateId} {condition : Except String Condition}
    {destination : Destination} (known : w.HasDestination destination)
    (made : ∀ c, condition = .ok c → c.Made) : Makes (addRule s condition destination) w := by
  refine makes_choice_bind ?_
  intro rules tails kind
  cases condition with
  | error typeName => exact makes_throw _
  | ok condition =>
    refine makes_get (makes_lift_bind ?_)
    rintro ⟨target, openEnds⟩ resolved
    exact makes_modifyState
      (.rule ⟨condition, target⟩ _ kind (made condition rfl) (known_of_resolve known resolved)
        fun t member =>
          (mem_extend.mp member).imp_right (known_openEnds_of_resolve known resolved t))

theorem makes_setDefault {s : StateId} {destination : Destination}
    (known : w.HasDestination destination) : Makes (setDefault s destination) w := by
  refine makes_choice_bind ?_
  intro rules tails kind
  refine makes_get (makes_lift_bind ?_)
  rintro ⟨target, openEnds⟩ resolved
  have wired : Makes (wire s target) w := makes_wire (known_of_resolve known resolved)
  refine makes_bind wired ?_
  intro _ _
  have same : (((wire s target).after w).state s).kind = .choice rules tails := by
    rw [kind_after_wire, kind]
  refine makes_modifyState (.tails _ same ?_)
  intro t member
  refine (mem_extend.mp member).imp_right fun added => ?_
  exact Changes.hasState wired (known_openEnds_of_resolve known resolved t added)

theorem makes_addBranches {s : StateId} {starts : List StateId}
    (known : ∀ start ∈ starts, w.HasState start) : Makes (addBranches s starts) w := by
  refine makes_get ?_
  dsimp only
  split
  · rename_i fields branches kind
    exact makes_modifyState (.branches starts kind known)
  · exact makes_throw _

theorem makes_setIterator {s start : StateId} (known : w.HasState start) :
    Makes (setIterator s start) w := by
  refine makes_get ?_
  split
  · exact makes_throw _
  · rename_i fields kind
    exact makes_modifyState (.iterator start kind known)
  · exact makes_throw _

theorem after_checkContinuable (c : Chain) (attempt : Attempt) :
    (c.checkContinuable attempt).after w = w := by
  unfold Chain.checkContinuable
  split <;> rfl

theorem makes_checkContinuable_bind {c : Chain} {attempt : Attempt} {next : Unit → Build α}
    (rest : Makes (next ()) w) : Makes (c.checkContinuable attempt >>= next) w := by
  have unchanged := after_checkContinuable (w := w) c attempt
  refine makes_bind (by rw [Makes, unchanged]) ?_
  intro _ _
  rw [unchanged]
  exact rest

/-- Whatever is checked before and wherever the wiring stops, a chain is linked by changes. -/
theorem makes_next {c : Chain} {destination : Destination}
    (known : w.HasDestination destination) : Makes (c.next destination) w := by
  refine makes_checkContinuable_bind (makes_get (makes_lift_bind ?_))
  rintro ⟨target, openEnds⟩ resolved
  have checked : Makes (c.openEnds.forM fun s =>
      lift (w.checkUnwired s (.link (w.nameOf target)))) w :=
    makes_forM fun s _ v _ => makes_lift _
  refine makes_bind checked ?_
  intro _ _
  refine makes_bind (makes_forM ?_) ?_
  · intro s _ v later
    apply makes_wire
    intro t same
    exact Changes.hasState (checked.trans later) (known_of_resolve known resolved t same)
  · intro _ _
    exact makes_pure _

theorem makes_finish (c : Chain) : Makes c.finish w := by
  refine makes_checkContinuable_bind (makes_get (makes_bind ?_ ?_))
  · exact makes_forM fun s _ v _ => makes_lift _
  intro _ _
  refine makes_bind ?_ ?_
  · exact makes_forM fun s _ v _ => makes_stop s
  · intro _ _
    exact makes_pure _

end Build

namespace Workspace

/-- An edit that is no renaming makes changes, whether it succeeds or fails. -/
theorem changes_edit {w : Workspace} {e : Edit} (within : e.Within w)
    (other : ∀ s name, e ≠ .rename s name) : w.Changes (e.after w) := by
  cases e with
  | allocate c id => exact Build.makes_allocate c id
  | scope id parent => exact Build.makes_scope id parent
  | state c id name common description => exact Build.makes_state within id name common description
  | rename s name => exact absurd rfl (other s name)
  | wire s destination => exact Build.makes_wireTo within.2
  | stop s => exact Build.makes_stop s
  | retry s parts => exact Build.makes_addRetry s parts
  | handle s destination errors resultPath => exact Build.makes_addCatch within.2 errors resultPath
  | rule s condition destination =>
    refine Build.makes_addRule within.2 ?_
    intro c same
    cases condition with
    | error typeName => cases same
    | ok condition =>
      obtain rfl := Except.ok.inj same
      exact condition.2
  | otherwise s destination => exact Build.makes_setDefault within.2
  | branches s starts => exact Build.makes_addBranches within.2
  | iterator s start => exact Build.makes_setIterator within.2
  | next c destination => exact Build.makes_next within.2
  | finish c => exact Build.makes_finish c

variable {w : Workspace} {e : Edit}

theorem changes_or_rename (within : e.Within w) :
    w.Changes (e.after w) ∨ ∃ s name, e = .rename s name := by
  by_cases renames : ∃ s name, e = .rename s name
  · exact .inr renames
  · exact .inl (changes_edit within fun s name same => renames ⟨s, name, same⟩)

theorem graphs_edit (within : e.Within w) : (e.after w).graphs = w.graphs := by
  rcases changes_or_rename within with changes | ⟨s, name, rfl⟩
  · exact changes.graphs
  · rfl

theorem hasState_edit {s : StateId} (within : e.Within w) (known : w.HasState s) :
    (e.after w).HasState s := by
  rcases changes_or_rename within with changes | ⟨t, name, rfl⟩
  · exact changes.hasState known
  · exact hasState_setState.mpr known

end Workspace
end Workflow
