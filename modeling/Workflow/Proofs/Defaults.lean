import Workflow.Proofs.Footprint
import Workflow.Proofs.Frontier

/-!
The two ways to give a choice its default. Both make the same transition, but only the one that is
meant for it also adds the open ends of the default branch to the tails of the choice. Tails are
read for the frontier and for nothing else, so that from then on the same operations do the same on
both sides, and what comes after the choice differs by the ends of the default branch.
-/

namespace Workflow

/-- Whether a choice is another one with further tails. -/
def State.Exceeds (more : List StateId) (s t : State) : Prop :=
  ∃ rules tails tails', s = { t with kind := .choice rules tails } ∧
    t.kind = .choice rules tails' ∧ ∀ e, e ∈ tails ↔ e ∈ tails' ∨ e ∈ more

namespace Workspace

variable {α : Type} {u v : Workspace} {c s : StateId} {more : List StateId}

/-- Whether a workspace is another one apart from further tails of a choice, and from graphs. -/
structure Exceeds (u v : Workspace) (c : StateId) (more : List StateId) : Prop where
  scopes : u.scopes = v.scopes
  size : u.states.size = v.states.size
  known : v.HasState c
  choice : State.Exceeds more (u.state c) (v.state c)
  others : ∀ s, s ≠ c → u.state s = v.state s

theorem exceeds_setState {rules : List (Rule Target)} {tails tails' : List StateId}
    (known : v.HasState c) (kind : (v.state c).kind = .choice rules tails')
    (added : ∀ t, t ∈ tails ↔ t ∈ tails' ∨ t ∈ more) :
    (v.setState c { v.state c with kind := .choice rules tails }).Exceeds v c more where
  scopes := rfl
  size := Array.size_setIfInBounds
  known := known
  choice := by
    rw [state_setState_self known]
    exact ⟨rules, tails, tails', rfl, kind, added⟩
  others s apart := state_setState_of_ne apart.symm

namespace Exceeds

/-- What is read off states without their tails is the same. -/
theorem read_eq {f : State → α} (exceeds : u.Exceeds v c more)
    (untailed : ∀ (s : State) (rules : List (Rule Target)) (tails tails' : List StateId),
      s.kind = .choice rules tails' → f { s with kind := .choice rules tails } = f s)
    (s : StateId) : f (u.state s) = f (v.state s) := by
  by_cases here : s = c
  · subst here
    obtain ⟨rules, tails, tails', same, kind, -⟩ := exceeds.choice
    rw [same, untailed _ rules tails tails' kind]
  · rw [exceeds.others s here]

theorem name_eq (exceeds : u.Exceeds v c more) (s : StateId) :
    (u.state s).name = (v.state s).name :=
  exceeds.read_eq (fun _ _ _ _ _ => rfl) s

theorem exit_eq (exceeds : u.Exceeds v c more) (s : StateId) :
    (u.state s).exit = (v.state s).exit :=
  exceeds.read_eq (fun _ _ _ _ _ => rfl) s

theorem nameOf_eq (exceeds : u.Exceeds v c more) : u.nameOf = v.nameOf := by
  funext target
  cases target with
  | state s => exact exceeds.name_eq s
  | name => rfl

theorem type_eq (exceeds : u.Exceeds v c more) (s : StateId) :
    (u.state s).type? = (v.state s).type? := by
  refine exceeds.read_eq (f := State.type?) (fun s rules tails tails' kind => ?_) s
  rw [State.type?, State.type?, kind]
  rfl

theorem typeName_eq (exceeds : u.Exceeds v c more) (s : StateId) :
    (u.state s).typeName = (v.state s).typeName := by
  rw [State.typeName, State.typeName, exceeds.type_eq]

theorem isTerminal_eq (exceeds : u.Exceeds v c more) (s : StateId) :
    (u.state s).isTerminal = (v.state s).isTerminal := by
  rw [State.isTerminal, State.isTerminal, exceeds.type_eq]

theorem openEnds_eq (exceeds : u.Exceeds v c more) (s : StateId) : u.openEnds s = v.openEnds s := by
  rw [openEnds, openEnds, exceeds.isTerminal_eq]

theorem resolve_eq (exceeds : u.Exceeds v c more) (d : Destination) :
    u.resolve d = v.resolve d := by
  cases d with
  | state s => rw [resolve, resolve, exceeds.openEnds_eq]
  | _ => rfl

theorem choice_kinds (exceeds : u.Exceeds v c more) : ∃ rules tails tails',
    (u.state c).kind = .choice rules tails ∧ (v.state c).kind = .choice rules tails' ∧
      ∀ t, t ∈ tails ↔ t ∈ tails' ∨ t ∈ more := by
  obtain ⟨rules, tails, tails', same, kind, added⟩ := exceeds.choice
  exact ⟨rules, tails, tails', by rw [same], kind, added⟩

theorem kind_cases (exceeds : u.Exceeds v c more) (s : StateId) : u.state s = v.state s ∨
    ∃ rules tails tails', (u.state s).kind = .choice rules tails ∧
      (v.state s).kind = .choice rules tails' := by
  by_cases here : s = c
  · subst here
    obtain ⟨rules, tails, tails', kind, kind', -⟩ := exceeds.choice_kinds
    exact .inr ⟨rules, tails, tails', kind, kind'⟩
  · exact .inl (exceeds.others s here)

theorem checkUnwired_eq (exceeds : u.Exceeds v c more) (s : StateId) (attempt : Attempt) :
    u.checkUnwired s attempt = v.checkUnwired s attempt := by
  have names (s : State) : u.wired? s = v.wired? s := by
    rw [wired?, wired?, exceeds.nameOf_eq]
  have wired : v.wired? (u.state s) = v.wired? (v.state s) := by
    refine exceeds.read_eq (fun s rules tails tails' kind => ?_) s
    unfold wired?
    rw [kind]
    cases s.exit <;> rfl
  rw [checkUnwired, checkUnwired, names, wired, exceeds.name_eq]

theorem checkStoppable_eq (exceeds : u.Exceeds v c more) (s : StateId) :
    u.checkStoppable s = v.checkStoppable s := by
  rw [checkStoppable, checkStoppable, exceeds.checkUnwired_eq, exceeds.name_eq]
  rcases exceeds.kind_cases s with same | ⟨rules, tails, tails', here, there⟩
  · rw [same]
  · rw [here, there]

theorem wiring_eq (exceeds : u.Exceeds v c more) (s : StateId) (target : Target) :
    u.wiring s target = v.wiring s target := by
  rw [wiring, wiring, exceeds.nameOf_eq]
  rcases exceeds.kind_cases s with same | ⟨rules, tails, tails', here, there⟩
  · rw [same]
  · rw [here, there]

theorem setState (exceeds : u.Exceeds v c more) {x y : State}
    (choice : s = c → State.Exceeds more x y) (other : s ≠ c → x = y) :
    (u.setState s x).Exceeds (v.setState s y) c more where
  scopes := exceeds.scopes
  size := by simpa [Workspace.setState] using exceeds.size
  known := hasState_setState.mpr exceeds.known
  choice := by
    rw [state_setState, state_setState, exceeds.size]
    split
    · rename_i here
      exact choice here.1
    · exact exceeds.choice
  others t apart := by
    rw [state_setState, state_setState, exceeds.size, exceeds.others t apart]
    split
    · rename_i here
      exact other (here.1 ▸ apart)
    · rfl

theorem setScope (exceeds : u.Exceeds v c more) (d : ScopeId) (scope : Scope) :
    (u.setScope d scope).Exceeds (v.setScope d scope) c more where
  scopes := by rw [Workspace.setScope, Workspace.setScope, exceeds.scopes]
  size := exceeds.size
  known := exceeds.known
  choice := exceeds.choice
  others := exceeds.others

theorem pushScope (exceeds : u.Exceeds v c more) (scope : Scope) :
    Workspace.Exceeds { u with scopes := u.scopes.push scope }
      { v with scopes := v.scopes.push scope } c more where
  scopes := by rw [exceeds.scopes]
  size := exceeds.size
  known := exceeds.known
  choice := exceeds.choice
  others := exceeds.others

theorem pushState (exceeds : u.Exceeds v c more) (state : State) :
    Workspace.Exceeds { u with states := u.states.push state }
      { v with states := v.states.push state } c more := by
  have old : c ≠ ⟨v.states.size⟩ := fun same => v.not_hasState_next (same ▸ exceeds.known)
  constructor
  case scopes => exact exceeds.scopes
  case size => simpa using exceeds.size
  case known => exact Nat.lt_of_lt_of_le exceeds.known (by simp)
  case choice =>
    rw [state_push, state_push, exceeds.size, if_neg old, if_neg old]
    exact exceeds.choice
  case others =>
    intro s apart
    rw [state_push, state_push, exceeds.size, exceeds.others s apart]

end Exceeds
end Workspace

namespace Build

open Workspace

variable {α β : Type} {c s : StateId} {more : List StateId}

/-- Whether two computations do the same where a choice has further tails as where it has not: they
come to the same value or to the same fault. -/
def Parallel (c : StateId) (more : List StateId) (m m' : Build α) : Prop :=
  ∀ u v : Workspace, u.Exceeds v c more →
    (∃ a u' v', m u = .ok a u' ∧ m' v = .ok a v' ∧ u'.Exceeds v' c more) ∨
      ∃ fault u' v', m u = .error fault u' ∧ m' v = .error fault v' ∧ u'.Exceeds v' c more

theorem Parallel.after {m m' : Build α} (parallel : Parallel c more m m') {u v : Workspace}
    (exceeds : u.Exceeds v c more) : (m.after u).Exceeds (m'.after v) c more := by
  rcases parallel u v exceeds with ⟨a, u', v', ok, ok', later⟩ | ⟨fault, u', v', ok, ok', later⟩ <;>
    simpa only [Build.after, ok, ok'] using later

theorem parallel_pure (a : α) : Parallel c more (pure a) (pure a) :=
  fun u v exceeds => .inl ⟨a, u, v, rfl, rfl, exceeds⟩

theorem parallel_throw (fault : Fault) :
    Parallel c more (throw fault : Build α) (throw fault) :=
  fun u v exceeds => .inr ⟨fault, u, v, rfl, rfl, exceeds⟩

theorem parallel_lift (outcome : Except Fault α) :
    Parallel c more (lift outcome) (lift outcome) := by
  cases outcome with
  | ok a => exact parallel_pure a
  | error fault => exact parallel_throw fault

theorem parallel_bind {m m' : Build α} {next next' : α → Build β}
    (first : Parallel c more m m') (rest : ∀ a, Parallel c more (next a) (next' a)) :
    Parallel c more (m >>= next) (m' >>= next') := by
  intro u v exceeds
  rcases first u v exceeds with ⟨a, u', v', ok, ok', later⟩ | ⟨fault, u', v', ok, ok', later⟩
  · simpa only [bind, EStateM.bind, ok, ok'] using rest a u' v' later
  · exact .inr ⟨fault, u', v', by simp only [bind, EStateM.bind, ok],
      by simp only [bind, EStateM.bind, ok'], later⟩

theorem parallel_get {next next' : Workspace → Build α}
    (rest : ∀ u v, u.Exceeds v c more → Parallel c more (next u) (next' v)) :
    Parallel c more (get >>= next) (get >>= next') :=
  fun u v exceeds => rest u v exceeds u v exceeds

theorem parallel_modify {f f' : Workspace → Workspace}
    (keeps : ∀ u v, u.Exceeds v c more → (f u).Exceeds (f' v) c more) :
    Parallel c more (modify f) (modify f') :=
  fun u v exceeds => .inl ⟨(), f u, f' v, rfl, rfl, keeps u v exceeds⟩

theorem parallel_forM {items : List α} {f f' : α → Build Unit}
    (each : ∀ a, Parallel c more (f a) (f' a)) :
    Parallel c more (items.forM f) (items.forM f') := by
  induction items with
  | nil => exact parallel_pure ()
  | cons a items ih => exact parallel_bind (each a) fun _ => ih

/-- What changes a state without regard to its kind. -/
theorem parallel_modifyState {f : State → State}
    (plain : ∀ (s : State) (kind : Kind), f { s with kind } = { f s with kind }) :
    Parallel c more (modifyState s f) (modifyState s f) := by
  refine parallel_modify fun u v exceeds => ?_
  apply exceeds.setState
  · rintro rfl
    obtain ⟨rules, tails, tails', same, kind, added⟩ := exceeds.choice
    have kept : (f (v.state s)).kind = .choice rules tails' := by
      have same := congrArg State.kind (plain (v.state s) (v.state s).kind)
      exact same.trans kind
    rw [same, plain]
    exact ⟨rules, tails, tails', rfl, kept, added⟩
  · intro apart
    rw [exceeds.others s apart]

/-- How the tails that a state has on both sides are related. -/
def Tailed (c : StateId) (more : List StateId) (s : StateId) (tails tails' : List StateId) : Prop :=
  (s = c → ∀ t, t ∈ tails ↔ t ∈ tails' ∨ t ∈ more) ∧ (s ≠ c → tails = tails')

theorem Tailed.extend {tails tails' : List StateId} (tailed : Tailed c more s tails tails')
    (openEnds : List StateId) :
    Tailed c more s (extend tails openEnds) (Build.extend tails' openEnds) := by
  constructor
  · intro here t
    rw [mem_extend, mem_extend, tailed.1 here, or_right_comm]
  · intro apart
    rw [tailed.2 apart]

theorem choice_eq (w : Workspace) (s : StateId) (operation : String) : choice s operation w =
    match (w.state s).kind with
    | .choice rules tails => .ok (rules, tails) w
    | _ => .error (.unsupported (w.state s).typeName operation) w := by
  change (match (w.state s).kind with
    | .choice rules tails => pure (rules, tails)
    | _ => throw (.unsupported (w.state s).typeName operation) : Build _) w = _
  cases (w.state s).kind <;> rfl

theorem parallel_choice {operation : String}
    {next next' : List (Rule Target) × List StateId → Build α}
    (rest : ∀ rules tails tails', Tailed c more s tails tails' →
      Parallel c more (next (rules, tails)) (next' (rules, tails'))) :
    Parallel c more (choice s operation >>= next) (choice s operation >>= next') := by
  intro u v exceeds
  by_cases here : s = c
  · subst here
    obtain ⟨rules, tails, tails', kind, kind', added⟩ := exceeds.choice_kinds
    simp only [bind, EStateM.bind, choice_eq, kind, kind']
    exact rest rules tails tails' ⟨fun _ => added, fun apart => absurd rfl apart⟩ u v exceeds
  · simp only [bind, EStateM.bind, choice_eq, exceeds.others s here]
    cases (v.state s).kind with
    | choice rules tails =>
      exact rest rules tails tails ⟨fun same => absurd same here, fun _ => rfl⟩ u v exceeds
    | _ => exact .inr ⟨_, u, v, rfl, rfl, exceeds⟩

theorem parallel_retail {rules : List (Rule Target)} {tails tails' : List StateId}
    (tailed : Tailed c more s tails tails') :
    Parallel c more (modifyState s fun state => { state with kind := .choice rules tails })
      (modifyState s fun state => { state with kind := .choice rules tails' }) := by
  refine parallel_modify fun u v exceeds => exceeds.setState ?_ ?_
  · rintro rfl
    obtain ⟨_, _, _, same, -, -⟩ := exceeds.choice
    rw [same]
    exact ⟨rules, tails, tails', rfl, rfl, tailed.1 rfl⟩
  · intro apart
    rw [exceeds.others s apart, tailed.2 apart]

theorem parallel_allocate (d : ScopeId) (id : String) :
    Parallel c more (allocate d id) (allocate d id) := by
  refine parallel_get fun u v exceeds => ?_
  rw [scope_of_scopes exceeds.scopes]
  refine parallel_bind (parallel_lift _) fun granted => parallel_bind ?_ fun _ => parallel_pure _
  exact parallel_modify fun u v exceeds => exceeds.setScope d _

theorem parallel_addScope (new : Scope) : Parallel c more (addScope new) (addScope new) := by
  intro u v exceeds
  refine .inl ⟨⟨u.scopes.size⟩, _, _, rfl, ?_, exceeds.pushScope new⟩
  rw [exceeds.scopes]
  rfl

theorem parallel_addState (new : State) : Parallel c more (addState new) (addState new) := by
  intro u v exceeds
  refine .inl ⟨⟨u.states.size⟩, _, _, rfl, ?_, exceeds.pushState new⟩
  rw [exceeds.size]
  rfl

theorem parallel_scope (id : String) (parent : Option ScopeId) :
    Parallel c more (scope id parent) (scope id parent) := by
  unfold scope
  by_cases empty : id.isEmpty = true
  · rw [if_pos empty]
    exact parallel_throw _
  by_cases separated : '/' ∈ id.toList
  · rw [if_neg empty, if_pos separated]
    exact parallel_throw _
  rw [if_neg empty, if_neg separated]
  cases parent with
  | none => exact parallel_addScope _
  | some d =>
    refine parallel_bind (parallel_allocate d id) fun granted => parallel_get fun u v exceeds => ?_
    rw [scope_of_scopes exceeds.scopes]
    exact parallel_addScope _

theorem parallel_state (d : ScopeId) (id : String) (name : Option String) (common : CommonFields)
    (description : Description) : Parallel c more (state d id name common description)
      (state d id name common description) := by
  refine parallel_bind (parallel_allocate d id) fun granted => parallel_get fun u v exceeds => ?_
  rw [scope_of_scopes exceeds.scopes]
  refine parallel_bind (parallel_addState _) fun new => parallel_bind ?_ fun _ => ?_
  · exact parallel_modify fun u v exceeds => exceeds.setScope d _
  · cases description with
    | task resource fields =>
      cases resource with
      | error => exact parallel_throw _
      | ok => exact parallel_pure new
    | _ => exact parallel_pure new

theorem parallel_wire (s : StateId) (target : Target) :
    Parallel c more (wire s target) (wire s target) := by
  refine parallel_get fun u v exceeds => ?_
  rw [exceeds.wiring_eq, exceeds.checkUnwired_eq]
  exact parallel_bind (parallel_lift _) fun _ => parallel_modifyState fun _ _ => rfl

theorem parallel_stop (s : StateId) : Parallel c more (stop s) (stop s) := by
  refine parallel_get fun u v exceeds => ?_
  rw [exceeds.checkStoppable_eq]
  exact parallel_bind (parallel_lift _) fun _ => parallel_modifyState fun _ _ => rfl

theorem parallel_wireTo (s : StateId) (d : Destination) :
    Parallel c more (wireTo s d) (wireTo s d) := by
  refine parallel_get fun u v exceeds => ?_
  rw [exceeds.resolve_eq]
  exact parallel_bind (parallel_lift _) fun _ => parallel_wire s _

theorem checkCanFail_eq {u v : Workspace} (exceeds : u.Exceeds v c more) (s : StateId)
    (what : String) : checkCanFail (u.state s) what = checkCanFail (v.state s) what := by
  rw [checkCanFail, checkCanFail, State.canFail, State.canFail, exceeds.type_eq, exceeds.name_eq]

theorem parallel_addRetry (s : StateId) (parts : Retry.Parts) :
    Parallel c more (addRetry s parts) (addRetry s parts) := by
  refine parallel_get fun u v exceeds => ?_
  dsimp only
  rw [checkCanFail_eq exceeds, exceeds.name_eq]
  exact parallel_bind (parallel_lift _) fun _ => parallel_modifyState fun _ _ => rfl

theorem parallel_addCatch (s : StateId) (d : Destination) (errors resultPath : Json) :
    Parallel c more (addCatch s d errors resultPath) (addCatch s d errors resultPath) := by
  refine parallel_get fun u v exceeds => ?_
  rw [checkCanFail_eq exceeds, exceeds.resolve_eq]
  exact parallel_bind (parallel_lift _) fun _ => parallel_modifyState fun _ _ => rfl

theorem parallel_addRule (s : StateId) (condition : Except String Condition) (d : Destination) :
    Parallel c more (addRule s condition d) (addRule s condition d) := by
  refine parallel_choice fun rules tails tails' tailed => ?_
  cases condition with
  | error typeName => exact parallel_throw _
  | ok condition =>
    refine parallel_bind (parallel_pure _) fun condition => parallel_get fun u v exceeds => ?_
    rw [exceeds.resolve_eq]
    exact parallel_bind (parallel_lift _) fun resolved => parallel_retail (tailed.extend _)

theorem parallel_setDefault (s : StateId) (d : Destination) :
    Parallel c more (setDefault s d) (setDefault s d) := by
  refine parallel_choice fun rules tails tails' tailed => parallel_get fun u v exceeds => ?_
  rw [exceeds.resolve_eq]
  refine parallel_bind (parallel_lift _) fun resolved => ?_
  exact parallel_bind (parallel_wire s _) fun _ => parallel_retail (tailed.extend _)

/-- What changes a state that is no choice where it is changed. -/
theorem parallel_modifyState_of_ne (apart : s ≠ c) (f : State → State) :
    Parallel c more (modifyState s f) (modifyState s f) := by
  refine parallel_modify fun u v exceeds => exceeds.setState (fun here => absurd here apart) ?_
  intro _
  rw [exceeds.others s apart]

theorem parallel_addBranches (s : StateId) (starts : List StateId) :
    Parallel c more (addBranches s starts) (addBranches s starts) := by
  refine parallel_get fun u v exceeds => ?_
  dsimp only
  rw [exceeds.typeName_eq]
  by_cases here : s = c
  · obtain ⟨rules, tails, tails', kind, kind', -⟩ := exceeds.choice_kinds
    rw [here, kind, kind']
    exact parallel_throw _
  · rw [exceeds.others s here]
    split
    · exact parallel_modifyState_of_ne here _
    · exact parallel_throw _

theorem parallel_setIterator (s start : StateId) :
    Parallel c more (setIterator s start) (setIterator s start) := by
  refine parallel_get fun u v exceeds => ?_
  by_cases here : s = c
  · obtain ⟨rules, tails, tails', kind, kind', -⟩ := exceeds.choice_kinds
    rw [exceeds.typeName_eq, here, kind, kind']
    exact parallel_throw _
  · simp only [exceeds.others s here, exceeds.name_eq]
    split
    · exact parallel_throw _
    · exact parallel_modifyState_of_ne here _
    · exact parallel_throw _

theorem parallel_checkContinuable (ch : Chain) (attempt : Attempt) :
    Parallel c more (ch.checkContinuable attempt) (ch.checkContinuable attempt) := by
  unfold Chain.checkContinuable
  split
  · refine parallel_get fun u v exceeds => ?_
    rw [exceeds.name_eq]
    exact parallel_throw _
  · exact parallel_pure _

theorem parallel_next (ch : Chain) (d : Destination) :
    Parallel c more (ch.next d) (ch.next d) := by
  refine parallel_bind (parallel_checkContinuable ch _) fun _ => parallel_get fun u v exceeds => ?_
  rw [exceeds.resolve_eq]
  refine parallel_bind (parallel_lift _) fun resolved => parallel_bind ?_ fun _ => ?_
  · refine parallel_forM fun s => ?_
    rw [exceeds.nameOf_eq, exceeds.checkUnwired_eq]
    exact parallel_lift _
  · exact parallel_bind (parallel_forM fun s => parallel_wire s _) fun _ => parallel_pure _

theorem parallel_finish (ch : Chain) : Parallel c more ch.finish ch.finish := by
  refine parallel_bind (parallel_checkContinuable ch _) fun _ => parallel_get fun u v exceeds => ?_
  refine parallel_bind ?_ fun _ => ?_
  · refine parallel_forM fun s => ?_
    rw [exceeds.checkStoppable_eq]
    exact parallel_lift _
  · exact parallel_bind (parallel_forM fun s => parallel_stop s) fun _ => parallel_pure _

end Build

namespace Workspace

variable {u v w : Workspace} {c : StateId} {more : List StateId}

theorem Exceeds.edit (exceeds : u.Exceeds v c more) (e : Edit) :
    (e.after u).Exceeds (e.after v) c more := by
  cases e with
  | allocate d id => exact (Build.parallel_allocate d id).after exceeds
  | scope id parent => exact (Build.parallel_scope id parent).after exceeds
  | state d id name common description =>
    exact (Build.parallel_state d id name common description).after exceeds
  | rename s name =>
    have parallel : Build.Parallel c more (Build.rename s name) (Build.rename s name) :=
      Build.parallel_modifyState fun _ _ => rfl
    exact parallel.after exceeds
  | wire s d => exact (Build.parallel_wireTo s d).after exceeds
  | stop s => exact (Build.parallel_stop s).after exceeds
  | retry s parts => exact (Build.parallel_addRetry s parts).after exceeds
  | handle s d errors resultPath =>
    exact (Build.parallel_addCatch s d errors resultPath).after exceeds
  | rule s condition d => exact (Build.parallel_addRule s _ d).after exceeds
  | otherwise s d => exact (Build.parallel_setDefault s d).after exceeds
  | branches s starts => exact (Build.parallel_addBranches s starts).after exceeds
  | iterator s start => exact (Build.parallel_setIterator s start).after exceeds
  | next ch d => exact (Build.parallel_next ch d).after exceeds
  | finish ch => exact (Build.parallel_finish ch).after exceeds

theorem Exceeds.operation {op : Operation} (exceeds : u.Exceeds v c more) (within : op.Within u)
    (within' : op.Within v) : (op.after u).Exceeds (op.after v) c more := by
  cases op with
  | edit e => exact exceeds.edit e
  | inquiry q =>
    have asked : u.Asked (q.after u) := asked_inquiry within
    have asked' : v.Asked (q.after v) := asked_inquiry within'
    rw [Operation.after, Operation.after]
    constructor
    case scopes => rw [asked.scopes, asked'.scopes, exceeds.scopes]
    case size => rw [asked.states, asked'.states, exceeds.size]
    case known =>
      rw [HasState, asked'.states]
      exact exceeds.known
    case choice =>
      rw [state_of_states asked.states, state_of_states asked'.states]
      exact exceeds.choice
    case others =>
      rw [state_of_states asked.states, state_of_states asked'.states]
      exact exceeds.others

/-- The same operations keep what is different. -/
theorem Exceeds.runs {u' v' : Workspace} {ops : List Operation} (exceeds : u.Exceeds v c more)
    (runs : Runs u ops u') (runs' : Runs v ops v') : u'.Exceeds v' c more := by
  induction runs generalizing v with
  | nil =>
    cases runs'
    exact exceeds
  | cons within _ ih =>
    cases runs' with
    | cons within' later => exact ih (exceeds.operation within within') later

theorem Exceeds.endsAt_iff (exceeds : u.Exceeds v c more) {shunned : List StateId} {s e : StateId} :
    u.EndsAt shunned s e ↔ v.EndsAt shunned s e := by
  constructor
  · intro ends
    exact ends.congr (fun s => (exceeds.isTerminal_eq s).symm) fun s => (exceeds.exit_eq s).symm
  · exact fun ends => ends.congr exceeds.isTerminal_eq exceeds.exit_eq

/-- What comes after a choice with further tails: also the ends of these. -/
theorem Exceeds.afterwards (exceeds : u.Exceeds v c more) : ∃ openEnds openEnds',
    u.afterwards c = .ok ⟨c, openEnds⟩ ∧ v.afterwards c = .ok ⟨c, openEnds'⟩ ∧
      ∀ t, t ∈ openEnds ↔ t ∈ openEnds' ∨ ∃ s ∈ more, v.EndsAt [c] s t := by
  obtain ⟨rules, tails, tails', kind, kind', added⟩ := exceeds.choice_kinds
  have choice : (v.state c).type? = some .choice := by
    rw [State.type?, kind']
    rfl
  obtain ⟨ends, all⟩ := u.exists_pathsEnd [c] (u.state c).tails
  obtain ⟨ends', all'⟩ := v.exists_pathsEnd [c] (v.state c).tails
  refine ⟨_, _, afterwards_eq ((exceeds.type_eq c).trans choice) all, afterwards_eq choice all', ?_⟩
  intro t
  have same : (u.state c).default? = (v.state c).default? := by
    rw [State.default?, State.default?, exceeds.type_eq,
      State.onward_of_exit (exceeds.exit_eq c)]
  have tailed : (u.state c).tails = tails := by rw [State.tails, kind]
  have tailed' : (v.state c).tails = tails' := by rw [State.tails, kind']
  rw [tailed] at all
  rw [tailed'] at all'
  simp only [List.mem_append, List.mem_eraseDups, all.mem_iff, all'.mem_iff, same, added,
    exceeds.endsAt_iff, or_and_right, exists_or]
  exact or_right_comm

theorem hasState_of_choice (choice : (w.state c).type? = some .choice) : w.HasState c := by
  by_contra unknown
  rw [state_of_not_hasState unknown] at choice
  cases choice

/-- The two ways to give a choice its default, as such and as the one open end of a chain. Both
succeed and differ by the tails of the choice alone. They stay so whatever is done afterwards on
both sides, and what then comes after the choice is the same but for the open ends of the default
branch: these are missed where it was set by chaining, unless another branch leads to them. -/
theorem frontiers_of_default {ch : Chain} {d : Destination}
    (choice : (w.state c).type? = some .choice) (free : (w.state c).default? = none)
    (alone : ch.openEnds = [c]) (valid : d.Valid) :
    ∃ target brought u v, w.resolve d = .ok (target, brought) ∧
      Build.setDefault c d w = .ok () u ∧ ch.next d w = .ok ⟨ch.start, brought⟩ v ∧
      ∀ ops u' v', Runs u ops u' → Runs v ops v' → u'.Exceeds v' c brought ∧
        ∃ openEnds openEnds', u'.afterwards c = .ok ⟨c, openEnds⟩ ∧
          v'.afterwards c = .ok ⟨c, openEnds'⟩ ∧
          (∀ t, t ∈ openEnds ↔ t ∈ openEnds' ∨ ∃ s ∈ brought, v'.EndsAt [c] s t) ∧
          ((∀ t, t ∈ openEnds ↔ t ∈ openEnds') ↔
            ∀ s ∈ brought, ∀ t, v'.EndsAt [c] s t → t ∈ openEnds') := by
  obtain ⟨target, brought, resolved⟩ := w.resolve_of_valid valid
  obtain ⟨rules, tails, kind⟩ := exists_choice choice
  have known := hasState_of_choice choice
  have able := open_of_choice choice free
  let v := w.setState c { w.state c with exit := .next target }
  let u := v.setState c { v.state c with kind := .choice rules (Build.extend tails brought) }
  have wired : Build.wire c target w = .ok () v :=
    (Build.wire_givesExit target c w v).mpr ⟨able, rfl⟩
  have same : (v.state c).kind = .choice rules tails := by rw [state_setState_self known, kind]
  have set : Build.setDefault c d w = .ok () u := by
    simp only [Build.setDefault, Build.bind_eq_ok, Build.get_eq_ok, Build.lift_eq_ok]
    have held : Build.choice c "otherwise" w = .ok (rules, tails) w := by rw [Build.choice_eq, kind]
    exact ⟨_, w, held, w, w, ⟨rfl, rfl⟩, _, w, ⟨resolved, rfl⟩, (), v, wired, rfl⟩
  have linked : ch.next d w = .ok ⟨ch.start, brought⟩ v := by
    refine Build.next_eq_ok.mpr ⟨by rw [alone]; exact List.cons_ne_nil c [], target, brought,
      resolved, rfl, ?_⟩
    rw [alone]
    exact Build.bind_eq_ok.mpr ⟨(), v, wired, rfl⟩
  have exceeds : u.Exceeds v c brought :=
    exceeds_setState (hasState_setState.mpr known) same fun _ => Build.mem_extend
  refine ⟨target, brought, u, v, resolved, set, linked, ?_⟩
  intro ops u' v' runs runs'
  have later := exceeds.runs runs runs'
  obtain ⟨openEnds, openEnds', found, found', ends⟩ := later.afterwards
  refine ⟨later, openEnds, openEnds', found, found', ends, ?_⟩
  simp only [ends, or_iff_left_iff_imp]
  constructor
  · exact fun same s member t ends => same t ⟨s, member, ends⟩
  · rintro all t ⟨s, member, ends⟩
    exact all s member t ends

/-- A choice, a state to fall back on and one to go on with. -/
def falling : List Operation :=
  [.edit (.scope "T" none), .edit (.state ⟨0⟩ "Route" none {} .choice),
    .edit (.state ⟨0⟩ "Fallback" none {} (.pass {})), .edit (.state ⟨0⟩ "Join" none {} (.pass {}))]

theorem falling_frontiers :
    ∃ w u v u' v', Runs {} falling w ∧
      (w.state ⟨0⟩).type? = some .choice ∧ (w.state ⟨0⟩).default? = none ∧
      (w.chain ⟨0⟩).openEnds = [⟨0⟩] ∧ (Destination.state ⟨1⟩).Valid ∧
      Build.setDefault ⟨0⟩ (.state ⟨1⟩) w = .ok () u ∧
      (w.chain ⟨0⟩).next (.state ⟨1⟩) w = .ok ⟨⟨0⟩, [⟨1⟩]⟩ v ∧
      Runs u [.edit (.wire ⟨1⟩ (.state ⟨2⟩))] u' ∧ Runs v [.edit (.wire ⟨1⟩ (.state ⟨2⟩))] v' ∧
      u'.Exceeds v' ⟨0⟩ [⟨1⟩] ∧
      u'.afterwards ⟨0⟩ = .ok ⟨⟨0⟩, [⟨2⟩]⟩ ∧ v'.afterwards ⟨0⟩ = .ok ⟨⟨0⟩, []⟩ := by
  have runs : Runs {} falling _ := .of_allows (by decide)
  have choice : ((run {} falling).state ⟨0⟩).type? = some .choice := rfl
  have free : ((run {} falling).state ⟨0⟩).default? = none := rfl
  have alone : ((run {} falling).chain ⟨0⟩).openEnds = [⟨0⟩] := rfl
  have valid : (Destination.state ⟨1⟩).Valid := trivial
  obtain ⟨target, brought, u, v, resolved, set, linked, later⟩ :=
    frontiers_of_default choice free alone valid
  cases resolved
  have set' : Build.setDefault ⟨0⟩ (.state ⟨1⟩) (run {} falling) = .ok () _ := rfl
  have linked' : ((run {} falling).chain ⟨0⟩).next (.state ⟨1⟩) (run {} falling) =
      .ok ⟨⟨0⟩, [⟨1⟩]⟩ _ := rfl
  obtain ⟨-, rfl⟩ := EStateM.Result.ok.inj (set.symm.trans set')
  obtain ⟨-, rfl⟩ := EStateM.Result.ok.inj (linked.symm.trans linked')
  obtain ⟨further, -⟩ := later [.edit (.wire ⟨1⟩ (.state ⟨2⟩))] _ _ (.of_allows (by decide))
    (.of_allows (by decide))
  exact ⟨_, _, _, _, _, runs, choice, free, alone, valid, set, linked, .of_allows (by decide),
    .of_allows (by decide), further, rfl, rfl⟩

/-- The open end of a default branch is missed if the default was set by chaining. -/
theorem chained_default_missed :
    ∃ w u v, Runs {} falling w ∧
      (w.state ⟨0⟩).type? = some .choice ∧ (w.state ⟨0⟩).default? = none ∧
      Build.setDefault ⟨0⟩ (.state ⟨1⟩) w = .ok () u ∧
      (w.chain ⟨0⟩).next (.state ⟨1⟩) w = .ok ⟨⟨0⟩, [⟨1⟩]⟩ v ∧
      u.afterwards ⟨0⟩ = .ok ⟨⟨0⟩, [⟨1⟩]⟩ ∧ v.afterwards ⟨0⟩ = .ok ⟨⟨0⟩, []⟩ :=
  ⟨_, _, _, .of_allows (by decide), rfl, rfl, rfl, rfl, rfl, rfl⟩

end Workspace
end Workflow
