import Workflow.Proofs.Changes

/-!
The footprint of an edit. What defines a scope or a state is granted an id by the scope around it,
and changes nothing if it is refused one. Any other edit is of one state or of the open ends of a
chain. It gives these states new values, whether it succeeds or fails, and leaves all else as it is:
the other states, how many there are, and the scopes.
-/

namespace Workflow

theorem Scope.exists_allocate {id : String} (scope : Scope) (given : id.isEmpty = false) :
    ∃ granted new, scope.allocate id = .ok (granted, new) := by
  rw [allocate, given]
  exact ⟨_, _, rfl⟩

namespace Edit

/-- The states that an edit is of, unless it is of a scope. -/
def states? : Edit → Option (List StateId)
  | allocate _ _ | scope _ _ | state _ _ _ _ _ => none
  | rename s _ | wire s _ | stop s | retry s _ | handle s _ _ _ | rule s _ _ | otherwise s _
  | branches s _ | iterator s _ => some [s]
  | next c _ | finish c => some c.openEnds

end Edit

namespace Workspace

variable {u v w : Workspace} {states : List StateId}

/-- Whether a workspace is another one with new values for some states. -/
structure Frame (w v : Workspace) (states : List StateId) : Prop where
  scopes : v.scopes = w.scopes
  size : v.states.size = w.states.size
  state : ∀ s ∉ states, v.state s = w.state s

theorem Frame.refl (w : Workspace) (states : List StateId) : w.Frame w states :=
  ⟨rfl, rfl, fun _ _ => rfl⟩

theorem Frame.trans (first : u.Frame v states) (later : v.Frame w states) : u.Frame w states where
  scopes := later.scopes.trans first.scopes
  size := later.size.trans first.size
  state s outside := (later.state s outside).trans (first.state s outside)

theorem frame_setState {s : StateId} (member : s ∈ states) (new : State) :
    w.Frame (w.setState s new) states where
  scopes := rfl
  size := Array.size_setIfInBounds
  state t outside := by
    rw [state_setState, if_neg]
    rintro ⟨rfl, -⟩
    exact outside member

end Workspace

namespace Build

open Workspace

variable {α β : Type} {states : List StateId} {s : StateId} {c : Chain}

/-- Whether a computation gives new values to some states at most, wherever it starts and however it
ends. -/
def Touches (states : List StateId) (m : Build α) : Prop :=
  ∀ w : Workspace, w.Frame (m.after w) states

theorem touches_of_after {m : Build α} (same : ∀ w, m.after w = w) : Touches states m := by
  intro w
  rw [same]
  exact .refl w states

theorem touches_throw (fault : Fault) : Touches states (throw fault : Build α) :=
  touches_of_after fun _ => rfl

theorem touches_lift (outcome : Except Fault α) : Touches states (lift outcome) :=
  touches_of_after fun _ => after_lift outcome

theorem touches_bind {first : Build α} {next : α → Build β} (touches : Touches states first)
    (rest : ∀ a, Touches states (next a)) : Touches states (first >>= next) := by
  intro w
  rcases after_bind_cases first next w with same | ⟨a, -, same⟩
  · rw [same]
    exact touches w
  · rw [same]
    exact (touches w).trans (rest a _)

theorem touches_get {next : Workspace → Build α} (rest : ∀ w, Touches states (next w)) :
    Touches states (get >>= next) :=
  touches_bind (touches_of_after fun _ => rfl) rest

theorem touches_lift_bind {outcome : Except Fault α} {next : α → Build β}
    (rest : ∀ a, Touches states (next a)) : Touches states (lift outcome >>= next) :=
  touches_bind (touches_lift outcome) rest

theorem touches_forM {items : List α} {f : α → Build Unit}
    (each : ∀ a ∈ items, Touches states (f a)) : Touches states (items.forM f) := by
  induction items with
  | nil => exact touches_of_after fun _ => rfl
  | cons a items ih =>
    apply touches_bind (each a List.mem_cons_self)
    exact fun _ => ih fun b member => each b (List.mem_cons_of_mem _ member)

section Wiring

variable (member : s ∈ states)
include member

theorem touches_modifyState (f : State → State) : Touches states (modifyState s f) :=
  fun w => frame_setState member (f (w.state s))

theorem touches_wire (target : Target) : Touches states (wire s target) :=
  touches_get fun _ => touches_lift_bind fun _ => touches_modifyState member _

theorem touches_stop : Touches states (stop s) :=
  touches_get fun _ => touches_lift_bind fun _ => touches_modifyState member _

theorem touches_wireTo (destination : Destination) : Touches states (wireTo s destination) :=
  touches_get fun _ => touches_lift_bind fun _ => touches_wire member _

theorem touches_addRetry (parts : Retry.Parts) : Touches states (addRetry s parts) :=
  touches_get fun _ => touches_lift_bind fun _ => touches_modifyState member _

theorem touches_addCatch (destination : Destination) (errors resultPath : Json) :
    Touches states (addCatch s destination errors resultPath) :=
  touches_get fun _ => touches_lift_bind fun _ => touches_modifyState member _

theorem touches_addRule (condition : Except String Condition) (destination : Destination) :
    Touches states (addRule s condition destination) := by
  apply touches_bind (touches_of_after fun _ => after_choice s "when")
  intro _
  cases condition with
  | error typeName => exact touches_throw _
  | ok condition =>
    apply touches_bind (touches_of_after fun _ => rfl)
    refine fun _ => touches_get fun _ => touches_lift_bind fun _ => ?_
    exact touches_modifyState member _

theorem touches_setDefault (destination : Destination) :
    Touches states (setDefault s destination) := by
  apply touches_bind (touches_of_after fun _ => after_choice s "otherwise")
  intro _
  refine touches_get fun _ => touches_lift_bind fun _ => touches_bind (touches_wire member _) ?_
  exact fun _ => touches_modifyState member _

theorem touches_addBranches (starts : List StateId) : Touches states (addBranches s starts) := by
  apply touches_get
  intro w
  dsimp only
  split
  · exact touches_modifyState member _
  · exact touches_throw _

theorem touches_setIterator (start : StateId) : Touches states (setIterator s start) := by
  apply touches_get
  intro w
  split
  · exact touches_throw _
  · exact touches_modifyState member _
  · exact touches_throw _

end Wiring

theorem touches_next (c : Chain) (destination : Destination) :
    Touches c.openEnds (c.next destination) := by
  apply touches_bind (touches_of_after fun _ => after_checkContinuable c .continuation)
  refine fun _ => touches_get fun _ => touches_lift_bind fun _ => touches_bind ?_ fun _ => ?_
  · exact touches_forM fun _ _ => touches_lift _
  · apply touches_bind (touches_forM fun s member => touches_wire member _)
    exact fun _ => touches_of_after fun _ => rfl

theorem touches_finish (c : Chain) : Touches c.openEnds c.finish := by
  apply touches_bind (touches_of_after fun _ => after_checkContinuable c .stop)
  refine fun _ => touches_get fun _ => touches_bind ?_ fun _ => ?_
  · exact touches_forM fun _ _ => touches_lift _
  · apply touches_bind (touches_forM fun s member => touches_stop member)
    exact fun _ => touches_of_after fun _ => rfl

section Defining

variable {w : Workspace} {d : ScopeId} {id granted : String} {scope : Scope} {fault : Fault}

theorem allocate_of_ok (ok : (w.scope d).allocate id = .ok (granted, scope)) :
    allocate d id w = .ok granted (w.setScope d scope) := by
  change (lift ((w.scope d).allocate id) >>= fun _ => _) w = _
  rw [ok]
  rfl

theorem allocate_of_error (refused : (w.scope d).allocate id = .error fault) :
    allocate d id w = .error fault w := by
  change (lift ((w.scope d).allocate id) >>= fun _ => _) w = _
  rw [refused]
  rfl

theorem scope_of_illegal (illegal : ¬ (id.isEmpty = false ∧ '/' ∉ id.toList))
    (parent : Option ScopeId) : ∃ fault, Build.scope id parent w = .error fault w := by
  unfold Build.scope
  by_cases empty : id.isEmpty = true
  · rw [if_pos empty]
    exact ⟨_, rfl⟩
  · have separated : '/' ∈ id.toList := by
      by_contra other
      exact illegal ⟨Bool.eq_false_iff.mpr empty, other⟩
    rw [if_neg empty, if_pos separated]
    exact ⟨_, rfl⟩

theorem scope_of_legal (legal : id.isEmpty = false ∧ '/' ∉ id.toList) : Build.scope id none w =
    .ok ⟨w.scopes.size⟩ { w with scopes := w.scopes.push { id, path := id, parent := none } } := by
  unfold Build.scope
  rw [if_neg (Bool.eq_false_iff.mp legal.1), if_neg legal.2]
  rfl

/-- A scope is defined in another one with the id that it is granted, and has allocated none
itself. -/
theorem scope_of_ok (legal : id.isEmpty = false ∧ '/' ∉ id.toList)
    (ok : (w.scope d).allocate id = .ok (granted, scope)) : ∃ new : Scope, new.id = granted ∧
      new.counters = [] ∧ new.taken = [] ∧ Build.scope id (some d) w = .ok ⟨w.scopes.size⟩
        { w.setScope d scope with scopes := (w.setScope d scope).scopes.push new } ∧
      new.path = ((w.setScope d scope).scope d).childPath granted ∧ new.parent = some d := by
  let new : Scope :=
    { id := granted, path := ((w.setScope d scope).scope d).childPath granted, parent := some d }
  have size : (w.setScope d scope).scopes.size = w.scopes.size := Array.size_setIfInBounds
  refine ⟨new, rfl, rfl, rfl, ?_, rfl, rfl⟩
  rw [← size]
  unfold Build.scope
  rw [if_neg (Bool.eq_false_iff.mp legal.1), if_neg legal.2]
  simp only [bind, EStateM.bind, allocate_of_ok ok]
  rfl

theorem states_allocate (d : ScopeId) (id : String) :
    ((allocate d id).after w).states = w.states := by
  cases allocated : (w.scope d).allocate id with
  | error => rw [after, allocate_of_error allocated]
  | ok =>
    rw [after, allocate_of_ok allocated]
    rfl

theorem states_scope (id : String) (parent : Option ScopeId) :
    ((Build.scope id parent).after w).states = w.states := by
  by_cases legal : id.isEmpty = false ∧ '/' ∉ id.toList
  · cases parent with
    | none => rw [after, scope_of_legal legal]
    | some d =>
      obtain ⟨granted, scope, ok⟩ := (w.scope d).exists_allocate legal.1
      obtain ⟨new, -, -, -, made, -⟩ := scope_of_ok legal ok
      rw [after, made]
      rfl
  · obtain ⟨fault, refused⟩ := scope_of_illegal (w := w) legal parent
    rw [after, refused]

theorem state_of_error (refused : (w.scope d).allocate id = .error fault) (name : Option String)
    (common : CommonFields) (description : Description) :
    state d id name common description w = .error fault w := by
  simp only [state, bind, EStateM.bind, allocate_of_error refused]

/-- A state is defined with the id that it is granted, and named by it unless it is given a name. It
is defined as well where its resource is refused. -/
theorem state_of_ok (ok : (w.scope d).allocate id = .ok (granted, scope)) (name : Option String)
    (common : CommonFields) (description : Description) : ∃ new : State, new.scope = d ∧
      new.id = granted ∧ new.name = (name.filter fun given => !given.isEmpty).getD granted ∧
      (state d id name common description).after w = (w.setScope d scope).define d new ∧
      ((∀ typeName fields, description ≠ .task (.error typeName) fields) →
        state d id name common description w =
          .ok ⟨w.states.size⟩ ((w.setScope d scope).define d new)) ∧
      (∀ typeName fields, description = .task (.error typeName) fields →
        state d id name common description w =
          .error (.notAResource typeName) ((w.setScope d scope).define d new)) ∧
      new.path = ((w.setScope d scope).scope d).childPath granted ∧
      new.kind = description.kind := by
  let new : State :=
    { scope := d, id := granted, path := ((w.setScope d scope).scope d).childPath granted
      name := (name.filter fun given => !given.isEmpty).getD granted, common
      kind := description.kind }
  refine ⟨new, rfl, rfl, rfl, ?_⟩
  rw [after, state]
  simp only [bind, EStateM.bind, allocate_of_ok ok]
  cases description with
  | task resource fields =>
    cases resource with
    | error typeName =>
      refine ⟨rfl, fun accepted => absurd rfl (accepted typeName fields), ?_, rfl, rfl⟩
      rintro _ _ ⟨⟩
      rfl
    | ok => exact ⟨rfl, fun _ => rfl, by simp, rfl, rfl⟩
  | _ => exact ⟨rfl, fun _ => rfl, by simp, rfl, rfl⟩

end Defining
end Build

/-- An edit of states gives new values to these at most. -/
theorem Workspace.frame_edit {e : Edit} {states : List StateId} (of : e.states? = some states)
    (w : Workspace) : w.Frame (e.after w) states := by
  have self (s : StateId) : s ∈ [s] := List.mem_cons_self
  cases e with
  | allocate | scope | state => cases of
  | rename s name =>
    cases of
    have touches : Build.Touches [s] (Build.rename s name) := Build.touches_modifyState (self s) _
    exact touches w
  | wire s destination =>
    cases of
    exact Build.touches_wireTo (self s) destination w
  | stop s =>
    cases of
    exact Build.touches_stop (self s) w
  | retry s parts =>
    cases of
    exact Build.touches_addRetry (self s) parts w
  | handle s destination errors resultPath =>
    cases of
    exact Build.touches_addCatch (self s) destination errors resultPath w
  | rule s condition destination =>
    cases of
    exact Build.touches_addRule (self s) _ destination w
  | otherwise s destination =>
    cases of
    exact Build.touches_setDefault (self s) destination w
  | branches s starts =>
    cases of
    exact Build.touches_addBranches (self s) starts w
  | iterator s start =>
    cases of
    exact Build.touches_setIterator (self s) start w
  | next c destination =>
    cases of
    exact Build.touches_next c destination w
  | finish c =>
    cases of
    exact Build.touches_finish c w

end Workflow
