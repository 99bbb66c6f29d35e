import Workflow.Proofs.Acceptance
import Workflow.Proofs.Allocation
import Workflow.Proofs.Completeness

/-!
Unbound tasks. A task that is refused for its resource is defined by then, and what its definition
leaves is a state of the scope like others. It stays unbound, so that no graph compiles with it. The
unbound tasks of a history are those of its refused definitions, one each.
-/

namespace Workflow

/-- Whether a state was left by the definition of a task without a resource. -/
def State.isUnbound (s : State) : Bool := s.kind matches .unbound

/-- The task that a definition with a granted id leaves unbound. -/
def Workspace.unboundTask (w : Workspace) (d : ScopeId) (granted : String) (name : Option String)
    (common : CommonFields) : State where
  scope := d
  id := granted
  path := (w.scope d).childPath granted
  name := (name.filter fun given => !given.isEmpty).getD granted
  common := common
  kind := .unbound

/-- Whether a description is one of a task without a resource. -/
def Description.lacksResource : Description → Bool
  | task (.error _) _ => true
  | _ => false

/-- Whether the state that an operation defines is a task without a resource, if it defines one. -/
def Operation.unbound? : Operation → Option Bool
  | edit (.state _ id _ _ description) =>
    if id.isEmpty then none else some description.lacksResource
  | _ => none

namespace State

variable {s new : State} {known : StateId → Prop}

theorem isUnbound_of_kind {description : Description} (kind : s.kind = description.kind) :
    s.isUnbound = description.lacksResource := by
  rw [isUnbound, kind]
  cases description with
  | task resource => cases resource <;> rfl
  | _ => rfl

theorem isUnbound_iff : s.isUnbound = true ↔ s.kind = .unbound := by
  rw [isUnbound]
  cases s.kind <;> simp

theorem Change.isUnbound (change : s.Change known new) : new.isUnbound = s.isUnbound := by
  cases change with
  | rule _ _ kind | tails _ kind | branches _ kind | iterator _ kind =>
    rw [State.isUnbound, State.isUnbound, kind]
  | wire | stop | retry | handle => rfl

end State

namespace Build

open Workspace

variable {w : Workspace} {d : ScopeId} {id granted : String} {scope : Scope} {fault : Fault}

theorem allocate_eq_error (refused : (w.scope d).allocate id = .error fault) :
    id.isEmpty = true := by
  by_contra given
  obtain ⟨granted, scope, ok⟩ := (w.scope d).exists_allocate (Bool.eq_false_iff.mpr given)
  rw [ok] at refused
  cases refused

theorem childPath_setScope (ok : (w.scope d).allocate id = .ok (granted, scope)) (child : String) :
    ((w.setScope d scope).scope d).childPath child = (w.scope d).childPath child := by
  have place : ((w.setScope d scope).scope d).path = (w.scope d).path := by
    rw [scope_setScope]
    split
    · exact (Scope.place_of_allocate ok).2.1
    · rfl
  rw [Scope.childPath, Scope.childPath, place]

/-- A task that is refused for its resource is defined before that, as an unbound one. -/
theorem state_of_unbound (ok : (w.scope d).allocate id = .ok (granted, scope))
    (name : Option String) (common : CommonFields) (typeName : String) (fields : TaskFields) :
    state d id name common (.task (.error typeName) fields) w =
      .error (.notAResource typeName) ((w.setScope d scope).define d
        (w.unboundTask d granted name common)) := by
  rw [unboundTask, ← childPath_setScope ok]
  simp only [state, bind, EStateM.bind, allocate_of_ok ok]
  rfl

end Build

namespace Workspace

variable {v w : Workspace}

theorem exists_fault_of_isUnbound {start s : StateId} (occurs : w.Occurs start s)
    (unbound : (w.state s).isUnbound = true) (label : String) :
    ∃ fault, w.compile label start = .error fault := by
  cases compiled : w.compile label start with
  | error fault => exact ⟨fault, rfl⟩
  | ok c =>
    have complete := State.validate_eq_ok.mp ((compile_wellFormed compiled).complete occurs)
    exact absurd (State.isUnbound_iff.mp unbound) complete.bound

/-- A change leaves tasks unbound or bound, as they are. -/
theorem Change.isUnbound {s : StateId} (change : w.Change v) (known : w.HasState s) :
    (v.state s).isUnbound = (w.state s).isUnbound := by
  cases change with
  | allocate | scope => rfl
  | define => rw [state_define_of_hasState known]
  | state t changed =>
    rw [state_setState]
    split
    · rename_i here
      rw [← here.1]
      exact changed.isUnbound
    · rfl

theorem map_isUnbound (size : v.states.size = w.states.size)
    (same : ∀ s, w.HasState s → (v.state s).isUnbound = (w.state s).isUnbound) :
    v.states.toList.map State.isUnbound = w.states.toList.map State.isUnbound := by
  apply List.ext_getElem
  · simpa using size
  · intro i inside inside'
    have known : i < w.states.size := by simpa using inside'
    have known' : i < v.states.size := size ▸ known
    simpa [state, known, known'] using same ⟨i⟩ known

end Workspace

namespace Runs

open Workspace

variable {u w : Workspace} {ops : List Operation}

/-- Unbound tasks stay so, and no other state becomes one. -/
theorem isUnbound_eq (runs : Runs u ops w) {s : StateId} (known : u.HasState s) :
    (w.state s).isUnbound = (u.state s).isUnbound := by
  have kept : w.HasState s ∧ (w.state s).isUnbound = (u.state s).isUnbound := by
    refine runs.keeps_of_change
      (P := fun v => v.HasState s ∧ (v.state s).isUnbound = (u.state s).isUnbound) ?_ ?_ ?_ ?_
    · rintro v v' change ⟨there, same⟩
      exact ⟨change.hasState there, (change.isUnbound there).trans same⟩
    · rintro v t name - ⟨there, same⟩
      have kept := v.rename_cases (P := fun before after => after.isUnbound = before.isUnbound)
        (fun _ => rfl) (fun _ _ => rfl) t s name
      exact ⟨hasState_setState.mpr there, kept.trans same⟩
    · rintro v v' states - ⟨there, same⟩
      rw [HasState, states, state_of_states states]
      exact ⟨there, same⟩
    · exact ⟨known, rfl⟩
  exact kept.2

end Runs

/-- An operation adds no state or the one that it defines. -/
theorem Operation.unbound_after {w : Workspace} {op : Operation} (within : op.Within w) :
    (op.after w).states.toList.map State.isUnbound =
      w.states.toList.map State.isUnbound ++ op.unbound?.toList := by
  have same (none : op.unbound? = none) (size : (op.after w).states.size = w.states.size) :
      (op.after w).states.toList.map State.isUnbound =
        w.states.toList.map State.isUnbound ++ op.unbound?.toList := by
    rw [none, Option.toList_none, List.append_nil]
    refine Workspace.map_isUnbound size fun s known => ?_
    exact (Runs.cons within (.nil _)).isUnbound_eq known
  cases op with
  | inquiry q =>
    exact same rfl (congrArg Array.size (Workspace.asked_inquiry within).states)
  | edit e =>
    cases e with
    | allocate d id => exact same rfl (congrArg Array.size (Build.states_allocate d id))
    | scope id parent => exact same rfl (congrArg Array.size (Build.states_scope id parent))
    | state d id name common description =>
      cases allocated : (w.scope d).allocate id with
      | error fault =>
        refine same ?_ ?_
        · rw [unbound?, if_pos (Build.allocate_eq_error allocated)]
        · simp only [after, Edit.after, Build.after, Build.state_of_error allocated]
      | ok grant =>
        obtain ⟨granted, scope⟩ := grant
        obtain ⟨given, -⟩ := Scope.allocate_eq_ok.mp allocated
        obtain ⟨new, -, -, -, made, -, -, -, kind⟩ :=
          Build.state_of_ok allocated name common description
        have states : (after w (.edit (.state d id name common description))).states =
            w.states.push new := congrArg Workspace.states made
        rw [states, unbound?, given, Array.toList_push, List.map_append, List.map_singleton,
          State.isUnbound_of_kind kind]
        rfl
    | _ => exact same rfl (Workspace.frame_edit rfl w).size

/-- The unbound tasks of a history are those of the definitions that were refused for a resource. -/
theorem Runs.unbound_traced {u w : Workspace} {ops : List Operation} (runs : Runs u ops w) :
    w.states.toList.map State.isUnbound =
      u.states.toList.map State.isUnbound ++ ops.filterMap Operation.unbound? := by
  induction runs with
  | nil => rw [List.filterMap_nil, List.append_nil]
  | @cons u w op ops within rest ih =>
    rw [ih, Operation.unbound_after within, List.append_assoc]
    cases left : op.unbound? with
    | none => rw [List.filterMap_cons_none left]; rfl
    | some unbound => rw [List.filterMap_cons_some left]; rfl

end Workflow
