import Workflow.State

/-!
Scopes give the states and scopes defined in them their ids and paths. An id that is taken gets the
least suffix from two upwards that makes it free. A scope remembers under which name each of its
states was defined, whatever the state is called later.
-/

namespace Workflow

structure Scope where
  id : String
  path : String
  parent : Option ScopeId
  counters : List (String × Nat) := []
  taken : List String := []
  states : List StateId := []
  names : List (String × List StateId) := []

instance : Inhabited Scope := ⟨{ id := "", path := "", parent := none }⟩

namespace Scope

/-- An id with a numeric suffix. -/
def suffixed (id : String) (n : Nat) : String := id ++ "_" ++ Nat.repr n

/-- The path of a child with an id of its own. -/
def childPath (scope : Scope) (id : String) : String := scope.path ++ "/" ++ id

/-- The last suffix that was tried for an id. -/
def counter (scope : Scope) (id : String) : Nat := (scope.counters.lookup id).getD 1

/-- The least suffix above `last` that makes the id free. As many suffixes as there are ids taken
cannot all be taken, so one more than that is enough to try. -/
def freeSuffix (taken : List String) (id : String) (last : Nat) : Nat :=
  ((List.range (taken.length + 1)).find? fun k => suffixed id (last + 1 + k) ∉ taken).elim
    (last + 1) (last + 1 + ·)

/-- Reserves an id: the one asked for if it is free, else that id with a suffix. -/
def allocate (scope : Scope) (id : String) : Except Fault (String × Scope) :=
  if id.isEmpty then .error (.emptyChildId scope.path)
  else
    let last := scope.counter id
    let (granted, count) :=
      if id ∉ scope.taken then (id, last)
      else
        let n := freeSuffix scope.taken id last
        (suffixed id n, n)
    .ok (granted, { scope with
      counters := (id, count) :: scope.counters
      taken := granted :: scope.taken })

/-- The states that were defined under a name, in order. -/
def named (scope : Scope) (name : String) : List StateId := (scope.names.lookup name).getD []

/-- Enters a state under a name, keeping the order in which the names first came up. -/
def enter (names : List (String × List StateId)) (name : String) (s : StateId) :
    List (String × List StateId) :=
  match names with
  | [] => [(name, [s])]
  | (other, states) :: rest =>
    if other = name then (other, states ++ [s]) :: rest else (other, states) :: enter rest name s

/-- Records a state that is defined in the scope. -/
def define (scope : Scope) (name : String) (s : StateId) : Scope :=
  { scope with states := scope.states ++ [s], names := enter scope.names name s }

end Scope
end Workflow
