import Workflow.Workspace

/-!
Scopes and states are defined in a scope, which allocates their ids and gives them their paths. A
task whose resource is refused stays defined, as an unbound task: whoever looks it up among the
states of its scope can go on to wire it, but no graph compiles with it.
-/

namespace Workflow

/-- How a state is described when it is defined. -/
inductive Description where
  | task (resource : Except String Resource) (fields : TaskFields)
  | pass (fields : PassFields)
  | wait (fields : WaitFields)
  | choice
  | parallel (fields : ParallelFields)
  | map (fields : MapFields)
  | succeed
  | fail (fields : FailFields)
  | plain

/-- The kind of a state before it is wired. -/
def Description.kind : Description → Kind
  | task (.ok resource) fields => .task resource fields
  | task (.error _) _ => .unbound
  | pass fields => .pass fields
  | wait fields => .wait fields
  | choice => .choice [] []
  | parallel fields => .parallel fields []
  | map fields => .map fields none
  | succeed => .succeed
  | fail fields => .fail fields
  | plain => .plain

namespace Build

/-- Reserves an id in a scope. -/
def allocate (c : ScopeId) (id : String) : Build String := do
  let (granted, scope) ← lift (((← get).scope c).allocate id)
  modify (·.setScope c scope)
  return granted

/-- Defines a scope, at the root or in another scope. -/
def scope (id : String) (parent : Option ScopeId) : Build ScopeId := do
  if id.isEmpty then throw .emptyScopeId
  if '/' ∈ id.toList then throw (.separatorInScopeId id)
  match parent with
  | none => addScope { id, path := id, parent := none }
  | some c =>
    let granted ← allocate c id
    addScope { id := granted, path := ((← get).scope c).childPath granted, parent := some c }

/-- Defines a state. Without a name of its own it is named by its id. -/
def state (c : ScopeId) (id : String) (name : Option String) (common : CommonFields)
    (description : Description) : Build StateId := do
  let granted ← allocate c id
  let scope := (← get).scope c
  let name := (name.filter fun given => !given.isEmpty).getD granted
  let s ← addState
    { scope := c, id := granted, path := scope.childPath granted, name, common
      kind := description.kind }
  modify (·.setScope c (scope.define name s))
  match description with
  | .task (.error typeName) _ => throw (.notAResource typeName)
  | _ => return s

/-- Gives a state another name. The scope goes on listing it under the old one. -/
def rename (s : StateId) (name : String) : Build Unit := modifyState s ({ · with name })

end Build
end Workflow
