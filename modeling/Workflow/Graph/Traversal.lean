import Workflow.Graph.Basic
import Workflow.Workspace
import Workflow.Validation

/-!
Compilation. The states of a level are found by going along transitions from its start, depth first
and in the order of the transitions. Every state is registered, validated and has its nested levels
compiled before its successors are looked at; the transitions of a level are resolved when all its
states are known. Names are unique across all levels, and a state belongs to one level only.
-/

namespace Workflow

abbrev Registry := List Registration

/-- The levels that a state runs: the label and the start of each. -/
def State.nestedGraphs (s : State) (label : String) : List (String × StateId) :=
  match s.kind with
  | .map _ _ => s.nestedStarts.map fun start => (s!"{label} / {s.name} iterator", start)
  | _ => s.nestedStarts.zipIdx.map fun (start, i) => (s!"{label} / {s.name} branch {i + 1}", start)

namespace Workspace

/-- Enters a state into the registry. Its name must be new, and no other state may have been defined
under it in the same scope. -/
def register (w : Workspace) (label : String) (registry : Registry) (s : StateId) :
    Except Fault Registry :=
  let state := w.state s
  match registry.find? (·.state = s), registry.find? (·.name = state.name) with
  | some owned, _ => .error (.misconfigured state.name (.shared label owned.graph))
  | none, some clash =>
    .error (.duplicateName state.name (w.state clash.state).path state.path label)
  | none, none =>
    match (w.scope state.scope).named state.name with
    | first :: second :: _ =>
      .error (.duplicateName state.name (w.state first).path (w.state second).path label)
    | _ => .ok (registry ++ [⟨state.name, s, label⟩])

/-- Whether a state is listed, under the name that it has. -/
def lists (w : Workspace) (members : Members) (s : StateId) : Bool :=
  Level.named? members (w.state s).name = some s

/-- Every transition of a level leads to a name of the level. -/
def resolveLevel (w : Workspace) (label : String) (members : Members) : Except Fault Unit :=
  members.forM fun e =>
    (w.state e.1.state).outgoing.forM fun (field, target) =>
      if members.any (·.1.name = w.nameOf target) then .ok ()
      else .error (.unresolved (w.state e.1.state).name (w.nameOf target) field label)

/-- Compiles a level, given how the states that can be reached from some others are found. -/
def compileBy (w : Workspace)
    (find : String → Registry → Members → List StateId → Except Fault (Registry × Members))
    (label : String) (registry : Registry) (start : StateId) : Except Fault (Registry × Level) := do
  let (registry, members) ← find label registry [] [start]
  w.resolveLevel label members
  return (registry, .node ⟨start, label, none⟩ members)

/-- Compiles levels one after the other, each with the registry that the one before it left. -/
def compileLevels (compile : String → Registry → StateId → Except Fault (Registry × Level)) :
    Registry → List (String × StateId) → Except Fault (Registry × List Level)
  | registry, [] => .ok (registry, [])
  | registry, (label, start) :: rest => do
    let (registry, level) ← compile label registry start
    let (registry, levels) ← compileLevels compile registry rest
    return (registry, level :: levels)

/-- Goes through the states still to be visited in a level, given those already found in it. A
state may be pending more than once; it is passed over when it is already listed. Every step
registers a state that was not registered, so the states of the workspace bound the steps. -/
def walk (w : Workspace) : (fuel : Nat) → (label : String) → Registry → (found : Members) →
    (pending : List StateId) → Except Fault (Registry × Members)
  | 0, _, _, _, _ => .error .exhausted
  | fuel + 1, label, registry, found, pending =>
    match pending.dropWhile (w.lists found) with
    | [] => .ok (registry, found)
    | s :: pending => do
      let state := w.state s
      let registry ← w.register label registry s
      state.validate
      let (registry, levels) ←
        compileLevels (w.compileBy (walk w fuel)) registry (state.nestedGraphs label)
      let found := found ++ [(⟨state.name, s⟩, levels)]
      let targets := state.successors.filter fun t => !w.lists found t
      walk w fuel label registry found (targets ++ pending)

/-- Compiles the level that starts at a state, given what is registered already. -/
def compileLevel (w : Workspace) : String → Registry → StateId → Except Fault (Registry × Level) :=
  w.compileBy (w.walk (w.states.size + 1))

/-- Compiles a graph from its start. -/
def compile (w : Workspace) (label : String) (start : StateId) : Except Fault Compiled := do
  let (registry, level) ← w.compileLevel label [] start
  return ⟨level.entries, registry⟩

end Workspace
end Workflow
