import Workflow.Graph.Access
import Workflow.Json.Printer

/-!
State machines: a compiled definition with the role that it runs under and the permissions that the
role needs. The definition is fixed when the machine is made; later changes to the states do not
reach it.
-/

namespace Workflow

structure Machine where
  name : Option String
  role : Json
  graph : GraphId
  definition : Document
  statements : List Statement

namespace Machine

/-- The label of the graph that a machine runs. -/
def label (name : Option String) : String :=
  let title := (name.filter fun given => !given.isEmpty).getD "StateMachine"
  s!"State Machine {title} definition"

/-- Adds a permission unless the role has it. -/
def permit (m : Machine) (s : Statement) : Machine :=
  if m.statements.any s.same then m else { m with statements := m.statements ++ [s] }

def definitionText (m : Machine) : String := m.definition.toJson.compact

def policy (m : Machine) : Json := Statement.document m.statements

/-- The properties of the resource that deploys the machine. -/
def properties (m : Machine) : List (String × Json) :=
  [("RoleArn", m.role), ("DefinitionString", .string m.definitionText)] ++
    ((m.name.filter fun name => !name.isEmpty).map fun name =>
      ("StateMachineName", Json.string name)).toList

end Machine

/-- Compiles a definition for a role. Nothing is kept of a machine that is refused. -/
def Build.machine (definition : Option StateId) (role : Json) (name : Option String)
    (timeout : Json) : Build Machine := do
  if role.isEmpty then throw .emptyRole
  let w ← get
  let graph ← lift (w.newGraph definition (Machine.label name) timeout)
  let compiled ← lift (w.compile graph.label graph.start)
  let definition ← lift (w.document (graph.level compiled))
  let needed := compiled.registry.flatMap fun r => (w.state r.state).statements
  lift (needed.forM Statement.checkHashable)
  let id ← addGraph { graph with compiled := some compiled }
  return (Statement.distinct needed).foldl Machine.permit
    { name, role, graph := id, definition, statements := [] }

end Workflow
