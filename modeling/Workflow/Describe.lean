import Workflow.Graph.Access

/-!
Short descriptions of what a workspace holds, by name and path.
-/

namespace Workflow.Workspace

def describeScope (w : Workspace) (c : ScopeId) : String :=
  s!"Scope({Text.quoted (w.scope c).path})"

def describeState (w : Workspace) (s : StateId) : String :=
  let state := w.state s
  s!"{state.typeName}({Text.quoted state.name}, path={Text.quoted state.path})"

def describeChain (w : Workspace) (c : Chain) : String :=
  let openEnds := ", ".intercalate (c.openEnds.map fun s => (w.state s).name)
  s!"Chain(start={Text.quoted (w.state c.start).name}, open_ends=[{openEnds}])"

def describeGraph (w : Workspace) (g : GraphRef) : String :=
  s!"StateGraph({Text.quoted (w.header g).label})"

end Workflow.Workspace
