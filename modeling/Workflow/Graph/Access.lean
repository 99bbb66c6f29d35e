import Workflow.Graph.Document
import Workflow.Graph.Traversal
import Workflow.Wiring

/-!
Graphs are compiled when they are first looked into, and only then: what was found is kept, while a
compilation that fails leaves nothing behind. A level nested in a graph is reached through the graph
and shares its registry.
-/

namespace Workflow

/-- The timeout of a graph: unset or a whole number that is not negative. -/
def Graph.checkTimeout (label : String) (value : Json) : Except Fault (Option Nat) :=
  if value.isNull then .ok none
  else match value.nat? with
    | some n => .ok (some n)
    | none => .error (.graphTimeout label value)

namespace Workspace

/-- A graph that starts where a chain does. Without a label of its own it is labelled by its
start. -/
def newGraph (w : Workspace) (start : Option StateId) (label : String) (timeout : Json) :
    Except Fault Graph :=
  match start with
  | none => .error (.noStart label)
  | some s => do
    let label :=
      if label.isEmpty then s!"graph starting at '{(w.state s).name}'" else label
    return { start := s, label, timeout := ← Graph.checkTimeout label timeout }

/-- What a graph was compiled to, or is compiled to now. -/
def compiled (w : Workspace) (g : Graph) : Except Fault Compiled :=
  match g.compiled with
  | some c => .ok c
  | none => w.compile g.label g.start

/-- The header of a graph or of a level nested in it. -/
def header (w : Workspace) (ref : GraphRef) : Header :=
  let g := w.graph ref.root
  let nested := g.compiled.bind fun c => Level.at? ref.path (g.level c)
  (nested.map Nested.info).getD g.header

end Workspace

namespace Build

def graph (start : Option StateId) (label : String) (timeout : Json) : Build GraphId := do
  addGraph (← lift ((← get).newGraph start label timeout))

/-- Compiles a graph unless that was done before. -/
def compiled (g : GraphId) : Build Compiled := do
  let w ← get
  let c ← lift (w.compiled (w.graph g))
  set (w.setGraph g { w.graph g with compiled := some c })
  return c

/-- The level that a reference stands for. -/
def level (ref : GraphRef) : Build Level := do
  let c ← compiled ref.root
  let top := ((← get).graph ref.root).level c
  return (Level.at? ref.path top).getD top

def setTimeout (ref : GraphRef) (value : Json) : Build Unit := do
  let w ← get
  let timeout ← lift (Graph.checkTimeout (w.header ref).label value)
  let g := w.graph ref.root
  let level := Level.modify ({ · with timeout }) ref.path
    (.node g.header ((g.compiled.map Compiled.members).getD []))
  set (w.setGraph ref.root { g with
    timeout := level.info.timeout
    compiled := g.compiled.map ({ · with members := level.entries }) })

/-- All states of a graph and of the levels nested in it, in the order in which they were found. -/
def allStates (ref : GraphRef) : Build (List StateId) :=
  return (← compiled ref.root).registry.map (·.state)

/-- The levels that a state runs in a level. -/
def subgraphs (ref : GraphRef) (s : StateId) : Build (List GraphRef) := do
  let nested := Level.nestedIn (← level ref).entries s
  return nested.zipIdx.map fun (_, i) => { ref with path := ref.path ++ [(s, i)] }

def document (ref : GraphRef) : Build Document := do
  let level ← level ref
  lift ((← get).document level)

/-- The permissions that the states of a graph need, each once. -/
def statements (ref : GraphRef) : Build (List Statement) := do
  let states ← allStates ref
  let w ← get
  let needed := states.flatMap fun s => (w.state s).statements
  lift (needed.forM Statement.checkHashable)
  return Statement.distinct needed

end Build
end Workflow
