import Workflow.Scope
import Workflow.Graph.Basic

/-!
A workspace holds all scopes, states and graphs that were built, each known by its index. Building
is a computation on a workspace that may end with a fault; what it changed before the fault stays
changed.
-/

namespace Workflow

structure Workspace where
  scopes : Array Scope := #[]
  states : Array State := #[]
  graphs : Array Graph := #[]

namespace Workspace

def scope (w : Workspace) (c : ScopeId) : Scope := w.scopes.getD c.index default

def state (w : Workspace) (s : StateId) : State := w.states.getD s.index default

def graph (w : Workspace) (g : GraphId) : Graph := w.graphs.getD g.index default

/-- The name that a transition has now. -/
def nameOf (w : Workspace) : Target → String
  | .state s => (w.state s).name
  | .name name => name

def setScope (w : Workspace) (c : ScopeId) (scope : Scope) : Workspace :=
  { w with scopes := w.scopes.setIfInBounds c.index scope }

def setState (w : Workspace) (s : StateId) (state : State) : Workspace :=
  { w with states := w.states.setIfInBounds s.index state }

def setGraph (w : Workspace) (g : GraphId) (graph : Graph) : Workspace :=
  { w with graphs := w.graphs.setIfInBounds g.index graph }

theorem state_setState (w : Workspace) (s t : StateId) (new : State) :
    (w.setState s new).state t =
      if s = t ∧ s.index < w.states.size then new else w.state t := by
  obtain ⟨i⟩ := s
  obtain ⟨j⟩ := t
  simp only [state, setState, Array.getD_eq_getD_getElem?, Array.getElem?_setIfInBounds,
    StateId.mk.injEq]
  by_cases h : i = j
  · subst h
    by_cases k : i < w.states.size <;> simp [k]
  · simp [h]

@[simp]
theorem scope_setState (w : Workspace) (s : StateId) (new : State) (c : ScopeId) :
    (w.setState s new).scope c = w.scope c := rfl

@[simp]
theorem graph_setState (w : Workspace) (s : StateId) (new : State) (g : GraphId) :
    (w.setState s new).graph g = w.graph g := rfl

@[simp]
theorem state_setScope (w : Workspace) (c : ScopeId) (new : Scope) (s : StateId) :
    (w.setScope c new).state s = w.state s := rfl

@[simp]
theorem state_setGraph (w : Workspace) (g : GraphId) (new : Graph) (s : StateId) :
    (w.setGraph g new).state s = w.state s := rfl

/-- The states that are ready to be continued when a chain starts at a state. -/
def openEnds (w : Workspace) (s : StateId) : List StateId :=
  if (w.state s).isTerminal then [] else [s]

end Workspace

abbrev Build := EStateM Fault Workspace

namespace Build

/-- Goes on with the value of a computation that changes nothing. -/
def lift {α : Type} : Except Fault α → Build α
  | .ok a => pure a
  | .error fault => throw fault

def addScope (scope : Scope) : Build ScopeId := do
  let w ← get
  set { w with scopes := w.scopes.push scope }
  return ⟨w.scopes.size⟩

def addState (state : State) : Build StateId := do
  let w ← get
  set { w with states := w.states.push state }
  return ⟨w.states.size⟩

def addGraph (graph : Graph) : Build GraphId := do
  let w ← get
  set { w with graphs := w.graphs.push graph }
  return ⟨w.graphs.size⟩

def modifyState (s : StateId) (f : State → State) : Build Unit :=
  modify fun w => w.setState s (f (w.state s))

end Build
end Workflow
