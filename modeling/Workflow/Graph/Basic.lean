import Workflow.Nested
import Workflow.State

/-!
Graphs. A graph is compiled into levels: the outermost one and, nested in the entries of the states
that run them, one for each branch and iterator. A level lists its states under the names that they
had when it was compiled.
-/

namespace Workflow

structure GraphId where
  index : Nat
deriving DecidableEq

/-- What a level has besides its states. -/
structure Header where
  start : StateId
  label : String
  timeout : Option Nat

/-- A state of a level and the name that it is listed under. -/
structure Member where
  name : String
  state : StateId
deriving DecidableEq

abbrev Level := Nested Header Member

/-- The states of a level, each with the levels nested in it. -/
abbrev Members := List (Member × List Level)

/-- A state of a graph, the name it was found under and the label of the level it belongs to. -/
structure Registration where
  name : String
  state : StateId
  graph : String

/-- What compiling a graph yields: the states of its outermost level with the levels nested in them,
and all states of all levels in the order in which they were found. -/
structure Compiled where
  members : Members
  registry : List Registration

structure Graph where
  start : StateId
  label : String
  timeout : Option Nat
  compiled : Option Compiled := none

instance : Inhabited Graph := ⟨{ start := ⟨0⟩, label := "", timeout := none }⟩

/-- The way down to a nested level: at each step a state and which of its levels, from zero. -/
abbrev LevelPath := List (StateId × Nat)

/-- A graph, or a level nested in one. -/
structure GraphRef where
  root : GraphId
  path : LevelPath := []

def Graph.header (g : Graph) : Header := ⟨g.start, g.label, g.timeout⟩

namespace Level

/-- The state that is listed under a name. -/
def named? (members : Members) (name : String) : Option StateId :=
  (members.find? fun e => e.1.name = name).map (·.1.state)

/-- The levels nested in the entry of a state. -/
def nestedIn (members : Members) (s : StateId) : List Level :=
  ((members.find? fun e => e.1.state = s).map (·.2)).getD []

/-- The level at the end of a path. -/
def at? : LevelPath → Level → Option Level
  | [], level => some level
  | (s, i) :: path, level => (nestedIn level.entries s)[i]?.bind (at? path)

/-- Changes the header of the level at the end of a path. -/
def modify (f : Header → Header) : LevelPath → Level → Level
  | [], .node header members => .node (f header) members
  | (s, i) :: path, .node header members =>
    .node header (members.map fun e =>
      if e.1.state = s then (e.1, e.2.modify i (modify f path)) else e)

end Level

/-- The outermost level of a compiled graph. -/
def Graph.level (g : Graph) (c : Compiled) : Level := .node g.header c.members

end Workflow
