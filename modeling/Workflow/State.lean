import Workflow.Condition
import Workflow.Policy

/-!
States: their fixed fields, the wiring that building adds to them, and what is read off them. A
state refers to another by identity or by name. It has one way out, which for a choice is its
default.
-/

namespace Workflow

structure ScopeId where
  index : Nat
deriving DecidableEq

structure StateId where
  index : Nat
deriving DecidableEq

/-- Where a transition leads: to a state, under whatever name it has when the name is asked for, or
to whichever state has the given name. -/
inductive Target where
  | state (id : StateId)
  | name (name : String)
deriving DecidableEq

def Target.state? : Target → Option StateId
  | state id => some id
  | name _ => none

inductive Exit where
  | unset
  | next (target : Target)
  | stop

structure Retry where
  errors : List Json
  intervalSeconds : Nat
  maxAttempts : Nat
  backoffRate : Number

/-- The parts of a retry as they are given. Without errors it is for all errors. -/
structure Retry.Parts where
  errors : Json := .null
  intervalSeconds : Json := .int 1
  maxAttempts : Json := .int 3
  backoffRate : Json := .number (.float (Decimal.toBinary64 false ⟨2, 0⟩))

/-- A handler of errors, which refers to states by `α`. -/
structure Catch (α : Type) where
  errors : List Json
  target : α
  resultPath : Json

/-- A rule of a choice, which refers to states by `α`. -/
structure Rule (α : Type) where
  condition : Condition
  target : α

structure CommonFields where
  comment : Json := .null
  inputPath : Json := .null
  outputPath : Json := .null

structure TaskFields where
  parameters : Json := .null
  resultPath : Json := .null
  timeoutSeconds : Json := .null
  heartbeatSeconds : Json := .null

structure PassFields where
  parameters : Json := .null
  result : Json := .null
  resultPath : Json := .null

structure WaitFields where
  seconds : Json := .null
  timestamp : Json := .null
  secondsPath : Json := .null
  timestampPath : Json := .null

structure ParallelFields where
  parameters : Json := .null
  resultPath : Json := .null

structure MapFields where
  itemsPath : Json := .null
  maxConcurrency : Json := .null
  parameters : Json := .null
  resultPath : Json := .null

structure FailFields where
  error : Json := .null
  cause : Json := .null

/-- What a state does. A choice also holds the open ends of its branches as they were attached, a
parallel or map state the starts of the graphs it runs. Two kinds have no place in a document: a
plain state does nothing, and an unbound task was left by a definition that broke off before the
task had a resource or any other field of tasks. -/
inductive Kind where
  | task (resource : Resource) (fields : TaskFields)
  | pass (fields : PassFields)
  | wait (fields : WaitFields)
  | choice (rules : List (Rule Target)) (tails : List StateId)
  | parallel (fields : ParallelFields) (branches : List StateId)
  | map (fields : MapFields) (iterator : Option StateId)
  | succeed
  | fail (fields : FailFields)
  | plain
  | unbound

def Kind.type? : Kind → Option StateType
  | task _ _ => some .task
  | pass _ => some .pass
  | wait _ => some .wait
  | choice _ _ => some .choice
  | parallel _ _ => some .parallel
  | map _ _ => some .map
  | succeed => some .succeed
  | fail _ => some .fail
  | plain => none
  | unbound => some .task

structure State where
  scope : ScopeId
  id : String
  path : String
  name : String
  common : CommonFields
  kind : Kind
  exit : Exit := .unset
  retries : List Retry := []
  catches : List (Catch Target) := []

instance : Inhabited State where
  default := { scope := ⟨0⟩, id := "", path := "", name := "", common := {}, kind := .plain }

namespace State

def type? (s : State) : Option StateType := s.kind.type?

/-- The name that messages give to the type of the state. -/
def typeName (s : State) : String := (s.type?.map StateType.name).getD "State"

def isTerminal (s : State) : Bool := (s.type?.map StateType.isTerminal).getD false

def canFail (s : State) : Bool := (s.type?.map StateType.canFail).getD false

def isStopped (s : State) : Bool := s.exit matches .stop

/-- Where the way out leads, if it leads to another state. -/
def onward (s : State) : Option Target :=
  match s.exit with
  | .next target => some target
  | _ => none

/-- The transitions out of a state in the order in which its entry lists them. -/
def outgoing (s : State) : List (Field × Target) :=
  match s.kind with
  | .choice rules _ =>
    rules.map (fun rule => (.choices, rule.target)) ++ (s.onward.map (Field.default, ·)).toList
  | _ =>
    (s.onward.map (Field.next, ·)).toList ++ s.catches.map fun handler => (.catches, handler.target)

/-- The states that transitions refer to by identity. -/
def successors (s : State) : List StateId := s.outgoing.filterMap (·.2.state?)

/-- The starts of the graphs that the state runs. -/
def nestedStarts (s : State) : List StateId :=
  match s.kind with
  | .parallel _ branches => branches
  | .map _ iterator => iterator.toList
  | _ => []

/-- The permissions that the state needs. -/
def statements (s : State) : List Statement :=
  match s.kind with
  | .task resource _ => resource.statements
  | _ => []

end State

namespace WaitFields

/-- The fields of a wait that say how long it takes. -/
def given (w : WaitFields) : List (String × Json) :=
  Json.optional "Seconds" w.seconds ++ Json.optional "Timestamp" w.timestamp ++
    Json.optional "SecondsPath" w.secondsPath ++ Json.optional "TimestampPath" w.timestampPath

end WaitFields
end Workflow
