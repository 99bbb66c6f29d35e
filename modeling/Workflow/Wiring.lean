import Workflow.Validation
import Workflow.Workspace

/-!
Wiring. A transition is set once: a state that leads on, is marked as an end or ends a path by
itself takes no other. Retries and handlers of errors are added at the end of what there is.
-/

namespace Workflow

/-- A start and the states still to be continued, which are linked together to what comes next. -/
structure Chain where
  start : StateId
  openEnds : List StateId
deriving DecidableEq

/-- What a transition may be asked to lead to. -/
inductive Destination where
  | state (s : StateId)
  | chain (c : Chain)
  | name (name : String)
  | other (value : Json)

namespace Workspace

/-- The chain of a single state. -/
def chain (w : Workspace) (s : StateId) : Chain := ⟨s, w.openEnds s⟩

/-- The transition to a destination and the open ends that the destination brings with it. -/
def resolve (w : Workspace) : Destination → Except Fault (Target × List StateId)
  | .state s => .ok (.state s, w.openEnds s)
  | .chain c => .ok (.state c.start, c.openEnds)
  | .name name => if name.isEmpty then .error .emptyTarget else .ok (.name name, [])
  | .other value => .error (.notATarget value.typeName)

/-- The way out that a state has already. A choice has one only if it has a default. -/
def wired? (w : Workspace) (s : State) : Option Wired :=
  match s.kind, s.exit with
  | .choice _ _, .next target => some (.default (w.nameOf target))
  | .choice _ _, _ => none
  | _, .next target => some (.next (w.nameOf target))
  | _, .stop => some .stop
  | _, .unset => (s.type?.filter StateType.isTerminal).map Wired.terminal

/-- Refuses a second way out. -/
def checkUnwired (w : Workspace) (s : StateId) (attempt : Attempt) : Except Fault Unit :=
  match w.wired? (w.state s) with
  | some existing => .error (.alreadyWired (w.state s).name existing attempt)
  | none => .ok ()

/-- Refuses to mark as an end what has a way out already, and every choice. -/
def checkStoppable (w : Workspace) (s : StateId) : Except Fault Unit :=
  match (w.state s).kind with
  | .choice _ _ => .error (.misconfigured (w.state s).name .choiceCannotStop)
  | _ => w.checkUnwired s .stop

/-- How the wiring of a state to a target is spoken of. -/
def wiring (w : Workspace) (s : StateId) (target : Target) : Attempt :=
  match (w.state s).kind with
  | .choice _ _ => .default (w.nameOf target)
  | _ => .next (w.nameOf target)

end Workspace

namespace Build

/-- Sets the way out of a state, for a choice its default. -/
def wire (s : StateId) (target : Target) : Build Unit := do
  let w ← get
  lift (w.checkUnwired s (w.wiring s target))
  modifyState s ({ · with exit := .next target })

/-- Marks a state as the end of its path. -/
def stop (s : StateId) : Build Unit := do
  lift ((← get).checkStoppable s)
  modifyState s ({ · with exit := .stop })

/-- Wires a state to the start of a destination. -/
def wireTo (s : StateId) (destination : Destination) : Build Unit := do
  let (target, _) ← lift ((← get).resolve destination)
  wire s target

/-- Errors are all errors unless some are named. -/
def errorNames (errors : Json) : Except Fault (List Json) :=
  if errors.isEmpty then .ok [.string "States.ALL"] else errors.elements

def checkCanFail (s : State) (what : String) : Except Fault Unit :=
  if s.canFail then .ok ()
  else match s.type? with
    | some type => .error (.misconfigured s.name (.cannotFail type what))
    | none => .error (.unsupported "NoneType" "value")

/-- The rate of a retry: a number of at least one. -/
def checkRate (state : String) : Json → Except Fault Number
  | .number n =>
    if n.belowOne then .error (.misconfigured state (.backoffRate (.number n))) else .ok n
  | given => .error (.misconfigured state (.backoffRate given))

/-- Lets a state try again on errors. -/
def addRetry (s : StateId) (parts : Retry.Parts) : Build Unit := do
  let state := (← get).state s
  let retry ← lift do
    checkCanFail state "Retry"
    let intervalSeconds ← checkNatural state.name "IntervalSeconds" parts.intervalSeconds
    let maxAttempts ← checkNatural state.name "MaxAttempts" parts.maxAttempts
    let backoffRate ← checkRate state.name parts.backoffRate
    let errors ← errorNames parts.errors
    pure ({ errors, intervalSeconds, maxAttempts, backoffRate } : Retry)
  modifyState s fun state => { state with retries := state.retries ++ [retry] }

/-- Lets a state go on elsewhere on errors. -/
def addCatch (s : StateId) (destination : Destination) (errors resultPath : Json) : Build Unit := do
  let w ← get
  let handler ← lift do
    checkCanFail (w.state s) "Catch"
    let (target, _) ← w.resolve destination
    let errors ← errorNames errors
    pure ({ errors, target, resultPath } : Catch Target)
  modifyState s fun state => { state with catches := state.catches ++ [handler] }

end Build
end Workflow
