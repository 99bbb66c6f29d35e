import Workflow.State

/-!
When a state is complete. A state that does not end a path needs a way out; each kind has conditions
of its own besides. Whole numbers are checked here rather than where they are given.
-/

namespace Workflow

/-- The value of a field that has to be a whole number and not negative. -/
def checkNatural (state field : String) (value : Json) : Except Fault Nat :=
  match value.nat? with
  | some n => .ok n
  | none => .error (.misconfigured state (.notNatural field value))

/-- As `checkNatural` for a field that may be unset. -/
def checkOptional (state field : String) (value : Json) : Except Fault (Option Nat) :=
  if value.isNull then .ok none else some <$> checkNatural state field value

namespace State

/-- A state that does not end a path leads on or is marked as an end. -/
def checkExit (s : State) : Except Fault Unit :=
  match s.exit with
  | .unset => if s.isTerminal then .ok () else .error (.unterminated s.name s.path)
  | _ => .ok ()

/-- The conditions on the fields of each kind. An unbound task has no fields that could be asked. -/
def checkFields (s : State) : Except Fault Unit :=
  match s.kind with
  | .task _ fields => do
    let timeout ← checkOptional s.name "TimeoutSeconds" fields.timeoutSeconds
    let heartbeat ← checkOptional s.name "HeartbeatSeconds" fields.heartbeatSeconds
    match heartbeat, timeout with
    | some beat, some limit =>
      if limit ≤ beat then .error (.misconfigured s.name (.heartbeat beat limit)) else .ok ()
    | _, _ => .ok ()
  | .wait fields =>
    if fields.given.length ≠ 1 then .error (.waitDuration s.name (fields.given.map (·.1)))
    else do discard <| checkOptional s.name "Seconds" fields.seconds
  | .parallel _ branches =>
    if branches.isEmpty then .error (.misconfigured s.name .noBranches) else .ok ()
  | .map fields iterator =>
    if iterator.isNone then .error (.misconfigured s.name .noIterator)
    else do discard <| checkOptional s.name "MaxConcurrency" fields.maxConcurrency
  | .unbound => .error (.unsupported s.typeName "timeout_seconds")
  | _ => .ok ()

/-- Whether a state is complete. A choice needs a rule and may do without a default. -/
def validate (s : State) : Except Fault Unit :=
  match s.kind with
  | .choice rules _ =>
    if rules.isEmpty then .error (.misconfigured s.name .noRules) else .ok ()
  | _ => do
    s.checkExit
    s.checkFields

end State
end Workflow
