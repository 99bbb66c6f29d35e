import Workflow.Json.Access
import Workflow.Terminal

/-!
Checking a definition: what is made of the answer of the service that checks it. A report holds what
is printed besides what comes of a command; what was printed before a fault stays printed.
-/

namespace Workflow

/-- The answer of the service that checks definitions: a failure of the call or a response. -/
inductive Reply where
  | failure (text : String)
  | response (value : Json)

/-- What was printed, one text to a line, and what came of it. -/
structure Report (α : Type) where
  printed : List String
  result : Except Fault α

/-- One diagnostic of a response. -/
def diagnosticText (diagnostic : Json) : Except Fault String := do
  let part := fun key => (diagnostic.required key).map Json.display
  let severity ← part "severity"
  let code ← part "code"
  let message ← part "message"
  let location ← part "location"
  return s!"{severity}: {code}, {message} at {location}"

/-- Prints diagnostics one after the other until one of them is incomplete. -/
def reportDiagnostics (print : String → String) (answer : Bool) : List Json → Report Bool
  | [] => ⟨[], .ok answer⟩
  | diagnostic :: rest =>
    match diagnosticText diagnostic with
    | .error fault => ⟨[], .error fault⟩
    | .ok text =>
      let report := reportDiagnostics print answer rest
      { report with printed := print text :: report.printed }

namespace Reply

open Terminal

/-- A definition is valid if the service says so. Diagnostics are printed in either case. -/
def check : Reply → Report Bool
  | failure text =>
    ⟨[inColor red s!"❌ Validate State Machine Definition Process Failed: {text}"], .ok false⟩
  | response value =>
    match value with
    | .object _ =>
      let result := (value.field? "result").getD .null
      let valid := result.string? = some "OK"
      let status :=
        if valid then inColor green "✅ State Machine definition is valid"
        else inColor red s!"State Machine definition is invalid: {result.display}"
      let print := fun text =>
        if valid then inColor yellow s!"⚠️  {text}" else inColor red s!"❌ {text}"
      match ((value.field? "diagnostics").getD (.array [])).elements with
      | .error fault => ⟨[status], .error fault⟩
      | .ok diagnostics =>
        let report := reportDiagnostics print valid diagnostics
        { report with printed := status :: report.printed }
    | _ => ⟨[], .error (.unsupported value.typeName "get")⟩

end Reply

end Workflow
