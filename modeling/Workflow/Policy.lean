import Workflow.Json.Access

/-!
Permission statements, the resources that need them, and the policy document that lists them.
Statements are compared by effect, actions and resources, each in order.
-/

namespace Workflow

inductive Effect where
  | allow
  | deny
deriving DecidableEq

def Effect.name : Effect → String
  | allow => "Allow"
  | deny => "Deny"

structure Statement where
  effect : Effect
  actions : List Json
  resources : List Json

/-- The parts of a statement as they are given. -/
structure Statement.Parts where
  actions : Json := .array []
  resources : Json := .array []
  effect : Json := .string "Allow"

namespace Statement

def ofParts (parts : Parts) : Except Fault Statement := do
  let effect ← match parts.effect with
    | .string "Allow" => .ok Effect.allow
    | .string "Deny" => .ok Effect.deny
    | given => .error (.effect given)
  return ⟨effect, ← parts.actions.elements, ← parts.resources.elements⟩

/-- Permission for one action on one resource. -/
def allow (action : String) (resource : Json) : Statement :=
  ⟨.allow, [.string action], [resource]⟩

def same (s t : Statement) : Bool :=
  decide (s.effect = t.effect) && Json.sameItems s.actions t.actions &&
    Json.sameItems s.resources t.resources

/-- Members of a set must be hashable, which lists and objects are not. -/
def checkHashable (s : Statement) : Except Fault Unit :=
  (s.actions ++ s.resources).forM fun
    | .array _ => .error (.notHashable "list")
    | .object _ => .error (.notHashable "dict")
    | _ => .ok ()

/-- The statements with each one kept where it occurs first. -/
def distinct (statements : List Statement) : List Statement :=
  statements.foldl (fun kept s => if kept.any s.same then kept else kept ++ [s]) []

/-- How many statements a set of the two has. -/
def setSize (s t : Statement) : Except Fault Nat := do
  s.checkHashable
  t.checkHashable
  return (distinct [s, t]).length

def toJson (s : Statement) : Json :=
  .object [("Effect", .string s.effect.name), ("Action", .array s.actions),
    ("Resource", .array s.resources)]

/-- The policy document of a list of statements. -/
def document (statements : List Statement) : Json :=
  .object [("Version", .string "2012-10-17"), ("Statement", .array (statements.map toJson))]

end Statement

/-- What a task invokes, and the statements that invoking it needs. -/
structure Resource where
  arn : Json
  statements : List Statement

namespace Resource

def ofArn (arn : Json) (statements : List Statement) : Except Fault Resource :=
  if arn.isEmpty then .error .emptyArn else .ok ⟨arn, statements⟩

def function (arn : Json) : Except Fault Resource :=
  ofArn arn [.allow "lambda:InvokeFunction" arn]

/-- Workers poll an activity, so that nothing is needed to start it. -/
def activity (arn : Json) : Except Fault Resource := ofArn arn []

def publish (topic : Json) : Except Fault Resource :=
  ofArn (.string "arn:aws:states:::sns:publish") [.allow "sns:Publish" topic]

def sendMessage (queue : Json) : Except Fault Resource :=
  ofArn (.string "arn:aws:states:::sqs:sendMessage") [.allow "sqs:SendMessage" queue]

end Resource
end Workflow
