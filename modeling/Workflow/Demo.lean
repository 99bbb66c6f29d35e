import Workflow.Branching
import Workflow.Construction
import Workflow.Drawing.Tree
import Workflow.Machine.Save

/-!
A demonstration: the handling of an order, from its validation through packing and shipping to the
notice to the customer, compiled to a state machine and drawn.
-/

namespace Workflow.Demo

def account : String := "123456789012"

def region : String := "us-west-2"

/-- A task that calls a function of the account. -/
def callTask (scope : ScopeId) (id function : String) : Build StateId :=
  Build.state scope id none {}
    (.task (.ok ⟨.string arn, [.allow "lambda:InvokeFunction" (.string arn)]⟩) {})
where
  arn : String := s!"arn:aws:lambda:{region}:{account}:function:{function}"

/-- The chain of a state. -/
def start (s : StateId) : Build Chain := return (← get).chain s

/-- A condition, which the demonstration states correctly. -/
def condition (test : Test) (path : String) (operand : Json) : Except String Condition :=
  match test.condition (.string path) operand with
  | .ok condition => .ok condition
  | .error fault => .error fault.message

def orderPipeline (scope : ScopeId) : Build Chain := do
  let check ← callTask scope "ValidateOrder" "validate_order"
  Build.addRetry check
    { errors := .array [.string "States.TaskFailed"], intervalSeconds := .int 2
      maxAttempts := .int 2 }
  let rejected ← Build.state scope "OrderRejected" none {}
    (.fail ⟨.string "InvalidOrder", .string "Order failed validation"⟩)
  Build.addCatch check (.state rejected) (.array [.string "States.ALL"]) (.string "$.error")
  let branches ← Build.scope "Fulfilment" (some scope)
  let reserve ← callTask branches "ReserveStock" "reserve_stock"
  let charge ← callTask branches "ChargeCard" "charge_card"
  let fulfil ← Build.state scope "Fulfil" none {}
    (.parallel { resultPath := .string "$.fulfilment" })
  let reserved ← (← start reserve).finish
  let charged ← (← start charge).finish
  Build.addBranches fulfil [reserved.start, charged.start]
  let items ← Build.scope "Items" (some scope)
  let packItem ← callTask items "PackItem" "pack_item"
  let packAll ← Build.state scope "PackItems" none {}
    (.map { itemsPath := .string "$.items", maxConcurrency := .int 5 })
  let packed ← (← start packItem).finish
  Build.setIterator packAll packed.start
  let wait ← Build.state scope "WaitForCarrier" none {} (.wait { seconds := .int 30 })
  let shipment ← callTask scope "CheckShipment" "check_shipment"
  let shipped ← Build.state scope "IsShipped" none {} .choice
  let topic : Json := .string s!"arn:aws:sns:{region}:{account}:orders"
  let notify ← Build.state scope "NotifyCustomer" none {}
    (.task (Resource.publish topic |>.mapError Fault.message)
      { parameters := .object [("Message.$", .string "$.summary")] })
  let done ← Build.state scope "Done" none {} .succeed
  let notified ← (← start notify).next (.state done)
  Build.addRule shipped (condition .booleanEquals "$.shipped" (.bool true)) (.chain notified)
  Build.setDefault shipped (.state wait)
  let alreadyPacked ← Build.state scope "AlreadyPacked" none {}
    (.pass { result := .object [("packed", .bool true)], resultPath := .string "$.packing" })
  let route ← Build.state scope "NeedsPacking" none {} .choice
  Build.addRule route (condition .isPresent "$.items" .null) (.state packAll)
  Build.setDefault route (.state alreadyPacked)
  let chain ← (← start check).next (.state fulfil)
  let converged ← Build.lift ((← get).afterwards route)
  let chain ← chain.next (.chain converged)
  let chain ← chain.next (.state wait)
  let chain ← chain.next (.state shipment)
  chain.next (.state shipped)

/-- The demonstration compiled to a state machine. -/
def machine : Build Machine := do
  let root ← Build.scope "OrderPipeline" none
  let chain ← orderPipeline root
  Build.machine (some chain.start) (.string s!"arn:aws:iam::{account}:role/OrderPipelineRole")
    (some "OrderPipeline") (.int 3600)

/-- One permission on a line of its own. -/
def statementLine (s : Statement) : String :=
  let joined := fun items => ", ".intercalate (items.map Json.display)
  s!"  {s.effect.name} {joined s.actions} on {joined s.resources}"

/-- What the demonstration prints of its machine. -/
def lines (m : Machine) : Except Fault (List String) := do
  let drawing ← Drawing.draw {} m.definition.toJson (some "OrderPipeline")
  return drawing :: ("\n" ++ Terminal.inColor Terminal.cyan "Role policy statements:") ::
    m.statements.map statementLine

/-- The demonstration as a command: what it prints, whether it succeeds, and the files that it
writes to a directory if one is given. -/
def run (directory : Option Directory) : Saved :=
  match machine.run {} with
  | .error fault _ =>
    ⟨⟨[Terminal.inColor Terminal.red s!"❌ Failed to compile state machine: {fault.message}"],
      .ok false⟩, []⟩
  | .ok m _ =>
    match lines m with
    | .error fault => ⟨⟨[], .error fault⟩, []⟩
    | .ok printed =>
      match directory with
      | none => ⟨⟨printed, .ok true⟩, []⟩
      | some directory =>
        let saved := m.save directory none
        { saved with report.printed := printed ++ saved.report.printed }

end Workflow.Demo
