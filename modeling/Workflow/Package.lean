import Workflow.StateType

/-!
What the package says of itself, and the names of errors that handlers can refer to.
-/

namespace Workflow.Package

def version : String := "1.0.0"

def description : String := "Step Functions state graph compiler"

/-- Error names with the identifiers that stand for them. -/
def errorNames : List (String × String) := [
  ("ALL", "States.ALL"),
  ("HEARTBEAT_TIMEOUT", "States.HeartbeatTimeout"),
  ("TIMEOUT", "States.Timeout"),
  ("TASK_FAILED", "States.TaskFailed"),
  ("PERMISSIONS", "States.Permissions"),
  ("RESULT_PATH_MATCH_FAILURE", "States.ResultPathMatchFailure"),
  ("PARAMETER_PATH_FAILURE", "States.ParameterPathFailure"),
  ("BRANCH_FAILED", "States.BranchFailed"),
  ("NO_CHOICE_MATCHED", "States.NoChoiceMatched")]

/-- The names that the package announces. -/
def publicNames : List String := [
  "__version__", "__description__",
  "Scope", "Chain",
  "State", "StateType", "Task", "Choice", "Condition", "Wait", "Parallel", "Map", "Pass", "Succeed",
  "Fail", "Errors",
  "StateGraph", "AslSerializer", "PolicyAggregator", "StateMachine",
  "PolicyStatement", "TaskResource", "lambda_function_resource", "activity_resource",
  "sns_publish_resource", "sqs_send_message_resource", "policy_document",
  "StateGraphError", "DuplicateStateName", "UnresolvedTransition", "InvalidWaitSpecification",
  "DoubleWiring", "EmptyStartState", "UnterminatedState", "InvalidStateConfiguration",
  "GraphVisualizer"]

end Workflow.Package
