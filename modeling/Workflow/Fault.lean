import Workflow.StateType
import Workflow.Json.Literal

/-!
What can go wrong while a workflow is built, compiled or drawn. Each fault holds its cause;
`message` gives the wording.
-/

namespace Workflow

/-- The way out that a state or chain has already. -/
inductive Wired where
  | next (target : String)
  | default (target : String)
  | stop
  | terminal (type : StateType)
  | noOpenEnds

/-- The way out that was asked for in vain. -/
inductive Attempt where
  | next (target : String)
  | default (target : String)
  | link (target : String)
  | stop
  | continuation

/-- Why a state cannot be as it was asked to be. -/
inductive Misconfiguration where
  | notNatural (field : String) (given : Json)
  | backoffRate (given : Json)
  | heartbeat (beat timeout : Nat)
  | cannotFail (type : StateType) (what : String)
  | choiceCannotStop
  | noRules
  | noBranches
  | noIterator
  | iteratorSet (start : String)
  | shared (graph owner : String)

/-- The causes of faults: of compiling and wiring first, then of values that are refused, then of
values that lack the form that was expected of them. Names and paths are those at the time of the
fault. -/
inductive Fault where
  | duplicateName (name firstPath secondPath graph : String)
  | unresolved (source target : String) (field : Field) (graph : String)
  | waitDuration (state : String) (specified : List String)
  | alreadyWired (state : String) (existing : Wired) (attempt : Attempt)
  | noStart (graph : String)
  | unterminated (state path : String)
  | misconfigured (state : String) (reason : Misconfiguration)
  | graphTimeout (graph : String) (given : Json)
  | emptyScopeId
  | separatorInScopeId (id : String)
  | emptyChildId (scope : String)
  | emptyTarget
  | emptyArn
  | emptyRole
  | effect (given : Json)
  | reference (given : Json)
  | operator (name : String)
  | operand (operator expected : String) (given : Json)
  | noOperands (operator : String)
  | untypedEntry
  | notATarget (typeName : String)
  | notAResource (typeName : String)
  | notACondition (typeName : String)
  | notIterable (typeName : String)
  | notHashable (typeName : String)
  | notText (position : Nat) (typeName : String)
  | notCounted (typeName : String)
  | notJoined
  | notSearched (typeName : String)
  | notKeyed (typeName : String)
  | textKey
  | listIndex (typeName : String)
  | indexOutOfRange
  | indexTooLarge
  | missingKey (key : String)
  | missingDirectory (file : String)
  | unsupported (typeName operation : String)
  | exhausted

def Wired.describe : Wired → String
  | next target => s!"Next '{target}'"
  | default target => s!"Default '{target}'"
  | stop => "End"
  | terminal type => s!"a terminal {type.name} type"
  | noOpenEnds => "a chain with no open ends"

def Attempt.describe : Attempt → String
  | next target => s!"Next '{target}'"
  | default target => s!"Default '{target}'"
  | link target => s!"a transition to '{target}'"
  | stop => "End"
  | continuation => "a continuation"

def Misconfiguration.describe : Misconfiguration → String
  | notNatural field given => s!"{field} must be a non-negative integer, got {given.literal}"
  | backoffRate given => s!"BackoffRate must be a number >= 1, got {given.literal}"
  | heartbeat beat timeout =>
    s!"HeartbeatSeconds ({beat}) must be smaller than TimeoutSeconds ({timeout})"
  | cannotFail type what => s!"{type.name} states do not support {what}"
  | choiceCannotStop =>
    "Choice states cannot be marked as End; give them a default with otherwise()"
  | noRules => "Choice must have at least one rule"
  | noBranches => "Parallel must have at least one branch"
  | noIterator => "Map must have an iterator"
  | iteratorSet start => s!"iterator already starts at '{start}'"
  | shared graph owner =>
    s!"used in {graph} but already part of {owner}; every state can only belong to one graph"

/-- A phrase about something that may have no name. -/
def Fault.aside (before name after : String) : String :=
  if name.isEmpty then "" else before ++ name ++ after

def Fault.message : Fault → String
  | duplicateName name firstPath secondPath graph =>
    s!"State with name '{name}' occurs in both '{firstPath}' and '{secondPath}'" ++
      aside " in " graph "" ++ ". All states must have unique names."
  | unresolved source target field graph =>
    s!"State '{source}' has a {field.key} transition to '{target}', " ++
      "which is not a state of graph" ++ aside " '" graph "'"
  | waitDuration state specified =>
    let given := if specified.isEmpty then "none" else ", ".intercalate specified
    s!"Wait state '{state}' must specify exactly one of Seconds, Timestamp, SecondsPath or " ++
      s!"TimestampPath (got {given})"
  | alreadyWired state existing attempt =>
    s!"State '{state}' already has {existing.describe}; cannot also set {attempt.describe}"
  | noStart graph => "No start state supplied" ++ aside " for '" graph "'"
  | unterminated state path =>
    s!"State '{state}' ({path}) has no outgoing transition; " ++
      "chain it to another state or mark it with end()"
  | misconfigured state reason => s!"State '{state}': {reason.describe}"
  | graphTimeout graph given =>
    s!"TimeoutSeconds of {graph} must be a non-negative integer, got {given.literal}"
  | emptyScopeId => "Scope id must not be empty"
  | separatorInScopeId id => s!"Scope id '{id}' must not contain '/'"
  | emptyChildId scope => s!"Child id in scope '{scope}' must not be empty"
  | emptyTarget => "Transition target name must not be empty"
  | emptyArn => "Task resource ARN must not be empty"
  | emptyRole => "Execution role ARN must not be empty"
  | effect given =>
    s!"Policy statement effect must be 'Allow' or 'Deny', got '{given.display}'"
  | reference given =>
    s!"Variable reference must be a JSONPath starting with '$', got {given.literal}"
  | operator name => s!"Unknown comparison operator: {name}"
  | operand test expected given =>
    s!"{test} expects a value of type {expected}, got {given.literal}"
  | noOperands join => s!"{join} condition requires at least one operand"
  | untypedEntry => "Unknown state type: None"
  | notATarget typeName =>
    s!"Transition target must be a state, a chain or a state name, got {typeName}"
  | notAResource typeName => s!"Task resource must be a TaskResource, got {typeName}"
  | notACondition typeName => s!"Choice rule needs a Condition, got {typeName}"
  | notIterable typeName => s!"'{typeName}' object is not iterable"
  | notHashable typeName => s!"unhashable type: '{typeName}'"
  | notText position typeName =>
    s!"sequence item {position}: expected str instance, {typeName} found"
  | notCounted typeName => s!"object of type '{typeName}' has no len()"
  | notJoined => "can only join an iterable"
  | notSearched typeName => s!"argument of type '{typeName}' is not iterable"
  | notKeyed typeName => s!"'{typeName}' object is not subscriptable"
  | textKey => "string indices must be integers, not 'str'"
  | listIndex typeName => s!"list indices must be integers or slices, not {typeName}"
  | indexOutOfRange => "list index out of range"
  | indexTooLarge => "cannot fit 'int' into an index-sized integer"
  | missingKey key => Text.quoted key
  | missingDirectory file => s!"[Errno 2] No such file or directory: {Text.quoted file}"
  | unsupported typeName operation => s!"'{typeName}' object has no attribute '{operation}'"
  | exhausted => "The traversal of the graph did not finish"

end Workflow
