/-!
The closed set of state kinds a document knows, with the names it gives them.
-/

namespace Workflow

inductive StateType where
  | task
  | choice
  | wait
  | parallel
  | map
  | pass
  | succeed
  | fail
deriving DecidableEq

namespace StateType

def name : StateType → String
  | task => "Task"
  | choice => "Choice"
  | wait => "Wait"
  | parallel => "Parallel"
  | map => "Map"
  | pass => "Pass"
  | succeed => "Succeed"
  | fail => "Fail"

def all : List StateType := [task, choice, wait, parallel, map, pass, succeed, fail]

/-- The kinds that end a path by themselves. -/
def isTerminal : StateType → Bool
  | succeed | fail => true
  | _ => false

/-- The kinds that can fail, and so can retry and catch. -/
def canFail : StateType → Bool
  | task | parallel | map => true
  | _ => false

end StateType

/-- The fields of a state entry that name another state. -/
inductive Field where
  | next
  | catches
  | choices
  | default
deriving DecidableEq

def Field.key : Field → String
  | next => "Next"
  | catches => "Catch"
  | choices => "Choices"
  | default => "Default"

end Workflow
