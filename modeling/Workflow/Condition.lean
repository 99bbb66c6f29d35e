import Workflow.Fault

/-!
Conditions over the input of a choice. A comparison tests the value that a path refers to against a
literal; conditions are combined with `And`, `Or` and `Not`.
-/

namespace Workflow

/-- What the literal of a comparison has to be. -/
inductive Family where
  | text
  | number
  | truth
deriving DecidableEq

namespace Family

/-- The family of an operator is fixed by how its name begins. -/
def ofOperator? (operator : String) : Option Family :=
  [("String", text), ("Numeric", number), ("Boolean", truth), ("Timestamp", text),
    ("IsPresent", truth), ("IsNull", truth)].findSome? fun (start, family) =>
      if start.toList.isPrefixOf operator.toList then some family else none

def accepts : Family → Json → Bool
  | text, .string _ => true
  | number, .number _ => true
  | truth, .bool _ => true
  | _, _ => false

/-- The name that messages give to what is expected. -/
def typeName : Family → String
  | text => "str"
  | number => "int"
  | truth => "bool"

end Family

inductive Condition where
  | compare (path operator : String) (operand : Json)
  | all (operands : List Condition)
  | any (operands : List Condition)
  | not (operand : Condition)

namespace Condition

/-- A comparison from values as they were given. -/
def comparison (path : Json) (operator : String) (operand : Json) : Except Fault Condition :=
  match path with
  | .string p =>
    if p.toList.head? = some '$' then
      match Family.ofOperator? operator with
      | none => .error (.operator operator)
      | some family =>
        if family.accepts operand then .ok (.compare p operator operand)
        else .error (.operand operator family.typeName operand)
    else .error (.reference path)
  | _ => .error (.reference path)

def conjunction (operands : List Condition) : Except Fault Condition :=
  if operands.isEmpty then .error (.noOperands "And") else .ok (.all operands)

def disjunction (operands : List Condition) : Except Fault Condition :=
  if operands.isEmpty then .error (.noOperands "Or") else .ok (.any operands)

mutual
/-- The fields of a condition in a rule, to which the rule adds where it leads. -/
def fields : Condition → List (String × Json)
  | compare path operator operand => [("Variable", .string path), (operator, operand)]
  | all operands => [("And", .array (objects operands))]
  | any operands => [("Or", .array (objects operands))]
  | not operand => [("Not", .object (fields operand))]

def objects : List Condition → List Json
  | [] => []
  | operand :: operands => .object (fields operand) :: objects operands
end

def toJson (condition : Condition) : Json := .object condition.fields

end Condition

/-- The comparisons that have a name of their own. -/
inductive Test where
  | stringEquals
  | stringLessThan
  | stringLessThanEquals
  | stringGreaterThan
  | stringGreaterThanEquals
  | numericEquals
  | numericLessThan
  | numericLessThanEquals
  | numericGreaterThan
  | numericGreaterThanEquals
  | booleanEquals
  | timestampEquals
  | timestampLessThan
  | timestampLessThanEquals
  | timestampGreaterThan
  | timestampGreaterThanEquals
  | isPresent
  | isNull
deriving DecidableEq

namespace Test

def operator : Test → String
  | stringEquals => "StringEquals"
  | stringLessThan => "StringLessThan"
  | stringLessThanEquals => "StringLessThanEquals"
  | stringGreaterThan => "StringGreaterThan"
  | stringGreaterThanEquals => "StringGreaterThanEquals"
  | numericEquals => "NumericEquals"
  | numericLessThan => "NumericLessThan"
  | numericLessThanEquals => "NumericLessThanEquals"
  | numericGreaterThan => "NumericGreaterThan"
  | numericGreaterThanEquals => "NumericGreaterThanEquals"
  | booleanEquals => "BooleanEquals"
  | timestampEquals => "TimestampEquals"
  | timestampLessThan => "TimestampLessThan"
  | timestampLessThanEquals => "TimestampLessThanEquals"
  | timestampGreaterThan => "TimestampGreaterThan"
  | timestampGreaterThanEquals => "TimestampGreaterThanEquals"
  | isPresent => "IsPresent"
  | isNull => "IsNull"

/-- The condition that a test states of a path. The tests for presence and for null compare with
truth and take no operand. -/
def condition (test : Test) (path operand : Json) : Except Fault Condition :=
  match test with
  | isPresent | isNull => Condition.comparison path test.operator (.bool true)
  | _ => Condition.comparison path test.operator operand

end Test
end Workflow
