import Workflow.Number.Basic

/-!
JSON values. Objects keep the order in which their fields were given. A field that a state leaves
unset is `null`, which is never written out.
-/

namespace Workflow

inductive Json where
  | null
  | bool (value : Bool)
  | number (value : Number)
  | string (value : String)
  | array (items : List Json)
  | object (fields : List (String × Json))

namespace Json

instance : Inhabited Json := ⟨.null⟩

def int (n : Int) : Json := .number (.int n)

def nat (n : Nat) : Json := .int n

def isNull : Json → Bool
  | .null => true
  | _ => false

/-- The default replaces whatever is empty: `null`, `false`, zero, and what has no elements. -/
def isEmpty : Json → Bool
  | .null => true
  | .bool b => !b
  | .number n => n.isZero
  | .string s => s.isEmpty
  | .array items => items.isEmpty
  | .object fields => fields.isEmpty

def string? : Json → Option String
  | .string s => some s
  | _ => none

/-- The whole number that is not negative, if the value is one. A truth value is none. -/
def nat? : Json → Option Nat
  | .number (.int n) => if 0 ≤ n then some n.toNat else none
  | _ => none

/-- The elements of a value that can be listed: items, characters or keys. -/
def elements? : Json → Option (List Json)
  | .array items => some items
  | .string s => some (s.toList.map fun c => .string (String.singleton c))
  | .object fields => some (fields.map fun field => .string field.1)
  | _ => none

/-- The value of a field of an object. -/
def field? (key : String) : Json → Option Json
  | .object fields => fields.lookup key
  | _ => none

/-- An optional field: left out when the value is `null`. -/
def optional (key : String) (value : Json) : List (String × Json) :=
  if value.isNull then [] else [(key, value)]

/-- Sets a field, in its place if there is one and behind the others if not. -/
def setField (fields : List (String × Json)) (key : String) (value : Json) : List (String × Json) :=
  match fields with
  | [] => [(key, value)]
  | (k, v) :: rest => if k = key then (k, value) :: rest else (k, v) :: setField rest key value

/-- The name that messages give to the type of a value. -/
def typeName : Json → String
  | .null => "NoneType"
  | .bool _ => "bool"
  | .number (.int _) => "int"
  | .number (.float _) => "float"
  | .string _ => "str"
  | .array _ => "list"
  | .object _ => "dict"

/-- The number that a value counts as when values are compared. -/
def asNumber? : Json → Option Number
  | .bool b => some (.int (if b then 1 else 0))
  | .number n => some n
  | _ => none

mutual
/-- Whether two values are the same: numbers and truth values by what they count as, objects by
their fields in any order. -/
def same : Json → Json → Bool
  | .null, .null => true
  | .string s, .string t => s == t
  | .array xs, .array ys => sameItems xs ys
  | .object xs, .object ys => xs.length == ys.length && sameFields xs ys
  | x, y =>
    match x.asNumber?, y.asNumber? with
    | some n, some m => n.same m
    | _, _ => false

def sameItems : List Json → List Json → Bool
  | [], [] => true
  | x :: xs, y :: ys => same x y && sameItems xs ys
  | _, _ => false

def sameFields : List (String × Json) → List (String × Json) → Bool
  | [], _ => true
  | (key, x) :: xs, ys =>
    (match ys.lookup key with
      | some y => same x y
      | none => false) && sameFields xs ys
end

end Json
end Workflow
