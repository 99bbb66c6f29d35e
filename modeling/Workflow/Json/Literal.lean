import Workflow.Json.Basic
import Workflow.Text.Quoted

/-!
Values as messages show them. A literal tells strings from other values by their quotes; the
display of a value differs from its literal only in that a string stands without quotes.
-/

namespace Workflow.Json

/-- Messages name the values that no decimal denotes in lower case. -/
def literalWords : Binary64.Words := ⟨"nan", "inf"⟩

mutual
def literal : Json → String
  | .null => "None"
  | .bool b => if b then "True" else "False"
  | .number n => String.ofList (n.text literalWords)
  | .string s => Text.quoted s
  | .array items => "[" ++ ", ".intercalate (itemLiterals items) ++ "]"
  | .object fields => "\x7b" ++ ", ".intercalate (fieldLiterals fields) ++ "\x7d"

def itemLiterals : List Json → List String
  | [] => []
  | item :: items => literal item :: itemLiterals items

def fieldLiterals : List (String × Json) → List String
  | [] => []
  | (key, value) :: fields => (Text.quoted key ++ ": " ++ literal value) :: fieldLiterals fields
end

def display : Json → String
  | .string s => s
  | value => value.literal

end Workflow.Json
