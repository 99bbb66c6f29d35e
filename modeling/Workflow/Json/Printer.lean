import Workflow.Json.Basic
import Workflow.Text.Quoted

/-!
JSON text. Only printable ASCII is written: every other character becomes an escape, those beyond
the basic plane a surrogate pair. A layout says which blanks go between the tokens; the tokens are
the same for every layout.
-/

namespace Workflow.Json

/-- JSON text has words for the values that no decimal denotes. -/
def numberWords : Binary64.Words := ⟨"NaN", "Infinity"⟩

/-- The escape of one UTF-16 unit. -/
def unitEscape (unit : Nat) : List Char := '\\' :: 'u' :: Text.hex 4 unit

/-- The written form of one character of a string. -/
def escape (c : Char) : List Char :=
  if c = '"' then ['\\', '"']
  else if c = '\\' then ['\\', '\\']
  else if c = '\n' then ['\\', 'n']
  else if c = '\r' then ['\\', 'r']
  else if c = '\t' then ['\\', 't']
  else if c = '\x08' then ['\\', 'b']
  else if c = '\x0c' then ['\\', 'f']
  else if 0x20 ≤ c.toNat ∧ c.toNat < 0x7f then [c]
  else if c.toNat < 0x10000 then unitEscape c.toNat
  else
    let beyond := c.toNat - 0x10000
    unitEscape (0xd800 + beyond / 0x400) ++ unitEscape (0xdc00 + beyond % 0x400)

def writeString (s : String) : List Char :=
  '"' :: s.toList.flatMap escape ++ ['"']

/-- The blanks of a text: those next to the brackets of a value and those after a comma, at a depth
of nesting. -/
structure Layout where
  margin : Nat → List Char
  gap : Nat → List Char

namespace Layout

/-- Everything on one line, with a space after each comma. -/
def line : Layout := ⟨fun _ => [], fun _ => [' ']⟩

/-- Every element on a line of its own, indented by two spaces for each level. -/
def indented : Layout :=
  let newline := fun depth => '\n' :: List.replicate (2 * depth) ' '
  ⟨newline, newline⟩

end Layout

mutual
/-- The tokens of a value that stands at a depth of nesting. -/
def write (layout : Layout) (depth : Nat) : Json → List Char
  | .null => "null".toList
  | .bool b => (if b then "true" else "false").toList
  | .number n => n.text numberWords
  | .string s => writeString s
  | .array [] => ['[', ']']
  | .array (item :: items) =>
    '[' :: layout.margin (depth + 1) ++ write layout (depth + 1) item ++
      writeItems layout (depth + 1) items ++ layout.margin depth ++ [']']
  | .object [] => ['{', '}']
  | .object ((key, value) :: fields) =>
    '{' :: layout.margin (depth + 1) ++ writeString key ++ ':' :: ' ' ::
      write layout (depth + 1) value ++ writeFields layout (depth + 1) fields ++
      layout.margin depth ++ ['}']

def writeItems (layout : Layout) (depth : Nat) : List Json → List Char
  | [] => []
  | item :: items =>
    ',' :: layout.gap depth ++ write layout depth item ++ writeItems layout depth items

def writeFields (layout : Layout) (depth : Nat) : List (String × Json) → List Char
  | [] => []
  | (key, value) :: fields =>
    ',' :: layout.gap depth ++ writeString key ++ ':' :: ' ' ::
      write layout depth value ++ writeFields layout depth fields
end

/-- The JSON text of a value under a layout. -/
def text (layout : Layout) (value : Json) : String := String.ofList (value.write layout 0)

/-- The JSON text of a value on one line. -/
def compact (value : Json) : String := value.text .line

end Workflow.Json
