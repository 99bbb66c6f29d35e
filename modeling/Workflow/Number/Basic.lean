import Workflow.Number.Shortest

/-!
Numbers as documents hold them: whole numbers of any size and binary floating-point values. The two
kinds are compared by value and written apart.
-/

namespace Workflow

inductive Number where
  | int (value : Int)
  | float (value : Binary64)
deriving DecidableEq

namespace Number

def isZero : Number → Bool
  | .int n => n == 0
  | .float x => x.isZero

/-- Whether the number is below one. What is not a number is below nothing. -/
def belowOne : Number → Bool
  | .int n => n < 1
  | .float x => x.belowOne

/-- Whether two numbers have the same value, be they written as whole numbers or not. -/
def same : Number → Number → Bool
  | .int n, .int m => n == m
  | .int n, .float x => x.isInt n
  | .float x, .int n => x.isInt n
  | .float x, .float y => x.same y

/-- The text of a number, all its digits or the fewest that read back. -/
def text (words : Binary64.Words) : Number → List Char
  | .int n => (if n < 0 then ['-'] else []) ++ Nat.toDigits 10 n.natAbs
  | .float x => x.text words

end Number
end Workflow
