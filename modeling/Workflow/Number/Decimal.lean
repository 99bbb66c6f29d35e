import Workflow.Number.Binary64
import Workflow.Text.Digit

/-!
Decimals: a whole number of powers of ten, their nearest binary value, and the reading of decimal
text. Rounding is exact, so a decimal reads back as the value it was taken from whenever it lies
closer to that value than to any other.
-/

namespace Workflow

/-- The number `digits * 10 ^ exponent`. -/
structure Decimal where
  digits : Nat
  exponent : Int
deriving DecidableEq

namespace Decimal

/-- The quotient of naturals that the decimal amounts to in units of a binary value. -/
def inUnits (d : Decimal) : Nat × Nat :=
  (d.digits * Nat.pow 10 d.exponent.toNat * Binary64.one, Nat.pow 10 (-d.exponent).toNat)

/-- The position of the decimal point, counted from the left end of the digits. -/
def point (d : Decimal) : Int :=
  (Nat.toDigits 10 d.digits).length + d.exponent

/-- The binary value nearest to the decimal. Far outside the range of the finite values the answer
is known from the position of the point alone. -/
def toBinary64 (negative : Bool) (d : Decimal) : Binary64 :=
  if d.digits = 0 ∨ d.point < -400 then .ofRank negative 0
  else if 400 < d.point then .infinite negative
  else .ofRank negative (Binary64.nearestRank d.inUnits.1 d.inUnits.2)

def splitSign : List Char → Bool × List Char
  | '-' :: rest => (true, rest)
  | '+' :: rest => (false, rest)
  | cs => (false, cs)

def exponent? : List Char → Option Int
  | [] => some 0
  | mark :: rest =>
    let (negative, digits) := splitSign rest
    if (mark = 'e' ∨ mark = 'E') ∧ digits ≠ [] ∧ digits.all Char.isDigit then
      let n : Int := Nat.ofDigitChars 10 digits 0
      some (if negative then -n else n)
    else none

/-- Reads digits with an optional fraction and an optional power of ten. -/
def parse? (cs : List Char) : Option Decimal := do
  let whole := cs.takeWhile Char.isDigit
  let rest := cs.dropWhile Char.isDigit
  let tail := if rest.head? = some '.' then rest.tail else []
  let fraction := tail.takeWhile Char.isDigit
  let power ← exponent? (if rest.head? = some '.' then tail.dropWhile Char.isDigit else rest)
  if whole = [] ∧ fraction = [] then none
  else some ⟨Nat.ofDigitChars 10 (whole ++ fraction) 0, power - fraction.length⟩

end Decimal

/-- Reads a decimal with an optional sign, or one of the words for the values that have none. What
is not a number gets the payload. -/
def Binary64.parse? (text : String) (payload : Nat) : Option Binary64 :=
  let (negative, body) := Decimal.splitSign (Text.plain text.toList)
  let word := String.ofList (body.map Char.toLower)
  if word = "nan" then some (.nan payload)
  else if word = "inf" ∨ word = "infinity" then some (.infinite negative)
  else (Decimal.parse? body).map (Decimal.toBinary64 negative)

end Workflow
