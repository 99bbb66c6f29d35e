import Workflow.Number.Decimal

/-!
The shortest decimal of a binary value: the fewest digits that read back as the value, and of those
the nearest to it. A value has an exact decimal of finitely many digits, which is what remains
should no shorter one read back.
-/

namespace Workflow
namespace Decimal

/-- All digits of the magnitude of a rank. -/
def exact (rank : Nat) : Decimal := ⟨Binary64.units rank * Nat.pow 5 1074, -1074⟩

/-- The position of the decimal point of a magnitude that is not zero: its leading digit stands for
`10 ^ (point - 1)`. -/
def leadingPoint (rank : Nat) : Int :=
  (Nat.toDigits 10 (Binary64.units rank * Nat.pow 10 400 / Binary64.one)).length - 400

/-- The multiples of `10 ^ exponent` on either side of a magnitude, the nearer one first and of two
equally near ones the even one. -/
def neighbours (rank : Nat) (exponent : Int) : List Decimal :=
  let above := Binary64.units rank * Nat.pow 10 (-exponent).toNat
  let step := Binary64.one * Nat.pow 10 exponent.toNat
  let low := above / step
  let rest := 2 * (above % step)
  if rest < step ∨ rest = step ∧ low % 2 = 0 then [⟨low, exponent⟩, ⟨low + 1, exponent⟩]
  else [⟨low + 1, exponent⟩, ⟨low, exponent⟩]

/-- Whether the decimal is read as the magnitude of a rank. -/
def readsAs (rank : Nat) (d : Decimal) : Bool :=
  Binary64.nearestRank d.inUnits.1 d.inUnits.2 == rank

/-- The shortest decimal that reads back as the magnitude of a rank. Seventeen digits are enough for
every magnitude. -/
def shortest (rank : Nat) : Decimal :=
  if rank = 0 then ⟨0, 0⟩
  else
    let point := leadingPoint rank
    ((List.range 17).findSome? fun (n : Nat) =>
      (neighbours rank (point - (n + 1))).find? (readsAs rank)).getD (exact rank)

/-- The significant digits of a decimal, without the zeros at their end. -/
def significant (d : Decimal) : List Char :=
  ((Nat.toDigits 10 d.digits).reverse.dropWhile (· == '0')).reverse

/-- Digits with a point among them, or with the zeros that lead up to it. -/
def positional (digits : List Char) (point : Int) : List Char :=
  if point ≤ 0 then "0.".toList ++ List.replicate (-point).toNat '0' ++ digits
  else
    let whole := digits.take point.toNat
    let fraction := digits.drop point.toNat
    whole ++ List.replicate (point.toNat - digits.length) '0' ++
      '.' :: (if fraction = [] then ['0'] else fraction)

/-- One digit before the point and a power of ten of at least two digits. -/
def scientific (digits : List Char) (power : Int) : List Char :=
  let size := Nat.toDigits 10 power.natAbs
  digits.take 1 ++ (if digits.length ≤ 1 then [] else '.' :: digits.drop 1) ++
    'e' :: (if power < 0 then '-' else '+') :: (List.replicate (2 - size.length) '0' ++ size)

/-- The text of a decimal: positional from `1e-4` up to, but not including, `1e16`. -/
def text (d : Decimal) : List Char :=
  if d.digits = 0 then "0.0".toList
  else if -4 < d.point ∧ d.point ≤ 16 then positional d.significant d.point
  else scientific d.significant (d.point - 1)

end Decimal

/-- Words for the values that no decimal denotes. -/
structure Binary64.Words where
  nan : String
  infinity : String

/-- The shortest text that reads back as the value. -/
def Binary64.text (words : Binary64.Words) : Binary64 → List Char
  | .finite negative rank =>
    (if negative then ['-'] else []) ++ (Decimal.shortest rank.val).text
  | .infinite negative => (if negative then ['-'] else []) ++ words.infinity.toList
  | .nan _ => words.nan.toList

end Workflow
