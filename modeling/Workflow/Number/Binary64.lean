/-!
Binary floating-point values of 64 bits. The finite magnitudes are numbered from zero upwards in
increasing order; the number of a magnitude is its rank. Every magnitude is a whole number of
units, a unit being `2 ^ (-1074)`, so comparison and rounding are exact arithmetic on naturals.
-/

namespace Workflow

/-- How many magnitudes share a spacing. -/
def Binary64.binade : Nat := Nat.pow 2 52

/-- How many finite magnitudes there are: 2047 binades. -/
def Binary64.magnitudes : Nat := 2047 * binade

/-- Each value that is not a number has a payload that tells it from others. -/
inductive Binary64 where
  | finite (negative : Bool) (rank : Fin Binary64.magnitudes)
  | infinite (negative : Bool)
  | nan (payload : Nat)
deriving DecidableEq

namespace Binary64

/-- How many units make one. -/
def one : Nat := Nat.pow 2 1074

/-- The magnitude of a rank in units. The lowest two binades share their spacing; above them the
spacing doubles from binade to binade. -/
def units (rank : Nat) : Nat :=
  if rank < binade then rank
  else (binade + rank % binade) * Nat.pow 2 (rank / binade - 1)

/-- The rank nearest to the quotient of `units` by `parts`, of two equally near the even one. A
rank of at least `magnitudes` means that the quotient rounds beyond every finite magnitude. -/
def nearestRank (units parts : Nat) : Nat :=
  let shift := Nat.log2 (units / parts) - 52
  let step := parts * Nat.pow 2 shift
  let below := units / step
  let rest := 2 * (units % step)
  let significand := if rest < step ∨ rest = step ∧ below % 2 = 0 then below else below + 1
  shift * binade + significand

def ofRank (negative : Bool) (rank : Nat) : Binary64 :=
  if h : rank < magnitudes then .finite negative ⟨rank, h⟩ else .infinite negative

def isZero : Binary64 → Bool
  | .finite _ rank => rank.val == 0
  | _ => false

/-- Whether the value is below one. Nothing that is not a number is below anything. -/
def belowOne : Binary64 → Bool
  | .finite negative rank => negative || units rank.val < one
  | .infinite negative => negative
  | .nan _ => false

/-- Whether two values are the same: the zeros agree, and what is not a number agrees only with
what has its payload. -/
def same : Binary64 → Binary64 → Bool
  | .finite n r, .finite m s => r == s && (n == m || r.val == 0)
  | .infinite n, .infinite m => n == m
  | .nan p, .nan q => p == q
  | _, _ => false

/-- Whether the value is exactly the integer. -/
def isInt (n : Int) : Binary64 → Bool
  | .finite negative rank =>
    units rank.val == n.natAbs * one && (n == 0 || negative == decide (n < 0))
  | _ => false

end Binary64
end Workflow
