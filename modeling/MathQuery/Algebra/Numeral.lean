import MathQuery.Text.Digits

/-!
# Exact numbers

Numbers are rationals.  A literal is an optional minus sign, digits, and
optionally a point with further digits; it stands for its decimal value exactly.
-/

namespace MathQuery

/-- The value of digits with at most one point, which have no sign. -/
def unsignedRational? (cs : List Char) : Option Rat :=
  let whole := cs.takeWhile (· != '.')
  let fraction := (cs.dropWhile (· != '.')).drop 1
  if (whole ++ fraction).isEmpty || !(whole ++ fraction).all Char.isDigit then none
  else some (mkRat (natOfDigits (whole ++ fraction)) (Nat.pow 10 fraction.length))

/-- The value of a literal. -/
def rational? (literal : String) : Option Rat :=
  match literal.toList with
  | '-' :: cs => (unsignedRational? cs).map (- ·)
  | cs => unsignedRational? cs

/-- Whether a number is whole. -/
def isWhole (q : Rat) : Bool := q.den == 1

/-- A number as text: a whole number, or a fraction in lowest terms. -/
def renderRational (q : Rat) : String :=
  if isWhole q then toString q.num else toString q.num ++ "/" ++ toString q.den

end MathQuery
