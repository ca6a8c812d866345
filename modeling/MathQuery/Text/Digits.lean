/-!
# Whole numbers in decimal digits
-/

namespace MathQuery

/-- The value of one decimal digit. -/
def digitValue (d : Char) : Nat := d.toNat - '0'.toNat

/-- The number that a run of digits stands for, read after `value`. -/
def natOfDigitsFrom (value : Nat) : List Char → Nat
  | [] => value
  | d :: ds => natOfDigitsFrom (10 * value + digitValue d) ds

/-- The number that a run of digits stands for. -/
def natOfDigits (ds : List Char) : Nat := natOfDigitsFrom 0 ds

/-- The number that a text stands for, if it is one or more digits. -/
def nat? (text : String) : Option Nat :=
  let ds := text.toList
  if ds.isEmpty || !ds.all Char.isDigit then none else some (natOfDigits ds)

/-- The integer that a text stands for, if it is one or more digits, with at most one
minus in front. -/
def int? (text : String) : Option Int :=
  match text.toList with
  | '-' :: ds => (nat? (String.ofList ds)).map fun n : Nat => -(n : Int)
  | _ => (nat? text).map Int.ofNat

end MathQuery
