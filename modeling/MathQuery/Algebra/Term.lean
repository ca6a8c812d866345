import MathQuery.Algebra.Numeral
import MathQuery.Algebra.Polynomial
import MathQuery.Failure
import MathQuery.Query.Expr

/-!
# Terms

A term is what the algebra computes with: a number, a symbol, two terms joined by
an operator, or a function applied to terms.

* `Term.polynomial?` – the polynomial that a term denotes, if it denotes one;
* `combine` – what an operator makes of two polynomials;
* `power` – powers with a whole exponent.
-/

namespace MathQuery

/-- What the algebra computes with. -/
inductive Term
  | number (value : Rat)
  | symbol (name : String)
  | operation (op : BinaryOp) (left right : Term)
  | application (name : String) (arguments : List Term)

namespace Term

mutual

/-- Terms are compared part by part. -/
def decEq : (a b : Term) → Decidable (a = b)
  | number v, number w => decidable_of_iff (v = w) (by simp)
  | symbol x, symbol y => decidable_of_iff (x = y) (by simp)
  | operation op a b, operation op' a' b' =>
    have := decEq a a'
    have := decEq b b'
    decidable_of_iff (op = op' ∧ a = a' ∧ b = b') (by simp)
  | application name as, application name' as' =>
    have := decEqEach as as'
    decidable_of_iff (name = name' ∧ as = as') (by simp)
  | number _, symbol _ | number _, operation .. | number _, application .. => isFalse nofun
  | symbol _, number _ | symbol _, operation .. | symbol _, application .. => isFalse nofun
  | operation .., number _ | operation .., symbol _ | operation .., application .. =>
    isFalse nofun
  | application .., number _ | application .., symbol _ | application .., operation .. =>
    isFalse nofun

/-- Lists of terms are compared one by one. -/
def decEqEach : (as bs : List Term) → Decidable (as = bs)
  | [], [] => isTrue rfl
  | [], _ :: _ => isFalse nofun
  | _ :: _, [] => isFalse nofun
  | a :: as, b :: bs =>
    have := decEq a b
    have := decEqEach as bs
    decidable_of_iff (a = b ∧ as = bs) (by simp)

end

instance : DecidableEq Term := decEq

end Term

/-- Powers with a larger exponent stay symbolic. -/
def expansionLimit : Nat := 256

/-- Raise a polynomial to an exponent.  The exponent has to be a whole number of
moderate size, a negative one needs a constant base, and the result must not be
refused for its size; otherwise the power stays symbolic. -/
def power (base exponent : Polynomial) : Except AlgebraError (Option Polynomial) :=
  match exponent.constant? with
  | none => .ok none
  | some e =>
    if !isWhole e then .ok none
    else if 0 ≤ e.num then
      if e.num.natAbs ≤ expansionLimit then .ok (base.pow? e.num.natAbs) else .ok none
    else match base.constant? with
      | none => .ok none
      | some b =>
        if b = 0 then .error .divisionByZero
        else if e.num.natAbs ≤ expansionLimit then
          .ok (((Polynomial.constant b).pow? e.num.natAbs).bind fun p =>
            p.constant?.map fun c => .constant c⁻¹)
        else .ok none

/-- What an operator makes of two polynomials.  Only constants divide. -/
def combine (op : BinaryOp) (p q : Polynomial) : Except AlgebraError (Option Polynomial) :=
  match op with
  | .add => .ok (some (p.add q))
  | .sub => .ok (some (p.sub q))
  | .mul => .ok (p.mul? q)
  | .div =>
    match q.constant? with
    | some c => if c = 0 then .error .divisionByZero else .ok (some (p.scale c⁻¹))
    | none => .ok none
  | .pow => power p q
  | .equal => .ok none

namespace Term

/-- The polynomial that a term denotes.  Equations and applications denote none,
and neither does an operation on terms of which one denotes none.  Both operands
are looked at in any case, so a division by zero in either is reported. -/
def polynomial? : Term → Except AlgebraError (Option Polynomial)
  | number value => .ok (some (.constant value))
  | symbol name => .ok (some (.var name))
  | application _ _ => .ok none
  | operation op left right =>
    -- the sides of an equation are not looked at
    if op = .equal then .ok none
    else do
      let p ← left.polynomial?
      let q ← right.polynomial?
      match p, q with
      | some p, some q => combine op p q
      | _, _ => .ok none

/-- Whether a term is the number minus one. -/
def isMinusOne : Term → Bool
  | number value => value == -1
  | _ => false

end Term

end MathQuery
