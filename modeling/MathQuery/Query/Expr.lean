import MathQuery.Text.Position

/-!
# Expressions

An expression is what one term of a query says: a number, a bare identifier, two
operands joined by an operator, or the call of a function.  Every leaf keeps its
text and its place.

* `Expr.position` – the place of the leftmost leaf;
* `Expr.word?` – the identifier, if the expression is nothing else;
* `Expr.render` – the expression as text with the parentheses it needs.
-/

namespace MathQuery

/-- The operators between two operands. -/
inductive BinaryOp
  | add
  | sub
  | mul
  | div
  | pow
  | equal
deriving DecidableEq

namespace BinaryOp

/-- The sign of an operator. -/
def symbol : BinaryOp → String
  | add => "+"
  | sub => "-"
  | mul => "*"
  | div => "/"
  | pow => "^"
  | equal => "="

/-- How tightly an operator binds; a higher one binds first. -/
def precedence : BinaryOp → Nat
  | equal => 0
  | add => 1
  | sub => 1
  | mul => 2
  | div => 2
  | pow => 3

/-- An operator between its operands: sums and equations are set apart by blanks,
products and powers are not. -/
def between : BinaryOp → String
  | add => " + "
  | sub => " - "
  | equal => " = "
  | mul => "*"
  | div => "/"
  | pow => "^"

end BinaryOp

/-- How tightly an operand without an operator of its own binds: tighter than
every operator. -/
def atomPrecedence : Nat := 255

/-- One term of a query. -/
inductive Expr
  | number (literal : Spelling)
  | symbol (name : Spelling)
  | binary (op : BinaryOp) (left right : Expr)
  | call (name : Spelling) (arguments : List Expr)

/-- A text, in parentheses if asked for. -/
def parenthesized (parens : Bool) (text : String) : String :=
  if parens then "(" ++ text ++ ")" else text

namespace Expr

mutual

/-- Expressions are compared part by part. -/
def decEq : (a b : Expr) → Decidable (a = b)
  | number l, number m => decidable_of_iff (l = m) (by simp)
  | symbol l, symbol m => decidable_of_iff (l = m) (by simp)
  | binary op a b, binary op' a' b' =>
    have := decEq a a'
    have := decEq b b'
    decidable_of_iff (op = op' ∧ a = a' ∧ b = b') (by simp)
  | call name as, call name' as' =>
    have := decEqEach as as'
    decidable_of_iff (name = name' ∧ as = as') (by simp)
  | number _, symbol _ | number _, binary .. | number _, call .. => isFalse nofun
  | symbol _, number _ | symbol _, binary .. | symbol _, call .. => isFalse nofun
  | binary .., number _ | binary .., symbol _ | binary .., call .. => isFalse nofun
  | call .., number _ | call .., symbol _ | call .., binary .. => isFalse nofun

/-- Lists of expressions are compared one by one. -/
def decEqEach : (as bs : List Expr) → Decidable (as = bs)
  | [], [] => isTrue rfl
  | [], _ :: _ => isFalse nofun
  | _ :: _, [] => isFalse nofun
  | a :: as, b :: bs =>
    have := decEq a b
    have := decEqEach as bs
    decidable_of_iff (a = b ∧ as = bs) (by simp)

end

instance : DecidableEq Expr := decEq

/-- The place of the leftmost leaf. -/
def position : Expr → Position
  | number literal => literal.position
  | symbol name => name.position
  | binary _ left _ => left.position
  | call name _ => name.position

/-- The identifier, if the expression is a bare one. -/
def word? : Expr → Option String
  | symbol name => some name.text
  | _ => none

/-- Whether the expression is a number. -/
def isNumber : Expr → Bool
  | number _ => true
  | _ => false

/-- How tightly the outermost part of an expression binds. -/
def precedence : Expr → Nat
  | binary op _ _ => op.precedence
  | _ => atomPrecedence

/-- Whether a left operand needs parentheses.  Operators chain to the left, but
the base of a power is a single operand. -/
def leftParens (op : BinaryOp) (left : Expr) : Bool :=
  left.precedence < op.precedence || (op == .pow && left.precedence == op.precedence)

/-- Whether a right operand needs parentheses.  At equal precedence only sums and
products can do without them. -/
def rightParens (op : BinaryOp) (right : Expr) : Bool :=
  right.precedence < op.precedence ||
    ((op == .sub || op == .div || op == .pow) && right.precedence == op.precedence)

mutual

/-- The expression as text. -/
def render : Expr → String
  | number literal => literal.text
  | symbol name => name.text
  | binary op left right =>
    parenthesized (leftParens op left) left.render ++ op.between ++
      parenthesized (rightParens op right) right.render
  | call name arguments =>
    name.text ++ "(" ++ ", ".intercalate (renderEach arguments) ++ ")"

/-- Several expressions, each as text. -/
def renderEach : List Expr → List String
  | [] => []
  | e :: es => e.render :: renderEach es

end

end Expr

/-- A phrase is a succession of words and expressions. -/
abbrev Phrase := List Expr

/-- A statement is a list of phrases, set apart by commas. -/
abbrev Statement := List Phrase

/-- What a query says: its statements in order. -/
structure Program where
  statements : List Statement
deriving DecidableEq

/-- The terms of all phrases of a statement, in order. -/
def Statement.terms (s : Statement) : List Expr := s.flatten

/-- The terms of all statements, in order. -/
def Program.terms (p : Program) : List Expr := p.statements.flatMap Statement.terms

end MathQuery
