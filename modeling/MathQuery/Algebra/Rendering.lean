import MathQuery.Algebra.Term

/-!
# Terms as text

A term is written in one of two notations.  Plain text is readable by the grammar
of queries.  LaTeX writes quotients as fractions, roots with their sign, and most
products without one.

In both notations a factor of minus one is written as a sign, and a negative
number binds like a sum.  In plain text a fraction binds like a product; in LaTeX
fractions need no parentheses.
-/

namespace MathQuery

/-- The two notations for terms. -/
inductive Style
  | plain
  | latex
deriving DecidableEq

namespace Style

/-- The opening parenthesis. -/
def openParen : Style → String
  | plain => "("
  | latex => "\\left("

/-- The closing parenthesis. -/
def closeParen : Style → String
  | plain => ")"
  | latex => "\\right)"

/-- A text, in parentheses if asked for. -/
def parenthesized (style : Style) (parens : Bool) (text : String) : String :=
  if parens then style.openParen ++ text ++ style.closeParen else text

/-- The functions that LaTeX has a command for. -/
def commands : List String :=
  ["sin", "cos", "tan", "sinh", "cosh", "tanh", "ln", "log", "exp"]

/-- A text between braces. -/
def braced (text : String) : String := "\x7b" ++ text ++ "\x7d"

/-- A fraction. -/
def fraction (numerator denominator : String) : String :=
  "\\frac" ++ braced numerator ++ braced denominator

/-- A number.  LaTeX writes the sign of a fraction before it. -/
def number : Style → Rat → String
  | plain, q => renderRational q
  | latex, q =>
    if isWhole q then renderRational q
    else
      (if q.num < 0 then "-" else "") ++ fraction (toString q.num.natAbs) (toString q.den)

/-- A function applied to written arguments.  LaTeX writes roots with their sign. -/
def application : Style → String → List String → String
  | plain, name, arguments => name ++ "(" ++ ", ".intercalate arguments ++ ")"
  | latex, "sqrt", [x] => "\\sqrt" ++ braced x
  | latex, "root", [x, k] => "\\sqrt[" ++ k ++ "]" ++ braced x
  | latex, name, arguments =>
    (if name ∈ commands then "\\" ++ name else "\\operatorname" ++ braced name) ++
      "\\left(" ++ ", ".intercalate arguments ++ "\\right)"

end Style

namespace Term

/-- How tightly the outermost part of a term binds. -/
def precedence (style : Style) : Term → Nat
  | number value =>
    if value < 0 then 1
    else if !isWhole value && style == .plain then 2
    else atomPrecedence
  | symbol _ => atomPrecedence
  | application _ _ => atomPrecedence
  | operation op left _ =>
    if op == .mul && left.isMinusOne then 1
    else if op == .div && style == .latex then atomPrecedence
    else op.precedence

/-- Whether the leftmost leaf of a term is a number. -/
def startsWithNumber : Term → Bool
  | number _ => true
  | symbol _ => false
  | operation _ left _ => left.startsWithNumber
  | application _ _ => false

/-- Whether a left operand needs parentheses: when it binds less tightly, and as
the base of a power also when it binds as tightly. -/
def leftParens (style : Style) (op : BinaryOp) (left : Term) : Bool :=
  left.precedence style < op.precedence ||
    (op == .pow && left.precedence style == op.precedence)

/-- Whether a right operand needs parentheses: when it binds less tightly, and
behind a difference or a quotient also when it binds as tightly. -/
def rightParens (style : Style) (op : BinaryOp) (right : Term) : Bool :=
  right.precedence style < op.precedence ||
    ((op == .sub || op == .div) && right.precedence style == op.precedence)

/-- What stands between the operands of an operator.  In LaTeX a product has no
sign unless two numbers would touch. -/
def between (style : Style) (op : BinaryOp) (right : Term) : String :=
  match op, style with
  | .mul, .latex => if right.startsWithNumber then " \\cdot " else ""
  | op, _ => op.between

mutual

/-- A term in a notation. -/
def render (style : Style) : Term → String
  | number value => style.number value
  | symbol name => name
  | operation op left right =>
    if op == .mul && left.isMinusOne then
      -- the sign binds like a sum, its operand at least like a product
      "-" ++ style.parenthesized (right.precedence style < 2) (right.render style)
    else if op == .div && style == .latex then
      Style.fraction (left.render style) (right.render style)
    else
      style.parenthesized (leftParens style op left) (left.render style) ++
        if op == .pow && style == .latex then "^" ++ Style.braced (right.render style)
        else between style op right ++ style.parenthesized (rightParens style op right) (right.render style)
  | application name arguments => style.application name (renderEach style arguments)

/-- Several terms, each in a notation. -/
def renderEach (style : Style) : List Term → List String
  | [] => []
  | t :: ts => t.render style :: renderEach style ts

end

end Term

end MathQuery
