import MathQuery.Query.Expr
import MathQuery.Query.Token
import MathQuery.Text.Parser

/-!
# Reading queries

The grammar of queries, from the loosest production to the tightest:

```text
program   := statement*
statement := phrase (',' phrase)*
phrase    := equation+                 up to a comma or the end
equation  := term ('=' term)?
term      := factor (('+' | '-') factor)*
factor    := unary (('*' | '/' | adjacent) unary)*
unary     := '-' power | '+'? power
power     := primary ('^' primary)?
primary   := '(' term ')' | identifier | identifier '(' arguments ')' | number
```

Sums and products chain to the left.  An `adjacent` product has no sign: the next
token touches the primary before it and the two read as a product (`2x`,
`3(x+1)`, `f(x)2`, `(a)(b)`).  Digits directly after letters belong to the
identifier, so `x2` is one symbol.  An identifier calls a function when an opening
parenthesis touches it.

The productions from `power` to `term` take the parser of primaries as an
argument.  Only a primary can contain a term again, one level of parentheses
deeper, so `primary` recurses on the depth of nesting, which the number of tokens
bounds.
-/

namespace MathQuery

/-- Parsers of queries. -/
abbrev QueryParser := Parser Lexeme

/-- What the last primary was, as far as an adjacent product depends on it. -/
inductive Shape
  | number
  | symbol
  | call
  | group
deriving DecidableEq

/-- An expression and the shape of the last primary in it. -/
structure Operand where
  expr : Expr
  shape : Shape

namespace Shape

/-- Whether a primary of this shape and a token of the given kind that touches it
read as a product. -/
def multiplies : Shape → TokenKind → Bool
  | number, .openParen => true
  | number, .identifier => true
  | symbol, .number => true
  | call, .openParen => true
  | call, .identifier => true
  | call, .number => true
  | group, .openParen => true
  | group, .identifier => true
  | group, .number => true
  | _, _ => false

end Shape

namespace QueryParser

open MathQuery.Parser

/-- Fail because the current lexeme is not what is expected. -/
def unexpected {α : Type} (expected : String) : QueryParser α := do
  let lexeme ← current
  fail (lexeme.unexpected expected)

/-- Leave the current lexeme, which has to be of the given kind. -/
def nextOf (kind : TokenKind) : QueryParser Lexeme := do
  let lexeme ← current
  if lexeme.is kind then next else unexpected kind.describe

/-- A primary, optionally raised to another one. -/
def power (primary : QueryParser Operand) : QueryParser Operand := do
  let base ← primary
  let lexeme ← current
  if lexeme.is .caret then
    let _ ← next
    let exponent ← primary
    pure ⟨.binary .pow base.expr exponent.expr, exponent.shape⟩
  else pure base

/-- The negative of an expression is its product with the number `-1`, which
stands at the place of the sign. -/
def negated (sign : Lexeme) (operand : Operand) : Operand :=
  ⟨.binary .mul (.number ⟨"-1", sign.position⟩) operand.expr, operand.shape⟩

/-- A power with at most one sign. -/
def unary (primary : QueryParser Operand) : QueryParser Operand := do
  let lexeme ← current
  match lexeme.kind with
  | .minus =>
    let sign ← next
    let operand ← power primary
    pure (negated sign operand)
  | .plus =>
    let _ ← next
    power primary
  | _ => power primary

/-- One more operand of a product, if there is one. -/
def moreFactors (primary : QueryParser Operand) (left : Operand) :
    QueryParser (Option Operand) := do
  let lexeme ← current
  match lexeme.kind with
  | .star =>
    let _ ← next
    let right ← unary primary
    pure (some ⟨.binary .mul left.expr right.expr, right.shape⟩)
  | .slash =>
    let _ ← next
    let right ← unary primary
    pure (some ⟨.binary .div left.expr right.expr, right.shape⟩)
  | kind =>
    if lexeme.isAdjacent && left.shape.multiplies kind then
      let right ← unary primary
      pure (some ⟨.binary .mul left.expr right.expr, right.shape⟩)
    else pure none

/-- A product of one or more operands. -/
def factor (primary : QueryParser Operand) : QueryParser Expr := do
  let first ← unary primary
  let product ← chain (moreFactors primary) first
  pure product.expr

/-- One more operand of a sum, if there is one. -/
def moreTerms (primary : QueryParser Operand) (left : Expr) :
    QueryParser (Option Expr) := do
  let lexeme ← current
  match lexeme.kind with
  | .plus =>
    let _ ← next
    let right ← factor primary
    pure (some (.binary .add left right))
  | .minus =>
    let _ ← next
    let right ← factor primary
    pure (some (.binary .sub left right))
  | _ => pure none

/-- A sum of one or more products. -/
def term (primary : QueryParser Operand) : QueryParser Expr := do
  let first ← factor primary
  chain (moreTerms primary) first

/-- One more argument of a call, if a comma announces it. -/
def moreArguments (primary : QueryParser Operand) (name : Lexeme) :
    QueryParser (Option Expr) := do
  let lexeme ← current
  if lexeme.is .comma then
    let comma ← next
    let following ← current
    if following.is .closeParen || following.is .endOfInput then
      fail (.missingArgument name.text comma.position)
    else
      let argument ← term primary
      pure (some argument)
  else pure none

/-- The arguments of a call, from the opening parenthesis through the closing
one. -/
def arguments (primary : QueryParser Operand) (name : Lexeme) :
    QueryParser (List Expr) := do
  let _ ← nextOf .openParen
  let lexeme ← current
  if lexeme.is .closeParen then
    let _ ← next
    pure []
  else
    let first ← term primary
    let later ← many (moreArguments primary name)
    let last ← current
    -- a comma cannot stand here: the arguments go on behind it
    match last.kind with
    | .closeParen =>
      let _ ← next
      pure (first :: later)
    | .endOfInput => fail (.unterminatedCall name.text name.position)
    | _ => unexpected "',' or ')'"

/-- A group, a number, a symbol or a call, with at most `depth` levels of
parentheses.  Each level takes a token, so at depth zero nothing is left to be
read. -/
def primary : Nat → QueryParser Operand
  | 0 => unexpected "an expression"
  | depth + 1 => do
    let lexeme ← current
    match lexeme.kind with
    | .openParen =>
      let _ ← next
      let inner ← term (primary depth)
      let _ ← nextOf .closeParen
      pure ⟨inner, .group⟩
    | .number =>
      let _ ← next
      pure ⟨.number lexeme.toSpelling, .number⟩
    | .identifier =>
      let _ ← next
      let following ← current
      if following.is .openParen && following.isAdjacent then
        let args ← arguments (primary depth) lexeme
        pure ⟨.call lexeme.toSpelling args, .call⟩
      else pure ⟨.symbol lexeme.toSpelling, .symbol⟩
    | _ => unexpected "an expression"

/-- A sum, optionally equated with another one. -/
def equation (depth : Nat) : QueryParser Expr := do
  let left ← term (primary depth)
  let lexeme ← current
  if lexeme.is .equal then
    let _ ← next
    let right ← term (primary depth)
    pure (.binary .equal left right)
  else pure left

/-- One more equation of a phrase, unless the phrase ends. -/
def moreEquations (depth : Nat) : QueryParser (Option Expr) := do
  let lexeme ← current
  if lexeme.is .endOfInput || lexeme.is .comma then pure none
  else
    let expr ← equation depth
    pure (some expr)

/-- Equations up to a comma or the end, at least one of them. -/
def phrase (depth : Nat) : QueryParser Phrase := do
  let first ← equation depth
  let later ← many (moreEquations depth)
  pure (first :: later)

/-- One more phrase, if a comma announces it. -/
def morePhrases (depth : Nat) : QueryParser (Option Phrase) := do
  let lexeme ← current
  if lexeme.is .comma then
    let _ ← next
    let following ← phrase depth
    pure (some following)
  else pure none

/-- Phrases set apart by commas, at least one of them. -/
def statement (depth : Nat) : QueryParser Statement := do
  let first ← phrase depth
  let later ← many (morePhrases depth)
  pure (first :: later)

/-- One more statement, unless the text ends. -/
def moreStatements (depth : Nat) : QueryParser (Option Statement) := do
  let lexeme ← current
  if lexeme.is .endOfInput then pure none
  else
    let following ← statement depth
    pure (some following)

/-- Everything up to the end of the text. -/
def program (depth : Nat) : QueryParser Program := do
  let statements ← many (moreStatements depth)
  pure ⟨statements⟩

end QueryParser

/-- Read the text of a query. -/
def parse (source : String) : Except Failure Program :=
  let r := Lexeme.reading source
  (QueryParser.program (r.tokens.length + 1)).run r

/-- A number and the word that touches it are a product. -/
example : parse "2x" =
    .ok ⟨[[[.binary .mul (.number ⟨"2", ⟨1, 1⟩⟩) (.symbol ⟨"x", ⟨1, 2⟩⟩)]]]⟩ := rfl

/-- Set apart by a blank they are two terms of a phrase. -/
example : parse "2 x" =
    .ok ⟨[[[.number ⟨"2", ⟨1, 1⟩⟩, .symbol ⟨"x", ⟨1, 3⟩⟩]]]⟩ := rfl

/-- Behind letters digits belong to the word. -/
example : parse "x2" = .ok ⟨[[[.symbol ⟨"x2", ⟨1, 1⟩⟩]]]⟩ := rfl

end MathQuery
