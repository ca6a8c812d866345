import MathQuery.Pattern.Basic
import MathQuery.Pattern.Token
import MathQuery.Text.Digits
import MathQuery.Text.Parser

/-!
# Reading patterns

```text
pattern  := piece+
piece    := '{' argument '}' | identifier | number | punctuation
argument := "output" | number ':' type | number
type     := "expression" | "string" | "integer"
```

Both roles share this grammar.  Punctuation is text of templates only, since
queries contain nothing but words.  An argument that does not fit the role is
refused once its closing brace has been read.
-/

namespace MathQuery

/-- Parsers of patterns. -/
abbrev PatternParser := Parser PatternToken

/-- Slot indices are smaller than this. -/
def slotIndexLimit : Nat := 18446744073709551616

/-- The slot index that a number stands for, if it is a whole number in range. -/
def slotIndex? (literal : String) : Option Nat :=
  (nat? literal).filter (· < slotIndexLimit)

namespace PatternParser

open MathQuery.Parser

/-- Fail because the current token is not what is expected. -/
def unexpected {α : Type} (expected : String) : PatternParser α := do
  let token ← current
  fail (token.unexpected expected)

/-- The type of a slot that was opened at `opening`. -/
def type (opening : PatternToken) : PatternParser ArgumentType := do
  let token ← current
  match token.kind with
  | .identifier =>
    let _ ← next
    match ArgumentType.ofName? token.text with
    | some type => pure type
    | none => fail (.unknownType token.text token.position)
  | .endOfPattern => fail (.unterminatedSlot opening.position)
  | _ => fail (.unknownType token.text token.position)

/-- What stands between braces that were opened at `opening`. -/
def inner (opening : PatternToken) : PatternParser PatternTerm := do
  let token ← current
  match token.kind with
  | .identifier =>
    let _ ← next
    if token.text = "output" then pure .output
    else fail (.invalidTemplateName token.text token.position)
  | .number =>
    let _ ← next
    match slotIndex? token.text with
    | none => fail (.invalidSlotIndex token.text token.position)
    | some index =>
      let following ← current
      if following.is .colon then
        let _ ← next
        let declared ← type opening
        pure (.slot ⟨index, declared⟩)
      else pure (.argument index)
  | .endOfPattern => fail (.unterminatedSlot opening.position)
  | _ => fail (.invalidSlotIndex token.text token.position)

/-- The closing brace of what was opened at `opening`. -/
def close (opening : PatternToken) : PatternParser Unit := do
  let token ← current
  match token.kind with
  | .closeBrace =>
    let _ ← next
    pure ()
  | .endOfPattern => fail (.unterminatedSlot opening.position)
  | _ => unexpected "'\x7d'"

/-- What makes an argument unfit for a role. -/
def misplaced? (role : PatternRole) (piece : PatternTerm) : Option String :=
  match role, piece with
  | .query, .argument _ => some "a slot reference"
  | .query, .output => some "a slot reference"
  | .template, .slot _ => some "a slot declaration"
  | _, _ => none

/-- An argument with its braces. -/
def argument (role : PatternRole) : PatternParser PatternTerm := do
  let opening ← next
  let piece ← inner opening
  -- an unclosed brace is reported before a misplaced argument
  close opening
  match misplaced? role piece with
  | some kind => fail (.misplacedArgument kind role.describe opening.position)
  | none => pure piece

/-- One piece of a pattern. -/
def piece (role : PatternRole) : PatternParser PatternTerm := do
  let token ← current
  match token.kind, role with
  | .openBrace, _ => argument role
  | .identifier, _ => let _ ← next; pure (.literal token.text)
  | .number, _ => let _ ← next; pure (.literal token.text)
  | .punctuation, .template => let _ ← next; pure (.literal token.text)
  | _, _ => unexpected "a word or '\x7b'"

/-- One more piece, unless the pattern ends. -/
def morePieces (role : PatternRole) : PatternParser (Option PatternTerm) := do
  let token ← current
  if token.is .endOfPattern then pure none
  else
    let following ← piece role
    pure (some following)

/-- A whole pattern, of at least one piece. -/
def pattern (role : PatternRole) : PatternParser Pattern := do
  let first ← piece role
  let later ← many (morePieces role)
  pure ⟨first :: later⟩

end PatternParser

/-- Read the text of a pattern in the given role. -/
def Pattern.parse (role : PatternRole) (source : String) : Except Failure Pattern :=
  (PatternParser.pattern role).run (PatternToken.reading source)

end MathQuery
