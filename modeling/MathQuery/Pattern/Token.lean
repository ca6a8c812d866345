import MathQuery.Text.Feed
import MathQuery.Text.CharacterClass

/-!
# Tokens of patterns

A pattern is read as words, numbers, braces, colons and runs of other symbols.
Blanks separate tokens and are not remembered.  A number may not touch a letter
behind it: `2x` is a malformed number here, while a query reads it as a product.
-/

namespace MathQuery

/-- The kinds of tokens of a pattern. -/
inductive PatternTokenKind
  | endOfPattern
  | identifier
  | number
  | punctuation
  | openBrace
  | closeBrace
  | colon
deriving DecidableEq

namespace PatternTokenKind

/-- How a kind reads in a message. -/
def describe : PatternTokenKind → String
  | endOfPattern => "end of pattern"
  | identifier => "identifier"
  | number => "number"
  | punctuation => "punctuation"
  | openBrace => "'\x7b'"
  | closeBrace => "'\x7d'"
  | colon => "':'"

/-- The kind of a character that is a token by itself. -/
def ofMark? (c : Char) : Option PatternTokenKind :=
  match c with
  | '{' => some openBrace
  | '}' => some closeBrace
  | ':' => some colon
  | _ => none

end PatternTokenKind

/-- A token of a pattern: its kind, its text and where it starts. -/
structure PatternToken extends Spelling where
  kind : PatternTokenKind
deriving DecidableEq

/-- The characters of punctuation: all that are no blank, no mark and no part of a
word or number. -/
def isPunctuation (c : Char) : Bool :=
  !(isAlphanumeric c || c.isWhitespace || (PatternTokenKind.ofMark? c).isSome)

namespace PatternToken

/-- Whether the token is of the given kind. -/
def is (t : PatternToken) (kind : PatternTokenKind) : Bool := t.kind == kind

/-- How a token reads in a message about it. -/
def found (t : PatternToken) : String :=
  if t.is .endOfPattern then PatternTokenKind.endOfPattern.describe else t.text

/-- The error of meeting this token where something else is expected. -/
def unexpected (t : PatternToken) (expected : String) : GrammarError :=
  .unexpectedToken expected t.found t.position

/-- Letters, digits and points: what belongs to a number that a letter spoils. -/
def isWordOrPoint (c : Char) : Bool := isAlphanumeric c || c == '.'

/-- Read a number that no letter touches. -/
def number (start : Cursor) : Except LexicalError String × Cursor :=
  match start.number with
  | (.error e, after) => (.error e, after)
  | (.ok literal, after) =>
    if after.rest.head?.any isAlphanumeric then
      let excess := after.rest.takeWhile isWordOrPoint
      (.error (.malformedNumber (literal ++ String.ofList excess) start.position),
        after.drop excess.length)
    else (.ok literal, after)

/-- Read one token.  The end of the pattern is a token too. -/
def scan : Scanner PatternToken := fun c =>
  let start := c.skipBlanks
  let token (kind : PatternTokenKind) (text : String) : PatternToken :=
    { text, position := start.position, kind }
  match start.rest with
  | [] => (.ok (token .endOfPattern ""), start)
  | first :: _ =>
    if first.isDigit then
      let (literal, after) := number start
      (literal.map (token .number), after)
    else match PatternTokenKind.ofMark? first with
      | some kind => (.ok (token kind first.toString), start.drop 1)
      | none =>
        if isAlphanumeric first then
          let word := start.rest.takeWhile isAlphanumeric
          (.ok (token .identifier (String.ofList word)), start.drop word.length)
        else
          let marks := start.rest.takeWhile isPunctuation
          (.ok (token .punctuation (String.ofList marks)), start.drop marks.length)

/-- The tokens of a pattern. -/
def reading (source : String) : Reading PatternToken :=
  .ofString scan (·.is .endOfPattern) source

end PatternToken

/-- Leave the current token if it is of the given kind. -/
def Lookahead.nextOfPattern (l : Lookahead PatternToken) (kind : PatternTokenKind) :
    Except Failure PatternToken × Lookahead PatternToken :=
  if l.current.is kind then
    let (result, after) := l.next PatternToken.scan
    (result.mapError .lexical, after)
  else (.error (.grammar (l.current.unexpected kind.describe)), l)

end MathQuery
