import MathQuery.Text.Feed
import MathQuery.Text.CharacterClass

/-!
# Tokens of queries

A query is read as numbers, identifiers and single punctuation characters.  A
lexeme is a token together with the fact whether blanks stood before it, which
tells the product `2x` from the two terms `2 x`.

* `Lexeme.scan` – the scanner of queries;
* `tokenize` – all lexemes of a query, the end included.
-/

namespace MathQuery

/-- The kinds of tokens of a query. -/
inductive TokenKind
  | endOfInput
  | identifier
  | number
  | plus
  | minus
  | star
  | slash
  | caret
  | equal
  | comma
  | point
  | openParen
  | closeParen
deriving DecidableEq

namespace TokenKind

/-- How a kind reads in a message. -/
def describe : TokenKind → String
  | endOfInput => "end of input"
  | identifier => "identifier"
  | number => "number"
  | plus => "'+'"
  | minus => "'-'"
  | star => "'*'"
  | slash => "'/'"
  | caret => "'^'"
  | equal => "'='"
  | comma => "','"
  | point => "'.'"
  | openParen => "'('"
  | closeParen => "')'"

/-- The kind of a character that is a token by itself. -/
def ofPunctuation? (c : Char) : Option TokenKind :=
  match c with
  | '=' => some equal
  | '^' => some caret
  | '+' => some plus
  | '-' => some minus
  | '*' => some star
  | '/' => some slash
  | '(' => some openParen
  | ')' => some closeParen
  | '.' => some point
  | ',' => some comma
  | _ => none

end TokenKind

/-- A token of a query: its kind, its text and where it starts. -/
structure Token extends Spelling where
  kind : TokenKind
deriving DecidableEq

/-- A token and whether blanks stood directly before it. -/
structure Lexeme extends Token where
  spaced : Bool
deriving DecidableEq

namespace Lexeme

/-- Whether the lexeme is of the given kind. -/
def is (l : Lexeme) (kind : TokenKind) : Bool := l.kind == kind

/-- Whether the lexeme touches the one before it. -/
def isAdjacent (l : Lexeme) : Bool := !l.spaced

/-- How a lexeme reads in a message about it. -/
def found (l : Lexeme) : String :=
  if l.is .endOfInput then TokenKind.endOfInput.describe else l.text

/-- The error of meeting this lexeme where something else is expected. -/
def unexpected (l : Lexeme) (expected : String) : GrammarError :=
  .unexpectedToken expected l.found l.position

/-- Read one lexeme.  The end of the text is a lexeme too.  A character of no
class is not consumed. -/
def scan : Scanner Lexeme := fun c =>
  let start := c.skipBlanks
  let lexeme (kind : TokenKind) (text : String) : Lexeme :=
    { text, position := start.position, kind, spaced := c.atBlank }
  match start.rest with
  | [] => (.ok (lexeme .endOfInput ""), start)
  | first :: _ =>
    if first.isDigit then
      let (literal, after) := start.number
      (literal.map (lexeme .number), after)
    else match TokenKind.ofPunctuation? first with
      | some kind => (.ok (lexeme kind first.toString), start.drop 1)
      | none =>
        let word := start.rest.takeWhile isAlphanumeric
        if word.isEmpty then
          -- the offending character stays in front of the cursor
          (.error (.unexpectedCharacter first start.position), start)
        else (.ok (lexeme .identifier (String.ofList word)), start.drop word.length)

/-- The lexemes of a query. -/
def reading (source : String) : Reading Lexeme :=
  .ofString scan (·.is .endOfInput) source

end Lexeme

/-- All lexemes of a query, the one at its end included. -/
def tokenize (source : String) : Except LexicalError (List Lexeme) :=
  (Lexeme.reading source).toList

/-- Leave the current lexeme if it is of the given kind. -/
def Lookahead.nextOf (l : Lookahead Lexeme) (kind : TokenKind) :
    Except Failure Token × Lookahead Lexeme :=
  if l.current.is kind then
    let (result, after) := l.next Lexeme.scan
    ((result.map Lexeme.toToken).mapError .lexical, after)
  else (.error (.grammar (l.current.unexpected kind.describe)), l)

end MathQuery
