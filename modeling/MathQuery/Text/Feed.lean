import MathQuery.Text.Cursor

/-!
# Tokens in the order they are read

A scanner takes one token off the front of a cursor.  Two ways to use one are
described here.

* `Lookahead` moves token by token over the text and goes on after an error.  It
  holds the token to be looked at next and the cursor behind it.
* `Feed` holds all tokens of a text up to its end or its first error, which is
  what a parser consumes.  An error surfaces when the token before it is left
  behind, because leaving a token is what reads the next one.
-/

namespace MathQuery

/-- A scanner reads one token from a cursor and says where it stopped. -/
abbrev Scanner (τ : Type) := Cursor → Except LexicalError τ × Cursor

/-- The token to be looked at next and the cursor behind it. -/
structure Lookahead (τ : Type) where
  current : τ
  cursor : Cursor

namespace Lookahead

/-- Read the first token of a text. -/
def ofString {τ : Type} (scan : Scanner τ) (source : String) :
    Except LexicalError (Lookahead τ) :=
  match scan (.ofString source) with
  | (.ok token, cursor) => .ok ⟨token, cursor⟩
  | (.error e, _) => .error e

/-- Leave the current token and read the next one.  When that fails, the current
token stays and the cursor is where scanning stopped. -/
def next {τ : Type} (scan : Scanner τ) (l : Lookahead τ) :
    Except LexicalError τ × Lookahead τ :=
  match scan l.cursor with
  | (.ok token, cursor) => (.ok l.current, ⟨token, cursor⟩)
  | (.error e, cursor) => (.error e, ⟨l.current, cursor⟩)

end Lookahead

/-- The tokens of a text up to its end or its first error.  The end is marked by
a token of its own. -/
structure Reading (τ : Type) where
  tokens : List τ
  ending : Except LexicalError τ

namespace Reading

/-- Read at most `fuel` tokens. -/
def scanUpTo {τ : Type} (scan : Scanner τ) (isEnd : τ → Bool) :
    Nat → Cursor → Reading τ
  | 0, c => ⟨[], (scan c).1⟩
  | fuel + 1, c =>
    match scan c with
    | (.error e, _) => ⟨[], .error e⟩
    | (.ok token, after) =>
      if isEnd token then ⟨[], .ok token⟩
      else
        let later := scanUpTo scan isEnd fuel after
        ⟨token :: later.tokens, later.ending⟩

/-- All tokens of a text.  Every token before the end takes at least one
character, so there are no more of them than characters. -/
def ofString {τ : Type} (scan : Scanner τ) (isEnd : τ → Bool) (source : String) :
    Reading τ :=
  let c := Cursor.ofString source
  scanUpTo scan isEnd c.rest.length c

/-- The tokens including the one that marks the end, or the first error. -/
def toList {τ : Type} (r : Reading τ) : Except LexicalError (List τ) :=
  r.ending.map fun last => r.tokens ++ [last]

end Reading

/-- The tokens that a parser has not consumed yet: the current one, those behind
it, and how the text ends. -/
structure Feed (τ : Type) where
  current : τ
  upcoming : List τ
  ending : Except LexicalError τ

namespace Feed

/-- Open a feed at the first token. -/
def ofReading {τ : Type} (r : Reading τ) : Except LexicalError (Feed τ) :=
  match r.tokens with
  | token :: tokens => .ok ⟨token, tokens, r.ending⟩
  | [] => r.ending.map fun last => ⟨last, [], .ok last⟩

/-- Leave the current token.  At the end of the text the token that marks the end
stays current. -/
def next {τ : Type} (f : Feed τ) : Except LexicalError (Feed τ) :=
  match f.upcoming with
  | token :: tokens => .ok ⟨token, tokens, f.ending⟩
  | [] => f.ending.map fun last => ⟨last, [], .ok last⟩

/-- A bound on the tokens still to be left, the one at the end not counted. -/
def size {τ : Type} (f : Feed τ) : Nat := f.upcoming.length + 1

end Feed

end MathQuery
