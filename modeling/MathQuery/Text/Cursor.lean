import MathQuery.Failure

/-!
# Reading a text from the front

A cursor is what is left of a text and the place where it starts.  Queries and
patterns are both read by moving a cursor over one token at a time, and they
agree on what a number is.

* `Cursor.drop` – the cursor some characters further on;
* `Cursor.skipBlanks` – the cursor at the next character that is no blank;
* `decimalPrefix` – the longest run of digits with at most one point;
* `Cursor.number` – a number from the front, or the error of a second point.
-/

namespace MathQuery

/-- What is left of a text, and the place of its first character. -/
structure Cursor where
  rest : List Char
  position : Position
deriving DecidableEq

namespace Cursor

/-- The cursor at the front of a text. -/
def ofString (source : String) : Cursor := ⟨source.toList, .start⟩

/-- The cursor `n` characters further on. -/
def drop (c : Cursor) (n : Nat) : Cursor :=
  ⟨c.rest.drop n, c.position.advanceAll (c.rest.take n)⟩

/-- The cursor behind the blanks at the front. -/
def skipBlanks (c : Cursor) : Cursor :=
  c.drop (c.rest.takeWhile Char.isWhitespace).length

/-- Whether a blank stands at the front. -/
def atBlank (c : Cursor) : Bool :=
  c.rest.head?.any Char.isWhitespace

theorem length_rest_drop (c : Cursor) (n : Nat) :
    (c.drop n).rest.length = c.rest.length - n := by
  simp [drop]

end Cursor

/-- The longest run of digits with at most one point in it, from the front. -/
def decimalPrefix (cs : List Char) : List Char :=
  cs.takeWhile Char.isDigit ++
    match cs.dropWhile Char.isDigit with
    | '.' :: fraction => '.' :: fraction.takeWhile Char.isDigit
    | _ => []

/-- Digits and points. -/
def isDigitOrPoint (c : Char) : Bool := c == '.' || c.isDigit

namespace Cursor

/-- Read a number from the front.  A second point makes it malformed, and all
digits and points that follow belong to the malformed literal. -/
def number (c : Cursor) : Except LexicalError String × Cursor :=
  let literal := decimalPrefix c.rest
  let after := c.drop literal.length
  if after.rest.head? = some '.' then
    let excess := after.rest.takeWhile isDigitOrPoint
    (.error (.malformedNumber (String.ofList (literal ++ excess)) c.position),
      after.drop excess.length)
  else
    (.ok (String.ofList literal), after)

end Cursor

end MathQuery
