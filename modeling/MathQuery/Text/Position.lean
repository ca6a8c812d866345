/-!
# Places in a text

A text is counted in lines and columns, both from one, and a column counts
characters.  Every message about a query or a pattern names such a place.

* `Position.advance` – the place after one more character;
* `Position.advanceAll` – the place after a run of characters;
* `Spelling` – a piece of the text together with the place where it starts.
-/

namespace MathQuery

/-- A place in a text: line and column, both counted from one. -/
structure Position where
  line : Nat
  column : Nat
deriving DecidableEq

namespace Position

/-- The place of the first character of every text. -/
def start : Position := ⟨1, 1⟩

instance : Inhabited Position := ⟨start⟩

/-- The place after character `c`: a line feed opens the next line, every other
character takes one column. -/
def advance (p : Position) (c : Char) : Position :=
  if c = '\n' then ⟨p.line + 1, 1⟩ else ⟨p.line, p.column + 1⟩

/-- The place after all characters of a run. -/
def advanceAll (p : Position) (run : List Char) : Position :=
  run.foldl advance p

@[simp] theorem advanceAll_nil (p : Position) : p.advanceAll [] = p := rfl

@[simp] theorem advanceAll_cons (p : Position) (c : Char) (run : List Char) :
    p.advanceAll (c :: run) = (p.advance c).advanceAll run := rfl

theorem advanceAll_append (p : Position) (first second : List Char) :
    p.advanceAll (first ++ second) = (p.advanceAll first).advanceAll second := by
  simp [advanceAll]

/-- How a place reads in a message. -/
def describe (p : Position) : String :=
  s!"line {p.line}, column {p.column}"

end Position

/-- A piece of a text and the place where it starts. -/
structure Spelling where
  text : String
  position : Position
deriving DecidableEq, Inhabited

end MathQuery
