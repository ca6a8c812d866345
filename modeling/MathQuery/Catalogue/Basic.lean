import MathQuery.Text.LowerCase

/-!
# Catalogues

A catalogue keeps values by name and compares names in lower case.  A later value
under the same name replaces the earlier one.
-/

namespace MathQuery

/-- Values by lower-case name. -/
structure Catalogue (α : Type) where
  entries : List (String × α)
deriving DecidableEq

namespace Catalogue

variable {α : Type}

/-- The catalogue without entries. -/
def empty : Catalogue α := ⟨[]⟩

/-- Put a value under a name. -/
def insert (c : Catalogue α) (name : String) (value : α) : Catalogue α :=
  let key := lowerCase name
  ⟨(key, value) :: c.entries.filter (·.1 ≠ key)⟩

/-- The value under a name. -/
def find? (c : Catalogue α) (name : String) : Option α :=
  c.entries.lookup (lowerCase name)

/-- The lower-case names of a catalogue. -/
def names (c : Catalogue α) : List String := c.entries.map Prod.fst

/-- The values of a catalogue. -/
def values (c : Catalogue α) : List α := c.entries.map Prod.snd

/-- The number of entries. -/
def size (c : Catalogue α) : Nat := c.entries.length

end Catalogue

end MathQuery
