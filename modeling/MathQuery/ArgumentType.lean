/-!
# Types of arguments

A slot of a pattern, a parameter of a function and a parameter of an operation
all say which kind of value they take.
-/

namespace MathQuery

/-- What a slot or a parameter takes: an expression, a text or an integer. -/
inductive ArgumentType
  | expression
  | text
  | integer
deriving DecidableEq

namespace ArgumentType

/-- The word that stands for a type in patterns, schemas and messages. -/
def name : ArgumentType → String
  | expression => "expression"
  | text => "string"
  | integer => "integer"

/-- The type that a word stands for. -/
def ofName? (s : String) : Option ArgumentType :=
  if s = "expression" then some expression
  else if s = "string" then some text
  else if s = "integer" then some integer
  else none

/-- A word stands for a type exactly when it is that type's name. -/
theorem ofName?_eq_some_iff (s : String) (type : ArgumentType) :
    ofName? s = some type ↔ s = type.name := by
  unfold ofName?
  split
  · subst s; cases type <;> decide
  · split
    · subst s; cases type <;> decide
    · split
      · subst s; cases type <;> decide
      · cases type <;> simp_all [name]

end ArgumentType

end MathQuery
