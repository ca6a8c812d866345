import MathQuery.ArgumentType
import MathQuery.Query.Expr

/-!
# Captured arguments

When a query follows a pattern, every slot captures a value.  The captured values
are kept by ascending slot index, and a later capture at an index replaces the
earlier one.
-/

namespace MathQuery

/-- A value captured at a slot. -/
inductive Value
  | expression (expr : Expr)
  | text (text : String)
  | integer (value : Int)
deriving DecidableEq

namespace Value

/-- The type of a value. -/
def type : Value → ArgumentType
  | expression _ => .expression
  | text _ => .text
  | integer _ => .integer

/-- A value as text. -/
def render : Value → String
  | expression expr => expr.render
  | text s => s
  | integer n => toString n

end Value

/-- Captured values by slot index. -/
structure Arguments where
  entries : List (Nat × Value)
deriving DecidableEq

namespace Arguments

/-- No captured value. -/
def empty : Arguments := ⟨[]⟩

/-- Put a value among entries that ascend by index. -/
def insertEntry (index : Nat) (value : Value) : List (Nat × Value) → List (Nat × Value)
  | [] => [(index, value)]
  | (i, v) :: later =>
    if index < i then (index, value) :: (i, v) :: later
    else if index = i then (index, value) :: later
    else (i, v) :: insertEntry index value later

/-- Capture a value at an index. -/
def insert (a : Arguments) (index : Nat) (value : Value) : Arguments :=
  ⟨insertEntry index value a.entries⟩

/-- The value captured at an index. -/
def get? (a : Arguments) (index : Nat) : Option Value :=
  (a.entries.find? (·.1 == index)).map Prod.snd

/-- The indices at which a value was captured. -/
def indices (a : Arguments) : List Nat := a.entries.map Prod.fst

end Arguments

end MathQuery
