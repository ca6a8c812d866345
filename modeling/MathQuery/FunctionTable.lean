import MathQuery.ArgumentType
import MathQuery.Catalogue.Basic
import MathQuery.Catalogue.Similarity
import MathQuery.Failure
import MathQuery.Query.Expr

/-!
# Functions in queries

A schema binds the name of a function to a transformation of the algebra and says
what its parameters take.
-/

namespace MathQuery

/-- A function that queries can call. -/
structure FunctionDefinition where
  name : String
  parameters : List ArgumentType
  transformation : String
deriving DecidableEq

/-- The functions that queries can call. -/
abbrev FunctionTable := Catalogue FunctionDefinition

/-- Whether a parameter takes an argument as it is written: a symbol where a text
is asked for, a number without a point where an integer is. -/
def ArgumentType.accepts : ArgumentType → Expr → Bool
  | .expression, _ => true
  | .text, argument => argument.word?.isSome
  | .integer, .number literal => !literal.text.toList.contains '.'
  | .integer, _ => false

namespace FunctionTable

/-- Define a function. -/
def define (table : FunctionTable) (definition : FunctionDefinition) : FunctionTable :=
  table.insert definition.name definition

/-- The table of the given functions, in order. -/
def ofList (definitions : List FunctionDefinition) : FunctionTable :=
  definitions.foldl define .empty

/-- The first argument that its parameter does not take, counted from `index`. -/
def mismatch? (index : Nat) : List ArgumentType → List Expr → Option (Nat × ArgumentType)
  | type :: types, argument :: arguments =>
    if type.accepts argument then mismatch? (index + 1) types arguments
    else some (index, type)
  | _, _ => none

/-- Find the function of a call and check the arguments. -/
def resolve (table : FunctionTable) (name : String) (arguments : List Expr) :
    Except DispatchError FunctionDefinition :=
  match table.find? name with
  | none => .error (.unknownFunction name (similarNames name table.names))
  | some definition =>
    -- messages name the function as it was defined, not as it was called
    if definition.parameters.length ≠ arguments.length then
      .error (.argumentCount definition.name definition.parameters.length arguments.length)
    else match mismatch? 0 definition.parameters arguments with
      | some (index, expected) =>
        .error (.argumentType definition.name index expected .expression)
      | none => .ok definition

/-- The functions of one expression that are bound to the transformation of the
same name. -/
def elementary : List String :=
  ["sin", "cos", "tan", "asin", "acos", "atan", "sinh", "cosh", "tanh", "asinh", "acosh",
    "atanh", "ln", "exp", "abs", "sqrt"]

/-- The functions that are there without any schema. -/
def standard : FunctionTable :=
  (ofList (elementary.map fun name => ⟨name, [.expression], name⟩)).define
    ⟨"root", [.expression, .integer], "root"⟩

end FunctionTable

end MathQuery
