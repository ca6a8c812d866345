import MathQuery.ArgumentType

/-!
# Patterns

A pattern is a succession of literal words and arguments in braces.  It plays one
of two roles.  The pattern of a query, such as
`derivative of {0:expression} by {1:string}`, declares typed slots.  The template
of an answer, such as `derivative of {0} is {output}`, refers to them and to the
result.

* `Pattern.slots`, `Pattern.references` – what a pattern declares and refers to;
* `Pattern.steps` – the path of a query pattern through the schema;
* `Pattern.render` – a pattern in its own notation.
-/

namespace MathQuery

/-- Where a pattern is used. -/
inductive PatternRole
  | query
  | template
deriving DecidableEq

namespace PatternRole

/-- How a role reads in a message. -/
def describe : PatternRole → String
  | query => "a query pattern"
  | template => "an output template"

end PatternRole

/-- A typed slot, as a query pattern declares it. -/
structure Slot where
  index : Nat
  type : ArgumentType
deriving DecidableEq

/-- One piece of a pattern: a literal, the declaration of a slot, a reference to
an argument, or the place of the result. -/
inductive PatternTerm
  | literal (text : String)
  | slot (declared : Slot)
  | argument (index : Nat)
  | output
deriving DecidableEq

/-- One step of a query through the schema: a certain word, or whatever a slot
takes. -/
inductive Step
  | word (text : String)
  | slot (declared : Slot)
deriving DecidableEq

namespace PatternTerm

/-- The slot that a piece declares. -/
def slot? : PatternTerm → Option Slot
  | slot declared => some declared
  | _ => none

/-- The argument that a piece refers to. -/
def reference? : PatternTerm → Option Nat
  | argument index => some index
  | _ => none

/-- The step that a piece asks of a query.  References ask for none. -/
def step? : PatternTerm → Option Step
  | literal text => some (.word text)
  | slot declared => some (.slot declared)
  | _ => none

/-- A piece in the notation of patterns. -/
def render : PatternTerm → String
  | literal text => text
  | slot declared => "\x7b" ++ toString declared.index ++ ":" ++ declared.type.name ++ "\x7d"
  | argument index => "\x7b" ++ toString index ++ "\x7d"
  | output => "\x7boutput\x7d"

end PatternTerm

/-- The pieces of a pattern in order. -/
structure Pattern where
  terms : List PatternTerm
deriving DecidableEq

namespace Pattern

/-- The slots that a pattern declares, in order. -/
def slots (p : Pattern) : List Slot := p.terms.filterMap PatternTerm.slot?

/-- The arguments that a pattern refers to, in order. -/
def references (p : Pattern) : List Nat := p.terms.filterMap PatternTerm.reference?

/-- The steps that a pattern asks of a query, in order. -/
def steps (p : Pattern) : List Step := p.terms.filterMap PatternTerm.step?

/-- A pattern in its own notation, one blank between its pieces. -/
def render (p : Pattern) : String :=
  " ".intercalate (p.terms.map PatternTerm.render)

end Pattern

end MathQuery
