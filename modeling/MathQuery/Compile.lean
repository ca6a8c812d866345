import MathQuery.Algebra.Builder
import MathQuery.Algebra.Rendering
import MathQuery.Argument
import MathQuery.FunctionTable

/-!
# From expressions to terms

Compiling an expression issues a term for each of its parts, the operands of an
operator before the operator.  A call is resolved first, then its arguments are
compiled, then the transformation bound to the function is applied.
-/

namespace MathQuery

/-- A computation that issues terms and may fail at any stage. -/
abbrev Compiler := EStateM Failure TermTable

namespace Compiler

/-- Run a computation of the algebra. -/
def ofBuilder {α : Type} (builder : Builder α) : Compiler α := fun table =>
  match builder table with
  | .ok value table => .ok value table
  | .error e table => .error (.algebra e) table

/-- A result that needs no terms. -/
def ofDispatch {α : Type} (result : Except DispatchError α) : Compiler α :=
  match result with
  | .ok value => pure value
  | .error e => throw (.dispatch e)

mutual

/-- Issue the term of an expression. -/
def compile (functions : FunctionTable) : Expr → Compiler Handle
  | .number literal => ofBuilder (.number literal.text)
  | .symbol name => ofBuilder (.symbol name.text)
  | .binary op left right => do
    let l ← compile functions left
    let r ← compile functions right
    ofBuilder (.apply op l r)
  | .call name arguments => do
    let definition ← ofDispatch (functions.resolve name.text arguments)
    let handles ← compileEach functions arguments
    ofBuilder (.transform definition.transformation handles)

/-- Issue the terms of several expressions, in order. -/
def compileEach (functions : FunctionTable) : List Expr → Compiler (List Handle)
  | [] => pure []
  | e :: es => do
    let first ← compile functions e
    let later ← compileEach functions es
    pure (first :: later)

end

/-- Issue the term of a captured value.  A text becomes the symbol of that name. -/
def value (functions : FunctionTable) : Value → Compiler Handle
  | .expression e => compile functions e
  | .text name => ofBuilder (.symbol name)
  | .integer n => ofBuilder (.number (toString n))

/-- The argument of an operation at an index. -/
def argument (operation : String) (arguments : Arguments) (index : Nat) : Compiler Value :=
  match arguments.get? index with
  | some captured => pure captured
  | none => throw (.dispatch (.missingArgument operation index))

/-- The name that a value gives where a text is asked for: a text, or a bare
symbol. -/
def name (operation : String) (index : Nat) : Value → Compiler String
  | .text s => pure s
  | .expression e =>
    match e.word? with
    | some w => pure w
    | none => throw (.dispatch (.argumentType operation index .text .expression))
  | .integer _ => throw (.dispatch (.argumentType operation index .text .integer))

/-- The term that a value gives where an integer is asked for: an integer, or a
number without a point. -/
def integer (functions : FunctionTable) (operation : String) (index : Nat) :
    Value → Compiler Handle
  | .integer n => ofBuilder (.number (toString n))
  | .expression e =>
    if ArgumentType.integer.accepts e then compile functions e
    else throw (.dispatch (.argumentType operation index .integer .expression))
  | .text _ => throw (.dispatch (.argumentType operation index .integer .text))

/-- The term of an argument of an operation, whose parameter takes a given type. -/
def parameter (functions : FunctionTable) (operation : String) (arguments : Arguments)
    (index : Nat) (type : ArgumentType) : Compiler Handle := do
  let captured ← argument operation arguments index
  match type with
  | .expression => value functions captured
  | .integer => integer functions operation index captured
  | .text =>
    let symbol ← name operation index captured
    ofBuilder (.symbol symbol)

/-- An issued term as text. -/
def render (style : Style) (handle : Handle) : Compiler String := do
  let issued ← ofBuilder (.issued handle)
  pure (issued.term.render style)

end Compiler

end MathQuery
