import MathQuery.Compile
import MathQuery.Schema.Trie

/-!
# Answers

The answer to a query follows the template of the matched pattern: literal words
as they are, arguments as they were captured, and the result of the computation.
In LaTeX everything that is no formula is set as text.
-/

namespace MathQuery

namespace Style

/-- What stands between the pieces of an answer. -/
def separator : Style → String
  | plain => " "
  | latex => "\\ "

/-- Words in an answer. -/
def words : Style → String → String
  | plain, text => text
  | latex, text => "\\text" ++ braced text

end Style

namespace Answer

/-- A captured value in an answer. -/
def value (functions : FunctionTable) (style : Style) : Value → Compiler String
  | .expression e => do
    let handle ← Compiler.compile functions e
    Compiler.render style handle
  | .text text => pure (style.words text)
  | .integer n => pure (toString n)

/-- One piece of a template.  The declaration of a slot has no text. -/
def piece (functions : FunctionTable) (style : Style) (operation : String)
    (arguments : Arguments) (result : Handle) : PatternTerm → Compiler (Option String)
  | .literal text => pure (some (style.words text))
  | .output => do
    let text ← Compiler.render style result
    pure (some text)
  | .argument index => do
    let captured ← Compiler.argument operation arguments index
    let text ← value functions style captured
    pure (some text)
  | .slot _ => pure none

/-- The pieces of a template that have a text, in order. -/
def pieces (functions : FunctionTable) (style : Style) (operation : String)
    (arguments : Arguments) (result : Handle) : List PatternTerm → Compiler (List String)
  | [] => pure []
  | term :: terms => do
    let first ← piece functions style operation arguments result term
    let later ← pieces functions style operation arguments result terms
    pure (first.toList ++ later)

/-- The answer that a template gives. -/
def format (functions : FunctionTable) (style : Style) (operation : String)
    (template : Pattern) (arguments : Arguments) (result : Handle) : Compiler String := do
  let texts ← pieces functions style operation arguments result template.terms
  pure (style.separator.intercalate texts)

end Answer

end MathQuery
