import MathQuery.ArgumentType
import MathQuery.Text.Position

/-!
# Failures

Every stage of answering a query has its own kind of error, and `Failure` is any
of them.  Errors are kept as causes; the words of the messages stand in the
`message` functions only.

* `LexicalError` – characters that form no token;
* `GrammarError` – tokens in an order that no query or pattern has;
* `MatchError` – a query that follows no registered pattern;
* `DispatchError` – an operation or a function that cannot be called;
* `AlgebraError` – an error of the computation itself;
* `SetupError` – a schema that cannot be used, or none at all;
* `Diagnostic` – what a user is told about a failure.
-/

namespace MathQuery

/-- Characters that form no token. -/
inductive LexicalError
  | malformedNumber (literal : String) (position : Position)
  | unexpectedCharacter (character : Char) (position : Position)
deriving DecidableEq

namespace LexicalError

/-- The place of the offending characters. -/
def position : LexicalError → Position
  | malformedNumber _ p => p
  | unexpectedCharacter _ p => p

/-- The words of the error. -/
def message : LexicalError → String
  | malformedNumber literal p => s!"invalid numeric literal '{literal}' at {p.describe}"
  | unexpectedCharacter c p => s!"unrecognized character '{c}' at {p.describe}"

end LexicalError

/-- Tokens in an order that the grammar of queries or of patterns does not
accept. -/
inductive GrammarError
  | unexpectedToken (expected found : String) (position : Position)
  | missingArgument (function : String) (position : Position)
  | unterminatedCall (function : String) (position : Position)
  | unknownType (name : String) (position : Position)
  | invalidSlotIndex (found : String) (position : Position)
  | invalidTemplateName (name : String) (position : Position)
  | unterminatedSlot (position : Position)
  | misplacedArgument (kind context : String) (position : Position)
deriving DecidableEq

namespace GrammarError

/-- The place that the error points to. -/
def position : GrammarError → Position
  | unexpectedToken _ _ p => p
  | missingArgument _ p => p
  | unterminatedCall _ p => p
  | unknownType _ p => p
  | invalidSlotIndex _ p => p
  | invalidTemplateName _ p => p
  | unterminatedSlot p => p
  | misplacedArgument _ _ p => p

/-- The words of the error. -/
def message : GrammarError → String
  | unexpectedToken expected found p =>
    s!"expecting {expected} but found '{found}' at {p.describe}"
  | missingArgument function p =>
    s!"function argument expected for function '{function}' at {p.describe}, " ++
      "you likely added an extra ',' at the end of the arguments or forgot an argument"
  | unterminatedCall function p =>
    s!"unterminated argument list for function '{function}' at {p.describe}"
  | unknownType name p =>
    s!"undefined type '{name}' at {p.describe}, expected one of expression, string, integer"
  | invalidSlotIndex found p => s!"invalid slot index '{found}' at {p.describe}"
  | invalidTemplateName name p =>
    s!"invalid template argument '{name}' at {p.describe}, only 'output' is reserved"
  | unterminatedSlot p => s!"unterminated '\x7b' at {p.describe}"
  | misplacedArgument kind context p => s!"{kind} is not allowed in {context} at {p.describe}"

end GrammarError

/-- A query that follows no registered pattern. -/
inductive MatchError
  | incomplete (position : Position)
  | noEdge (found : String) (position : Position)
  | notInteger (found : String) (position : Position)
deriving DecidableEq

namespace MatchError

/-- The place of the term that could not be followed. -/
def position : MatchError → Position
  | incomplete p => p
  | noEdge _ p => p
  | notInteger _ p => p

/-- The words of the error. -/
def message : MatchError → String
  | incomplete p => s!"query is not defined at {p.describe}"
  | noEdge found p => s!"invalid query: unexpected '{found}' at {p.describe}"
  | notInteger found p => s!"expected an integer but found '{found}' at {p.describe}"

end MatchError

/-- An operation or a function that cannot be called as asked. -/
inductive DispatchError
  | unknownOperation (name : String) (similar : List String)
  | unknownFunction (name : String) (similar : List String)
  | argumentCount (name : String) (expected got : Nat)
  | argumentType (name : String) (index : Nat) (expected got : ArgumentType)
  | missingArgument (name : String) (index : Nat)
deriving DecidableEq

namespace DispatchError

/-- The words of the error. -/
def message : DispatchError → String
  | unknownOperation name _ => s!"operation '{name}' is not implemented"
  | unknownFunction name _ => s!"unknown function '{name}'"
  | argumentCount name expected got => s!"{name}() expects {expected} arguments, got {got}"
  | argumentType name index expected got =>
    s!"{name}() argument {index}: expected {expected.name}, got {got.name}"
  | missingArgument name index => s!"{name}() is missing argument {index}"

/-- The names to propose instead of an unknown one. -/
def similar : DispatchError → List String
  | unknownOperation _ names => names
  | unknownFunction _ names => names
  | _ => []

end DispatchError

/-- An error of the computation itself. -/
inductive AlgebraError
  | divisionByZero
  | invalidArgument (reason : String)
  | unsupported (name : String)
  | unknownTerm (handle : Nat)
deriving DecidableEq

namespace AlgebraError

/-- The words of the error. -/
def message : AlgebraError → String
  | divisionByZero => "division by zero"
  | invalidArgument reason => s!"invalid argument: {reason}"
  | unsupported name => s!"'{name}' is not supported by this engine"
  | unknownTerm handle => s!"unknown term handle {handle}"

end AlgebraError

/-- A schema that cannot be used, or none in force. -/
inductive SetupError
  | invalidSchema
  | unavailableSchema (culture reason : String)
  | undeclaredSlot (pattern : String) (index : Nat)
  | notInitialized
deriving DecidableEq

namespace SetupError

/-- The words of the error. -/
def message : SetupError → String
  | invalidSchema => "invalid schema configuration"
  | unavailableSchema culture reason => s!"could not fetch schema for '{culture}': {reason}"
  | undeclaredSlot pattern index =>
    s!"output template of '{pattern}' references undeclared slot {index}"
  | notInitialized => "interpreter wasn't initialized"

end SetupError

/-- Any failure of the path from a query to its answer. -/
inductive Failure
  | lexical (error : LexicalError)
  | grammar (error : GrammarError)
  | matching (error : MatchError)
  | dispatch (error : DispatchError)
  | algebra (error : AlgebraError)
  | setup (error : SetupError)
deriving DecidableEq

/-- What a user is told about a failure. -/
structure Diagnostic where
  code : String
  message : String
  suggestion : Option String
  position : Option Position
deriving DecidableEq

namespace Diagnostic

/-- A diagnostic on one line, without its place. -/
def render (d : Diagnostic) : String :=
  s!"[{d.code}] {d.message}" ++
    match d.suggestion with
    | some suggestion => s!" (suggestion: {suggestion})"
    | none => ""

end Diagnostic

namespace Failure

/-- The code by which a program recognises the stage that failed. -/
def code : Failure → String
  | lexical _ => "LEX_ERROR"
  | grammar _ => "PARSE_ERROR"
  | matching _ => "MATCH_ERROR"
  | dispatch _ => "EXEC_ERROR"
  | algebra _ => "ENGINE_ERROR"
  | setup _ => "CONFIG_ERROR"

/-- The words of the failure, headed by its stage. -/
def message : Failure → String
  | lexical e => s!"Lexing Error: {e.message}"
  | grammar e => s!"Parsing Error: {e.message}"
  | matching e => s!"Match Error: {e.message}"
  | dispatch e => s!"Execution Error: {e.message}"
  | algebra e => s!"Engine Error: {e.message}"
  | setup e => s!"Configuration Error: {e.message}"

/-- The place in the query or pattern; the later stages name none. -/
def position? : Failure → Option Position
  | lexical e => some e.position
  | grammar e => some e.position
  | matching e => some e.position
  | dispatch _ => none
  | algebra _ => none
  | setup _ => none

/-- What the user may try next. -/
def suggestion? : Failure → Option String
  | dispatch e =>
    match e.similar with
    | [] => none
    | names => some ("Similar: " ++ ", ".intercalate names)
  | matching _ => some "Use :help to list the recognized queries"
  | setup .notInitialized => some "Call init before compiling queries"
  | _ => none

/-- The failure as it is told to the user. -/
def diagnostic (e : Failure) : Diagnostic :=
  ⟨e.code, e.message, e.suggestion?, e.position?⟩

end Failure

end MathQuery
