import MathQuery.FunctionTable
import MathQuery.Json.Value
import MathQuery.Schema.Trie

/-!
# Schema documents

The schema of a culture is a JSON document with the patterns to register and the
functions to define:

```text
{ "querys":    [ { "query": …, "exec": …, "brief": …, "example": …, "output": … } ],
  "functions": [ { "name": …, "args": [ … ], "func": … } ] }
```

`brief` and `example` may be missing and are empty then, a missing `output` shows
the result alone, and missing lists are empty.
-/

namespace MathQuery

/-- What a schema document says. -/
structure SchemaConfig where
  registrations : List Registration
  functions : List FunctionDefinition
deriving DecidableEq

namespace SchemaConfig

/-- A text that has to be there. -/
def required (field : Option Json) : Option String := field.bind Json.text?

/-- A text with a default. -/
def optional (default : String) : Option Json → Option String
  | some value => value.text?
  | none => some default

/-- A list whose items are read by `item`, empty if it is missing. -/
def list {α : Type} (item : Json → Option α) : Option Json → Option (List α)
  | some value => do
    let items ← value.items?
    items.mapM item
  | none => some []

/-- The template of queries that give none. -/
def defaultTemplate : String := "\x7boutput\x7d"

/-- Read a registration. -/
def registration? (value : Json) : Option Registration := do
  match ← value.fields? ["query", "exec", "brief", "example", "output"] with
  | [query, exec, brief, sample, output] =>
    some {
      pattern := ← required query
      template := ← optional defaultTemplate output
      operation := ← required exec
      brief := ← optional "" brief
      sample := ← optional "" sample }
  | _ => none

/-- Read the type of a parameter: its name, or an object with that name as its
only member and nothing as its value. -/
def type? : Json → Option ArgumentType
  | .string (some name) => ArgumentType.ofName? name
  | .object [(some name, .null)] => ArgumentType.ofName? name
  | _ => none

/-- Read the definition of a function. -/
def function? (value : Json) : Option FunctionDefinition := do
  match ← value.fields? ["name", "args", "func"] with
  | [name, args, func] =>
    some {
      name := ← required name
      parameters := ← list type? args
      transformation := ← required func }
  | _ => none

/-- Take a document apart. -/
def ofJson? (value : Json) : Option SchemaConfig := do
  match ← value.fields? ["querys", "functions"] with
  | [querys, functions] =>
    some {
      registrations := ← list registration? querys
      functions := ← list function? functions }
  | _ => none

/-- Read the text of a schema document. -/
def parse (document : String) : Except Failure SchemaConfig :=
  match (Json.read? document).bind ofJson? with
  | some config => .ok config
  | none => .error (.setup .invalidSchema)

end SchemaConfig

end MathQuery
