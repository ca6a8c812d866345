import MathQuery.Answer
import MathQuery.Operation
import MathQuery.Query.Parser
import MathQuery.Schema.Config
import MathQuery.Schema.Match
import MathQuery.Schema.Source

/-!
# The interpreter

An interpreter answers queries once a schema is in force.  A query is read,
matched against the registered patterns, dispatched to an operation and answered
by the template of the matched pattern.

* `Interpreter.setUp` – put a schema in force;
* `Interpreter.stop` – put it out of force;
* `Interpreter.run` – the answer to one query, or its failure;
* `Interpreter.respond` – the same with the failure as a diagnostic;
* `Interpreter.help` – the queries that the schema knows.

An interpreter that fails stays as it was, apart from the terms of the failed
query, which the next query clears away.
-/

namespace MathQuery

/-- What is in force between setting up and stopping. -/
structure Session where
  schema : Trie
  functions : FunctionTable
  table : TermTable
deriving DecidableEq

/-- An interpreter: what it can compute, how it writes, and the schema in force. -/
structure Interpreter where
  operations : OperationTable
  functions : FunctionTable
  culture : String
  style : Style
  session : Option Session
deriving DecidableEq

/-- The answer to a query and the operation that gave it. -/
structure Reply where
  operation : String
  output : String
deriving DecidableEq

/-- What a user gets for one query. -/
inductive Response
  | answer (reply : Reply)
  | empty
  | error (diagnostic : Diagnostic)
deriving DecidableEq

/-- One query that a schema knows. -/
structure HelpEntry where
  query : String
  operation : String
  brief : String
  sample : String
deriving DecidableEq

/-- What help says about an entry. -/
def Entry.help (e : Entry) : HelpEntry :=
  ⟨e.pattern.render, e.operation, e.brief, e.sample⟩

/-- Whether two names are equal up to the case of ASCII letters. -/
def equalIgnoringCase (a b : String) : Bool :=
  a.toList.map Char.toLower == b.toList.map Char.toLower

namespace Session

/-- Open a session for a schema.  The functions of the schema are added to those
that are there anyway. -/
def ofConfig (functions : FunctionTable) (config : SchemaConfig) : Except Failure Session := do
  let schema ← Trie.ofRegistrations config.registrations
  pure ⟨schema, config.functions.foldl FunctionTable.define functions, .empty⟩

/-- Answer a matched query. -/
def answer (operations : OperationTable) (functions : FunctionTable) (style : Style)
    (m : Match) : Compiler Reply := do
  -- the terms of the query before are of no use any more
  Compiler.ofBuilder .clear
  let result ← operations.execute functions m.entry.operation m.arguments
  let output ← Answer.format functions style m.entry.operation m.entry.template m.arguments
    result
  pure ⟨m.entry.operation, output⟩

/-- Answer one query.  A query without terms has no answer. -/
def run (s : Session) (operations : OperationTable) (style : Style) (query : String) :
    Except Failure (Option Reply) × Session :=
  match parse query with
  | .error e => (.error e, s)
  | .ok program =>
    match s.schema.matchProgram program with
    | .error e => (.error (.matching e), s)
    | .ok none => (.ok none, s)
    | .ok (some m) =>
      match answer operations s.functions style m s.table with
      | .ok reply table => (.ok (some reply), { s with table })
      | .error e table => (.error e, { s with table })

end Session

namespace Interpreter

/-- The culture of interpreters that are given none. -/
def defaultCulture : String := "en-US"

/-- An interpreter with the standard operations and functions. -/
def standard : Interpreter :=
  ⟨.standard, .standard, defaultCulture, .plain, none⟩

/-- Put a schema in force, in place of the one before.  If that fails, the one
before stays. -/
def setUp (i : Interpreter) (config : SchemaConfig) : Except Failure Unit × Interpreter :=
  match Session.ofConfig i.functions config with
  | .ok session => (.ok (), { i with session := some session })
  | .error e => (.error e, i)

/-- Put the schema of a document in force, if there is a document. -/
def setUpFrom (i : Interpreter) (document : Except Failure String) :
    Except Failure Unit × Interpreter :=
  match document.bind SchemaConfig.parse with
  | .ok config => i.setUp config
  | .error e => (.error e, i)

/-- Put the schema out of force. -/
def stop (i : Interpreter) : Except Failure Unit × Interpreter :=
  match i.session with
  | some _ => (.ok (), { i with session := none })
  | none => (.error (.setup .notInitialized), i)

/-- Answer one query. -/
def run (i : Interpreter) (query : String) : Except Failure (Option Reply) × Interpreter :=
  match i.session with
  | none => (.error (.setup .notInitialized), i)
  | some session =>
    let (result, session) := session.run i.operations i.style query
    (result, { i with session := some session })

/-- Answer one query and turn a failure into a diagnostic. -/
def respond (i : Interpreter) (query : String) : Response × Interpreter :=
  match i.run query with
  | (.ok (some reply), i) => (.answer reply, i)
  | (.ok none, i) => (.empty, i)
  | (.error e, i) => (.error e.diagnostic, i)

/-- The queries that the schema knows, or those of one operation. -/
def help (i : Interpreter) (operation : Option String) : Except Failure (List HelpEntry) :=
  match i.session with
  | none => .error (.setup .notInitialized)
  | some session =>
    .ok ((session.schema.entries.filter fun e =>
      operation.all (equalIgnoringCase e.operation)).map Entry.help)

end Interpreter

end MathQuery
