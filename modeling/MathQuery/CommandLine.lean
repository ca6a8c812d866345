import MathQuery.Interpreter
import MathQuery.Json.Writer
import MathQuery.Text.CharacterClass

/-!
# The command line

The program reads one query per line and writes one answer per line.  Lines that
start with a colon are commands: `:help`, `:help <operation>` and `:quit`.  The
environment chooses the directory of the schemas, the culture, the notation, and
whether answers are JSON documents.

* `Settings.ofLookup` – what the environment asks for;
* `Command.parse` – what a line asks for;
* `CommandLine.transcript` – all answers to an input;
* `CommandLine.run` – the exit code and the output of the whole program.
-/

namespace MathQuery

/-- What the environment asks for. -/
structure Settings where
  schemaPath : String
  culture : String
  style : Style
  json : Bool
deriving DecidableEq

namespace Settings

/-- The notation of a given name; text if there is none. -/
def style? : Option String → Except String Style
  | none => .ok .plain
  | some "text" => .ok .plain
  | some "latex" => .ok .latex
  | some other => .error s!"MAGIC_RENDER must be 'text' or 'latex', got '{other}'"

/-- Read the settings from the variables of the environment. -/
def ofLookup (lookup : String → Option String) : Except String Settings := do
  let style ← style? (lookup "MAGIC_RENDER")
  pure {
    schemaPath := (lookup "MAGIC_SCHEMA_PATH").getD "./api"
    culture := (lookup "MAGIC_CULTURE").getD Interpreter.defaultCulture
    style
    json := (lookup "MAGIC_JSON").isSome }

/-- The interpreter that the settings ask for, without a schema. -/
def interpreter (s : Settings) : Interpreter :=
  { Interpreter.standard with culture := s.culture, style := s.style }

end Settings

/-- Characters without the white space at their end. -/
def trimEnd (cs : List Char) : List Char := (cs.reverse.dropWhile isSpace).reverse

/-- Characters without the white space at both ends. -/
def trim (cs : List Char) : List Char := trimEnd (cs.dropWhile isSpace)

/-- The words of a text, where `word` is the current one, last character first. -/
def wordsFrom (word : List Char) : List Char → List (List Char)
  | [] => if word.isEmpty then [] else [word.reverse]
  | c :: cs =>
    if isSpace c then
      if word.isEmpty then wordsFrom [] cs else word.reverse :: wordsFrom [] cs
    else wordsFrom (c :: word) cs

/-- What one line asks for. -/
inductive Command
  | query (text : String)
  | help (operation : Option String)
  | quit
  | unknown (text : String)
  | blank
deriving DecidableEq

namespace Command

/-- Read a command behind its colon; `line` is the whole line. -/
def ofWords (line : String) : List String → Command
  | "help" :: words => .help words.head?
  | ["quit"] => .quit
  | _ => .unknown line

/-- Read a line. -/
def parse (line : String) : Command :=
  match trim line.toList with
  | [] => .blank
  | ':' :: command =>
    ofWords (String.ofList (':' :: command)) ((wordsFrom [] command).map String.ofList)
  | cs => .query (String.ofList cs)

end Command

namespace Response

/-- The members of a diagnostic in a JSON document. -/
def diagnosticMembers (d : Diagnostic) : List (String × String) :=
  let text := JsonWriter.string
  [("code", text d.code), ("message", text d.message)] ++
    (d.suggestion.toList.map fun suggestion => ("suggestion", text suggestion)) ++
    d.position.toList.flatMap fun p =>
      [("line", toString p.line), ("column", toString p.column)]

/-- A response as a JSON document. -/
def json : Response → String
  | answer reply => JsonWriter.object
    [("status", JsonWriter.string "answer"), ("operation", JsonWriter.string reply.operation),
      ("output", JsonWriter.string reply.output)]
  | empty => JsonWriter.object [("status", JsonWriter.string "empty")]
  | error d => JsonWriter.object (("status", JsonWriter.string "error") :: diagnosticMembers d)

/-- A response as a line of text. -/
def text : Response → String
  | answer reply => reply.output
  | empty => ""
  | error d =>
    match d.position with
    | some p => s!"error {p.line}:{p.column}: {d.render}"
    | none => s!"error: {d.render}"

end Response

namespace HelpEntry

/-- The width of the column of queries in help. -/
def queryWidth : Nat := 40

/-- An entry as a line of text. -/
def text (e : HelpEntry) : String :=
  let query := e.query.toList
  let padding := List.replicate (queryWidth - query.length) ' '
  let sample := if e.sample.isEmpty then "" else s!" (e.g. {e.sample})"
  String.ofList (trimEnd (query ++ padding ++ ' ' :: (e.brief ++ sample).toList))

/-- An entry as a JSON document. -/
def json (e : HelpEntry) : String :=
  JsonWriter.object
    [("query", JsonWriter.string e.query), ("operation", JsonWriter.string e.operation),
      ("brief", JsonWriter.string e.brief), ("example", JsonWriter.string e.sample)]

end HelpEntry

namespace CommandLine

/-- A response in the form that the settings ask for. -/
def formatResponse (json : Bool) (r : Response) : String :=
  if json then r.json else r.text

/-- Help in the form that the settings ask for. -/
def formatHelp (json : Bool) (entries : List HelpEntry) : String :=
  if json then JsonWriter.array (entries.map HelpEntry.json)
  else if entries.isEmpty then "no matching queries"
  else "\n".intercalate (entries.map HelpEntry.text)

/-- What happens at a line. -/
inductive Outcome
  | quit
  | silent
  | said (text : String) (interpreter : Interpreter)

/-- Carry out one line. -/
def step (json : Bool) (i : Interpreter) (line : String) : Outcome :=
  match Command.parse line with
  | .blank => .silent
  | .quit => .quit
  | .query query =>
    let (response, i) := i.respond query
    .said (formatResponse json response) i
  | .help operation =>
    match i.help operation with
    | .ok entries => .said (formatHelp json entries) i
    | .error e => .said (formatResponse json (.error e.diagnostic)) i
  | .unknown text => .said s!"unknown command '{text}', try :help" i

/-- The lines of an input, where `line` is the current one, last byte first.  A
line feed ends a line, and what follows the last one is a line if it is not empty. -/
def linesFrom (line : List UInt8) : List UInt8 → List (List UInt8)
  | [] => if line.isEmpty then [] else [line.reverse]
  | b :: bs =>
    if b = 10 then line.reverse :: linesFrom [] bs else linesFrom (b :: line) bs

/-- The text of a line, if its bytes are valid UTF-8. -/
def decode? (line : List UInt8) : Option String :=
  String.fromUTF8? ⟨line.toArray⟩

/-- The answers to some lines, each with a line feed.  A line that is no text ends
the input, as does the command to quit. -/
def answers (json : Bool) (i : Interpreter) : List (List UInt8) → String
  | [] => ""
  | line :: lines =>
    match decode? line with
    -- later lines are not read any more
    | none => ""
    | some text =>
      match step json i text with
      | .quit => ""
      | .silent => answers json i lines
      | .said output i => output ++ "\n" ++ answers json i lines

/-- All answers to an input. -/
def transcript (json : Bool) (i : Interpreter) (input : List UInt8) : String :=
  answers json i (linesFrom [] input)

/-- The exit code for settings that cannot be read. -/
def badSettings : UInt32 := 2

/-- The exit code for a schema that cannot be used. -/
def badSchema : UInt32 := 1

/-- The interpreter at the start of the input, or the exit code. -/
def start (s : Settings) (document : Except Failure String) : Except UInt32 Interpreter :=
  match s.interpreter.setUpFrom document with
  | (.ok (), i) => .ok i
  | (.error _, _) => .error badSchema

/-- The exit code and the output of the whole program, where `document` gives the
schema of a culture in a directory. -/
def run (lookup : String → Option String)
    (document : String → String → Except Failure String) (input : List UInt8) :
    UInt32 × String :=
  match Settings.ofLookup lookup with
  | .error _ => (badSettings, "")
  | .ok settings =>
    match start settings (document settings.schemaPath settings.culture) with
    | .error code => (code, "")
    | .ok i => (0, transcript settings.json i input)

end CommandLine

end MathQuery
