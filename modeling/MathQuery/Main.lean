import MathQuery.CommandLine

/-!
# The program

Reads the environment, the schema file and the standard input, and leaves every
decision to `MathQuery.CommandLine`.
-/

namespace MathQuery.Program

/-- The text of the schema file, or why it cannot be read. -/
def readSchema (settings : Settings) : IO (Except Failure String) := do
  let path := SchemaSource.path settings.schemaPath settings.culture
  try
    return .ok (← IO.FS.readFile path)
  catch e =>
    return .error (SchemaSource.unreadable settings.schemaPath settings.culture (toString e))

/-- The bytes of the next line, the line feed included, last byte first; none at
the end of the input. -/
partial def readLine (input : IO.FS.Stream) (line : List UInt8) : IO (List UInt8) := do
  let bytes ← input.read 1
  match bytes.toList with
  | b :: _ => if b = 10 then return b :: line else readLine input (b :: line)
  | [] => return line

/-- Answer line by line until the input ends. -/
partial def loop (json : Bool) (i : Interpreter) : IO Unit := do
  let line ← readLine (← IO.getStdin) []
  if line.isEmpty then return
  match CommandLine.decode? line.reverse with
  | none => return
  | some text =>
    match CommandLine.step json i text with
    | .quit => return
    | .silent => loop json i
    | .said output i =>
      let stdout ← IO.getStdout
      stdout.putStr (output ++ "\n")
      stdout.flush
      loop json i

/-- Run the program with the variables of the environment. -/
def run : IO UInt32 := do
  let render ← IO.getEnv "MAGIC_RENDER"
  let path ← IO.getEnv "MAGIC_SCHEMA_PATH"
  let culture ← IO.getEnv "MAGIC_CULTURE"
  let json ← IO.getEnv "MAGIC_JSON"
  let lookup (name : String) : Option String :=
    match name with
    | "MAGIC_RENDER" => render
    | "MAGIC_SCHEMA_PATH" => path
    | "MAGIC_CULTURE" => culture
    | "MAGIC_JSON" => json
    | _ => none
  match Settings.ofLookup lookup with
  | .error message =>
    IO.eprintln message
    return CommandLine.badSettings
  | .ok settings =>
    match CommandLine.start settings (← readSchema settings) with
    | .error code => return code
    | .ok i =>
      loop settings.json i
      return 0

end MathQuery.Program

/-- The entry point of the program. -/
def main : IO UInt32 := MathQuery.Program.run
