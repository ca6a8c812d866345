/-!
# Writing JSON

Compact documents: no blanks between tokens, members in the order given.  Strings
escape quotes, backslashes and control characters and nothing else.
-/

namespace MathQuery

namespace JsonWriter

/-- The last hexadecimal digit of a number, in lower case. -/
def hexDigit (n : Nat) : Char := Nat.digitChar (n % 16)

/-- A character inside a string. -/
def escape (c : Char) : String :=
  match c with
  | '"' => "\\\""
  | '\\' => "\\\\"
  | '\n' => "\\n"
  | '\r' => "\\r"
  | '\t' => "\\t"
  | '\x08' => "\\b"
  | '\x0c' => "\\f"
  | c =>
    if c.toNat < 0x20 then
      String.ofList ['\\', 'u', '0', '0', hexDigit (c.toNat / 16), hexDigit c.toNat]
    else c.toString

/-- A string. -/
def string (text : String) : String :=
  "\"" ++ String.join (text.toList.map escape) ++ "\""

/-- An array of written values. -/
def array (items : List String) : String :=
  "[" ++ ",".intercalate items ++ "]"

/-- An object whose members have written values. -/
def object (members : List (String × String)) : String :=
  "\x7b" ++ ",".intercalate (members.map fun (name, value) => string name ++ ":" ++ value) ++
    "\x7d"

end JsonWriter

end MathQuery
