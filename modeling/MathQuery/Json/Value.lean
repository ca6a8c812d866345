import MathQuery.Text.Digits

/-!
# Reading JSON

A document is read strictly: nothing stands after its value, no comma is left
over, numbers have no idle zeros, and strings hold no raw control character.
Members keep their order and their repetitions, because both matter to whoever
takes a document apart.

An escape may name half of a surrogate pair.  A string with a half that has no
partner is no text; it is harmless where nobody asks for the text.
-/

namespace MathQuery

/-- A JSON value.  Strings and names are `none` when they are no text, numbers
keep their literal. -/
inductive Json
  | null
  | bool (value : Bool)
  | number (literal : String)
  | string (text : Option String)
  | array (items : List Json)
  | object (members : List (Option String × Json))

/-- A character of a string, or a code unit that an escape names. -/
inductive JsonUnit
  | char (c : Char)
  | unit (n : Nat)

namespace JsonUnit

/-- The first half of a pair. -/
def isLeading (n : Nat) : Bool := 0xD800 ≤ n && n < 0xDC00

/-- The second half of a pair. -/
def isTrailing (n : Nat) : Bool := 0xDC00 ≤ n && n < 0xE000

/-- The character that a pair stands for. -/
def ofPair (leading trailing : Nat) : Char :=
  Char.ofNat (0x10000 + (leading - 0xD800) * 0x400 + (trailing - 0xDC00))

/-- The characters of a string, unless a half has no partner.  `pending` is a
first half that waits for the second. -/
def chars? (pending : Option Nat) : List JsonUnit → Option (List Char)
  | [] => if pending.isSome then none else some []
  | .char c :: later =>
    if pending.isSome then none else (chars? none later).map (c :: ·)
  | .unit n :: later =>
    match pending with
    | some leading =>
      if isTrailing n then (chars? none later).map (ofPair leading n :: ·) else none
    | none =>
      if isLeading n then chars? (some n) later
      else if isTrailing n then none
      else (chars? none later).map (Char.ofNat n :: ·)

/-- The text of a string, unless a half has no partner. -/
def text? (units : List JsonUnit) : Option String :=
  (chars? none units).map String.ofList

end JsonUnit

/-- A reader takes something off the front of a text, or refuses. -/
abbrev JsonReader (α : Type) := List Char → Option (α × List Char)

namespace JsonReader

/-- The value of a hexadecimal digit. -/
def hexDigit? (c : Char) : Option Nat :=
  if c.isDigit then some (c.toNat - '0'.toNat)
  else if 'a' ≤ c && c ≤ 'f' then some (c.toNat - 'a'.toNat + 10)
  else if 'A' ≤ c && c ≤ 'F' then some (c.toNat - 'A'.toNat + 10)
  else none

/-- The character that a one-letter escape stands for. -/
def escaped? (c : Char) : Option Char :=
  match c with
  | '"' => some '"'
  | '\\' => some '\\'
  | '/' => some '/'
  | 'b' => some '\x08'
  | 'f' => some '\x0c'
  | 'n' => some '\n'
  | 'r' => some '\r'
  | 't' => some '\t'
  | _ => none

/-- The rest of a string behind its opening quote, through the closing one. -/
def units : JsonReader (List JsonUnit)
  | [] => none
  | '"' :: cs => some ([], cs)
  | '\\' :: 'u' :: a :: b :: c :: d :: cs => do
    let n := (((← hexDigit? a) * 16 + (← hexDigit? b)) * 16 + (← hexDigit? c)) * 16 +
      (← hexDigit? d)
    let (later, rest) ← units cs
    some (.unit n :: later, rest)
  | '\\' :: e :: cs => do
    let c ← escaped? e
    let (later, rest) ← units cs
    some (.char c :: later, rest)
  | c :: cs => do
    if c.toNat < 0x20 then none
    else
      let (later, rest) ← units cs
      some (.char c :: later, rest)

/-- A string behind its opening quote. -/
def string : JsonReader (Option String) := fun cs => do
  let (later, rest) ← units cs
  some (JsonUnit.text? later, rest)

/-- Skip blanks. -/
def blanks (cs : List Char) : List Char := cs.dropWhile Char.isWhitespace

/-- Take a certain word off the front. -/
def exactly (word : List Char) : JsonReader Unit := fun cs =>
  if word.isPrefixOf cs then some ((), cs.drop word.length) else none

/-- One or more digits. -/
def digits : JsonReader (List Char) := fun cs =>
  let run := cs.takeWhile Char.isDigit
  if run.isEmpty then none else some (run, cs.drop run.length)

/-- The whole part of a number: a single zero, or digits that start with none. -/
def whole : JsonReader (List Char)
  | '0' :: cs => if cs.head?.any Char.isDigit then none else some (['0'], cs)
  | cs => digits cs

/-- The fraction of a number, if there is one. -/
def fraction : JsonReader (List Char)
  | '.' :: cs => do
    let (run, rest) ← digits cs
    some ('.' :: run, rest)
  | cs => some ([], cs)

/-- Whether a character opens an exponent. -/
def isExponentMark (c : Char) : Bool := c == 'e' || c == 'E'

/-- Whether a character is a sign. -/
def isSign (c : Char) : Bool := c == '+' || c == '-'

/-- The exponent of a number, if there is one. -/
def exponent : JsonReader (List Char) := fun cs =>
  if cs.head?.any isExponentMark then do
    let mark := cs.take 1
    let sign := (cs.drop 1).takeWhile isSign |>.take 1
    let (run, rest) ← digits (cs.drop (1 + sign.length))
    some (mark ++ sign ++ run, rest)
  else some ([], cs)

/-- A number. -/
def number : JsonReader Json := fun cs => do
  let sign := (cs.takeWhile (· == '-')).take 1
  let (whole, cs) ← whole (cs.drop sign.length)
  let (fraction, cs) ← fraction cs
  let (exponent, cs) ← exponent cs
  some (.number (String.ofList (sign ++ whole ++ fraction ++ exponent)), cs)

/-- Items behind the first one, through the closing bracket. -/
def moreItems (item : JsonReader Json) : Nat → JsonReader (List Json)
  | 0, _ => none
  | fuel + 1, cs =>
    match blanks cs with
    | ']' :: rest => some ([], rest)
    | ',' :: rest => do
      let (first, rest) ← item rest
      let (later, rest) ← moreItems item fuel rest
      some (first :: later, rest)
    | _ => none

/-- The items of an array behind its opening bracket. -/
def items (item : JsonReader Json) : JsonReader (List Json) := fun cs =>
  match blanks cs with
  | ']' :: rest => some ([], rest)
  | rest => do
    let (first, rest) ← item rest
    let (later, rest) ← moreItems item rest.length rest
    some (first :: later, rest)

/-- A name, a colon and a value. -/
def member (value : JsonReader Json) : JsonReader (Option String × Json) := fun cs =>
  match blanks cs with
  | '"' :: rest => do
    let (name, rest) ← string rest
    match blanks rest with
    | ':' :: rest => do
      let (item, rest) ← value rest
      some ((name, item), rest)
    | _ => none
  | _ => none

/-- Members behind the first one, through the closing brace. -/
def moreMembers (value : JsonReader Json) : Nat → JsonReader (List (Option String × Json))
  | 0, _ => none
  | fuel + 1, cs =>
    match blanks cs with
    | '}' :: rest => some ([], rest)
    | ',' :: rest => do
      let (first, rest) ← member value rest
      let (later, rest) ← moreMembers value fuel rest
      some (first :: later, rest)
    | _ => none

/-- The members of an object behind its opening brace. -/
def members (value : JsonReader Json) : JsonReader (List (Option String × Json)) := fun cs =>
  match blanks cs with
  | '}' :: rest => some ([], rest)
  | rest => do
    let (first, rest) ← member value rest
    let (later, rest) ← moreMembers value rest.length rest
    some (first :: later, rest)

/-- A value with at most `depth` levels of brackets and braces. -/
def value : Nat → JsonReader Json
  | 0, _ => none
  | depth + 1, cs =>
    match blanks cs with
    | '"' :: rest => do
      let (text, rest) ← string rest
      some (.string text, rest)
    | '[' :: rest => do
      let (items, rest) ← items (value depth) rest
      some (.array items, rest)
    | '{' :: rest => do
      let (members, rest) ← members (value depth) rest
      some (.object members, rest)
    | 't' :: rest => do
      let ((), rest) ← exactly ['r', 'u', 'e'] rest
      some (.bool true, rest)
    | 'f' :: rest => do
      let ((), rest) ← exactly ['a', 'l', 's', 'e'] rest
      some (.bool false, rest)
    | 'n' :: rest => do
      let ((), rest) ← exactly ['u', 'l', 'l'] rest
      some (.null, rest)
    | rest => number rest

end JsonReader

namespace Json

/-- Read a document.  It has at most one level of nesting per character. -/
def read? (document : String) : Option Json :=
  let cs := document.toList
  match JsonReader.value (cs.length + 1) cs with
  | some (value, rest) => if (JsonReader.blanks rest).isEmpty then some value else none
  | none => none

/-- The text of a string. -/
def text? : Json → Option String
  | string text => text
  | _ => none

/-- The items of an array. -/
def items? : Json → Option (List Json)
  | array items => some items
  | _ => none

/-- The values of the members with a given name. -/
def named (name : String) (members : List (Option String × Json)) : List Json :=
  members.filterMap fun (n, value) => if n = some name then some value else none

/-- Take a record apart into its fields.  An object gives them by name, and no
field twice; names that are no fields are passed over.  An array gives them by
position and may leave out the last ones. -/
def fields? (names : List String) : Json → Option (List (Option Json))
  | object members =>
    if members.all (·.1.isSome) then
      names.mapM fun name =>
        match named name members with
        | [] => some none
        | [value] => some (some value)
        | _ => none
    else none
  | array items =>
    if items.length ≤ names.length then
      some (items.map some ++ List.replicate (names.length - items.length) none)
    else none
  | _ => none

end Json

end MathQuery
