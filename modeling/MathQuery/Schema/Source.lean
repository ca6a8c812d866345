import MathQuery.Failure

/-!
# Where schemas come from

The schema document of a culture is either one of several given texts or a file
in a directory, named after the culture.
-/

namespace MathQuery

namespace SchemaSource

/-- The file name of the schema of a culture. -/
def fileName (culture : String) : String := culture ++ ".json"

/-- A file name within a directory.  An absolute name stands for itself. -/
def join (directory name : String) : String :=
  if name.toList.head? = some '/' || directory.isEmpty then name
  else if directory.toList.getLast? = some '/' then directory ++ name
  else directory ++ "/" ++ name

/-- Where a directory keeps the schema of a culture. -/
def path (directory culture : String) : String := join directory (fileName culture)

/-- The error of a file that cannot be read. -/
def unreadable (directory culture reason : String) : Failure :=
  .setup (.unavailableSchema culture (path directory culture ++ ": " ++ reason))

/-- The schema of a culture among given texts. -/
def fetch (documents : List (String × String)) (culture : String) : Except Failure String :=
  match documents.lookup culture with
  | some document => .ok document
  | none => .error (.setup (.unavailableSchema culture "no schema for this culture"))

end SchemaSource

end MathQuery
