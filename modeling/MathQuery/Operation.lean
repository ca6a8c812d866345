import MathQuery.Compile

/-!
# Operations

A registered query names an operation.  An operation reads its parameters from
the slots 0, 1, … in order and applies one transformation of the algebra to them.
Operations are found by name in lower case, either directly or through an alias.
-/

namespace MathQuery

/-- What an operation takes from one slot. -/
structure OperationParameter where
  name : String
  type : ArgumentType
  description : String
deriving DecidableEq

/-- Something that a query can ask for. -/
structure Operation where
  name : String
  transformation : String
  description : String
  parameters : List OperationParameter
deriving DecidableEq

namespace Operation

/-- The field that an operation belongs to. -/
def category (_ : Operation) : String := "algebra"

/-- Issue the terms of the parameters, from slot `index` on. -/
def operands (functions : FunctionTable) (operation : Operation) (arguments : Arguments)
    (index : Nat) : List OperationParameter → Compiler (List Handle)
  | [] => pure []
  | parameter :: parameters => do
    let first ← Compiler.parameter functions operation.name arguments index parameter.type
    let later ← operands functions operation arguments (index + 1) parameters
    pure (first :: later)

/-- Carry out an operation on captured arguments. -/
def execute (functions : FunctionTable) (operation : Operation) (arguments : Arguments) :
    Compiler Handle := do
  let handles ← operation.operands functions arguments 0 operation.parameters
  Compiler.ofBuilder (.transform operation.transformation handles)

/-- An operation that applies the transformation of its own name. -/
def direct (name description : String) (parameters : List OperationParameter) : Operation :=
  ⟨name, name, description, parameters⟩

/-- The parameter of operations on one expression. -/
def oneExpression : List OperationParameter :=
  [⟨"expr", .expression, "Expression"⟩]

/-- The parameters of operations on two polynomials. -/
def twoPolynomials : List OperationParameter :=
  [⟨"a", .expression, "First polynomial"⟩, ⟨"b", .expression, "Second polynomial"⟩]

/-- The operations that are there without any schema. -/
def standard : List Operation :=
  [direct "reduce" "Combine like terms and fold constants" oneExpression,
    direct "expand" "Expand products and integer powers" oneExpression,
    direct "factor" "Factor a polynomial" oneExpression,
    direct "gcd" "Greatest common divisor of two polynomials" twoPolynomials,
    direct "lcm" "Least common multiple of two polynomials" twoPolynomials,
    direct "div" "Polynomial division" twoPolynomials,
    direct "resultant" "Resultant of two polynomials"
      (twoPolynomials ++ [⟨"var", .text, "Variable to eliminate"⟩]),
    direct "derivative" "Derivative with respect to a variable"
      [⟨"expr", .expression, "Expression to differentiate"⟩,
        ⟨"var", .text, "Variable of differentiation"⟩],
    direct "root" "n-th root"
      [⟨"expr", .expression, "Radicand"⟩, ⟨"n", .integer, "Index of the root"⟩]]

end Operation

/-- The operations that queries can ask for, with their aliases. -/
structure OperationTable where
  operations : Catalogue Operation
  aliases : Catalogue String
deriving DecidableEq

namespace OperationTable

/-- The table without operations. -/
def empty : OperationTable := ⟨.empty, .empty⟩

/-- Add an operation. -/
def add (table : OperationTable) (operation : Operation) : OperationTable :=
  { table with operations := table.operations.insert operation.name operation }

/-- Let a name stand for an operation. -/
def addAlias (table : OperationTable) (name target : String) : OperationTable :=
  { table with aliases := table.aliases.insert name target }

/-- The operation that a name stands for. -/
def find? (table : OperationTable) (name : String) : Option Operation :=
  table.operations.find? ((table.aliases.find? name).getD name)

/-- Carry out the operation of a given name. -/
def execute (table : OperationTable) (functions : FunctionTable) (name : String)
    (arguments : Arguments) : Compiler Handle :=
  match table.find? name with
  | some operation => operation.execute functions arguments
  | none =>
    let candidates := table.operations.names ++ table.aliases.names
    throw (.dispatch (.unknownOperation name (similarNames name candidates)))

/-- Whether an operation is listed no later than another one. -/
def listedLE (a b : Operation) : Bool := (compare a.name b.name).isLE

/-- The operations of a category, or all of them, in the order of their names. -/
def list (table : OperationTable) (category : Option String) : List Operation :=
  sortBy listedLE (table.operations.values.filter fun operation =>
    category.all (· == operation.category))

/-- The standard operations with the aliases of older schemas. -/
def standard : OperationTable :=
  ((Operation.standard.foldl add empty).addAlias "reduction" "reduce").addAlias "diff" "derivative"

end OperationTable

end MathQuery
