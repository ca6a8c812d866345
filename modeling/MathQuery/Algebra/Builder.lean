import MathQuery.Algebra.Term

/-!
# The table of terms

Terms are issued one by one, and each is known by its place in the table, its
handle.  A term is built from terms that are already there, so the operands of a
term always stand before it.  A step that fails leaves the terms it has issued
behind; only clearing the table removes terms.

* `Builder.number`, `symbol`, `apply` – issue one term;
* `Builder.transform` – a named transformation of issued terms;
* `Builder.reduce` – the normal form of a term, part by part;
* `Builder.polynomial` – a polynomial as a sum of products.
-/

namespace MathQuery

/-- The terms issued so far.  A handle is an index into them. -/
structure TermTable where
  terms : Array Term
deriving DecidableEq

/-- The place of a term in the table. -/
abbrev Handle := Nat

/-- A computation that issues terms and may fail.  What was issued before a
failure stays in the table. -/
abbrev Builder := EStateM AlgebraError TermTable

namespace TermTable

/-- The table without terms. -/
def empty : TermTable := ⟨#[]⟩

/-- The number of issued terms. -/
def size (table : TermTable) : Nat := table.terms.size

/-- The term with a given handle. -/
def term (table : TermTable) (handle : Handle) : Except AlgebraError Term :=
  match table.terms[handle]? with
  | some t => .ok t
  | none => .error (.unknownTerm handle)

end TermTable

/-- A term with its handle. -/
structure Issued where
  handle : Handle
  term : Term
deriving DecidableEq

namespace Builder

/-- Issue a term. -/
def issue (t : Term) : Builder Issued := fun table =>
  .ok ⟨table.size, t⟩ ⟨table.terms.push t⟩

/-- The issued term with a given handle. -/
def issued (handle : Handle) : Builder Issued := fun table =>
  match table.term handle with
  | .ok t => .ok ⟨handle, t⟩ table
  | .error e => .error e table

/-- Issue an operation on two terms. -/
def operation (op : BinaryOp) (left right : Issued) : Builder Issued :=
  issue (.operation op left.term right.term)

/-- Issue one factor of a monomial: a symbol, or a power of it. -/
def factor (x : String) (e : Nat) : Builder Issued := do
  let base ← issue (.symbol x)
  if e = 1 then pure base
  else
    let exponent ← issue (.number e)
    operation .pow base exponent

/-- Issue the product of `first` and further factors, from left to right. -/
def product (first : Issued) : List Issued → Builder Issued
  | [] => pure first
  | next :: later => do
    let longer ← operation .mul first next
    product longer later

/-- Issue the term of a monomial with its coefficient.  All factors are issued
first, then their product, and the coefficient last unless it is one. -/
def monomial (m : Monomial) (c : Rat) : Builder Issued := do
  let factors ← m.mapM fun (x, e) => factor x e
  match factors with
  | [] => issue (.number c)
  | first :: later =>
    let body ← product first later
    if c = 1 then pure body
    else
      let coefficient ← issue (.number c)
      operation .mul coefficient body

/-- Issue the sum of `first` and further terms.  A negative coefficient is
subtracted. -/
def sum (first : Issued) : List PolynomialTerm → Builder Issued
  | [] => pure first
  | (m, c) :: later => do
    if c < 0 then
      let next ← monomial m (-c)
      let longer ← operation .sub first next
      sum longer later
    else
      let next ← monomial m c
      let longer ← operation .add first next
      sum longer later

/-- Issue a polynomial in the order in which its terms are written. -/
def polynomial (p : Polynomial) : Builder Issued :=
  match p.written with
  | [] => issue (.number 0)
  | (m, c) :: later => do
    let first ← monomial m c
    sum first later

mutual

/-- Issue the normal form of a term: its polynomial if it denotes one, and
otherwise the same operation or application of normal forms. -/
def reduce (t : Term) : Builder Issued := do
  match t.polynomial? with
  | .error e => throw e
  | .ok (some p) => polynomial p
  | .ok none =>
    match t with
    | .number value => issue (.number value)
    | .symbol name => issue (.symbol name)
    | .operation op left right =>
      let l ← reduce left
      let r ← reduce right
      operation op l r
    | .application name arguments =>
      let args ← reduceAll arguments
      issue (.application name (args.map Issued.term))

/-- Issue the normal forms of several terms, in order. -/
def reduceAll : List Term → Builder (List Issued)
  | [] => pure []
  | t :: ts => do
    let first ← reduce t
    let later ← reduceAll ts
    pure (first :: later)

end

/-- Issue the derivative of a polynomial by a symbol. -/
def derivative (t x : Term) : Builder Issued :=
  match x with
  | .symbol name =>
    match t.polynomial? with
    | .error e => throw e
    | .ok (some p) => polynomial (p.derivative name)
    | .ok none => throw (.unsupported "derivative of a non-polynomial expression")
  | _ => throw (.invalidArgument "derivative variable must be a symbol")

/-- The functions that stay symbolic, with the number of their arguments. -/
def elementary : List (String × Nat) :=
  [("sin", 1), ("cos", 1), ("tan", 1), ("asin", 1), ("acos", 1), ("atan", 1),
    ("sinh", 1), ("cosh", 1), ("tanh", 1), ("asinh", 1), ("acosh", 1), ("atanh", 1),
    ("ln", 1), ("exp", 1), ("abs", 1), ("sqrt", 1), ("root", 2)]

/-- The error of a transformation with the wrong number of arguments. -/
def arity (name : String) (expected got : Nat) : AlgebraError :=
  .invalidArgument s!"{name} expects {expected} arguments, got {got}"

/-- Apply a named transformation to terms. -/
def transformTerms (name : String) (arguments : List Term) : Builder Issued :=
  if name ∈ ["reduce", "expand", "simplify"] then
    match arguments with
    | [t] => reduce t
    | _ => throw (arity name 1 arguments.length)
  else if name ∈ ["derivative", "diff"] then
    match arguments with
    | [t, x] => derivative t x
    | _ => throw (arity name 2 arguments.length)
  else
    match elementary.lookup name with
    | some expected =>
      if arguments.length = expected then issue (.application name arguments)
      else throw (arity name expected arguments.length)
    | none => throw (.unsupported name)

/-- Issue the number that a literal stands for. -/
def number (literal : String) : Builder Handle :=
  match rational? literal with
  | some value => do return (← issue (.number value)).handle
  | none => throw (.invalidArgument s!"'{literal}' is not a number")

/-- Issue a symbol. -/
def symbol (name : String) : Builder Handle :=
  if name.isEmpty then throw (.invalidArgument "empty symbol name")
  else do return (← issue (.symbol name)).handle

/-- Issue an operation on two issued terms. -/
def apply (op : BinaryOp) (left right : Handle) : Builder Handle := do
  let l ← issued left
  let r ← issued right
  return (← operation op l r).handle

/-- Apply a named transformation to issued terms.  Unknown handles are reported
before anything else. -/
def transform (name : String) (arguments : List Handle) : Builder Handle := do
  let args ← arguments.mapM issued
  return (← transformTerms name (args.map Issued.term)).handle

/-- Remove all terms. -/
def clear : Builder Unit := fun _ => .ok () .empty

end Builder

end MathQuery
