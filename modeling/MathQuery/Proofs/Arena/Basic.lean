import MathQuery.Compile

/-!
# The table of terms as nodes

The table of terms holds whole terms.  Kept in memory, each of them is a node that names its
operands by their handles, and it becomes a term again only by walking from node to node.
Nothing in a node says that such a walk ends: nodes may name themselves, or nodes that are not
there.  So a walk is given the depth to which it may go, and it is unfinished if that is not
enough.

* `Node`, `Arena` – nodes and their operands;
* `Arena.term`, `polynomial?`, `render` – walks from a node;
* `ArenaBuilder` – the computations that add nodes, one for each that issues terms;
* `Request` – what can be asked of an arena, or of the table that it stands for.
-/

namespace MathQuery

/-- A term whose operands are named by their handles. -/
inductive Node
  | number (value : Rat)
  | symbol (name : String)
  | operation (op : BinaryOp) (left right : Handle)
  | application (name : String) (arguments : List Handle)
deriving DecidableEq

/-- The operands of a node. -/
def Node.references : Node → List Handle
  | number _ => []
  | symbol _ => []
  | operation _ left right => [left, right]
  | application _ arguments => arguments

/-- The nodes added so far.  A handle is an index into them. -/
structure Arena where
  nodes : Array Node
deriving DecidableEq

/-- How a computation on nodes ends if not with a value: it goes deeper than it may, or it
fails. -/
inductive Halt (ε : Type)
  | unfinished
  | failed (error : ε)
deriving DecidableEq

/-- The same end with another error. -/
def Halt.map {ε δ : Type} (f : ε → δ) : Halt ε → Halt δ
  | unfinished => .unfinished
  | failed e => .failed (f e)

/-- What a walk from a node finds. -/
abbrev Walk := Except (Halt AlgebraError)

namespace Arena

/-- The arena without nodes. -/
def empty : Arena := ⟨#[]⟩

/-- The number of nodes. -/
def size (arena : Arena) : Nat := arena.nodes.size

/-- The node with a given handle. -/
def node (arena : Arena) (handle : Handle) : Walk Node :=
  match arena.nodes[handle]? with
  | some node => .ok node
  | none => .error (.failed (.unknownTerm handle))

/-! ## Walks -/

/-- The term that a node stands for. -/
def term (arena : Arena) : Nat → Handle → Walk Term
  | 0, _ => .error .unfinished
  | fuel + 1, handle => do
    match ← arena.node handle with
    | .number value => .ok (.number value)
    | .symbol name => .ok (.symbol name)
    | .operation op left right =>
      let l ← arena.term fuel left
      let r ← arena.term fuel right
      .ok (.operation op l r)
    | .application name arguments =>
      let args ← arguments.mapM (arena.term fuel)
      .ok (.application name args)

/-- The polynomial that a node denotes. -/
def polynomial? (arena : Arena) : Nat → Handle → Walk (Option Polynomial)
  | 0, _ => .error .unfinished
  | fuel + 1, handle => do
    match ← arena.node handle with
    | .number value => .ok (some (.constant value))
    | .symbol name => .ok (some (.var name))
    | .application _ _ => .ok none
    | .operation op left right =>
      if op = .equal then .ok none
      else
        let p ← arena.polynomial? fuel left
        let q ← arena.polynomial? fuel right
        match p, q with
        | some p, some q => (combine op p q).mapError .failed
        | _, _ => .ok none

/-- Whether a node is the number minus one. -/
def isMinusOne (arena : Arena) (handle : Handle) : Walk Bool := do
  match ← arena.node handle with
  | .number value => .ok (value == -1)
  | _ => .ok false

/-- Whether an operation is a product that begins with minus one.  Only a product is looked
into. -/
def isNegation (arena : Arena) (op : BinaryOp) (left : Handle) : Walk Bool :=
  if op == .mul then arena.isMinusOne left else .ok false

/-- How tightly the outermost part of a node binds. -/
def precedence (arena : Arena) (style : Style) (handle : Handle) : Walk Nat := do
  match ← arena.node handle with
  | .number value =>
    .ok (if value < 0 then 1
      else if !isWhole value && style == .plain then 2
      else atomPrecedence)
  | .symbol _ => .ok atomPrecedence
  | .application _ _ => .ok atomPrecedence
  | .operation op left _ =>
    let minus ← arena.isNegation op left
    .ok (if minus then 1
      else if op == .div && style == .latex then atomPrecedence
      else op.precedence)

/-- Whether the leftmost leaf of a node is a number. -/
def startsWithNumber (arena : Arena) : Nat → Handle → Walk Bool
  | 0, _ => .error .unfinished
  | fuel + 1, handle => do
    match ← arena.node handle with
    | .number _ => .ok true
    | .symbol _ => .ok false
    | .operation _ left _ => arena.startsWithNumber fuel left
    | .application _ _ => .ok false

/-- What stands between the operands of an operator. -/
def between (arena : Arena) (style : Style) (fuel : Nat) (op : BinaryOp) (right : Handle) :
    Walk String :=
  match op, style with
  | .mul, .latex => do
    let touches ← arena.startsWithNumber fuel right
    .ok (if touches then " \\cdot " else "")
  | op, _ => .ok op.between

/-- A node in a notation. -/
def render (arena : Arena) (style : Style) : Nat → Handle → Walk String
  | 0, _ => .error .unfinished
  | fuel + 1, handle => do
    match ← arena.node handle with
    | .number value => .ok (style.number value)
    | .symbol name => .ok name
    | .operation op left right =>
      let minus ← arena.isNegation op left
      if minus then
        let binds ← arena.precedence style right
        let text ← arena.render style fuel right
        .ok ("-" ++ style.parenthesized (binds < 2) text)
      else if op == .div && style == .latex then
        let numerator ← arena.render style fuel left
        let denominator ← arena.render style fuel right
        .ok (Style.fraction numerator denominator)
      else
        let leftBinds ← arena.precedence style left
        let rightBinds ← arena.precedence style right
        let leftParens := leftBinds < op.precedence || (op == .pow && leftBinds == op.precedence)
        let rightParens := rightBinds < op.precedence ||
          ((op == .sub || op == .div) && rightBinds == op.precedence)
        let leftText ← arena.render style fuel left
        if op == .pow && style == .latex then
          let exponent ← arena.render style fuel right
          .ok (style.parenthesized leftParens leftText ++ ("^" ++ Style.braced exponent))
        else
          let sign ← arena.between style fuel op right
          let rightText ← arena.render style fuel right
          .ok (style.parenthesized leftParens leftText ++
            (sign ++ style.parenthesized rightParens rightText))
    | .application name arguments =>
      let texts ← arguments.mapM (arena.render style fuel)
      .ok (style.application name texts)

end Arena

/-! ## Computations that add nodes -/

/-- A computation that adds nodes and may fail. -/
abbrev ArenaBuilder := EStateM (Halt AlgebraError) Arena

namespace ArenaBuilder

/-- Add a node. -/
def push (node : Node) : ArenaBuilder Handle := fun arena =>
  .ok arena.size ⟨arena.nodes.push node⟩

/-- Walk through the nodes that are there. -/
def look {α : Type} (walk : Arena → Walk α) : ArenaBuilder α := fun arena =>
  match walk arena with
  | .ok a => .ok a arena
  | .error e => .error e arena

/-- A handle, if there is a node with it. -/
def known (handle : Handle) : ArenaBuilder Handle := do
  let _ ← look (·.node handle)
  pure handle

/-- A computation that may go as deep as there are nodes. -/
def bounded {α : Type} (computation : Nat → ArenaBuilder α) : ArenaBuilder α := fun arena =>
  computation arena.size arena

/-- Add one factor of a monomial: a symbol, or a power of it. -/
def factor (x : String) (e : Nat) : ArenaBuilder Handle := do
  let base ← push (.symbol x)
  if e = 1 then pure base
  else
    let exponent ← push (.number e)
    push (.operation .pow base exponent)

/-- Add the product of `first` and further factors, from left to right. -/
def product (first : Handle) : List Handle → ArenaBuilder Handle
  | [] => pure first
  | next :: later => do
    let longer ← push (.operation .mul first next)
    product longer later

/-- Add the nodes of a monomial with its coefficient. -/
def monomial (m : Monomial) (c : Rat) : ArenaBuilder Handle := do
  let factors ← m.mapM fun (x, e) => factor x e
  match factors with
  | [] => push (.number c)
  | first :: later =>
    let body ← product first later
    if c = 1 then pure body
    else
      let coefficient ← push (.number c)
      push (.operation .mul coefficient body)

/-- Add the sum of `first` and further terms. -/
def sum (first : Handle) : List PolynomialTerm → ArenaBuilder Handle
  | [] => pure first
  | (m, c) :: later => do
    if c < 0 then
      let next ← monomial m (-c)
      let longer ← push (.operation .sub first next)
      sum longer later
    else
      let next ← monomial m c
      let longer ← push (.operation .add first next)
      sum longer later

/-- Add a polynomial in the order in which its terms are written. -/
def polynomial (p : Polynomial) : ArenaBuilder Handle :=
  match p.written with
  | [] => push (.number 0)
  | (m, c) :: later => do
    let first ← monomial m c
    sum first later

/-- Add the normal form of a node. -/
def reduce : Nat → Handle → ArenaBuilder Handle
  | 0, _ => throw .unfinished
  | fuel + 1, handle => do
    match ← look (·.polynomial? (fuel + 1) handle) with
    | some p => polynomial p
    | none =>
      match ← look (·.node handle) with
      | .number _ => pure handle
      | .symbol _ => pure handle
      | .operation op left right =>
        let l ← reduce fuel left
        let r ← reduce fuel right
        push (.operation op l r)
      | .application name arguments =>
        let args ← arguments.mapM (reduce fuel)
        push (.application name args)

/-- Add the derivative of a polynomial by a symbol. -/
def derivative (fuel : Nat) (t x : Handle) : ArenaBuilder Handle := do
  match ← look (·.node x) with
  | .symbol name =>
    match ← look (·.polynomial? fuel t) with
    | some p => polynomial (p.derivative name)
    | none => throw (.failed (.unsupported "derivative of a non-polynomial expression"))
  | _ => throw (.failed (.invalidArgument "derivative variable must be a symbol"))

/-- Add the number that a literal stands for. -/
def number (literal : String) : ArenaBuilder Handle :=
  match rational? literal with
  | some value => push (.number value)
  | none => throw (.failed (.invalidArgument s!"'{literal}' is not a number"))

/-- Add a symbol. -/
def symbol (name : String) : ArenaBuilder Handle :=
  if name.isEmpty then throw (.failed (.invalidArgument "empty symbol name"))
  else push (.symbol name)

/-- Add an operation on two nodes. -/
def apply (op : BinaryOp) (left right : Handle) : ArenaBuilder Handle := do
  let l ← known left
  let r ← known right
  push (.operation op l r)

/-- Apply a named transformation to nodes. -/
def transformKnown (name : String) (arguments : List Handle) : ArenaBuilder Handle :=
  if name ∈ ["reduce", "expand", "simplify"] then
    match arguments with
    | [t] => bounded (reduce · t)
    | _ => throw (.failed (Builder.arity name 1 arguments.length))
  else if name ∈ ["derivative", "diff"] then
    match arguments with
    | [t, x] => bounded (derivative · t x)
    | _ => throw (.failed (Builder.arity name 2 arguments.length))
  else
    match Builder.elementary.lookup name with
    | some expected =>
      if arguments.length = expected then push (.application name arguments)
      else throw (.failed (Builder.arity name expected arguments.length))
    | none => throw (.failed (.unsupported name))

/-- Apply a named transformation.  Unknown handles are reported before anything else. -/
def transform (name : String) (arguments : List Handle) : ArenaBuilder Handle := do
  let args ← arguments.mapM known
  transformKnown name args

end ArenaBuilder

/-! ## Requests -/

/-- A computation that adds nodes and may fail at any stage. -/
abbrev ArenaCompiler := EStateM (Halt Failure) Arena

namespace ArenaCompiler

/-- Run a computation of the algebra. -/
def ofBuilder {α : Type} (builder : ArenaBuilder α) : ArenaCompiler α := fun arena =>
  match builder arena with
  | .ok value arena => .ok value arena
  | .error e arena => .error (e.map .algebra) arena

/-- A result that needs no nodes. -/
def ofDispatch {α : Type} (result : Except DispatchError α) : ArenaCompiler α :=
  match result with
  | .ok value => pure value
  | .error e => throw (.failed (.dispatch e))

mutual

/-- Add the nodes of an expression. -/
def compile (functions : FunctionTable) : Expr → ArenaCompiler Handle
  | .number literal => ofBuilder (.number literal.text)
  | .symbol name => ofBuilder (.symbol name.text)
  | .binary op left right => do
    let l ← compile functions left
    let r ← compile functions right
    ofBuilder (.apply op l r)
  | .call name arguments => do
    let definition ← ofDispatch (functions.resolve name.text arguments)
    let handles ← compileEach functions arguments
    ofBuilder (.transform definition.transformation handles)

/-- Add the nodes of several expressions, in order. -/
def compileEach (functions : FunctionTable) : List Expr → ArenaCompiler (List Handle)
  | [] => pure []
  | e :: es => do
    let first ← compile functions e
    let later ← compileEach functions es
    pure (first :: later)

end

end ArenaCompiler

/-- What can be asked of an arena or of a table of terms, other than to clear it. -/
inductive Request
  | number (literal : String)
  | symbol (name : String)
  | apply (op : BinaryOp) (left right : Handle)
  | transform (name : String) (arguments : List Handle)
  | compile (functions : FunctionTable) (e : Expr)

namespace Request

/-- Carry out a request on nodes. -/
def perform : Request → ArenaCompiler Handle
  | number literal => .ofBuilder (.number literal)
  | symbol name => .ofBuilder (.symbol name)
  | apply op left right => .ofBuilder (.apply op left right)
  | transform name arguments => .ofBuilder (.transform name arguments)
  | compile functions e => .compile functions e

/-- Carry out a request on whole terms. -/
def issue : Request → Compiler Handle
  | number literal => .ofBuilder (.number literal)
  | symbol name => .ofBuilder (.symbol name)
  | apply op left right => .ofBuilder (.apply op left right)
  | transform name arguments => .ofBuilder (.transform name arguments)
  | compile functions e => .compile functions e

end Request

end MathQuery
