import MathQuery.Argument
import MathQuery.Schema.Trie

/-!
# Matching queries

A query is matched by walking its terms down the trie, without going back.  A bare
word follows the edge of that word if there is one.  Otherwise, like every other
term, it is captured by the slot.  A word is always captured as text; other terms
are converted to the type of the slot.
-/

namespace MathQuery

/-- The integer that an expression stands for: a whole number, or the product of
`-1` and a whole number, which is how a sign is read. -/
def Expr.integer? : Expr → Option Int
  | .number literal => int? literal.text
  | .binary .mul (.number sign) (.number literal) =>
    if sign.text = "-1" then (int? literal.text).map (- ·) else none
  | _ => none

/-- Capture a term at a slot of the given type. -/
def Expr.capture (term : Expr) : ArgumentType → Except MatchError Value
  | .expression => .ok (.expression term)
  | .text => .ok (.text term.render)
  | .integer =>
    match term.integer? with
    | some n => .ok (.integer n)
    | none => .error (.notInteger term.render term.position)

/-- A query that follows a registered pattern: the entry and what its slots
captured. -/
structure Match where
  entry : Entry
  arguments : Arguments
deriving DecidableEq

namespace Trie

/-- One step: the node that a term leads to, and the captures so far. -/
def follow (t : Trie) (captured : Arguments) (term : Expr) :
    Except MatchError (Trie × Arguments) :=
  match term.word? with
  | some w =>
    match t.word? w, t.slot? with
    | some node, _ => .ok (node, captured)
    | none, some (declared, node) => .ok (node, captured.insert declared.index (.text w))
    | none, none => .error (.noEdge w term.position)
  | none =>
    match t.slot? with
    | some (declared, node) => do
      let value ← term.capture declared.type
      .ok (node, captured.insert declared.index value)
    | none => .error (.noEdge term.render term.position)

/-- Walk the terms down the trie, where `last` is the place of the term before
them.  A pattern has to end where the terms end. -/
def matchFrom (t : Trie) (captured : Arguments) (last : Position) :
    List Expr → Except MatchError Match
  | [] =>
    match t.entry with
    | some entry => .ok ⟨entry, captured⟩
    | none => .error (.incomplete last)
  | term :: terms =>
    match t.follow captured term with
    | .ok (node, longer) => node.matchFrom longer term.position terms
    | .error e => .error e

/-- Match a statement. -/
def matchStatement (t : Trie) (s : Statement) : Except MatchError Match :=
  t.matchFrom .empty .start s.terms

/-- Match the first statement of a query; a query without any is empty. -/
def matchProgram (t : Trie) (p : Program) : Except MatchError (Option Match) :=
  match p.statements with
  | statement :: _ => (t.matchStatement statement).map some
  | [] => .ok none

end Trie

end MathQuery
