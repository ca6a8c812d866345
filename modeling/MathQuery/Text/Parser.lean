import MathQuery.Text.Feed

/-!
# Parsers

A parser consumes the tokens of a feed and yields a value or fails.  Queries and
patterns have grammars of their own and share the steps below.

* `Parser.next` – leave the current token;
* `Parser.many` – repeat a step that says when it is done, and list the results;
* `Parser.chain` – repeat a step that extends what was read so far.

Both repetitions are bounded by the number of tokens: every repeated step leaves
at least one of them, so the bound is never what ends a repetition early.
-/

namespace MathQuery

/-- A parser of tokens `τ`. -/
abbrev Parser (τ α : Type) := StateT (Feed τ) (Except Failure) α

namespace Parser

variable {τ α : Type}

/-- The current token. -/
def current : Parser τ τ := fun feed => .ok (feed.current, feed)

/-- Fail with an error of the grammar. -/
def fail (e : GrammarError) : Parser τ α := fun _ => .error (.grammar e)

/-- Leave the current token and yield it. -/
def next : Parser τ τ := fun feed =>
  match feed.next with
  | .ok later => .ok (feed.current, later)
  | .error e => .error (.lexical e)

/-- Repeat `step` at most `fuel` times, until it yields nothing. -/
def manyUpTo (step : Parser τ (Option α)) : Nat → Parser τ (List α)
  | 0 => pure []
  | fuel + 1 => do
    match ← step with
    | none => pure []
    | some value =>
      let values ← manyUpTo step fuel
      pure (value :: values)

/-- Repeat `step` until it yields nothing, and list what it yielded. -/
def many (step : Parser τ (Option α)) : Parser τ (List α) := do
  match ← step with
  | none => pure []
  | some value =>
    let values ← fun feed => manyUpTo step feed.size feed
    pure (value :: values)

/-- Extend `value` by `step` at most `fuel` times, until it yields nothing. -/
def chainUpTo (step : α → Parser τ (Option α)) : Nat → α → Parser τ α
  | 0, value => pure value
  | fuel + 1, value => do
    match ← step value with
    | none => pure value
    | some longer => chainUpTo step fuel longer

/-- Extend `value` by `step` until it yields nothing. -/
def chain (step : α → Parser τ (Option α)) (value : α) : Parser τ α := do
  match ← step value with
  | none => pure value
  | some longer => fun feed => chainUpTo step feed.size longer feed

/-- Run a parser over a whole reading. -/
def run (parser : Parser τ α) (r : Reading τ) : Except Failure α :=
  match Feed.ofReading r with
  | .error e => .error (.lexical e)
  | .ok feed => (parser feed).map Prod.fst

end Parser

end MathQuery
