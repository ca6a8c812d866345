import MathQuery.Proofs.Query.Spelling
import MathQuery.Proofs.Text.Scanning
import MathQuery.Proofs.Text.Yield

/-!
# What the parser yields

Every expression that is read from a text is put together from numbers and names as the
scanner finds them, and from the number `-1` where a sign was.  An equation is never part
of another expression.  This holds of all texts, also of those with an error behind the
expression, so it is shown by what each production does with its tokens.

* `Lexeme.Legible` – numbers and names as the scanner finds them;
* `Expr.Legible`, `Expr.LegibleEquation` – the expressions that are read;
* `legible_of_parse` – the terms of a query are of this kind.
-/

namespace MathQuery

/-! ## Lexemes -/

namespace Lexeme

/-- A number or an identifier is written as one. -/
structure Legible (l : Lexeme) : Prop where
  isNumeral : l.kind = .number → IsNumeral l.text.toList
  isWord : l.kind = .identifier → IsWord l.text.toList

theorem Scanned.legible {c after : Cursor} {l : Lexeme} (h : Scanned c l after) : l.Legible :=
  ⟨h.isNumeral, h.isWord⟩

/-- What is read before the end or the first error is legible. -/
theorem legible_of_scanUpTo (isEnd : Lexeme → Bool) (fuel : ℕ) (c : Cursor) :
    let r := Reading.scanUpTo scan isEnd fuel c
    (∀ l ∈ r.tokens, l.Legible) ∧ ∀ last, r.ending = .ok last → last.Legible :=
  Reading.forall_scanUpTo (fun _ _ _ hscan => (scan_eq_ok_iff.mp hscan).legible) fuel c

end Lexeme

/-! ## Expressions -/

namespace Expr

/-- The expressions without a sign of equality that are read. -/
inductive Legible : Expr → Prop
  | number {literal : Spelling} (h : IsNumeral literal.text.toList) : Legible (.number literal)
  | symbol {name : Spelling} (h : IsWord name.text.toList) : Legible (.symbol name)
  | negative (sign : Position) {e : Expr} (h : Legible e) :
    Legible (.binary .mul (.number ⟨"-1", sign⟩) e)
  | binary {op : BinaryOp} {left right : Expr} (hop : op ≠ .equal) (hl : Legible left)
    (hr : Legible right) : Legible (.binary op left right)
  | call {name : Spelling} {arguments : List Expr} (hname : IsWord name.text.toList)
    (h : ∀ a ∈ arguments, Legible a) : Legible (.call name arguments)

/-- The expressions that are read as terms of a query. -/
inductive LegibleEquation : Expr → Prop
  | term {e : Expr} (h : Legible e) : LegibleEquation e
  | equal {left right : Expr} (hl : Legible left) (hr : Legible right) :
    LegibleEquation (.binary .equal left right)

end Expr

namespace QueryParser

open MathQuery.Parser

/-- A parser of operands that are legible. -/
abbrev YieldsOperand (p : QueryParser Operand) : Prop :=
  Yields Lexeme.Legible p fun a => a.expr.Legible

/-- A parser of expressions that are legible. -/
abbrev YieldsExpr (p : QueryParser Expr) : Prop := Yields Lexeme.Legible p Expr.Legible

theorem yields_unexpected {α : Type} {P : α → Prop} (expected : String) :
    Yields Lexeme.Legible (unexpected expected) P :=
  yields_current.bind fun _ _ => yields_fail _

theorem yields_nextOf (kind : TokenKind) :
    Yields Lexeme.Legible (nextOf kind) Lexeme.Legible := by
  unfold nextOf
  refine yields_current.bind fun lexeme _ => ?_
  split
  · exact yields_next
  · exact yields_unexpected _

section Productions

variable {primary : QueryParser Operand} (hprimary : YieldsOperand primary)
include hprimary

theorem yields_power : YieldsOperand (power primary) := by
  unfold power
  refine hprimary.bind fun base hbase => ?_
  refine yields_current.bind fun lexeme _ => ?_
  split
  · refine yields_next.bind fun _ _ => ?_
    refine hprimary.bind fun exponent hexponent => ?_
    exact yields_pure (.binary (by decide) hbase hexponent)
  · exact yields_pure hbase

theorem yields_unary : YieldsOperand (unary primary) := by
  unfold unary
  refine yields_current.bind fun lexeme _ => ?_
  split
  · refine yields_next.bind fun sign _ => ?_
    refine (yields_power hprimary).bind fun operand hoperand => ?_
    exact yields_pure (.negative sign.position hoperand)
  · refine yields_next.bind fun _ _ => ?_
    exact yields_power hprimary
  · exact yields_power hprimary

theorem yields_moreFactors {left : Operand} (hleft : left.expr.Legible) :
    YieldsMore Lexeme.Legible (moreFactors primary left) fun a => a.expr.Legible := by
  have hright := yields_unary hprimary
  unfold moreFactors
  refine yields_current.bind fun lexeme _ => ?_
  split
  · exact yields_next.bind fun _ _ => hright.some fun _ hr => .binary (by decide) hleft hr
  · exact yields_next.bind fun _ _ => hright.some fun _ hr => .binary (by decide) hleft hr
  · split
    · exact hright.some fun _ hr => .binary (by decide) hleft hr
    · exact yieldsMore_none

theorem yields_factor : YieldsExpr (factor primary) := by
  unfold factor
  refine (yields_unary hprimary).bind fun first hfirst => ?_
  refine Yields.bind (.chain (fun a ha => yields_moreFactors hprimary ha) hfirst)
    fun product hproduct => ?_
  exact yields_pure hproduct

theorem yields_moreTerms {left : Expr} (hleft : left.Legible) :
    YieldsMore Lexeme.Legible (moreTerms primary left) Expr.Legible := by
  have hright := yields_factor hprimary
  unfold moreTerms
  refine yields_current.bind fun lexeme _ => ?_
  split
  · exact yields_next.bind fun _ _ => hright.some fun _ hr => .binary (by decide) hleft hr
  · exact yields_next.bind fun _ _ => hright.some fun _ hr => .binary (by decide) hleft hr
  · exact yieldsMore_none

theorem yields_term : YieldsExpr (term primary) := by
  unfold term
  refine (yields_factor hprimary).bind fun first hfirst => ?_
  exact .chain (fun e he => yields_moreTerms hprimary he) hfirst

theorem yields_moreArguments (name : Lexeme) :
    YieldsMore Lexeme.Legible (moreArguments primary name) Expr.Legible := by
  unfold moreArguments
  refine yields_current.bind fun lexeme _ => ?_
  split
  · refine yields_next.bind fun comma _ => ?_
    refine yields_current.bind fun following _ => ?_
    split
    · exact yields_fail _
    · exact (yields_term hprimary).some fun _ he => he
  · exact yieldsMore_none

theorem yields_arguments (name : Lexeme) :
    Yields Lexeme.Legible (arguments primary name) fun es => ∀ e ∈ es, e.Legible := by
  unfold arguments
  refine (yields_nextOf _).bind fun _ _ => ?_
  refine yields_current.bind fun lexeme _ => ?_
  split
  · refine yields_next.bind fun _ _ => ?_
    exact yields_pure nofun
  · refine (yields_term hprimary).bind fun first hfirst => ?_
    refine (YieldsMore.many (yields_moreArguments hprimary name)).bind fun later hlater => ?_
    refine yields_current.bind fun last _ => ?_
    split
    · refine yields_next.bind fun _ _ => ?_
      exact yields_pure (List.forall_mem_cons.mpr ⟨hfirst, hlater⟩)
    · exact yields_fail _
    · exact yields_unexpected _

end Productions

theorem yields_primary (depth : ℕ) : YieldsOperand (primary depth) := by
  induction depth with
  | zero => exact yields_unexpected _
  | succ depth ih =>
    unfold primary
    refine yields_current.bind fun lexeme hlexeme => ?_
    split
    · refine yields_next.bind fun _ _ => ?_
      refine (yields_term ih).bind fun inner hinner => ?_
      refine (yields_nextOf _).bind fun _ _ => ?_
      exact yields_pure hinner
    · next hkind =>
      refine yields_next.bind fun _ _ => ?_
      exact yields_pure (.number (hlexeme.isNumeral hkind))
    · next hkind =>
      refine yields_next.bind fun _ _ => ?_
      refine yields_current.bind fun following _ => ?_
      split
      · refine (yields_arguments ih lexeme).bind fun args hargs => ?_
        exact yields_pure (.call (hlexeme.isWord hkind) hargs)
      · exact yields_pure (.symbol (hlexeme.isWord hkind))
    · exact yields_unexpected _

variable (depth : ℕ)

theorem yields_equation : Yields Lexeme.Legible (equation depth) Expr.LegibleEquation := by
  unfold equation
  refine (yields_term (yields_primary depth)).bind fun left hleft => ?_
  refine yields_current.bind fun lexeme _ => ?_
  split
  · refine yields_next.bind fun _ _ => ?_
    refine (yields_term (yields_primary depth)).bind fun right hright => ?_
    exact yields_pure (.equal hleft hright)
  · exact yields_pure (.term hleft)

/-- The terms of a phrase are legible. -/
abbrev LegiblePhrase (p : Phrase) : Prop := ∀ e ∈ p, e.LegibleEquation

/-- The terms of a statement are legible. -/
abbrev LegibleStatement (s : Statement) : Prop := ∀ p ∈ s, LegiblePhrase p

theorem yields_phrase : Yields Lexeme.Legible (phrase depth) LegiblePhrase := by
  have hmore : YieldsMore Lexeme.Legible (moreEquations depth) Expr.LegibleEquation := by
    unfold moreEquations
    refine yields_current.bind fun lexeme _ => ?_
    split
    · exact yieldsMore_none
    · exact (yields_equation depth).some fun _ he => he
  unfold phrase
  refine (yields_equation depth).bind fun first hfirst => ?_
  refine (YieldsMore.many hmore).bind fun later hlater => ?_
  exact yields_pure (List.forall_mem_cons.mpr ⟨hfirst, hlater⟩)

theorem yields_statement : Yields Lexeme.Legible (statement depth) LegibleStatement := by
  have hmore : YieldsMore Lexeme.Legible (morePhrases depth) LegiblePhrase := by
    unfold morePhrases
    refine yields_current.bind fun lexeme _ => ?_
    split
    · refine yields_next.bind fun _ _ => ?_
      exact (yields_phrase depth).some fun _ hp => hp
    · exact yieldsMore_none
  unfold statement
  refine (yields_phrase depth).bind fun first hfirst => ?_
  refine (YieldsMore.many hmore).bind fun later hlater => ?_
  exact yields_pure (List.forall_mem_cons.mpr ⟨hfirst, hlater⟩)

theorem yields_program :
    Yields Lexeme.Legible (program depth) fun p => ∀ s ∈ p.statements, LegibleStatement s := by
  have hmore : YieldsMore Lexeme.Legible (moreStatements depth) LegibleStatement := by
    unfold moreStatements
    refine yields_current.bind fun lexeme _ => ?_
    split
    · exact yieldsMore_none
    · exact (yields_statement depth).some fun _ hs => hs
  unfold program
  refine (YieldsMore.many hmore).bind fun statements hstatements => ?_
  exact yields_pure hstatements

end QueryParser

/-- The terms of a query are legible. -/
theorem legible_of_parse {source : String} {program : Program} {e : Expr}
    (h : parse source = .ok program) (he : e ∈ program.terms) : e.LegibleEquation := by
  obtain ⟨htokens, hending⟩ := Lexeme.legible_of_scanUpTo (·.is .endOfInput)
    (Cursor.ofString source).rest.length (.ofString source)
  unfold parse Parser.run at h
  dsimp only at h
  cases hfeed : Feed.ofReading (Lexeme.reading source) with
  | error e => simp [hfeed] at h
  | ok feed =>
    have hgood : feed.All Lexeme.Legible := Feed.all_ofReading htokens hending hfeed
    rw [hfeed] at h
    obtain ⟨⟨p, after⟩, hrun, rfl⟩ := Except.map_eq_ok.mp h
    have hprogram := (QueryParser.yields_program _ feed p after hgood hrun).1
    obtain ⟨s, hs, he⟩ := List.mem_flatMap.mp he
    obtain ⟨ph, hph, he⟩ := List.mem_flatten.mp he
    exact hprogram s hs ph hph e he

end MathQuery
