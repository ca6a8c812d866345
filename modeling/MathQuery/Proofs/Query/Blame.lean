import MathQuery.Proofs.Query.Lossless
import MathQuery.Proofs.Text.Blame

/-!
# Where reading a query fails

The tokens of a text tell where in it they stand, and so does the error of a place where no
token is.  Every failure of the grammar names the place of a token: of the current one, of the
comma behind which an argument is missing, or of the name of a call that is not closed.  So each
failure to read a query names a place in its text.

* `Lexeme.isIn_of_reading` – the places of tokens and of lexical errors;
* `QueryParser.blamesIn_program` – the failures of each production, up to whole programs;
* `pointsInto_of_parse` – the failures to read a query.
-/

namespace MathQuery

/-! ## Tokens -/

namespace Lexeme

variable {source : String} {c after : Cursor}

theorem isIn_of_scan_eq_ok {l : Lexeme} (h : c.Within source) (hscan : scan c = (.ok l, after)) :
    l.position.IsIn source ∧ after.Within source := by
  have hscanned := scan_eq_ok_iff.mp hscan
  rw [hscanned.position_eq, hscanned.after_eq]
  exact ⟨h.skipBlanks.isIn, h.skipBlanks.drop _⟩

theorem isIn_of_scan_eq_error {e : LexicalError} (h : c.Within source)
    (hscan : scan c = (.error e, after)) : e.position.IsIn source := by
  rw [(offends_of_scan (congrArg Prod.fst hscan)).2]
  exact h.skipBlanks.isIn

/-- The tokens of a text stand in it, and its error does. -/
theorem isIn_of_reading (source : String) :
    (∀ l ∈ (reading source).tokens, l.position.IsIn source) ∧
      (∀ last, (reading source).ending = .ok last → last.position.IsIn source) ∧
      ∀ e, (reading source).ending = .error e → e.position.IsIn source :=
  Reading.forall_of_invariant (fun _ _ _ => isIn_of_scan_eq_ok)
    (fun _ _ _ => isIn_of_scan_eq_error) _ (Cursor.within_ofString source)

end Lexeme

/-! ## Productions -/

namespace QueryParser

open MathQuery.Parser

variable {source : String} {α : Type}

/-- A parser whose failures name places of a text. -/
abbrev BlamesIn (source : String) (p : QueryParser α) : Prop :=
  Blames (fun l : Lexeme => l.position.IsIn source) (·.PointsInto source) p

/-- To blame a token is to name its place. -/
theorem blamesIn_fail {e : GrammarError} (h : e.position.IsIn source) :
    BlamesIn source (fail e : QueryParser α) :=
  blames_fail ⟨e.position, rfl, h⟩

theorem blamesIn_unexpected (expected : String) :
    BlamesIn source (unexpected expected : QueryParser α) :=
  blames_current_bind fun _ hlexeme => blamesIn_fail hlexeme

theorem blamesIn_nextOf (kind : TokenKind) : BlamesIn source (nextOf kind) := by
  unfold nextOf
  refine blames_current_bind fun lexeme _ => ?_
  split
  · exact blames_next
  · exact blamesIn_unexpected _

section Productions

variable {primary : QueryParser Operand} (hprimary : BlamesIn source primary)
include hprimary

theorem blamesIn_power : BlamesIn source (power primary) := by
  unfold power
  refine hprimary.bind fun base => ?_
  refine blames_current_bind fun lexeme _ => ?_
  split
  · exact blames_next.bind fun _ => hprimary.bind fun _ => blames_pure _
  · exact blames_pure _

theorem blamesIn_unary : BlamesIn source (unary primary) := by
  have hpower := blamesIn_power hprimary
  unfold unary
  refine blames_current_bind fun lexeme _ => ?_
  split
  · exact blames_next.bind fun _ => hpower.bind fun _ => blames_pure _
  · exact blames_next.bind fun _ => hpower
  · exact hpower

theorem blamesIn_moreFactors (left : Operand) : BlamesIn source (moreFactors primary left) := by
  have hunary := blamesIn_unary hprimary
  unfold moreFactors
  refine blames_current_bind fun lexeme _ => ?_
  split
  · exact blames_next.bind fun _ => hunary.bind fun _ => blames_pure _
  · exact blames_next.bind fun _ => hunary.bind fun _ => blames_pure _
  · split
    · exact hunary.bind fun _ => blames_pure _
    · exact blames_pure _

theorem blamesIn_factor : BlamesIn source (factor primary) := by
  unfold factor
  refine (blamesIn_unary hprimary).bind fun first => ?_
  exact (Blames.chain (blamesIn_moreFactors hprimary) first).bind fun _ => blames_pure _

theorem blamesIn_moreTerms (left : Expr) : BlamesIn source (moreTerms primary left) := by
  have hfactor := blamesIn_factor hprimary
  unfold moreTerms
  refine blames_current_bind fun lexeme _ => ?_
  split
  · exact blames_next.bind fun _ => hfactor.bind fun _ => blames_pure _
  · exact blames_next.bind fun _ => hfactor.bind fun _ => blames_pure _
  · exact blames_pure _

theorem blamesIn_term : BlamesIn source (term primary) := by
  unfold term
  exact (blamesIn_factor hprimary).bind fun first => .chain (blamesIn_moreTerms hprimary) first

/-- Where an argument is missing, the comma is blamed. -/
theorem blamesIn_moreArguments (name : Lexeme) :
    BlamesIn source (moreArguments primary name) := by
  unfold moreArguments
  refine blames_current_bind fun lexeme _ => ?_
  split
  · refine blames_next_bind fun comma hcomma => ?_
    refine blames_current_bind fun following _ => ?_
    split
    · exact blamesIn_fail hcomma
    · exact (blamesIn_term hprimary).bind fun _ => blames_pure _
  · exact blames_pure _

/-- Where the arguments are not closed, the name of the call is blamed. -/
theorem blamesIn_arguments {name : Lexeme} (hname : name.position.IsIn source) :
    BlamesIn source (arguments primary name) := by
  unfold arguments
  refine (blamesIn_nextOf _).bind fun _ => ?_
  refine blames_current_bind fun lexeme _ => ?_
  split
  · exact blames_next.bind fun _ => blames_pure _
  · refine (blamesIn_term hprimary).bind fun first => ?_
    refine (Blames.many (blamesIn_moreArguments hprimary name)).bind fun later => ?_
    refine blames_current_bind fun last _ => ?_
    split
    · exact blames_next.bind fun _ => blames_pure _
    · exact blamesIn_fail hname
    · exact blamesIn_unexpected _

end Productions

theorem blamesIn_primary (depth : ℕ) : BlamesIn source (primary depth) := by
  induction depth with
  | zero => exact blamesIn_unexpected _
  | succ depth ih =>
    unfold primary
    refine blames_current_bind fun lexeme hlexeme => ?_
    split
    · refine blames_next.bind fun _ => ?_
      refine (blamesIn_term ih).bind fun _ => ?_
      exact (blamesIn_nextOf _).bind fun _ => blames_pure _
    · exact blames_next.bind fun _ => blames_pure _
    · refine blames_next.bind fun _ => ?_
      refine blames_current_bind fun following _ => ?_
      split
      · exact (blamesIn_arguments ih hlexeme).bind fun _ => blames_pure _
      · exact blames_pure _
    · exact blamesIn_unexpected _

variable (depth : ℕ)

theorem blamesIn_equation : BlamesIn source (equation depth) := by
  have hterm : BlamesIn source (term (primary depth)) := blamesIn_term (blamesIn_primary depth)
  unfold equation
  refine hterm.bind fun left => ?_
  refine blames_current_bind fun lexeme _ => ?_
  split
  · exact blames_next.bind fun _ => hterm.bind fun _ => blames_pure _
  · exact blames_pure _

theorem blamesIn_phrase : BlamesIn source (phrase depth) := by
  have hmore : BlamesIn source (moreEquations depth) := by
    unfold moreEquations
    refine blames_current_bind fun lexeme _ => ?_
    split
    · exact blames_pure _
    · exact (blamesIn_equation depth).bind fun _ => blames_pure _
  unfold phrase
  refine (blamesIn_equation depth).bind fun first => ?_
  exact hmore.many.bind fun _ => blames_pure _

theorem blamesIn_statement : BlamesIn source (statement depth) := by
  have hmore : BlamesIn source (morePhrases depth) := by
    unfold morePhrases
    refine blames_current_bind fun lexeme _ => ?_
    split
    · exact blames_next.bind fun _ => (blamesIn_phrase depth).bind fun _ => blames_pure _
    · exact blames_pure _
  unfold statement
  refine (blamesIn_phrase depth).bind fun first => ?_
  exact hmore.many.bind fun _ => blames_pure _

theorem blamesIn_program : BlamesIn source (program depth) := by
  have hmore : BlamesIn source (moreStatements depth) := by
    unfold moreStatements
    refine blames_current_bind fun lexeme _ => ?_
    split
    · exact blames_pure _
    · exact (blamesIn_statement depth).bind fun _ => blames_pure _
  unfold program
  exact hmore.many.bind fun _ => blames_pure _

end QueryParser

/-- A failure to read a query names a place in its text. -/
theorem pointsInto_of_parse {source : String} {e : Failure} (h : parse source = .error e) :
    e.PointsInto source := by
  obtain ⟨htokens, hending, herror⟩ := Lexeme.isIn_of_reading source
  have hprogram (depth : ℕ) : QueryParser.BlamesIn source (.program depth) :=
    QueryParser.blamesIn_program depth
  refine (hprogram _).of_run_eq_error htokens hending (fun e he => ?_) h
  exact ⟨e.position, rfl, herror e he⟩

end MathQuery
