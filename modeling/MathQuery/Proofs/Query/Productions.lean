import MathQuery.Proofs.Query.Grammar
import MathQuery.Proofs.Query.Lexing
import MathQuery.Proofs.Text.Repetition

/-!
# The productions by the current lexeme

What a production does depends on the kind of the lexeme it finds.  For each production
this is said once, case by case, and later proofs do not open the productions again.
-/

namespace MathQuery

open MathQuery.Parser

namespace QueryParser

variable {α : Type} {primary : QueryParser Operand} {feed : Feed Lexeme}

/-! ## Single lexemes -/

variable {last : Lexeme}

theorem exists_cons_of_current (hlast : last.kind = .endOfInput) {ts : List Lexeme}
    {kind : TokenKind} (hkind : kind ≠ .endOfInput)
    (h : (Feed.ofList last ts).current.kind = kind) :
    ∃ l rest, ts = l :: rest ∧ l.kind = kind := by
  cases ts with
  | nil => exact absurd (h.symm.trans hlast) hkind
  | cons l rest => exact ⟨l, rest, rfl, h⟩

theorem unexpected_ne_ok (expected : String) (feed : Feed Lexeme) (r : α × Feed Lexeme) :
    (unexpected expected : QueryParser α) feed ≠ .ok r := by
  rw [unexpected, current_bind]
  exact nofun

theorem nextOf_bind_of_kind {kind : TokenKind} {l : Lexeme} (h : l.kind = kind)
    (following : Lexeme → QueryParser α) (ts : List Lexeme) :
    (nextOf kind >>= following) (Feed.ofList last (l :: ts)) =
      following l (Feed.ofList last ts) := by
  refine bind_of_ok ?_
  rw [nextOf, current_bind, Feed.current_ofList_cons, if_pos (Lexeme.is_eq_true_iff.mpr h), next,
    Feed.next_ofList_cons]
  rfl

theorem nextOf_eq_ok (hlast : last.kind = .endOfInput) {ts : List Lexeme} {kind : TokenKind}
    (hkind : kind ≠ .endOfInput) {l : Lexeme} {after : Feed Lexeme}
    (h : nextOf kind (Feed.ofList last ts) = .ok (l, after)) :
    ∃ rest, ts = l :: rest ∧ l.kind = kind ∧ after = Feed.ofList last rest := by
  rw [nextOf, current_bind] at h
  split at h
  · next his =>
    obtain ⟨first, rest, rfl, hfirst⟩ :=
      exists_cons_of_current hlast hkind (Lexeme.is_eq_true_iff.mp his)
    rw [next, Feed.next_ofList_cons] at h
    obtain ⟨rfl, rfl⟩ := Prod.mk.inj (Except.ok.inj h)
    exact ⟨rest, rfl, hfirst, rfl⟩
  · exact absurd h (unexpected_ne_ok _ _ _)

/-! ## Powers and signs -/

section Powers

variable {base : Operand} {middle : Feed Lexeme} (hbase : primary feed = .ok (base, middle))
include hbase

theorem power_of_caret (h : middle.current.kind = .caret) :
    power primary feed =
      (next >>= fun _ => primary >>= fun exponent =>
        pure ⟨.binary .pow base.expr exponent.expr, exponent.shape⟩) middle := by
  rw [power, bind_of_ok hbase, current_bind, if_pos (Lexeme.is_eq_true_iff.mpr h)]

theorem power_of_ne (h : middle.current.kind ≠ .caret) :
    power primary feed = .ok (base, middle) := by
  rw [power, bind_of_ok hbase, current_bind, if_neg fun his => h (Lexeme.is_eq_true_iff.mp his)]
  rfl

end Powers

theorem unary_of_minus (h : feed.current.kind = .minus) :
    unary primary feed =
      (next >>= fun sign => power primary >>= fun operand => pure (negated sign operand)) feed := by
  rw [unary, current_bind, h]

theorem unary_of_plus (h : feed.current.kind = .plus) :
    unary primary feed = (next >>= fun _ => power primary) feed := by
  rw [unary, current_bind, h]

theorem unary_of_ne (hminus : feed.current.kind ≠ .minus) (hplus : feed.current.kind ≠ .plus) :
    unary primary feed = power primary feed := by
  rw [unary, current_bind]
  cases hkind : feed.current.kind with
  | minus => exact absurd hkind hminus
  | plus => exact absurd hkind hplus
  | _ => rfl

/-! ## Products and sums -/

/-- The pairs that the parser multiplies are the adjacent pairs, and a symbol with a number
that touches it. -/
theorem multiplies_eq_true_iff {shape : Shape} {kind : TokenKind} :
    shape.multiplies kind = true ↔
      Grammar.AdjacentPair shape kind ∨ shape = .symbol ∧ kind = .number := by
  constructor
  · intro h
    cases shape with
    | symbol => cases kind with
      | number => exact .inr ⟨rfl, rfl⟩
      | _ => contradiction
    | number | call | group =>
      left
      cases kind <;> first | contradiction | constructor
  · rintro (h | ⟨rfl, rfl⟩)
    · cases h <;> rfl
    · rfl

variable {left : Operand} {sum : Expr}

theorem moreFactors_of_star (h : feed.current.kind = .star) :
    moreFactors primary left feed =
      (next >>= fun _ => unary primary >>= fun right =>
        pure (some ⟨.binary .mul left.expr right.expr, right.shape⟩)) feed := by
  rw [moreFactors, current_bind, h]

theorem moreFactors_of_slash (h : feed.current.kind = .slash) :
    moreFactors primary left feed =
      (next >>= fun _ => unary primary >>= fun right =>
        pure (some ⟨.binary .div left.expr right.expr, right.shape⟩)) feed := by
  rw [moreFactors, current_bind, h]

theorem moreFactors_of_multiplies (hspaced : feed.current.spaced = false)
    (h : left.shape.multiplies feed.current.kind = true) :
    moreFactors primary left feed =
      (unary primary >>= fun right =>
        pure (some ⟨.binary .mul left.expr right.expr, right.shape⟩)) feed := by
  have hadjacent : feed.current.isAdjacent = true := by rw [Lexeme.isAdjacent, hspaced]; rfl
  rw [moreFactors, current_bind, hadjacent]
  cases hkind : feed.current.kind with
  | star | slash =>
    rw [hkind] at h
    cases hshape : left.shape <;> rw [hshape] at h <;> contradiction
  | _ => rw [hkind] at h; simp only [h]; rfl

theorem moreFactors_of_ne (hstar : feed.current.kind ≠ .star) (hslash : feed.current.kind ≠ .slash)
    (h : feed.current.spaced = false → left.shape.multiplies feed.current.kind = false) :
    moreFactors primary left feed = .ok (none, feed) := by
  have hadjacent : (feed.current.isAdjacent && left.shape.multiplies feed.current.kind) = false := by
    cases hspaced : feed.current.spaced with
    | false => rw [h hspaced, Bool.and_false]
    | true => rw [Lexeme.isAdjacent, hspaced]; rfl
  rw [moreFactors, current_bind]
  cases hkind : feed.current.kind with
  | star => exact absurd hkind hstar
  | slash => exact absurd hkind hslash
  | _ => rw [hkind] at hadjacent; simp only [hadjacent]; rfl

theorem moreTerms_of_plus (h : feed.current.kind = .plus) :
    moreTerms primary sum feed =
      (next >>= fun _ => factor primary >>= fun right =>
        pure (some (.binary .add sum right))) feed := by
  rw [moreTerms, current_bind, h]

theorem moreTerms_of_minus (h : feed.current.kind = .minus) :
    moreTerms primary sum feed =
      (next >>= fun _ => factor primary >>= fun right =>
        pure (some (.binary .sub sum right))) feed := by
  rw [moreTerms, current_bind, h]

theorem moreTerms_of_ne (hplus : feed.current.kind ≠ .plus) (hminus : feed.current.kind ≠ .minus) :
    moreTerms primary sum feed = .ok (none, feed) := by
  rw [moreTerms, current_bind]
  cases hkind : feed.current.kind with
  | plus => exact absurd hkind hplus
  | minus => exact absurd hkind hminus
  | _ => rfl

/-! ## Arguments and primaries -/

variable {depth : ℕ} {name : Lexeme} {es : List Expr}

theorem moreArguments_of_comma (h : feed.current.kind = .comma) :
    moreArguments primary name feed =
      (next >>= fun comma => current >>= fun following =>
        if following.is .closeParen || following.is .endOfInput then
          fail (.missingArgument name.text comma.position)
        else term primary >>= fun argument => pure (some argument)) feed := by
  rw [moreArguments, current_bind, if_pos (Lexeme.is_eq_true_iff.mpr h)]

theorem moreArguments_of_ne (h : feed.current.kind ≠ .comma) :
    moreArguments primary name feed = .ok (none, feed) := by
  rw [moreArguments, current_bind, if_neg fun his => h (Lexeme.is_eq_true_iff.mp his)]
  rfl

/-- What has to stand behind the last argument of a call. -/
def closing (name : Lexeme) (es : List Expr) : QueryParser (List Expr) := do
  let lexeme ← current
  match lexeme.kind with
  | .closeParen =>
    let _ ← next
    pure es
  | .endOfInput => fail (.unterminatedCall name.text name.position)
  | _ => unexpected "',' or ')'"

theorem arguments_eq :
    arguments primary name =
      (nextOf .openParen >>= fun _ => current >>= fun lexeme =>
        if lexeme.is .closeParen then next >>= fun _ => pure []
        else term primary >>= fun first =>
          many (moreArguments primary name) >>= fun later => closing name (first :: later)) :=
  rfl

theorem closing_of_closeParen (h : feed.current.kind = .closeParen) :
    closing name es feed = (next >>= fun _ => pure es) feed := by
  rw [closing, current_bind, h]

theorem closing_of_endOfInput (h : feed.current.kind = .endOfInput) :
    closing name es feed = fail (.unterminatedCall name.text name.position) feed := by
  rw [closing, current_bind, h]

theorem closing_of_ne (hclose : feed.current.kind ≠ .closeParen)
    (hend : feed.current.kind ≠ .endOfInput) :
    closing name es feed = unexpected "',' or ')'" feed := by
  rw [closing, current_bind]
  cases hkind : feed.current.kind with
  | closeParen => exact absurd hkind hclose
  | endOfInput => exact absurd hkind hend
  | _ => rfl

theorem closing_ne_ok (h : feed.current.kind ≠ .closeParen) (r : List Expr × Feed Lexeme) :
    closing name es feed ≠ .ok r := by
  by_cases hend : feed.current.kind = .endOfInput
  · rw [closing_of_endOfInput hend]
    exact nofun
  · rw [closing_of_ne h hend]
    exact unexpected_ne_ok _ _ _

theorem primary_of_openParen (h : feed.current.kind = .openParen) :
    QueryParser.primary (depth + 1) feed =
      (next >>= fun _ => term (QueryParser.primary depth) >>= fun inner =>
        nextOf .closeParen >>= fun _ => pure ⟨inner, .group⟩) feed := by
  rw [QueryParser.primary, current_bind, h]

theorem primary_of_number (h : feed.current.kind = .number) :
    QueryParser.primary (depth + 1) feed =
      (next >>= fun _ => pure ⟨.number feed.current.toSpelling, .number⟩) feed := by
  rw [QueryParser.primary, current_bind, h]

theorem primary_of_identifier (h : feed.current.kind = .identifier) :
    QueryParser.primary (depth + 1) feed =
      (next >>= fun _ => current >>= fun following =>
        if following.is .openParen && following.isAdjacent then
          arguments (QueryParser.primary depth) feed.current >>= fun args =>
            pure ⟨.call feed.current.toSpelling args, .call⟩
        else pure ⟨.symbol feed.current.toSpelling, .symbol⟩) feed := by
  rw [QueryParser.primary, current_bind, h]

theorem primary_of_not_begins (h : ¬ Grammar.BeginsPrimary feed.current.kind) :
    QueryParser.primary depth feed = unexpected "an expression" feed := by
  cases depth with
  | zero => rfl
  | succ depth =>
    rw [QueryParser.primary, current_bind]
    cases hkind : feed.current.kind with
    | openParen => exact absurd (hkind ▸ .openParen) h
    | number => exact absurd (hkind ▸ .number) h
    | identifier => exact absurd (hkind ▸ .identifier) h
    | _ => rfl

theorem primary_ne_ok (h : ¬ Grammar.BeginsPrimary feed.current.kind) (r : Operand × Feed Lexeme) :
    QueryParser.primary depth feed ≠ .ok r := by
  rw [primary_of_not_begins h]
  exact unexpected_ne_ok _ _ _

/-! ## Equations, phrases and statements -/

theorem equation_of_equal {left : Expr} {middle : Feed Lexeme}
    (hleft : term (QueryParser.primary depth) feed = .ok (left, middle))
    (h : middle.current.kind = .equal) :
    equation depth feed =
      (next >>= fun _ => term (QueryParser.primary depth) >>= fun right =>
        pure (.binary .equal left right)) middle := by
  rw [equation, bind_of_ok hleft, current_bind, if_pos (Lexeme.is_eq_true_iff.mpr h)]

theorem equation_of_ne {left : Expr} {middle : Feed Lexeme}
    (hleft : term (QueryParser.primary depth) feed = .ok (left, middle))
    (h : middle.current.kind ≠ .equal) : equation depth feed = .ok (left, middle) := by
  rw [equation, bind_of_ok hleft, current_bind, if_neg fun his => h (Lexeme.is_eq_true_iff.mp his)]
  rfl

theorem moreEquations_of_end (h : feed.current.kind = .endOfInput ∨ feed.current.kind = .comma) :
    moreEquations depth feed = .ok (none, feed) := by
  have hend : (feed.current.is .endOfInput || feed.current.is .comma) = true := by
    simpa [Lexeme.is] using h
  rw [moreEquations, current_bind, if_pos hend]
  rfl

theorem moreEquations_of_ne (hend : feed.current.kind ≠ .endOfInput)
    (hcomma : feed.current.kind ≠ .comma) :
    moreEquations depth feed = (equation depth >>= fun e => pure (some e)) feed := by
  have hnot : ¬ (feed.current.is .endOfInput || feed.current.is .comma) = true := by
    simp [Lexeme.is, hend, hcomma]
  rw [moreEquations, current_bind, if_neg hnot]

theorem morePhrases_of_comma (h : feed.current.kind = .comma) :
    morePhrases depth feed =
      (next >>= fun _ => phrase depth >>= fun p => pure (some p)) feed := by
  rw [morePhrases, current_bind, if_pos (Lexeme.is_eq_true_iff.mpr h)]

theorem morePhrases_of_ne (h : feed.current.kind ≠ .comma) :
    morePhrases depth feed = .ok (none, feed) := by
  rw [morePhrases, current_bind, if_neg fun his => h (Lexeme.is_eq_true_iff.mp his)]
  rfl

theorem moreStatements_of_end (h : feed.current.kind = .endOfInput) :
    moreStatements depth feed = .ok (none, feed) := by
  rw [moreStatements, current_bind, if_pos (Lexeme.is_eq_true_iff.mpr h)]
  rfl

theorem moreStatements_of_ne (h : feed.current.kind ≠ .endOfInput) :
    moreStatements depth feed = (statement depth >>= fun s => pure (some s)) feed := by
  rw [moreStatements, current_bind, if_neg fun his => h (Lexeme.is_eq_true_iff.mp his)]

end QueryParser

end MathQuery
