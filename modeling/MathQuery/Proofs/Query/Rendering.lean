import MathQuery.Proofs.Query.Legibility
import MathQuery.Proofs.Query.Meaning

/-!
# Rendering an expression and reading it again

An expression that was read from a text is written as text again with the parentheses it
needs.  What is read from that text need not be the same tree: on the right of a sum or a
product there are no parentheses, and a factor `-1` in front is read as a sign.  The values
are the same.

* `Expr.Legible.meansAt` – an expression is written as a text that means its value, where
  operands have to bind as tightly as its outermost operator;
* `parse_render` – reading a term of a query, writing it and reading it again keeps its
  value.
-/

namespace MathQuery

open Grammar

namespace Expr

variable {op : BinaryOp} {e : Expr}

/-- A left operand without parentheses binds as tightly as it has to. -/
theorem leftLevel_le (h : leftParens op e = false) : op.leftLevel ≤ e.precedence := by
  simp only [leftParens, Bool.or_eq_false_iff, decide_eq_false_iff_not, not_lt] at h
  obtain ⟨hle, hpow⟩ := h
  refine BinaryOp.leftLevel_le hle ?_
  rintro rfl
  simpa using hpow

/-- A right operand without parentheses binds as tightly as it has to. -/
theorem rightLevel_le (h : rightParens op e = false) : op.rightLevel ≤ e.precedence := by
  simp only [rightParens, Bool.or_eq_false_iff, decide_eq_false_iff_not, not_lt] at h
  obtain ⟨hle, hstrict⟩ := h
  refine BinaryOp.rightLevel_le hle ?_
  rintro (rfl | rfl | rfl) <;> simpa using hstrict

theorem render_binary (op : BinaryOp) (left right : Expr) :
    (binary op left right).render =
      parenthesized (leftParens op left) left.render ++ op.between ++
        parenthesized (rightParens op right) right.render := by
  rw [render]

/-- The number minus one is written as a signed number. -/
theorem means_minusOne (sign : Position) :
    Means (IsUnary IsPrimary) "-1" (number ⟨"-1", sign⟩).meaning := by
  have hone : Means (IsPower IsPrimary) "1" (number ⟨"1", .start⟩).meaning := by
    have hnumeral : IsNumeral "1".toList := .whole (by simp) (by simp)
    exact (spells_number hnumeral).means.mono fun _ _ => .primary
  refine hone.minus.congr fun M _ σ => ?_
  have hvalue : rational? "1" = some 1 := by decide +kernel
  have hminus : rational? "-1" = some (-1) := by decide +kernel
  rw [Meaning.negative, meaning, meaning, value, value, hvalue, hminus]
  rfl

/-- Terms are written one by one. -/
theorem means_renderEach {es : List Expr}
    (h : ∀ e ∈ es, MeansAt e.precedence e.render e.meaning) :
    List.Forall₂ (Means (IsTerm IsPrimary)) (renderEach es) (es.map meaning) := by
  induction es with
  | nil =>
    rw [renderEach]
    exact .nil
  | cons e es ih =>
    obtain ⟨hfirst, hlater⟩ := List.forall_mem_cons.mp h
    rw [renderEach]
    exact .cons hfirst.term (ih hlater)

/-- The text of an expression means its value. -/
theorem Legible.meansAt (h : e.Legible) : MeansAt e.precedence e.render e.meaning := by
  have hatom : 4 ≤ atomPrecedence := by decide
  -- induction on the expression; each operand stands with the parentheses that it needs
  induction h with
  | @number literal h =>
    rw [render, ← meaning_unplaced]
    exact .of_primary (spells_number h).means hatom
  | @symbol name h =>
    rw [render, ← meaning_unplaced]
    exact .of_primary (spells_symbol h).means hatom
  | @negative sign e _ ih =>
    have hleft : MeansAt (BinaryOp.leftLevel .mul) "-1" (Expr.number ⟨"-1", sign⟩).meaning :=
      MeansProduct.of_unary (means_minusOne sign)
    have hop : BinaryOp.mul ≠ .equal := by decide
    rw [render_binary, meaning_binary, render]
    exact .binary hop hleft (ih.operand rightLevel_le)
  | binary hop _ _ ihl ihr =>
    rw [render_binary, meaning_binary]
    exact .binary hop (ihl.operand leftLevel_le) (ihr.operand rightLevel_le)
  | call hname _ ih =>
    rw [render, meaning_call]
    exact .of_primary (.call hname (means_renderEach ih)) hatom

end Expr

/-- Writing a term of a query and reading it again keeps its value: every text of a term is
read as one term, and that has the same value whatever the symbols stand for and whatever
powers and calls are.  An equation is read as an equation again, whose sides have the values
of the sides. -/
theorem parse_render {source : String} {program : Program} (hparse : parse source = .ok program)
    {e : Expr} (he : e ∈ program.terms) :
    ∃ e', parse e.render = .ok ⟨[[[e']]]⟩ ∧
      (∀ M : Interpretation, M.Exact → ∀ σ, e'.value M σ = e.value M σ) ∧
      ∀ left right, e = .binary .equal left right →
        ∃ left' right', e' = .binary .equal left' right' ∧
          ∀ M : Interpretation, M.Exact → ∀ σ,
            left'.value M σ = left.value M σ ∧ right'.value M σ = right.value M σ := by
  cases legible_of_parse hparse he with
  | term h =>
    obtain ⟨e', hagain, hvalue⟩ := h.meansAt.term.parse_eq_ok
    refine ⟨e', hagain, hvalue, ?_⟩
    rintro left right rfl
    -- an equation is no part of a term
    cases h with
    | binary hop _ _ => contradiction
  | @equal left right hl hr =>
    have hleft : Expr.leftParens .equal left = false := rfl
    have hright : Expr.rightParens .equal right = false := rfl
    obtain ⟨left', right', hagain, hvalue, hvalue'⟩ :=
      hl.meansAt.term.parse_equal_eq_ok hr.meansAt.term
    rw [Expr.render_binary, hleft, hright]
    refine ⟨.binary .equal left' right', hagain, fun M hM σ => ?_, ?_⟩
    · rw [Expr.value, Expr.value]
      exact congrArg₂ (M.operation .equal) (hvalue M hM σ) (hvalue' M hM σ)
    · rintro _ _ ⟨⟩
      exact ⟨left', right', rfl, fun M hM σ => ⟨hvalue M hM σ, hvalue' M hM σ⟩⟩

/-- The product `x*(y*-2.5)` is written as `x*y*-1*2.5`, which is read as another tree with
the same values. -/
theorem parse_render_of_product :
    let x : Expr := .symbol ⟨"x", ⟨1, 1⟩⟩
    let y : Expr := .symbol ⟨"y", ⟨1, 4⟩⟩
    let negative : Expr := .binary .mul (.number ⟨"-1", ⟨1, 6⟩⟩) (.number ⟨"2.5", ⟨1, 7⟩⟩)
    let e : Expr := .binary .mul x (.binary .mul y negative)
    parse "x*(y*-2.5)" = .ok ⟨[[[e]]]⟩ ∧ e.render = "x*y*-1*2.5" ∧
      ∃ e', parse e.render = .ok ⟨[[[e']]]⟩ ∧
        ∀ M : Interpretation, M.Exact → ∀ σ, e'.value M σ = e.value M σ := by
  intro x y negative e
  have hparse : parse "x*(y*-2.5)" = .ok ⟨[[[e]]]⟩ := by decide +kernel
  obtain ⟨e', hagain, hvalue, -⟩ := parse_render hparse List.mem_cons_self
  exact ⟨hparse, by decide +kernel, e', hagain, hvalue⟩

end MathQuery
