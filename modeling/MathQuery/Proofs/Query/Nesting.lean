import MathQuery.Proofs.Query.Rendering

/-!
# Trees that are read as they were written

Writing an expression leaves out the parentheses on the right of a sum or a product, since
these can be regrouped.  Where no sum or difference stands on the right of a sum and no
product or quotient on the right of a product, nothing is regrouped: what is read from the
text is the same tree.

* `Grammar.production` – the production of the operands that bind tightly enough;
* `Expr.LeftNested`, `Expr.LeftNestedEquation` – trees of which nothing is regrouped;
* `Expr.LeftNested.spells` – such a tree is written as a text that reads as this tree;
* `parse_render_of_leftNested` – writing it and reading it again gives the same tree.
-/

namespace MathQuery

open Grammar

/-! ## Operands that bind tightly enough -/

namespace Grammar

variable {ls : List Lexeme} {a : Operand} {p q : ℕ}

/-- The production of what binds as tightly as operators of the given precedence, or more
tightly than every operator. -/
def production : ℕ → Derivation
  | 0 | 1 => IsTerm IsPrimary
  | 2 => IsFactor IsPrimary
  | 3 => IsPower IsPrimary
  | _ + 4 => IsPrimary

/-- What binds more tightly by one degree needs nothing else. -/
theorem production_of_succ (h : production (p + 1) ls a) : production p ls a := by
  match p with
  | 0 => exact h
  | 1 => exact .factor h
  | 2 => exact .unary (.power h)
  | 3 => exact .primary h
  | _ + 4 => exact h

theorem production_mono (hle : q ≤ p) (h : production p ls a) : production q ls a := by
  induction hle with
  | refl => exact h
  | step _ ih => exact ih (production_of_succ h)

theorem production_of_isPrimary (p : ℕ) (h : IsPrimary ls a) : production p ls a :=
  production_mono (Nat.le_add_right p 4) h

end Grammar

namespace Spells

variable {text left right : String} {e l r : Expr} {op : BinaryOp} {p q : ℕ}

theorem term_of_production (h : Spells (production p) text e) :
    Spells (IsTerm IsPrimary) text e :=
  h.mono fun _ _ => production_mono (Nat.zero_le p)

/-- An operand stands in parentheses unless it binds as tightly as it has to. -/
theorem operand (h : Spells (production p) text e) {parens : Bool}
    (hparens : parens = false → q ≤ p) :
    Spells (production q) (parenthesized parens text) e := by
  cases parens with
  | false => exact h.mono fun _ _ => production_mono (hparens rfl)
  | true => exact h.term_of_production.group.mono fun _ _ => production_of_isPrimary q

/-- A left operand that binds as tightly as it has to and a right operand that binds more
tightly than the operator make up an operation. -/
theorem operation (hop : op ≠ .equal) (hl : Spells (production op.leftLevel) left l)
    (hr : Spells (production (op.precedence + 1)) right r) :
    Spells (production op.precedence) (left ++ op.between ++ right) (.binary op l r) := by
  cases op with
  | add => exact hl.add hr
  | sub => exact hl.sub hr
  | mul => exact hl.mul (hr.mono fun _ _ => .power)
  | div => exact hl.div (hr.mono fun _ _ => .power)
  | pow => exact hl.pow hr
  | equal => contradiction

end Spells

/-! ## Trees -/

namespace BinaryOp

/-- Whether an operation and its right operand are written as one chain without parentheses,
which is read from the left. -/
def chains : (outer inner : BinaryOp) → Bool
  | add, add | add, sub | mul, mul | mul, div => true
  | _, _ => false

theorem precedence_lt_atomPrecedence (op : BinaryOp) : op.precedence < atomPrecedence := by
  cases op <;> decide

/-- Two operators of one precedence make up a chain where the right one may stand without
parentheses. -/
theorem precedence_lt_of_chains_eq_false {outer inner : BinaryOp} (hop : outer ≠ .equal)
    (hchain : outer.chains inner = false) (hle : outer.rightLevel ≤ inner.precedence) :
    outer.precedence < inner.precedence := by
  revert hop hchain hle
  cases outer <;> cases inner <;> decide

end BinaryOp

namespace Expr

variable {op : BinaryOp} {e : Expr}

/-- Whether an operator and this right operand of it are regrouped when they are read. -/
def regroups (op : BinaryOp) : Expr → Bool
  | binary inner _ _ => op.chains inner
  | _ => false

/-- The expressions without a sign of equality in which no right operand is regrouped. -/
inductive LeftNested : Expr → Prop
  | number {literal : Spelling} (h : IsNumeral literal.text.toList) : LeftNested (.number literal)
  | symbol {name : Spelling} (h : IsWord name.text.toList) : LeftNested (.symbol name)
  | binary {op : BinaryOp} {left right : Expr} (hop : op ≠ .equal)
    (hchain : right.regroups op = false) (hl : LeftNested left) (hr : LeftNested right) :
    LeftNested (.binary op left right)
  | call {name : Spelling} {arguments : List Expr} (hname : IsWord name.text.toList)
    (h : ∀ a ∈ arguments, LeftNested a) : LeftNested (.call name arguments)

/-- The expressions in which no right operand is regrouped, also two of them with the sign of
equality between them. -/
inductive LeftNestedEquation : Expr → Prop
  | term {e : Expr} (h : LeftNested e) : LeftNestedEquation e
  | equal {left right : Expr} (hl : LeftNested left) (hr : LeftNested right) :
    LeftNestedEquation (.binary .equal left right)

/-- A right operand that is neither put in parentheses nor regrouped binds more tightly than
the operator. -/
theorem precedence_lt_of_rightParens (hop : op ≠ .equal) (hchain : e.regroups op = false)
    (h : rightParens op e = false) : op.precedence < e.precedence := by
  cases e with
  | number _ | symbol _ | call _ _ => exact op.precedence_lt_atomPrecedence
  | binary inner _ _ => exact BinaryOp.precedence_lt_of_chains_eq_false hop hchain (rightLevel_le h)

/-! ## Places -/

mutual

/-- The places of the leaves are not written. -/
theorem render_relocate (f : Position → Position) : (e : Expr) → (e.relocate f).render = e.render
  | number literal | symbol literal => by rw [relocate, render, render, Spelling.relocate]
  | binary op left right => by
    have hleft : leftParens op (left.relocate f) = leftParens op left := by
      cases left <;> rfl
    have hright : rightParens op (right.relocate f) = rightParens op right := by
      cases right <;> rfl
    rw [relocate, render, render, render_relocate f left, render_relocate f right, hleft, hright]
  | call name arguments => by
    rw [relocate, render, render, renderEach_relocateEach f arguments, Spelling.relocate]

theorem renderEach_relocateEach (f : Position → Position) :
    (es : List Expr) → renderEach (relocateEach f es) = renderEach es
  | [] => by rw [relocateEach]
  | e :: es => by
    rw [relocateEach, renderEach, renderEach, render_relocate f e, renderEach_relocateEach f es]

end

theorem render_unplaced (e : Expr) : e.unplaced.render = e.render :=
  render_relocate (fun _ => .start) e

/-! ## Writing and reading -/

/-- Arguments are written one by one. -/
theorem spells_renderEach {es : List Expr}
    (h : ∀ e ∈ es, Spells (production e.precedence) e.render e.unplaced) :
    List.Forall₂ (Spells (IsTerm IsPrimary)) (renderEach es)
      (relocateEach (fun _ => .start) es) := by
  induction es with
  | nil =>
    rw [renderEach, relocateEach]
    exact .nil
  | cons e es ih =>
    obtain ⟨hfirst, hlater⟩ := List.forall_mem_cons.mp h
    rw [renderEach, relocateEach]
    exact .cons hfirst.term_of_production (ih hlater)

/-- An expression in which nothing is regrouped is written as a text that reads as it, where
operands have to bind as tightly as its outermost operator. -/
theorem LeftNested.spells (h : e.LeftNested) :
    Spells (production e.precedence) e.render e.unplaced := by
  -- induction on the tree; each operand stands with the parentheses that it needs
  induction h with
  | number h =>
    rw [render]
    exact (spells_number h).mono fun _ _ => production_of_isPrimary _
  | symbol h =>
    rw [render]
    exact (spells_symbol h).mono fun _ _ => production_of_isPrimary _
  | binary hop hchain _ _ ihl ihr =>
    rw [render_binary, unplaced_binary]
    exact .operation hop (ihl.operand leftLevel_le)
      (ihr.operand (precedence_lt_of_rightParens hop hchain))
  | call hname _ ih =>
    rw [render]
    exact (Spells.call hname (spells_renderEach ih)).mono fun _ _ => production_of_isPrimary _

end Expr

/-- Writing and reading are inverse to each other where nothing is regrouped: the text of an
expression is read as one term, which is the same tree up to places and is written as the same
text again. -/
theorem parse_render_of_leftNested {e : Expr} (h : e.LeftNestedEquation) :
    ∃ e', parse e.render = .ok ⟨[[[e']]]⟩ ∧ e'.unplaced = e.unplaced ∧ e'.render = e.render := by
  have hread : ∃ e', parse e.render = .ok ⟨[[[e']]]⟩ ∧ e'.unplaced = e.unplaced := by
    cases h with
    | term h => exact h.spells.term_of_production.parse_eq_ok
    | @equal left right hl hr =>
      -- the sides of an equation never stand in parentheses
      have hleft : Expr.leftParens .equal left = false := rfl
      have hright : Expr.rightParens .equal right = false := rfl
      rw [Expr.render_binary, hleft, hright, Expr.unplaced_binary]
      exact (hl.spells.term_of_production.equal
        hr.spells.term_of_production).parse_eq_ok_of_equation
  obtain ⟨e', hparse, hsame⟩ := hread
  refine ⟨e', hparse, hsame, ?_⟩
  rw [← e'.render_unplaced, hsame, e.render_unplaced]

/-- All operators with operands on the right that need parentheses, a call without arguments
and a number that ends in its point. -/
theorem parse_render_of_leftNested_of_equation :
    let a : Expr := .symbol ⟨"a", ⟨7, 7⟩⟩
    let two : Expr := .number ⟨"2.", ⟨3, 1⟩⟩
    let call : Expr := .call ⟨"f", ⟨1, 1⟩⟩ [.call ⟨"g", ⟨1, 1⟩⟩ [], .binary .add a two]
    let left : Expr := .binary .sub (.binary .add call a) (.binary .sub a (.binary .mul two a))
    let right : Expr := .binary .div (.binary .pow (.binary .pow a two) (.binary .pow two a))
      (.binary .div two a)
    let e : Expr := .binary .equal left right
    e.LeftNestedEquation ∧ e.render = "f(g(), a + 2.) + a - (a - 2.*a) = (a^2.)^(2.^a)/(2./a)" ∧
      ∃ e', parse e.render = .ok ⟨[[[e']]]⟩ ∧ e'.unplaced = e.unplaced ∧ e'.render = e.render := by
  intro a two call left right e
  have ha : a.LeftNested := .symbol (by decide)
  have htwo : two.LeftNested := .number (@IsNumeral.decimal ['2'] [] (by simp) (by simp) nofun)
  have hg : (Expr.call ⟨"g", ⟨1, 1⟩⟩ []).LeftNested := .call (by decide) nofun
  have hsum : (Expr.binary .add a two).LeftNested := .binary (by decide) rfl ha htwo
  have hcall : call.LeftNested := .call (by decide) (by simp [hg, hsum])
  have hleft : left.LeftNested :=
    .binary (by decide) rfl (.binary (by decide) rfl hcall ha)
      (.binary (by decide) rfl ha (.binary (by decide) rfl htwo ha))
  have hright : right.LeftNested :=
    .binary (by decide) rfl
      (.binary (by decide) rfl (.binary (by decide) rfl ha htwo) (.binary (by decide) rfl htwo ha))
      (.binary (by decide) rfl htwo ha)
  have he : e.LeftNestedEquation := .equal hleft hright
  exact ⟨he, by decide +kernel, parse_render_of_leftNested he⟩

end MathQuery
