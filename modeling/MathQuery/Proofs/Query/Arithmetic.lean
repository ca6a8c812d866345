import MathQuery.Proofs.Algebra.Value
import MathQuery.Proofs.Query.Relocation

/-!
# The values of expressions

An expression has a value once its symbols have values and the operations that rational
arithmetic leaves open are interpreted.

* `Expr.value` – the value of an expression, which does not depend on places;
* `Expr.CallFree` – expressions that call no function;
* `Expr.symbols` – the symbols of an expression;
* `Grammar.isTerm_symbols` – they are identifiers among the lexemes that are read.
-/

namespace MathQuery

namespace Expr

variable {M : Interpretation} {σ : String → ℚ}

mutual

/-- The value of an expression when its symbols have the values `σ`. -/
def value (M : Interpretation) (σ : String → ℚ) : Expr → ℚ
  | number literal => (rational? literal.text).getD 0
  | symbol name => σ name.text
  | binary op left right => M.operation op (left.value M σ) (right.value M σ)
  | call name arguments => M.application name.text (values M σ arguments)

/-- The values of several expressions. -/
def values (M : Interpretation) (σ : String → ℚ) : List Expr → List ℚ
  | [] => []
  | e :: es => e.value M σ :: values M σ es

end

mutual

theorem value_relocate (f : Position → Position) :
    (e : Expr) → (e.relocate f).value M σ = e.value M σ
  | number _ => by rw [relocate, value, value, Spelling.relocate]
  | symbol _ => by rw [relocate, value, value, Spelling.relocate]
  | binary op left right => by
    rw [relocate, value, value, value_relocate f left, value_relocate f right]
  | call name arguments => by
    rw [relocate, value, value, values_relocateEach f arguments, Spelling.relocate]

theorem values_relocateEach (f : Position → Position) :
    (es : List Expr) → values M σ (relocateEach f es) = values M σ es
  | [] => by rw [relocateEach]
  | e :: es => by
    rw [relocateEach, values, values, value_relocate f e, values_relocateEach f es]

end

/-- The value of an expression does not depend on the places of its leaves. -/
theorem value_unplaced (e : Expr) : e.unplaced.value M σ = e.value M σ :=
  value_relocate _ e

/-- An expression that calls no function. -/
inductive CallFree : Expr → Prop
  | number (literal : Spelling) : CallFree (.number literal)
  | symbol (name : Spelling) : CallFree (.symbol name)
  | binary {op : BinaryOp} {left right : Expr} (hl : CallFree left) (hr : CallFree right) :
    CallFree (.binary op left right)

mutual

/-- The symbols of an expression, from left to right. -/
def symbols : Expr → List String
  | number _ => []
  | symbol name => [name.text]
  | binary _ left right => left.symbols ++ right.symbols
  | call _ arguments => symbolsOfEach arguments

/-- The symbols of several expressions. -/
def symbolsOfEach : List Expr → List String
  | [] => []
  | e :: es => e.symbols ++ symbolsOfEach es

end

end Expr

namespace Grammar

/-- Whether a name is an identifier among some lexemes. -/
def Names (ls : List Lexeme) (x : String) : Prop :=
  ∃ l ∈ ls, l.kind = .identifier ∧ l.text = x

theorem Names.mono {ls ks : List Lexeme} {x : String} (h : Names ls x) (hsub : ls ⊆ ks) :
    Names ks x := by
  obtain ⟨l, hl, hkind, htext⟩ := h
  exact ⟨l, hsub hl, hkind, htext⟩

theorem subset_enclosed (opening closing : Lexeme) (ls : List Lexeme) :
    ls ⊆ opening :: (ls ++ [closing]) :=
  fun _ hl => List.mem_cons_of_mem _ (List.mem_append_left _ hl)

theorem names_append {ls ks : List Lexeme} {a b : Expr} (hl : ∀ x ∈ a.symbols, Names ls x)
    (hr : ∀ x ∈ b.symbols, Names ks x) (op : BinaryOp) :
    ∀ x ∈ (Expr.binary op a b).symbols, Names (ls ++ ks) x := by
  intro x hx
  rw [Expr.symbols] at hx
  rcases List.mem_append.mp hx with hx | hx
  · exact (hl x hx).mono (List.subset_append_left ls ks)
  · exact (hr x hx).mono (List.subset_append_right ls ks)

mutual

theorem isPrimary_symbols {ls : List Lexeme} {a : Operand} :
    IsPrimary ls a → ∀ x ∈ a.expr.symbols, Names ls x
  | .group _ h _, x, hx => (isTerm_symbols h x hx).mono (subset_enclosed _ _ _)
  | .number _, x, hx => by simp [Expr.symbols] at hx
  | .symbol h, x, hx => by
    rw [Expr.symbols, List.mem_singleton] at hx
    exact ⟨_, List.mem_singleton_self _, h, hx.symm⟩
  | .call _ _ _ h _, x, hx => by
    rw [Expr.symbols] at hx
    refine (isArguments_symbols h x hx).mono fun l hl => ?_
    exact List.mem_cons_of_mem _ (subset_enclosed _ _ _ hl)

theorem isPower_symbols {ls : List Lexeme} {a : Operand} :
    IsPower IsPrimary ls a → ∀ x ∈ a.expr.symbols, Names ls x
  | .primary h => isPrimary_symbols h
  | .pow hbase _ hexponent => by
    refine names_append (isPrimary_symbols hbase) (fun x hx => ?_) .pow
    exact (isPrimary_symbols hexponent x hx).mono (List.subset_cons_self _ _)

theorem isUnary_symbols {ls : List Lexeme} {a : Operand} :
    IsUnary IsPrimary ls a → ∀ x ∈ a.expr.symbols, Names ls x
  | .power h => isPower_symbols h
  | .plus _ h => fun x hx => (isPower_symbols h x hx).mono (List.subset_cons_self _ _)
  | .minus _ h => fun x hx => by
    -- the sign is a factor minus one, which has no symbols
    simp only [Expr.symbols, List.nil_append] at hx
    exact (isPower_symbols h x hx).mono (List.subset_cons_self _ _)

theorem isFactor_symbols {ls : List Lexeme} {a : Operand} :
    IsFactor IsPrimary ls a → ∀ x ∈ a.expr.symbols, Names ls x
  | .unary h => isUnary_symbols h
  | .mul hleft _ hright => by
    refine names_append (isFactor_symbols hleft) (fun x hx => ?_) .mul
    exact (isUnary_symbols hright x hx).mono (List.subset_cons_self _ _)
  | .div hleft _ hright => by
    refine names_append (isFactor_symbols hleft) (fun x hx => ?_) .div
    exact (isUnary_symbols hright x hx).mono (List.subset_cons_self _ _)
  | .adjacent hleft _ _ hright =>
    names_append (isFactor_symbols hleft) (isUnary_symbols hright) .mul

/-- The symbols of a term are identifiers among its lexemes. -/
theorem isTerm_symbols {ls : List Lexeme} {a : Operand} :
    IsTerm IsPrimary ls a → ∀ x ∈ a.expr.symbols, Names ls x
  | .factor h => isFactor_symbols h
  | .add hleft _ hright => by
    refine names_append (isTerm_symbols hleft) (fun x hx => ?_) .add
    exact (isFactor_symbols hright x hx).mono (List.subset_cons_self _ _)
  | .sub hleft _ hright => by
    refine names_append (isTerm_symbols hleft) (fun x hx => ?_) .sub
    exact (isFactor_symbols hright x hx).mono (List.subset_cons_self _ _)

theorem isArgumentList_symbols {ls : List Lexeme} {es : List Expr} :
    IsArgumentList IsPrimary ls es → ∀ x ∈ Expr.symbolsOfEach es, Names ls x
  | .one h, x, hx => isTerm_symbols h x (by simpa [Expr.symbolsOfEach] using hx)
  | .more hfirst _ hlater, x, hx => by
    rw [Expr.symbolsOfEach] at hx
    rcases List.mem_append.mp hx with hx | hx
    · exact (isTerm_symbols hfirst x hx).mono (List.subset_append_left _ _)
    · refine (isArgumentList_symbols hlater x hx).mono fun l hl => ?_
      exact List.mem_append_right _ (List.mem_cons_of_mem _ hl)

theorem isArguments_symbols {ls : List Lexeme} {es : List Expr} :
    IsArguments IsPrimary ls es → ∀ x ∈ Expr.symbolsOfEach es, Names ls x
  | .none, x, hx => by simp [Expr.symbolsOfEach] at hx
  | .some h, x, hx => isArgumentList_symbols h x hx

end

end Grammar

end MathQuery
