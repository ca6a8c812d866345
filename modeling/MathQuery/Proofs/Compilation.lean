import MathQuery.Compile
import MathQuery.Proofs.Algebra.Transformation
import MathQuery.Proofs.Query.Arithmetic

/-!
# What compiling an expression gives

Compiling an expression issues a term that the expression determines, whatever the
table of terms is.

* `Expr.term` – the term of an expression, or the failure to compile it;
* `Compiler.gives_compile` – compiling issues that term and only adds to the table;
* `Expr.term_relocate` – the term does not depend on places;
* `Expr.value_of_term`, `Expr.symbols_of_term` – the term of an expression that calls no
  function has its value and its symbols.
-/

namespace MathQuery

namespace Expr

/-- The number that a literal stands for. -/
def literalTerm (literal : String) : Except Failure Term :=
  match rational? literal with
  | some value => .ok (.number value)
  | none => .error (.algebra (.invalidArgument s!"'{literal}' is not a number"))

/-- The symbol of a name, which must not be empty. -/
def symbolTerm (name : String) : Except Failure Term :=
  if name.isEmpty then .error (.algebra (.invalidArgument "empty symbol name"))
  else .ok (.symbol name)

mutual

/-- The term of an expression, or the failure to compile it. -/
def term (functions : FunctionTable) : Expr → Except Failure Term
  | number literal => literalTerm literal.text
  | symbol name => symbolTerm name.text
  | binary op left right => do
    let l ← left.term functions
    let r ← right.term functions
    .ok (.operation op l r)
  | call name arguments => do
    let definition ← (functions.resolve name.text arguments).mapError .dispatch
    let args ← terms functions arguments
    (Term.transformed definition.transformation args).mapError .algebra

/-- The terms of several expressions. -/
def terms (functions : FunctionTable) : List Expr → Except Failure (List Term)
  | [] => .ok []
  | e :: es => do
    let first ← e.term functions
    let later ← terms functions es
    .ok (first :: later)

end

end Expr

/-! ## Compiling -/

open TermTable

namespace Compiler

variable {base : TermTable} {α β : Type} {R : TermTable → α → β → Prop}

theorem gives_ofBuilder {builder : Builder α} {result : Except AlgebraError β}
    (h : Gives base R builder result) :
    Gives base R (ofBuilder builder) (result.mapError .algebra) := by
  intro table hbase
  have hrun := h table hbase
  rw [ofBuilder]
  generalize builder table = run at hrun
  cases hrun with
  | ok hextends hR => exact .ok hextends hR
  | error hextends => exact .error hextends

theorem gives_ofDispatch (result : Except DispatchError α) :
    Gives base (fun _ a b => a = b) (ofDispatch result) (result.mapError .dispatch) := by
  cases result with
  | ok value => exact gives_pure fun _ _ => rfl
  | error e => exact gives_throw _

theorem gives_number (literal : String) :
    Gives base Stands (ofBuilder (.number literal)) (Expr.literalTerm literal) := by
  rw [Builder.number.eq_def, Expr.literalTerm]
  cases rational? literal with
  | none => exact gives_ofBuilder (gives_throw _)
  | some value => exact gives_ofBuilder (Builder.gives_handle (Builder.gives_issue (.number value)))

theorem gives_symbol (name : String) :
    Gives base Stands (ofBuilder (.symbol name)) (Expr.symbolTerm name) := by
  rw [Builder.symbol, Expr.symbolTerm]
  split
  · exact gives_ofBuilder (gives_throw _)
  · exact gives_ofBuilder (Builder.gives_handle (Builder.gives_issue (.symbol name)))

mutual

/-- Compiling an expression issues its term, or fails as that does. -/
theorem gives_compile (functions : FunctionTable) {base : TermTable} :
    (e : Expr) → Gives base Stands (compile functions e) (e.term functions)
  | .number literal => by
    rw [compile, Expr.term]
    exact gives_number literal.text
  | .symbol name => by
    rw [compile, Expr.term]
    exact gives_symbol name.text
  | .binary op left right => by
    rw [compile, Expr.term]
    refine (gives_compile functions left).bind fun table l a _ _ hl => ?_
    -- the right operand only adds to the table, so the left one stands in it
    refine (gives_compile functions right).bind fun table r b _ htable hr => ?_
    exact gives_ofBuilder (Builder.gives_apply op (hl.mono htable) hr)
  | .call name arguments => by
    rw [compile, Expr.term]
    refine (gives_ofDispatch _).bind fun table definition definition' _ _ hdefinition => ?_
    subst hdefinition
    refine (gives_compileEach functions arguments).bind fun table handles ts _ _ hts => ?_
    exact gives_ofBuilder (Builder.gives_transform definition.transformation hts)

/-- The same for several expressions. -/
theorem gives_compileEach (functions : FunctionTable) {base : TermTable} :
    (es : List Expr) → Gives base StandEach (compileEach functions es) (Expr.terms functions es)
  | [] => by
    rw [compileEach, Expr.terms]
    exact gives_pure fun _ _ => .nil
  | e :: es => by
    rw [compileEach, Expr.terms]
    refine (gives_compile functions e).bind fun table first t _ _ hfirst => ?_
    refine (gives_compileEach functions es).bind fun table later ts _ htable hlater => ?_
    exact gives_pure fun table' htable' =>
      .cons ((hfirst.mono htable).mono htable') (hlater.mono htable')

end

end Compiler

/-! ## The term of an expression -/

theorem ArgumentType.accepts_relocate (type : ArgumentType) (f : Position → Position) (e : Expr) :
    type.accepts (e.relocate f) = type.accepts e := by
  cases type <;> cases e <;> rfl

namespace Expr

theorem length_relocateEach (f : Position → Position) (es : List Expr) :
    (relocateEach f es).length = es.length := by
  induction es with
  | nil => rfl
  | cons e es ih => rw [relocateEach, List.length_cons, ih, List.length_cons]

end Expr

namespace FunctionTable

theorem mismatch?_relocateEach (f : Position → Position) (index : ℕ) (types : List ArgumentType)
    (es : List Expr) :
    mismatch? index types (Expr.relocateEach f es) = mismatch? index types es := by
  induction types generalizing index es with
  | nil => rw [mismatch?, mismatch?] <;> exact nofun
  | cons type types ih =>
    cases es with
    | nil => rw [Expr.relocateEach]
    | cons e es => rw [Expr.relocateEach, mismatch?, mismatch?, type.accepts_relocate, ih]

theorem resolve_relocateEach (f : Position → Position) (table : FunctionTable) (name : String)
    (es : List Expr) : table.resolve name (Expr.relocateEach f es) = table.resolve name es := by
  simp only [resolve, Expr.length_relocateEach, mismatch?_relocateEach]

end FunctionTable

namespace Expr

variable {functions : FunctionTable}

mutual

/-- The term of an expression does not depend on the places of its leaves. -/
theorem term_relocate (f : Position → Position) :
    (e : Expr) → (e.relocate f).term functions = e.term functions
  | number _ => by rw [relocate, term, term, Spelling.relocate]
  | symbol _ => by rw [relocate, term, term, Spelling.relocate]
  | binary op left right => by
    rw [relocate, term, term, term_relocate f left, term_relocate f right]
  | call name arguments => by
    rw [relocate, term, term, terms_relocateEach f arguments, Spelling.relocate,
      FunctionTable.resolve_relocateEach]

theorem terms_relocateEach (f : Position → Position) :
    (es : List Expr) → terms functions (relocateEach f es) = terms functions es
  | [] => by rw [relocateEach]
  | e :: es => by
    rw [relocateEach, terms, terms, term_relocate f e, terms_relocateEach f es]

end

/-- The term of an operation is that operation on the terms of the operands. -/
theorem term_binary_eq_ok {op : BinaryOp} {left right : Expr} {t : Term}
    (h : (binary op left right).term functions = .ok t) :
    ∃ l r, left.term functions = .ok l ∧ right.term functions = .ok r ∧
      t = .operation op l r := by
  rw [term] at h
  obtain ⟨l, hl, h⟩ := Except.bind_eq_ok.mp h
  obtain ⟨r, hr, h⟩ := Except.bind_eq_ok.mp h
  exact ⟨l, r, hl, hr, (Except.ok.inj h).symm⟩

theorem literalTerm_eq_ok {literal : String} {t : Term} (h : literalTerm literal = .ok t) :
    ∃ value, rational? literal = some value ∧ t = .number value := by
  rw [literalTerm] at h
  cases hvalue : rational? literal with
  | none => simp [hvalue] at h
  | some value => exact ⟨value, rfl, by simpa [hvalue, eq_comm] using h⟩

theorem symbolTerm_eq_ok {name : String} {t : Term} (h : symbolTerm name = .ok t) :
    t = .symbol name := by
  rw [symbolTerm] at h
  split at h
  · contradiction
  · exact (Except.ok.inj h).symm

/-- An expression that calls no function has the values of its term. -/
theorem value_of_term {M : Interpretation} (σ : String → ℚ) {e : Expr} {t : Term}
    (he : e.CallFree) (h : e.term functions = .ok t) : t.value M σ = e.value M σ := by
  induction he generalizing t with
  | number literal =>
    obtain ⟨v, hv, rfl⟩ := literalTerm_eq_ok h
    rw [value, hv, Option.getD_some, Term.value]
  | symbol name =>
    obtain rfl := symbolTerm_eq_ok h
    rw [value, Term.value]
  | binary _ _ ihl ihr =>
    obtain ⟨l, r, hl, hr, rfl⟩ := term_binary_eq_ok h
    rw [value, Term.value, ihl hl, ihr hr]

/-- An expression that calls no function has the symbols of its term. -/
theorem symbols_of_term {e : Expr} {t : Term} (he : e.CallFree)
    (h : e.term functions = .ok t) : t.symbols = e.symbols := by
  induction he generalizing t with
  | number literal =>
    obtain ⟨v, -, rfl⟩ := literalTerm_eq_ok h
    rw [symbols, Term.symbols]
  | symbol name =>
    obtain rfl := symbolTerm_eq_ok h
    rw [symbols, Term.symbols]
  | binary _ _ ihl ihr =>
    obtain ⟨l, r, hl, hr, rfl⟩ := term_binary_eq_ok h
    rw [symbols, Term.symbols, ihl hl, ihr hr]

end Expr

end MathQuery
