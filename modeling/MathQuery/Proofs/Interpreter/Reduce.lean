import MathQuery.Interpreter
import MathQuery.Proofs.Algebra.Reading
import MathQuery.Proofs.Algebra.Reduction
import MathQuery.Proofs.Compilation

/-!
# Reducing by a query

Where the schema knows the query that reduces an expression, and nothing else, a query
passes through all stages: it is read and matched, the captured expression is compiled,
reduced and written, and what is written can be read again.

* `Registration.reduce` – the query that reduces an expression;
* `Trie.matchProgram_reduce` – what it captures;
* `Session.answer_reduce` – the answer, as a function of the term that is compiled;
* `Interpreter.run_reduce` – the answer reads as a term with the values of the expression.
-/

namespace MathQuery

open TermTable Grammar

/-! ## Matching -/

/-- The registration of the query that reduces an expression and answers with the result
alone. -/
def Registration.reduce (brief sample : String) : Registration :=
  ⟨"reduce \x7b0:expression\x7d", "\x7boutput\x7d", "reduce", brief, sample⟩

/-- The entry of that query. -/
def Entry.reduce (brief sample : String) : Entry :=
  ⟨"reduce", brief, sample, ⟨[.literal "reduce", .slot ⟨0, .expression⟩]⟩, ⟨[.output]⟩⟩

/-- What a slot that takes expressions captures: a word as a text. -/
def Expr.captured (e : Expr) : Value :=
  match e.word? with
  | some w => .text w
  | none => .expression e

namespace Trie

theorem ofRegistrations_reduce (brief sample : String) :
    ofRegistrations [.reduce brief sample] =
      .ok ⟨none, .word "reduce" none (.slot ⟨0, .expression⟩ (some (.reduce brief sample)) .none)
        .none⟩ := by
  have hpattern : Pattern.parse .query "reduce \x7b0:expression\x7d" =
      .ok ⟨[.literal "reduce", .slot ⟨0, .expression⟩]⟩ := rfl
  have htemplate : Pattern.parse .template "\x7boutput\x7d" = .ok ⟨[.output]⟩ := rfl
  have hentry : (Registration.reduce brief sample).entry = .ok (.reduce brief sample) := by
    rw [Registration.entry, Registration.reduce, hpattern, htemplate]
    rfl
  rw [ofRegistrations, List.foldlM_cons, register, hentry]
  rfl

/-- The query captures the term behind the word. -/
theorem matchProgram_reduce {schema : Trie} {brief sample : String}
    (hschema : ofRegistrations [.reduce brief sample] = .ok schema) (p : Position) (e : Expr) :
    schema.matchProgram ⟨[[[.symbol ⟨"reduce", p⟩, e]]]⟩ =
      .ok (some ⟨.reduce brief sample, ⟨[(0, e.captured)]⟩⟩) := by
  rw [ofRegistrations_reduce] at hschema
  obtain rfl := Except.ok.inj hschema
  cases e with
  | symbol name => rfl
  | number _ | binary _ _ _ | call _ _ => rfl

end Trie

/-! ## Answering -/

namespace Compiler

variable {base : TermTable}

/-- A captured expression is compiled like the expression. -/
theorem gives_value_captured (functions : FunctionTable) (e : Expr) :
    Gives base Stands (value functions e.captured) (e.term functions) := by
  cases e with
  | symbol name =>
    rw [Expr.term]
    exact gives_symbol name.text
  | number literal => exact gives_compile functions (.number literal)
  | binary op left right => exact gives_compile functions (.binary op left right)
  | call name arguments => exact gives_compile functions (.call name arguments)

end Compiler

/-- The operation issues the normal form of the captured expression. -/
theorem Operation.gives_execute_reduce {base : TermTable} {functions : FunctionTable} {e : Expr}
    {t : Term} (ht : e.term functions = .ok t) :
    Gives base Stands
      (OperationTable.standard.execute functions "reduce" ⟨[(0, e.captured)]⟩)
      (t.normalForm?.mapError .algebra) := by
  have hfind : OperationTable.standard.find? "reduce" =
      some (.direct "reduce" "Combine like terms and fold constants" oneExpression) := by
    decide +kernel
  have hreduce : Term.transformed "reduce" [t] = t.normalForm? := by
    rw [Term.transformed, if_pos (by decide)]
  have hvalue : Gives base Stands (Compiler.value functions e.captured) (.ok t) :=
    ht ▸ Compiler.gives_value_captured functions e
  -- the operation takes one operand, which is the captured one
  have hoperands : Gives base StandEach
      (operands functions (.direct "reduce" "Combine like terms and fold constants" oneExpression)
        ⟨[(0, e.captured)]⟩ 0 oneExpression) (.ok [t]) :=
    hvalue.bind_ok fun table handle _ hhandle =>
      gives_pure fun _ hextends => .cons (hhandle.mono hextends) .nil
  rw [OperationTable.execute, hfind, ← hreduce]
  exact hoperands.bind_ok fun table handles _ hhandles =>
    Compiler.gives_ofBuilder (Builder.gives_transform "reduce" hhandles)

/-- The answer to the query is the normal form as text, whatever was issued before. -/
theorem Session.answer_reduce {functions : FunctionTable} {e : Expr} {t n : Term}
    (ht : e.term functions = .ok t) (hn : t.normalForm? = .ok n) (style : Style)
    (brief sample : String) (table : TermTable) :
    ∃ later, answer .standard functions style
      ⟨.reduce brief sample, ⟨[(0, e.captured)]⟩⟩ table =
        .ok ⟨"reduce", n.render style⟩ later := by
  have hexecute : Gives .empty Stands (OperationTable.standard.execute functions "reduce" _) _ :=
    Operation.gives_execute_reduce ht
  rw [hn] at hexecute
  obtain ⟨handle, issued, hrun, -, hhandle⟩ := hexecute.exists_run (.refl .empty)
  have hclear : Compiler.ofBuilder .clear table = .ok () .empty := rfl
  have hrender := Builder.render_of_term style hhandle
  -- the template is the result alone
  have hpieces : Answer.pieces functions style "reduce" ⟨[(0, e.captured)]⟩ handle [.output]
      issued = .ok [n.render style] issued := by
    have hpiece : Answer.piece functions style "reduce" ⟨[(0, e.captured)]⟩ handle .output
        issued = .ok (some (n.render style)) issued := bind_of_ok hrender
    exact bind_of_ok hpiece
  have hformat : Answer.format functions style "reduce" ⟨[.output]⟩ ⟨[(0, e.captured)]⟩ handle
      issued = .ok (n.render style) issued := by
    refine (bind_of_ok hpieces).trans ?_
    rw [String.intercalate_singleton]
    rfl
  refine ⟨issued, (bind_of_ok hclear).trans ((bind_of_ok hrun).trans ?_)⟩
  exact bind_of_ok hformat

/-- A query that is matched is answered from the captured arguments. -/
theorem Session.run_of_match {s : Session} {operations : OperationTable} {style : Style}
    {query : String} {program : Program} {m : Match} {reply : Reply} {later : TermTable}
    (hparse : parse query = .ok program)
    (hmatch : s.schema.matchProgram program = .ok (some m))
    (hanswer : answer operations s.functions style m s.table = .ok reply later) :
    s.run operations style query = (.ok (some reply), { s with table := later }) := by
  rw [run, hparse]
  dsimp only
  rw [hmatch]
  dsimp only
  rw [hanswer]

/-! ## The answer as a query -/

section Answer

variable {source : String} {first last : Lexeme} {ls : List Lexeme} {a : Operand}
  {functions : FunctionTable} {t : Term} {p : Polynomial}

/-- An equation that denotes a polynomial is a term. -/
theorem isTerm_of_polynomial? (h : IsEquation ls a) (ht : a.expr.term functions = .ok t)
    (hp : t.polynomial? = .ok (some p)) : IsTerm IsPrimary ls a := by
  cases h with
  | term h => exact h
  | equal _ _ _ =>
    -- the two sides of an equation make up no polynomial
    obtain ⟨l, r, -, -, rfl⟩ := Expr.term_binary_eq_ok ht
    obtain ⟨_, _, -, -, hcombine⟩ := Term.polynomial?_operation_eq_some hp
    simp [combine] at hcombine

/-- The symbols of a polynomial that a query denotes are identifiers. -/
theorem legible_of_term (hreads : Lexeme.Reads (.ofString source) ls last)
    (h : IsTerm IsPrimary ls a) (hcalls : a.expr.CallFree) (ht : a.expr.term functions = .ok t)
    (hp : t.polynomial? = .ok (some p)) : p.Legible := by
  obtain ⟨middle, after, hscans, -⟩ := hreads
  refine (Term.symbolsIn_of_polynomial? hp).mono fun x hx => ?_
  have hx : x ∈ a.expr.symbols := Expr.symbols_of_term hcalls ht ▸ hx
  obtain ⟨l, hl, hkind, rfl⟩ := isTerm_symbols h x hx
  exact hscans.isWord l hl hkind

end Answer

namespace Interpreter

/-- The query `reduce` gives the value of its expression back, as text.  Of a text that is
read as one term, begins like one without a sign, calls no function and denotes a
polynomial, the answer is read as one term again, and it has the same value whatever the
values of the symbols are.  Nothing depends on the functions of the session and on what was
issued before. -/
theorem run_reduce {i : Interpreter} {s : Session} {brief sample source : String}
    {program : Program} {e : Expr} {first : Lexeme} {ls : List Lexeme} {table later : TermTable}
    {handle : Handle} {t : Term} {p : Polynomial} (hsession : i.session = some s)
    (hoperations : i.operations = .standard) (hstyle : i.style = .plain)
    (hschema : Trie.ofRegistrations [.reduce brief sample] = .ok s.schema)
    (hparse : parse source = .ok program) (hterms : program.terms = [e]) (hcalls : e.CallFree)
    (htokens : tokenize source = .ok (first :: ls)) (hfirst : BeginsPrimary first.kind)
    (hcompile : Compiler.compile s.functions e table = .ok handle later)
    (hterm : later.term handle = .ok t) (hp : t.polynomial? = .ok (some p)) :
    ∃ reply e', (i.run ("reduce " ++ source)).1 = .ok (some reply) ∧
      parse reply.output = .ok ⟨[[[e']]]⟩ ∧
        ∀ M : Interpretation, M.Lawful → ∀ σ, e'.value M σ = e.value M σ := by
  -- the lexemes of the text, of which there is one before the end
  obtain ⟨ks, last, heq, hreads⟩ := tokenize_eq_ok_iff.mp htokens
  obtain ⟨ks, rfl⟩ : ∃ ks', ks = first :: ks' := by
    cases ks with
    | nil =>
      obtain ⟨after, -, hend⟩ := Lexeme.reads_nil_iff.mp hreads
      obtain ⟨rfl, -⟩ := List.cons.inj heq
      rw [hend] at hfirst
      exact absurd hfirst (by decide)
    | cons l ks => exact ⟨ks, by rw [(List.cons.inj heq).1]⟩
  -- they make up the one term, which has the compiled term
  have hprogram := (parse_eq_ok_iff_isProgram hreads program).mp hparse
  obtain ⟨a, hequation, rfl⟩ := isEquation_of_terms hprogram hterms
  obtain ⟨t', ht, -, hissued⟩ :=
    (Compiler.gives_compile s.functions a.expr).of_run (.refl table) hcompile
  obtain rfl : t' = t := Except.ok.inj (hissued.symm.trans hterm)
  have hisTerm := isTerm_of_polynomial? hequation ht hp
  -- the query is read as a word and the same term further on
  have hword : IsWord "reduce".toList := .mk rfl (List.all_eq_true.mp rfl)
  obtain ⟨f, hquery⟩ := parse_word_append hword hreads hisTerm hfirst
  rw [show "reduce" ++ " " = "reduce " from rfl] at hquery
  have hmatch := Trie.matchProgram_reduce hschema .start (a.expr.relocate f)
  have hmoved : (a.expr.relocate f).term s.functions = .ok t' := by
    rw [Expr.term_relocate, ht]
  obtain ⟨issued, hanswer⟩ := Session.answer_reduce hmoved (Term.normalForm?_of_polynomial? hp)
    .plain brief sample s.table
  -- the answer spells an expression with the values of the polynomial
  have hlegible := legible_of_term hreads hisTerm hcalls ht hp
  obtain ⟨e', houtput, he'⟩ := (Polynomial.spells_toTerm hlegible).parse_eq_ok
  refine ⟨⟨"reduce", p.toTerm.render .plain⟩, e', ?_, houtput, fun M hM σ => ?_⟩
  · rw [Interpreter.run, hsession, hoperations, hstyle]
    dsimp only
    rw [Session.run_of_match hquery hmatch hanswer]
  · calc e'.value M σ = p.toExpr.value M σ := by rw [← he', Expr.value_unplaced]
      _ = p.value σ := p.value_toExpr hM
      _ = t'.value M σ := (Term.value_of_polynomial? hM σ hp).symm
      _ = a.expr.value M σ := Expr.value_of_term σ hcalls ht

/-- The answer to the query `reduce 2x - (x + 1)/2` has the value of that difference. -/
theorem run_reduce_of_difference :
    let i := (Interpreter.standard.setUp ⟨[.reduce "Reduce an expression" ""], []⟩).2
    let x (column : ℕ) := Expr.symbol ⟨"x", ⟨1, column⟩⟩
    let n (literal : String) (column : ℕ) := Expr.number ⟨literal, ⟨1, column⟩⟩
    let e := Expr.binary .sub (.binary .mul (n "2" 1) (x 2))
      (.binary .div (.binary .add (x 7) (n "1" 11)) (n "2" 14))
    parse "2x - (x + 1)/2" = .ok ⟨[[[e]]]⟩ ∧
      ∃ reply e', (i.run ("reduce " ++ "2x - (x + 1)/2")).1 = .ok (some reply) ∧
        parse reply.output = .ok ⟨[[[e']]]⟩ ∧
          ∀ M : Interpretation, M.Lawful → ∀ σ, e'.value M σ = e.value M σ := by
  intro i x n e
  obtain ⟨schema, hschema⟩ : ∃ schema, Trie.ofRegistrations [.reduce "Reduce an expression" ""] =
      .ok schema := ⟨_, Trie.ofRegistrations_reduce _ _⟩
  have hi : i = { standard with session := some ⟨schema, .standard, .empty⟩ } := by
    simp only [i, setUp, Session.ofConfig, hschema]
    rfl
  have hparse : parse "2x - (x + 1)/2" = .ok ⟨[[[e]]]⟩ := by decide +kernel
  obtain ⟨ls, htokens⟩ : ∃ ls, tokenize "2x - (x + 1)/2" =
      .ok (⟨⟨⟨"2", ⟨1, 1⟩⟩, .number⟩, false⟩ :: ls) := ⟨_, rfl⟩
  have hcalls : e.CallFree :=
    .binary (.binary (.number _) (.symbol _))
      (.binary (.binary (.symbol _) (.number _)) (.number _))
  let t := Term.operation .sub (.operation .mul (.number 2) (.symbol "x"))
    (.operation .div (.operation .add (.symbol "x") (.number 1)) (.number 2))
  obtain ⟨handle, later, hcompile, hterm⟩ : ∃ handle later,
      Compiler.compile .standard e .empty = .ok handle later ∧ later.term handle = .ok t :=
    ⟨_, _, rfl, rfl⟩
  have hp : t.polynomial? = .ok (some ⟨[([], -1/2), ([("x", 1)], 3/2)]⟩) := by decide +kernel
  rw [hi]
  exact ⟨hparse, run_reduce rfl rfl rfl hschema hparse rfl hcalls htokens (by decide) hcompile
    hterm hp⟩

end Interpreter

end MathQuery
