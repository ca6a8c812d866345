import MathQuery.Proofs.Algebra.Decimal
import MathQuery.Proofs.Algebra.Origin
import MathQuery.Proofs.Arena.Discipline
import MathQuery.Proofs.Compilation
import MathQuery.Proofs.Query.Legibility

/-!
# Calls in what is compiled

The calls of an expression are checked from left to right, a call before the calls in its
arguments.  If all of them are found in the table of functions and their arguments are taken,
then compiling succeeds and its term is the expression part by part.  Otherwise compiling fails
as the first call does that is not, whatever else is in the expression.

* `Expr.calls` – the calls of an expression in this order;
* `Call.Resolves`, `Call.resolve_eq_ok_iff` – when a call is found and its arguments are taken;
* `Expr.Becomes` – a term is an expression part by part;
* `Expr.Outcome`, `Expr.Legible.outcome` – the two ways in which an expression is compiled;
* `compile_mirrors` – the same of compiling in every table of terms and in every arena.
-/

namespace MathQuery

/-! ## Calls -/

/-- A call of a function, as it is written. -/
structure Call where
  name : String
  arguments : List Expr

namespace Expr

mutual

/-- The calls in an expression, from left to right, a call before those in its arguments. -/
def calls : Expr → List Call
  | number _ => []
  | symbol _ => []
  | binary _ left right => left.calls ++ right.calls
  | call name arguments => ⟨name.text, arguments⟩ :: callsEach arguments

/-- The calls in several expressions, in order. -/
def callsEach : List Expr → List Call
  | [] => []
  | e :: es => e.calls ++ callsEach es

end

end Expr

/-- What a parameter takes: any expression, an identifier where a text is asked for, and the
digits of a number where an integer is. -/
inductive ArgumentType.Takes : ArgumentType → Expr → Prop
  | expression (e : Expr) : Takes .expression e
  | text (name : Spelling) : Takes .text (.symbol name)
  | integer {literal : Spelling} (hne : literal.text.toList ≠ [])
    (hdigits : IsDigits literal.text.toList) : Takes .integer (.number literal)

/-- A call is one of a function of the table, if case is ignored in its name, and the function
has a parameter for each argument that takes it. -/
structure Call.Resolves (functions : FunctionTable) (c : Call) (d : FunctionDefinition) :
    Prop where
  known : functions.entries.lookup (lowerCase c.name) = some d
  taken : List.Forall₂ ArgumentType.Takes d.parameters c.arguments

/-- A call is one of some function of the table. -/
def Call.Resolvable (functions : FunctionTable) (c : Call) : Prop :=
  ∃ d, c.Resolves functions d

/-- A number of a query has a point or is nothing but digits. -/
theorem IsNumeral.isDigits_iff {cs : List Char} (h : IsNumeral cs) :
    IsDigits cs ↔ '.' ∉ cs := by
  have hpoint : ¬ ('.' : Char).isDigit = true := by decide
  cases h with
  | whole _ hds => exact iff_of_true hds fun hmem => hpoint (hds '.' hmem)
  | decimal _ _ _ =>
    exact iff_of_false (fun hds => hpoint (hds '.' (by simp))) (by simp)

theorem IsNumeral.ne_nil {cs : List Char} (h : IsNumeral cs) : cs ≠ [] := by
  cases h with
  | whole hne _ => exact hne
  | decimal _ _ _ => simp

/-- Of the expressions that are read, a parameter accepts those that it takes. -/
theorem ArgumentType.accepts_iff_takes {type : ArgumentType} {e : Expr} (he : e.Legible) :
    type.accepts e = true ↔ type.Takes e := by
  cases type with
  | expression => exact iff_of_true rfl (.expression e)
  | text =>
    cases he with
    | symbol _ => exact iff_of_true rfl (.text _)
    | number _ | negative _ _ | binary _ _ _ | call _ _ => exact iff_of_false nofun nofun
  | integer =>
    cases he with
    | @number literal h =>
      rw [accepts, Bool.not_eq_true', List.contains_eq_mem, decide_eq_false_iff_not,
        ← h.isDigits_iff]
      refine ⟨.integer h.ne_nil, fun htakes => ?_⟩
      cases htakes with
      | integer _ hdigits => exact hdigits
    | symbol _ | negative _ _ | binary _ _ _ | call _ _ => exact iff_of_false nofun nofun

namespace FunctionTable

theorem mismatch?_eq_none_iff {types : List ArgumentType} {es : List Expr}
    (hlength : types.length = es.length) (index : ℕ) :
    mismatch? index types es = none ↔
      List.Forall₂ (fun type e => type.accepts e = true) types es := by
  induction types generalizing es index with
  | nil =>
    obtain rfl := List.length_eq_zero_iff.mp hlength.symm
    exact iff_of_true rfl .nil
  | cons type types ih =>
    obtain ⟨e, es, rfl⟩ := List.exists_cons_of_length_eq_add_one hlength.symm
    rw [mismatch?, List.forall₂_cons, ← ih (Nat.succ.inj hlength) (index + 1)]
    split
    · next haccepts => exact (and_iff_right haccepts).symm
    · next hrefuses => exact iff_of_false (by simp) fun h => hrefuses h.1

/-- Looking up succeeds with what is found under the name, if its parameters are as many as the
arguments and accept them. -/
theorem resolve_eq_ok_iff {functions : FunctionTable} {name : String} {arguments : List Expr}
    {d : FunctionDefinition} :
    functions.resolve name arguments = .ok d ↔ functions.find? name = some d ∧
      List.Forall₂ (fun type e => type.accepts e = true) d.parameters arguments := by
  rw [resolve]
  cases functions.find? name with
  | none => simp
  | some definition =>
    dsimp only
    rw [Option.some_inj]
    split
    · next hlength =>
      refine iff_of_false (by simp) ?_
      rintro ⟨rfl, haccepts⟩
      exact hlength haccepts.length_eq
    · next hlength =>
      have hnone := mismatch?_eq_none_iff (not_not.mp hlength) 0
      split
      · next hmismatch =>
        refine iff_of_false (by simp) ?_
        rintro ⟨rfl, haccepts⟩
        simp [hnone.mpr haccepts] at hmismatch
      · next hmatch =>
        rw [Except.ok.injEq]
        refine (and_iff_left_of_imp ?_).symm
        rintro rfl
        exact hnone.mp hmatch

end FunctionTable

theorem forall₂_accepts_iff {types : List ArgumentType} {es : List Expr}
    (hes : ∀ e ∈ es, e.Legible) :
    List.Forall₂ (fun type e => type.accepts e = true) types es ↔
      List.Forall₂ ArgumentType.Takes types es := by
  induction es generalizing types with
  | nil => simp only [List.forall₂_nil_right_iff]
  | cons e es ih =>
    obtain ⟨he, hlater⟩ := List.forall_mem_cons.mp hes
    simp only [List.forall₂_cons_right_iff, ArgumentType.accepts_iff_takes he, ih hlater]

/-- Looking a call up succeeds exactly for the calls of functions of the table. -/
theorem Call.resolve_eq_ok_iff {functions : FunctionTable} {c : Call} {d : FunctionDefinition}
    (hlegible : ∀ a ∈ c.arguments, a.Legible) :
    functions.resolve c.name c.arguments = .ok d ↔ c.Resolves functions d := by
  rw [FunctionTable.resolve_eq_ok_iff, forall₂_accepts_iff hlegible]
  constructor
  · rintro ⟨hfind, htaken⟩
    exact ⟨hfind, htaken⟩
  · rintro ⟨hknown, htaken⟩
    exact ⟨hknown, htaken⟩

/-! ## Terms -/

/-- A term is an expression part by part: a literal is replaced by its value, an operator is
kept, and a call is replaced by the transformation to which its function is bound. -/
inductive Expr.Becomes (functions : FunctionTable) : Expr → Term → Prop
  | number {literal : Spelling} {q : ℚ} (h : Literal literal.text.toList q) :
    Becomes functions (.number literal) (.number q)
  | symbol (name : Spelling) : Becomes functions (.symbol name) (.symbol name.text)
  | operation (op : BinaryOp) {left right : Expr} {l r : Term} (hl : Becomes functions left l)
    (hr : Becomes functions right r) :
    Becomes functions (.binary op left right) (.operation op l r)
  | application {name : Spelling} {arguments : List Expr} {d : FunctionDefinition}
    {ts : List Term} (hd : functions.entries.lookup (lowerCase name.text) = some d)
    (h : List.Forall₂ (Becomes functions) arguments ts) :
    Becomes functions (.call name arguments) (.application d.transformation ts)

theorem FunctionTable.mem_values_of_find? {functions : FunctionTable} {name : String}
    {d : FunctionDefinition} (h : functions.find? name = some d) : d ∈ functions.values := by
  obtain ⟨before, after, hentries, -⟩ := List.lookup_eq_some_iff.mp h
  unfold Catalogue.values
  rw [hentries]
  simp

/-- Every function is bound to an elementary one with as many arguments. -/
def FunctionTable.Elementary (functions : FunctionTable) : Prop :=
  ∀ d ∈ functions.values, (d.transformation, d.parameters.length) ∈ Builder.elementary

/-- The standard functions are elementary. -/
theorem FunctionTable.elementary_standard : standard.Elementary := by
  have hall : ∀ d ∈ standard.values, (d.transformation, d.parameters.length) ∈
      Builder.elementary := by decide +kernel
  exact hall

/-- An elementary function stays symbolic. -/
theorem Term.transformed_of_mem_elementary {name : String} {ts : List Term}
    (h : (name, ts.length) ∈ Builder.elementary) :
    transformed name ts = .ok (.application name ts) := by
  have hall : ∀ f ∈ Builder.elementary, f.1 ∉ ["reduce", "expand", "simplify"] ∧
      f.1 ∉ ["derivative", "diff"] ∧ Builder.elementary.lookup f.1 = some f.2 := by
    decide +kernel
  obtain ⟨hreduce, hderivative, hlookup⟩ := hall _ h
  unfold transformed
  rw [if_neg hreduce, if_neg hderivative, hlookup]
  exact if_pos rfl

namespace Expr

variable {functions : FunctionTable}

/-- How expressions are compiled that contain some calls: all calls are resolvable and the
result is related to the expressions, or the failure is that of the first call which is not. -/
inductive Outcome {α : Type} (functions : FunctionTable) (calls : List Call) (R : α → Prop) :
    Except Failure α → Prop
  | compiled {a : α} (hcalls : ∀ c ∈ calls, c.Resolvable functions) (hR : R a) :
    Outcome functions calls R (.ok a)
  | refused (before after : List Call) (c : Call) {e : DispatchError}
    (hcalls : calls = before ++ c :: after) (hbefore : ∀ b ∈ before, b.Resolvable functions)
    (hc : ¬ c.Resolvable functions) (he : functions.resolve c.name c.arguments = .error e) :
    Outcome functions calls R (.error (.dispatch e))

/-- What is compiled later has its calls later. -/
theorem Outcome.bind {α β : Type} {calls later : List Call} {R : α → Prop} {S : β → Prop}
    {x : Except Failure α} {next : α → Except Failure β} (h : Outcome functions calls R x)
    (hnext : ∀ a, R a → Outcome functions later S (next a)) :
    Outcome functions (calls ++ later) S (x >>= next) := by
  cases h with
  | @compiled a hcalls hR =>
    have hlater := hnext a hR
    rw [show ((.ok a : Except Failure α) >>= next) = next a from rfl]
    generalize next a = result at hlater
    cases hlater with
    | compiled hcalls' hS => exact .compiled (List.forall_mem_append.mpr ⟨hcalls, hcalls'⟩) hS
    | refused before after c hsplit hbefore hc he =>
      refine .refused (calls ++ before) after c ?_ ?_ hc he
      · rw [hsplit, List.append_assoc]
      · exact List.forall_mem_append.mpr ⟨hcalls, hbefore⟩
  | refused before after c hsplit hbefore hc he =>
    refine .refused before (after ++ later) c ?_ hbefore hc he
    rw [hsplit, List.append_assoc, List.cons_append]

/-- A last step that succeeds has no calls of its own. -/
theorem Outcome.bind_ok {α β : Type} {calls : List Call} {R : α → Prop} {S : β → Prop}
    {x : Except Failure α} {next : α → Except Failure β} (h : Outcome functions calls R x)
    (hnext : ∀ a, R a → ∃ b, next a = .ok b ∧ S b) :
    Outcome functions calls S (x >>= next) := by
  have hbind : Outcome functions (calls ++ []) S (x >>= next) := by
    refine h.bind fun a ha => ?_
    obtain ⟨b, hb, hS⟩ := hnext a ha
    rw [hb]
    exact .compiled (List.forall_mem_nil _) hS
  rwa [List.append_nil] at hbind

/-- If each expression is compiled in one of the two ways, then so are several in order. -/
theorem outcome_terms {es : List Expr}
    (h : ∀ e ∈ es, Outcome functions e.calls (e.Becomes functions) (e.term functions)) :
    Outcome functions (callsEach es) (List.Forall₂ (Becomes functions) es)
      (terms functions es) := by
  induction es with
  | nil =>
    rw [callsEach, terms]
    exact .compiled (List.forall_mem_nil _) .nil
  | cons e es ih =>
    obtain ⟨hfirst, hlater⟩ := List.forall_mem_cons.mp h
    rw [callsEach, terms]
    exact hfirst.bind fun _ ht => (ih hlater).bind_ok fun _ hts => ⟨_, rfl, .cons ht hts⟩

/-- The operands of an operator are compiled in order. -/
theorem outcome_binary (op : BinaryOp) {left right : Expr}
    (hl : Outcome functions left.calls (left.Becomes functions) (left.term functions))
    (hr : Outcome functions right.calls (right.Becomes functions) (right.term functions)) :
    Outcome functions (binary op left right).calls ((binary op left right).Becomes functions)
      ((binary op left right).term functions) := by
  rw [calls, term]
  exact hl.bind fun _ hleft => hr.bind_ok fun _ hright => ⟨_, rfl, .operation op hleft hright⟩

theorem outcome_number (literal : Spelling) {q : ℚ} (h : Literal literal.text.toList q) :
    Outcome functions (number literal).calls ((number literal).Becomes functions)
      ((number literal).term functions) := by
  rw [calls, term, literalTerm, rational?_eq_some_iff.mpr h]
  exact .compiled (List.forall_mem_nil _) (.number h)

/-- A call is looked up before its arguments are compiled. -/
theorem outcome_call (hfunctions : functions.Elementary) {name : Spelling} {arguments : List Expr}
    (harguments : ∀ a ∈ arguments, a.Legible)
    (h : ∀ a ∈ arguments, Outcome functions a.calls (a.Becomes functions) (a.term functions)) :
    Outcome functions (call name arguments).calls ((call name arguments).Becomes functions)
      ((call name arguments).term functions) := by
  rw [calls, term]
  have hiff (d : FunctionDefinition) : functions.resolve name.text arguments = .ok d ↔ _ :=
    Call.resolve_eq_ok_iff (c := ⟨name.text, arguments⟩) harguments
  cases hresolve : functions.resolve name.text arguments with
  | error e =>
    -- its own call comes before all calls in its arguments
    refine .refused [] _ ⟨name.text, arguments⟩ rfl (List.forall_mem_nil _) ?_ hresolve
    rintro ⟨d, hd⟩
    simpa using hresolve.symm.trans ((hiff d).mpr hd)
  | ok d =>
    have hresolves := (hiff d).mp hresolve
    have hmem : (d.transformation, arguments.length) ∈ Builder.elementary := by
      have hd := hfunctions d (FunctionTable.mem_values_of_find? hresolves.known)
      rwa [hresolves.taken.length_eq] at hd
    have hcall : Outcome functions [⟨name.text, arguments⟩] (· = d) (.ok d) :=
      .compiled (List.forall_mem_singleton.mpr ⟨d, hresolves⟩) rfl
    refine hcall.bind fun _ hd => ?_
    subst hd
    refine (outcome_terms h).bind_ok fun ts hts => ?_
    rw [hts.length_eq] at hmem
    rw [Term.transformed_of_mem_elementary hmem]
    exact ⟨_, rfl, .application hresolves.known hts⟩

/-- The calls of an expression that is read decide how it is compiled. -/
theorem Legible.outcome (hfunctions : functions.Elementary) {e : Expr} (he : e.Legible) :
    Outcome functions e.calls (e.Becomes functions) (e.term functions) := by
  induction he with
  | number h =>
    obtain ⟨q, hq⟩ := h.exists_decimal
    exact outcome_number _ (.unsigned hq)
  | @symbol name h =>
    have hne : ¬ name.text.isEmpty = true := by
      intro hempty
      rw [String.isEmpty_iff.mp hempty] at h
      cases h
    rw [calls, term, symbolTerm, if_neg hne]
    exact .compiled (List.forall_mem_nil _) (.symbol name)
  | negative sign _ ih =>
    have hminus : Literal "-1".toList (-1) := rational?_eq_some_iff.mp (by decide +kernel)
    exact outcome_binary .mul (outcome_number ⟨"-1", sign⟩ hminus) ih
  | @binary op _ _ _ _ _ ihl ihr => exact outcome_binary op ihl ihr
  | call _ harguments ih => exact outcome_call hfunctions harguments ih

theorem LegibleEquation.outcome (hfunctions : functions.Elementary) {e : Expr}
    (he : e.LegibleEquation) :
    Outcome functions e.calls (e.Becomes functions) (e.term functions) := by
  cases he with
  | term h => exact h.outcome hfunctions
  | equal hl hr => exact outcome_binary .equal (hl.outcome hfunctions) (hr.outcome hfunctions)

/-! ## Compiling -/

/-- Wherever compiling starts, it ends with a handle of the term: in every table of terms, and in
every arena that requests leave.  What was there before stays under its handles. -/
structure CompilesTo (functions : FunctionTable) (e : Expr) (t : Term) : Prop where
  table : ∀ table, ∃ handle later, Compiler.compile functions e table = .ok handle later ∧
    later.Extends table ∧ later.term handle = .ok t
  arena : ∀ history : List Request, let arena := Arena.empty.afterAll history
    ∃ handle later, ArenaCompiler.compile functions e arena = .ok handle later ∧
      later.Extends arena ∧ later.Denotes handle t

/-- Wherever compiling starts, it ends in the failure, and what was there before stays. -/
structure CompileFails (functions : FunctionTable) (e : Expr) (failure : Failure) : Prop where
  table : ∀ table, ∃ later, Compiler.compile functions e table = .error failure later ∧
    later.Extends table
  arena : ∀ history : List Request, let arena := Arena.empty.afterAll history
    ∃ later, ArenaCompiler.compile functions e arena = .error (.failed failure) later ∧
      later.Extends arena

/-- Compiling in the arena that requests leave ends like compiling in the table of terms that
they leave. -/
theorem endAlike_compile (functions : FunctionTable) (e : Expr) (history : List Request) :
    Arena.EndAlike Arena.Agree (.afterAll .empty history) (.afterAll .empty history)
      (ArenaCompiler.compile functions e (.afterAll .empty history))
      (Compiler.compile functions e (.afterAll .empty history)) := by
  obtain ⟨hrep, -, -⟩ := Arena.represents_empty.afterAll history
  exact Arena.tracks_compile functions e _ _ hrep (.refl _)

/-- The term of an expression is what compiling it issues. -/
theorem compilesTo_of_term {e : Expr} {t : Term} (h : e.term functions = .ok t) :
    e.CompilesTo functions t := by
  have hrun (table : TermTable) : ∃ handle later,
      Compiler.compile functions e table = .ok handle later ∧ later.Extends table ∧
        later.term handle = .ok t := by
    have hgives := @Compiler.gives_compile functions table e
    rw [h] at hgives
    exact hgives.exists_run (.refl table)
  refine ⟨hrun, fun history => ?_⟩
  obtain ⟨handle, later, hcompile, -, ht⟩ := hrun (.afterAll .empty history)
  have halike := endAlike_compile functions e history
  rw [hcompile] at halike
  generalize hperform :
    ArenaCompiler.compile functions e (.afterAll .empty history) = run at halike
  cases halike with
  | ok hrep harena _ hagree =>
    obtain ⟨rfl, -⟩ := hagree
    exact ⟨_, _, hperform, harena, hrep.denotes ht⟩

/-- The failure to compile an expression is what compiling it ends in. -/
theorem compileFails_of_term {e : Expr} {failure : Failure}
    (h : e.term functions = .error failure) : e.CompileFails functions failure := by
  have hrun (table : TermTable) : ∃ later,
      Compiler.compile functions e table = .error failure later ∧ later.Extends table := by
    have hgives := @Compiler.gives_compile functions table e
    rw [h] at hgives
    exact hgives.exists_error (.refl table)
  refine ⟨hrun, fun history => ?_⟩
  obtain ⟨later, hcompile, -⟩ := hrun (.afterAll .empty history)
  have halike := endAlike_compile functions e history
  rw [hcompile] at halike
  generalize hperform :
    ArenaCompiler.compile functions e (.afterAll .empty history) = run at halike
  cases halike with
  | error _ harena _ => exact ⟨_, hperform, harena⟩

end Expr

/-- Only one element of a list is the first that has not a property. -/
theorem eq_of_first {α : Type} {P : α → Prop} {before before' after after' : List α} {a a' : α}
    (h : before ++ a :: after = before' ++ a' :: after') (hbefore : ∀ b ∈ before, P b)
    (ha : ¬ P a) (hbefore' : ∀ b ∈ before', P b) (ha' : ¬ P a') : a = a' := by
  classical
  have hfind (before after : List α) (a : α) (hbefore : ∀ b ∈ before, P b) (ha : ¬ P a) :
      (before ++ a :: after).find? (fun b => decide (¬ P b)) = some a := by
    rw [List.find?_eq_some_iff_append]
    exact ⟨decide_eq_true ha, before, after, rfl, fun b hb => by simpa using hbefore b hb⟩
  have hfirst := hfind before after a hbefore ha
  rw [h, hfind before' after' a' hbefore' ha'] at hfirst
  exact (Option.some.inj hfirst).symm

/-- How a term of a query is compiled, where every function is bound to an elementary one.  If
all its calls are calls of functions of the table, then compiling succeeds, and the term of the
handle is the expression part by part.  Otherwise compiling fails as looking up the first call
does that is none, and the calls are in order from left to right, each before those in its
arguments. -/
theorem compile_mirrors {functions : FunctionTable} (hfunctions : functions.Elementary)
    {source : String} {program : Program} (hparse : parse source = .ok program) {e : Expr}
    (he : e ∈ program.terms) :
    ((∀ c ∈ e.calls, c.Resolvable functions) →
      ∃ t, e.Becomes functions t ∧ e.CompilesTo functions t) ∧
    ∀ before c after, e.calls = before ++ c :: after →
      (∀ b ∈ before, b.Resolvable functions) → ¬ c.Resolvable functions →
      ∃ error, functions.resolve c.name c.arguments = .error error ∧
        e.CompileFails functions (.dispatch error) := by
  have houtcome := (legible_of_parse hparse he).outcome hfunctions
  generalize hterm : e.term functions = result at houtcome
  cases houtcome with
  | @compiled t hcalls hbecomes =>
    refine ⟨fun _ => ⟨t, hbecomes, Expr.compilesTo_of_term hterm⟩, fun before c after h _ hc => ?_⟩
    exact absurd (hcalls c (h ▸ List.mem_append_right before List.mem_cons_self)) hc
  | @refused before after c error h hbefore hc hresolve =>
    refine ⟨fun hcalls => ?_, fun before' c' after' h' hbefore' hc' => ?_⟩
    · exact absurd (hcalls _ (h ▸ List.mem_append_right before List.mem_cons_self)) hc
    · obtain rfl := eq_of_first (h.symm.trans h') hbefore hc hbefore' hc'
      exact ⟨error, hresolve, Expr.compileFails_of_term hterm⟩

/-- Functions are found whatever the case of their names, and `-x` and `2` are what they take.
If several calls are none of functions of the table, the one that is written first is
reported. -/
theorem compile_mirrors_of_calls :
    let s (name : String) (column : ℕ) : Spelling := ⟨name, ⟨1, column⟩⟩
    let minus : Expr := .binary .mul (.number (s "-1" 10)) (.symbol (s "x" 11))
    let sine : Expr := .call (s "sin" 6) [minus]
    let sum : Expr := .binary .add (.call (s "Root" 1) [sine, .number (s "2" 15)])
      (.call (s "COSH" 20) [.number (s "1.50" 25)])
    let nested : Expr := .binary .sub (.call (s "cos" 1) [.call (s "tan" 5) []])
      (.call (s "nope" 14) [.symbol (s "x" 19)])
    FunctionTable.standard.Elementary ∧
    (parse "Root(sin(-x), 2) + COSH(1.50)" = .ok ⟨[[[sum]]]⟩ ∧
      (∀ c ∈ sum.calls, c.Resolvable .standard) ∧
      ∃ t, sum.Becomes .standard t ∧ sum.CompilesTo .standard t) ∧
    parse "cos(tan()) - nope(x)" = .ok ⟨[[[nested]]]⟩ ∧
      nested.CompileFails .standard (.dispatch (.argumentCount "tan" 1 0)) := by
  intro s minus sine sum nested
  have helementary := FunctionTable.elementary_standard
  have hsum : parse "Root(sin(-x), 2) + COSH(1.50)" = .ok ⟨[[[sum]]]⟩ := by decide +kernel
  have hnested : parse "cos(tan()) - nope(x)" = .ok ⟨[[[nested]]]⟩ := by decide +kernel
  have hsine : Call.Resolves .standard ⟨"sin", [minus]⟩ ⟨"sin", [.expression], "sin"⟩ :=
    ⟨by decide +kernel, .cons (.expression _) .nil⟩
  have hroot : Call.Resolves .standard ⟨"Root", [sine, .number (s "2" 15)]⟩
      ⟨"root", [.expression, .integer], "root"⟩ := by
    refine ⟨by decide +kernel, .cons (.expression _) (.cons (.integer ?_ ?_) .nil)⟩
    · decide
    · have htext : (s "2" 15).text.toList = ['2'] := by decide +kernel
      rw [htext]
      exact List.forall_mem_singleton.mpr rfl
  have hcosh : Call.Resolves .standard ⟨"COSH", [.number (s "1.50" 25)]⟩
      ⟨"cosh", [.expression], "cosh"⟩ :=
    ⟨by decide +kernel, .cons (.expression _) .nil⟩
  have hcos : Call.Resolves .standard ⟨"cos", [.call (s "tan" 5) []]⟩
      ⟨"cos", [.expression], "cos"⟩ :=
    ⟨by decide +kernel, .cons (.expression _) .nil⟩
  have htan : ¬ Call.Resolvable .standard ⟨"tan", []⟩ := by
    rintro ⟨d, hd⟩
    have hlookup : FunctionTable.standard.entries.lookup (lowerCase "tan") =
        some ⟨"tan", [.expression], "tan"⟩ := by decide +kernel
    obtain rfl := Option.some.inj (hlookup.symm.trans hd.known)
    exact absurd hd.taken.length_eq nofun
  have hcalls : ∀ c ∈ sum.calls, c.Resolvable .standard := by
    have heq : sum.calls = [⟨"Root", [sine, .number (s "2" 15)]⟩, ⟨"sin", [minus]⟩,
      ⟨"COSH", [.number (s "1.50" 25)]⟩] := rfl
    rw [heq]
    simp only [List.forall_mem_cons]
    exact ⟨⟨_, hroot⟩, ⟨_, hsine⟩, ⟨_, hcosh⟩, nofun⟩
  obtain ⟨error, herror, hfails⟩ := (compile_mirrors helementary hnested List.mem_cons_self).2
    [⟨"cos", [.call (s "tan" 5) []]⟩] ⟨"tan", []⟩ [⟨"nope", [.symbol (s "x" 19)]⟩] rfl
    (List.forall_mem_singleton.mpr ⟨_, hcos⟩) htan
  have hcount : FunctionTable.standard.resolve "tan" [] = .error (.argumentCount "tan" 1 0) := by
    rfl
  obtain rfl := Except.error.inj (herror.symm.trans hcount)
  exact ⟨helementary, ⟨hsum, hcalls,
    (compile_mirrors helementary hsum List.mem_cons_self).1 hcalls⟩, hnested, hfails⟩

end MathQuery
