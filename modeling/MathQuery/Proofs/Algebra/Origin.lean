import MathQuery.Proofs.Algebra.Coefficients
import MathQuery.Proofs.Algebra.Reduction
import MathQuery.Proofs.Algebra.Towers
import MathQuery.Proofs.Compilation
import MathQuery.Proofs.Query.Legibility

/-!
# Terms that come from queries

A term that is compiled from what a query says, or reduced from such a term, has names that
the grammar of queries reads as identifiers, and an equation is no part of it.  So its text
is read again, as one term with its value, if and only if no power is an exponent in it.
That case does occur: `x^(y^z)` is written without the parentheses.

* `Term.Obtained` – the terms that compiling and reducing lead to;
* `Term.LegibleEquation.normalForm?` – reducing keeps to legible terms;
* `Expr.LegibleEquation.compiled` – compiling with any functions leads to them;
* `Term.Obtained.parse_render_eq_ok` – the text of such a term is read with its value, but
  not where an exponent is a power;
* `Term.not_parse_render_of_tower` – the text of `x^(y^z)` is not.
-/

namespace MathQuery

/-! ## Reducing -/

theorem Term.exists_of_mem_symbolsOfEach {ts : List Term} {x : String}
    (h : x ∈ symbolsOfEach ts) : ∃ t ∈ ts, x ∈ t.symbols := by
  induction ts with
  | nil =>
    rw [symbolsOfEach] at h
    contradiction
  | cons t ts ih =>
    rw [symbolsOfEach] at h
    rcases List.mem_append.mp h with hfirst | hlater
    · exact ⟨t, List.mem_cons_self, hfirst⟩
    · obtain ⟨t', ht', hx⟩ := ih hlater
      exact ⟨t', List.mem_cons_of_mem _ ht', hx⟩

/-- The symbols of a legible term are identifiers. -/
theorem Term.Legible.isWord {t : Term} (h : t.Legible) : ∀ x ∈ t.symbols, IsWord x.toList := by
  induction h with
  | number v =>
    rw [symbols]
    exact List.forall_mem_nil _
  | symbol h =>
    rw [symbols]
    exact List.forall_mem_singleton.mpr h
  | operation _ _ _ ihl ihr =>
    rw [symbols]
    exact List.forall_mem_append.mpr ⟨ihl, ihr⟩
  | application _ _ ih =>
    rw [symbols]
    intro x hx
    obtain ⟨a, ha, hx⟩ := exists_of_mem_symbolsOfEach hx
    exact ih a ha x hx

namespace Monomial

theorem legible_factorTerm {x : String} (hx : IsWord x.toList) (e : ℕ) :
    (factorTerm x e).Legible := by
  rw [factorTerm]
  split
  · exact .symbol hx
  · exact .operation (by decide) (.symbol hx) (.number e)

theorem legible_foldl_mul {first : Term} (hfirst : first.Legible) {later : List Term}
    (hlater : ∀ t ∈ later, t.Legible) : (later.foldl (.operation .mul) first).Legible :=
  List.foldlRecOn later _ hfirst fun _ hlonger _ hnext =>
    .operation (by decide) hlonger (hlater _ hnext)

theorem legible_toTerm {m : Monomial} (hm : ∀ s ∈ m, IsWord s.1.toList) (c : ℚ) :
    (m.toTerm c).Legible := by
  cases m with
  | nil => exact .number c
  | cons first later =>
    obtain ⟨hfirst, hlater⟩ := List.forall_mem_cons.mp hm
    have hfactors : ∀ t ∈ later.map fun s => factorTerm s.1 s.2, t.Legible := by
      intro t ht
      obtain ⟨s, hs, rfl⟩ := List.mem_map.mp ht
      exact legible_factorTerm (hlater s hs) s.2
    have hbody := legible_foldl_mul (legible_factorTerm hfirst first.2) hfactors
    rw [toTerm, List.map_cons]
    dsimp only
    split
    · exact hbody
    · exact .operation (by decide) (.number c) hbody

end Monomial

namespace Polynomial

theorem legible_addTerm {longer : Term} (h : longer.Legible) {t : PolynomialTerm}
    (ht : ∀ s ∈ t.1, IsWord s.1.toList) : (addTerm longer t).Legible := by
  rw [addTerm]
  split
  · exact .operation (by decide) h (Monomial.legible_toTerm ht _)
  · exact .operation (by decide) h (Monomial.legible_toTerm ht _)

/-- The sum of products for a polynomial in identifiers. -/
theorem Legible.toTerm {p : Polynomial} (hp : p.Legible) : p.toTerm.Legible := by
  have hwritten : ∀ t ∈ p.written, ∀ s ∈ t.1, IsWord s.1.toList :=
    fun t ht => hp t ((sortBy_perm writtenLE p.terms).mem_iff.mp ht)
  rw [Polynomial.toTerm]
  generalize p.written = terms at hwritten
  cases terms with
  | nil => exact .number 0
  | cons t later =>
    obtain ⟨hfirst, hlater⟩ := List.forall_mem_cons.mp hwritten
    exact List.foldlRecOn later _ (Monomial.legible_toTerm hfirst t.2)
      fun _ hlonger s hs => legible_addTerm hlonger (hlater s hs)

/-- Differentiating brings in no new symbol. -/
theorem Legible.derivative {p : Polynomial} (hp : p.Legible) (x : String) :
    (p.derivative x).Legible := by
  have hzero : zero.SymbolsIn {x | IsWord x.toList} := fun t ht => absurd ht List.not_mem_nil
  refine derivative_closed (Q := fun q => q.SymbolsIn _) hzero (fun _ _ => .add) fun t ht c => ?_
  refine EveryMonomial.monomial (P := fun m => ∀ s ∈ m, s.1 ∈ {x | IsWord x.toList}) c ?_
  intro s hs
  obtain ⟨s', hs', hname, -⟩ := Monomial.exists_of_mem_lower hs
  exact hname ▸ hp t ht s' hs'

end Polynomial

namespace Term

theorem exists_of_mem_normalForms? {ts ns : List Term} (h : normalForms? ts = .ok ns) :
    ∀ n ∈ ns, ∃ t ∈ ts, t.normalForm? = .ok n := by
  induction ts generalizing ns with
  | nil =>
    rw [normalForms?] at h
    obtain rfl := Except.ok.inj h
    exact nofun
  | cons t ts ih =>
    rw [normalForms?] at h
    obtain ⟨first, hfirst, h⟩ := Except.bind_eq_ok.mp h
    obtain ⟨later, hlater, h⟩ := Except.bind_eq_ok.mp h
    obtain rfl := Except.ok.inj h
    refine List.forall_mem_cons.mpr ⟨⟨t, List.mem_cons_self, hfirst⟩, fun n hn => ?_⟩
    obtain ⟨t', ht', hnormal⟩ := ih hlater n hn
    exact ⟨t', List.mem_cons_of_mem _ ht', hnormal⟩

/-- A legible term that denotes a polynomial is reduced to a legible sum of products. -/
theorem Legible.normalForm?_of_polynomial? {t n : Term} {p : Polynomial} (h : t.Legible)
    (hp : t.polynomial? = .ok (some p)) (hn : t.normalForm? = .ok n) : n.Legible := by
  have hlegible : p.Legible := (symbolsIn_of_polynomial? hp).mono h.isWord
  rw [Term.normalForm?_of_polynomial? hp] at hn
  obtain rfl := Except.ok.inj hn
  exact hlegible.toTerm

/-- Reducing a legible term gives a legible term. -/
theorem Legible.normalForm? {t n : Term} (h : t.Legible) (hn : t.normalForm? = .ok n) :
    n.Legible := by
  induction h generalizing n with
  | number v => exact (Legible.number v).normalForm?_of_polynomial? rfl hn
  | symbol h => exact (Legible.symbol h).normalForm?_of_polynomial? rfl hn
  | @operation op left right hop hl hr ihl ihr =>
    cases hp : (Term.operation op left right).polynomial? with
    | error e => simp [Term.normalForm?, hp] at hn
    | ok result =>
      cases result with
      | some p => exact (Legible.operation hop hl hr).normalForm?_of_polynomial? hp hn
      | none =>
        obtain ⟨l, r, hleft, hright, rfl⟩ := normalForm?_operation_eq_ok hp hn
        exact .operation hop (ihl hleft) (ihr hright)
  | application hname _ ih =>
    rw [Term.normalForm?] at hn
    obtain ⟨args, hargs, hn⟩ := Except.bind_eq_ok.mp hn
    obtain rfl := Except.ok.inj hn
    refine .application hname fun n hn => ?_
    obtain ⟨a, ha, hnormal⟩ := exists_of_mem_normalForms? hargs n hn
    exact ih a ha hnormal

theorem LegibleEquation.normalForm? {t n : Term} (h : t.LegibleEquation)
    (hn : t.normalForm? = .ok n) : n.LegibleEquation := by
  cases h with
  | term h => exact .term (h.normalForm? hn)
  | @equal left right hl hr =>
    -- an equation denotes no polynomial, so its sides are reduced
    have hnone : (Term.operation .equal left right).polynomial? = .ok none := by
      rw [polynomial?, if_pos rfl]
    obtain ⟨l, r, hleft, hright, rfl⟩ := normalForm?_operation_eq_ok hnone hn
    exact .equal (hl.normalForm? hleft) (hr.normalForm? hright)

/-! ## Transforming -/

theorem isWord_of_mem_elementary {f : String × Nat} (hf : f ∈ Builder.elementary) :
    IsWord f.1.toList := by
  have hall : (Builder.elementary.all fun f => decide (IsWord f.1.toList)) = true := by
    decide +kernel
  exact of_decide_eq_true (List.all_eq_true.mp hall f hf)

theorem mem_elementary_of_lookup {name : String} {n : ℕ}
    (h : Builder.elementary.lookup name = some n) : (name, n) ∈ Builder.elementary := by
  obtain ⟨before, after, helementary, -⟩ := List.lookup_eq_some_iff.mp h
  rw [helementary]
  simp

/-- The derivative of a legible term is legible. -/
theorem Legible.derivative? {t x n : Term} (h : t.Legible) (hn : t.derivative? x = .ok n) :
    n.Legible := by
  unfold Term.derivative? at hn
  split at hn
  · next name =>
    split at hn
    · contradiction
    · next p hp =>
      have hlegible : p.Legible := (symbolsIn_of_polynomial? hp).mono h.isWord
      obtain rfl := Except.ok.inj hn
      exact (hlegible.derivative name).toTerm
    · contradiction
  · contradiction

/-- What a transformation makes of legible terms is legible. -/
theorem Legible.transformed {name : String} {arguments : List Term} {t : Term}
    (h : ∀ a ∈ arguments, a.Legible) (ht : Term.transformed name arguments = .ok t) :
    t.Legible := by
  unfold Term.transformed at ht
  split at ht
  · split at ht
    · exact (h _ List.mem_cons_self).normalForm? ht
    · contradiction
  split at ht
  · split at ht
    · exact (h _ List.mem_cons_self).derivative? ht
    · contradiction
  split at ht
  · next expected hlookup =>
    split at ht
    · obtain rfl := Except.ok.inj ht
      exact .application (isWord_of_mem_elementary (mem_elementary_of_lookup hlookup)) h
    · contradiction
  · contradiction

end Term

/-! ## Compiling -/

namespace Expr

theorem exists_of_mem_terms {functions : FunctionTable} {es : List Expr} {ts : List Term}
    (h : terms functions es = .ok ts) : ∀ t ∈ ts, ∃ e ∈ es, e.term functions = .ok t := by
  induction es generalizing ts with
  | nil =>
    rw [terms] at h
    obtain rfl := Except.ok.inj h
    exact nofun
  | cons e es ih =>
    rw [terms] at h
    obtain ⟨first, hfirst, h⟩ := Except.bind_eq_ok.mp h
    obtain ⟨later, hlater, h⟩ := Except.bind_eq_ok.mp h
    obtain rfl := Except.ok.inj h
    refine List.forall_mem_cons.mpr ⟨⟨e, List.mem_cons_self, hfirst⟩, fun t ht => ?_⟩
    obtain ⟨e', he', hterm⟩ := ih hlater t ht
    exact ⟨e', List.mem_cons_of_mem _ he', hterm⟩

/-- A legible expression is compiled to a legible term. -/
theorem Legible.compiled {functions : FunctionTable} {e : Expr} (h : e.Legible) {t : Term}
    (ht : e.term functions = .ok t) : t.Legible := by
  induction h generalizing t with
  | number _ =>
    rw [Expr.term] at ht
    obtain ⟨v, -, rfl⟩ := literalTerm_eq_ok ht
    exact .number v
  | symbol hname =>
    rw [Expr.term] at ht
    obtain rfl := symbolTerm_eq_ok ht
    exact .symbol hname
  | negative _ _ ih =>
    obtain ⟨l, r, hl, hr, rfl⟩ := term_binary_eq_ok ht
    rw [Expr.term] at hl
    obtain ⟨v, -, rfl⟩ := literalTerm_eq_ok hl
    exact .operation (by decide) (.number v) (ih hr)
  | binary hop _ _ ihl ihr =>
    obtain ⟨l, r, hl, hr, rfl⟩ := term_binary_eq_ok ht
    exact .operation hop (ihl hl) (ihr hr)
  | @call name arguments _ _ ih =>
    rw [Expr.term] at ht
    obtain ⟨d, -, ht⟩ := Except.bind_eq_ok.mp ht
    obtain ⟨args, hargs, ht⟩ := Except.bind_eq_ok.mp ht
    refine Term.Legible.transformed (fun a ha => ?_) (Except.mapError_eq_ok.mp ht)
    obtain ⟨e, he, hterm⟩ := exists_of_mem_terms hargs a ha
    exact ih e he hterm

/-- What a query says is compiled to a legible term or an equation of such terms. -/
theorem LegibleEquation.compiled {functions : FunctionTable} {e : Expr} (h : e.LegibleEquation)
    {t : Term} (ht : e.term functions = .ok t) : t.LegibleEquation := by
  cases h with
  | term h => exact .term (h.compiled ht)
  | equal hl hr =>
    obtain ⟨l, r, hleft, hright, rfl⟩ := term_binary_eq_ok ht
    exact .equal (hl.compiled hleft) (hr.compiled hright)

end Expr

/-! ## Obtained terms -/

namespace Term

/-- The terms that the algebra holds for queries: those that are compiled with the standard
functions from a term of a query, and those that are reduced from such terms. -/
inductive Obtained : Term → Prop
  | compiled {source : String} {program : Program} {e : Expr} {table later : TermTable}
    {handle : Handle} {t : Term} (hparse : parse source = .ok program) (he : e ∈ program.terms)
    (hcompile : Compiler.compile .standard e table = .ok handle later)
    (ht : later.term handle = .ok t) : Obtained t
  | reduced {t n : Term} {table later : TermTable} {handle reduct : Handle} (h : Obtained t)
    (ht : table.term handle = .ok t)
    (hreduce : Builder.transform "reduce" [handle] table = .ok reduct later)
    (hn : later.term reduct = .ok n) : Obtained n

/-- Compiling succeeds where the expression has a term. -/
theorem Obtained.of_term {source : String} {program : Program} {e : Expr} {t : Term}
    (hparse : parse source = .ok program) (he : e ∈ program.terms)
    (ht : e.term .standard = .ok t) : t.Obtained := by
  have hgives : TermTable.Gives .empty TermTable.Stands _ _ := Compiler.gives_compile .standard e
  rw [ht] at hgives
  obtain ⟨handle, later, hcompile, -, hterm⟩ := hgives.exists_run (.refl .empty)
  exact .compiled hparse he hcompile hterm

theorem Obtained.legible {t : Term} (h : t.Obtained) : t.LegibleEquation := by
  -- induction on the steps that lead to the term
  induction h with
  | @compiled source program e table later handle t hparse he hcompile ht =>
    obtain ⟨t', hterm, -, hissued⟩ :=
      (Compiler.gives_compile .standard e).of_run (.refl table) hcompile
    obtain rfl : t' = t := Except.ok.inj (hissued.symm.trans ht)
    exact (legible_of_parse hparse he).compiled hterm
  | @reduced t n table later handle reduct _ ht hreduce hn ih =>
    have hname : "reduce" ∈ ["reduce", "expand", "simplify"] := by decide
    obtain ⟨n', hnormal, -, hissued⟩ :=
      (Builder.gives_transform_reduce hname ht).of_run (.refl table) hreduce
    obtain rfl : n' = n := Except.ok.inj (hissued.symm.trans hn)
    exact ih.normalForm? hnormal

/-- The text of a compiled or reduced term is read again, as one term with its value,
provided that no power in it is the exponent of a power.  An equation is read as an
equation whose sides have the values of the sides.  If some power is the exponent of a
power, the text is not read at all. -/
theorem Obtained.parse_render_eq_ok {t : Term} (h : t.Obtained) :
    (t.hasTower = false → ∃ e, parse (t.render .plain) = .ok ⟨[[[e]]]⟩ ∧
      (∀ M : Interpretation, M.Exact → ∀ σ, e.value M σ = t.value M σ) ∧
      ∀ left right, t = .operation .equal left right →
        ∃ left' right', e = .binary .equal left' right' ∧
          ∀ M : Interpretation, M.Exact → ∀ σ,
            left'.value M σ = left.value M σ ∧ right'.value M σ = right.value M σ) ∧
    (t.hasTower = true → ∀ p, parse (t.render .plain) ≠ .ok p) :=
  ⟨h.legible.parse_eq_ok, h.legible.parse_ne_ok⟩

/-- The term of `-(x + 1)*y^2 - 1/z` is written as `(-(x + 1))*y^2 - 1/z`, and what is read
from that has its value. -/
theorem parse_render_eq_ok_of_difference :
    let x := Term.symbol "x"
    let product := Term.operation .mul
      (.operation .mul (.number (-1)) (.operation .add x (.number 1)))
      (.operation .pow (.symbol "y") (.number 2))
    let t := Term.operation .sub product (.operation .div (.number 1) (.symbol "z"))
    t.Obtained ∧ t.hasTower = false ∧ t.render .plain = "(-(x + 1))*y^2 - 1/z" ∧
      ∃ e, parse (t.render .plain) = .ok ⟨[[[e]]]⟩ ∧
        ∀ M : Interpretation, M.Exact → ∀ σ, e.value M σ = t.value M σ := by
  intro x product t
  let n (literal : String) (column : ℕ) := Expr.number ⟨literal, ⟨1, column⟩⟩
  let s (name : String) (column : ℕ) := Expr.symbol ⟨name, ⟨1, column⟩⟩
  let e := Expr.binary .sub
    (.binary .mul (.binary .mul (n "-1" 1) (.binary .add (s "x" 3) (n "1" 7)))
      (.binary .pow (s "y" 10) (n "2" 12)))
    (.binary .div (n "1" 16) (s "z" 18))
  have hparse : parse "-(x + 1)*y^2 - 1/z" = .ok ⟨[[[e]]]⟩ := by decide +kernel
  have hterm : e.term .standard = .ok t := by decide +kernel
  have ht : t.Obtained := .of_term hparse List.mem_cons_self hterm
  have htower : t.hasTower = false := by decide +kernel
  obtain ⟨e', hagain, hvalue, -⟩ := ht.parse_render_eq_ok.1 htower
  exact ⟨ht, htower, by decide +kernel, e', hagain, hvalue⟩

/-- The term of `x^(y^z)` is written without the parentheses, and this is not read. -/
theorem not_parse_render_of_tower :
    let t := Term.operation .pow (.symbol "x") (.operation .pow (.symbol "y") (.symbol "z"))
    t.Obtained ∧ t.render .plain = "x^y^z" ∧ ∀ p, parse (t.render .plain) ≠ .ok p := by
  intro t
  let s (name : String) (column : ℕ) := Expr.symbol ⟨name, ⟨1, column⟩⟩
  let e := Expr.binary .pow (s "x" 1) (.binary .pow (s "y" 4) (s "z" 6))
  have hparse : parse "x^(y^z)" = .ok ⟨[[[e]]]⟩ := by decide +kernel
  have hterm : e.term .standard = .ok t := by decide +kernel
  have hrender : t.render .plain = "x^y^z" := by decide +kernel
  have hagain : (parse "x^y^z").toBool = false := by decide +kernel
  refine ⟨.of_term hparse List.mem_cons_self hterm, hrender, fun p hp => ?_⟩
  rw [hrender] at hp
  rw [hp] at hagain
  contradiction

end Term

end MathQuery
