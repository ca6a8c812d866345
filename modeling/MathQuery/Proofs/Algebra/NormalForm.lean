import MathQuery.Proofs.Algebra.Table
import MathQuery.Proofs.Algebra.Value

/-!
# The normal form of a term

Reducing a term issues its normal form part by part.  Which term is issued at the end
depends on the term that is reduced and on nothing else, so it is described here
without the table:

* `Polynomial.toTerm` – a polynomial as a sum of products, in the written order;
* `Term.normalForm?` – the normal form of a term, or the error of a division by zero;
* `Builder.gives_reduce` – `reduce` issues the normal form and only adds to the table;
* `Term.value_of_normalForm?` – a normal form has the values of the term.
-/

namespace MathQuery

/-- A power of a symbol as a factor. -/
def Monomial.factorTerm (x : String) (e : ℕ) : Term :=
  if e = 1 then .symbol x else .operation .pow (.symbol x) (.number e)

/-- A monomial with its coefficient as a product. -/
def Monomial.toTerm (m : Monomial) (c : ℚ) : Term :=
  match m.map fun (x, e) => factorTerm x e with
  | [] => .number c
  | first :: later =>
    let body := later.foldl (.operation .mul) first
    if c = 1 then body else .operation .mul (.number c) body

namespace Polynomial

/-- One more term of a sum; a negative coefficient is subtracted. -/
def addTerm (longer : Term) (t : PolynomialTerm) : Term :=
  if t.2 < 0 then .operation .sub longer (t.1.toTerm (-t.2))
  else .operation .add longer (t.1.toTerm t.2)

/-- A polynomial as a sum of products. -/
def toTerm (p : Polynomial) : Term :=
  match p.written with
  | [] => .number 0
  | (m, c) :: later => later.foldl addTerm (m.toTerm c)

end Polynomial

namespace Term

mutual

/-- The normal form of a term: its polynomial if it denotes one, and otherwise the same
operation or application of normal forms. -/
def normalForm? (t : Term) : Except AlgebraError Term :=
  match t.polynomial? with
  | .error e => .error e
  | .ok (some p) => .ok p.toTerm
  | .ok none =>
    match t with
    | .number value => .ok (.number value)
    | .symbol name => .ok (.symbol name)
    | .operation op left right => do
      let l ← left.normalForm?
      let r ← right.normalForm?
      .ok (.operation op l r)
    | .application name arguments => do
      let args ← normalForms? arguments
      .ok (.application name args)

/-- The normal forms of several terms. -/
def normalForms? : List Term → Except AlgebraError (List Term)
  | [] => .ok []
  | t :: ts => do
    let first ← t.normalForm?
    let later ← normalForms? ts
    .ok (first :: later)

end

end Term

namespace Builder

open TermTable

variable {base : TermTable}

/-! ## The builders of polynomials -/

/-- An issued term stands in the table under its handle. -/
def Holds (table : TermTable) (issued : Issued) (t : Term) : Prop :=
  issued.term = t ∧ table.term issued.handle = .ok t

/-- Several issued terms stand in the table under their handles. -/
def HoldsAll (table : TermTable) (issued : List Issued) (ts : List Term) : Prop :=
  List.Forall₂ (Holds table) issued ts

theorem Holds.mono {earlier later : TermTable} {issued : Issued} {t : Term}
    (h : Holds earlier issued t) (hextends : later.Extends earlier) : Holds later issued t :=
  ⟨h.1, hextends.term h.2⟩

theorem HoldsAll.mono {earlier later : TermTable} {issued : List Issued} {ts : List Term}
    (h : HoldsAll earlier issued ts) (hextends : later.Extends earlier) :
    HoldsAll later issued ts :=
  List.Forall₂.imp (fun _ _ hone => hone.mono hextends) h

theorem HoldsAll.map_term {table : TermTable} {issued : List Issued} {ts : List Term}
    (h : HoldsAll table issued ts) : issued.map Issued.term = ts := by
  induction h with
  | nil => rfl
  | cons hfirst _ ih => rw [List.map_cons, hfirst.1, ih]

theorem Holds.gives_pure {issued : Issued} {t : Term} (h : Holds base issued t) :
    Gives base Holds (pure issued : Builder Issued) (.ok t) :=
  TermTable.gives_pure fun _ hbase => h.mono hbase

theorem gives_issue (t : Term) : Gives base Holds (issue t) (.ok t) := by
  intro table _
  refine .ok ⟨[t], by simp⟩ ⟨rfl, ?_⟩
  simp [TermTable.term, TermTable.size]

theorem gives_operation (op : BinaryOp) {left right : Issued} {l r : Term}
    (hl : Holds base left l) (hr : Holds base right r) :
    Gives base Holds (operation op left right) (.ok (.operation op l r)) :=
  hl.1 ▸ hr.1 ▸ gives_issue _

theorem gives_factor (x : String) (e : ℕ) :
    Gives base Holds (factor x e) (.ok (Monomial.factorTerm x e)) := by
  rw [factor, Monomial.factorTerm]
  refine (gives_issue (.symbol x)).bind_ok fun table symbol _ hsymbol => ?_
  split
  · exact hsymbol.gives_pure
  · refine (gives_issue (.number e)).bind_ok fun table exponent htable hexponent => ?_
    exact gives_operation .pow (hsymbol.mono htable) hexponent

theorem gives_factors (m : Monomial) :
    Gives base HoldsAll (m.mapM fun (x, e) => factor x e)
      (.ok (m.map fun (x, e) => Monomial.factorTerm x e)) := by
  induction m generalizing base with
  | nil => exact gives_pure fun _ _ => .nil
  | cons s m ih =>
    rw [List.mapM_cons]
    refine (gives_factor s.1 s.2).bind_ok fun table first _ hfirst => ?_
    have hfactors : Gives table HoldsAll _ _ := ih
    refine hfactors.bind_ok fun table' later htable hlater => ?_
    exact gives_pure fun table'' htable' =>
      .cons ((hfirst.mono htable).mono htable') (hlater.mono htable')

theorem gives_product {first : Issued} {t : Term} (hfirst : Holds base first t)
    {later : List Issued} {ts : List Term} (hlater : HoldsAll base later ts) :
    Gives base Holds (product first later) (.ok (ts.foldl (.operation .mul) t)) := by
  induction later generalizing base first t ts with
  | nil =>
    cases hlater
    exact hfirst.gives_pure
  | cons next later ih =>
    cases hlater with
    | cons hnext hlater =>
      refine (gives_operation .mul hfirst hnext).bind_ok fun table longer htable hlonger => ?_
      exact ih hlonger (HoldsAll.mono hlater htable)

theorem gives_monomial (m : Monomial) (c : ℚ) :
    Gives base Holds (monomial m c) (.ok (m.toTerm c)) := by
  rw [monomial, Monomial.toTerm]
  refine (gives_factors m).bind_ok fun table factors _ hfactors => ?_
  generalize (m.map fun (x, e) => Monomial.factorTerm x e) = ts at hfactors
  cases hfactors with
  | nil => exact gives_issue (.number c)
  | cons hfirst hlater =>
    refine (gives_product hfirst hlater).bind_ok fun table body _ hbody => ?_
    dsimp only
    split
    · exact hbody.gives_pure
    · refine (gives_issue (.number c)).bind_ok fun table coefficient htable hcoefficient => ?_
      exact gives_operation .mul hcoefficient (hbody.mono htable)

theorem gives_sum {first : Issued} {t : Term} (hfirst : Holds base first t)
    (terms : List PolynomialTerm) :
    Gives base Holds (sum first terms) (.ok (terms.foldl Polynomial.addTerm t)) := by
  -- the sum so far is what a step changes, so it is generalised with its table
  induction terms generalizing base first t with
  | nil => exact hfirst.gives_pure
  | cons s terms ih =>
    obtain ⟨m, c⟩ := s
    rw [sum, List.foldl_cons, Polynomial.addTerm]
    split
    · refine (gives_monomial m (-c)).bind_ok fun table next htable hnext => ?_
      refine (gives_operation .sub (hfirst.mono htable) hnext).bind_ok
        fun table longer _ hlonger => ?_
      exact ih hlonger
    · refine (gives_monomial m c).bind_ok fun table next htable hnext => ?_
      refine (gives_operation .add (hfirst.mono htable) hnext).bind_ok
        fun table longer _ hlonger => ?_
      exact ih hlonger

theorem gives_polynomial (p : Polynomial) :
    Gives base Holds (polynomial p) (.ok p.toTerm) := by
  rw [polynomial, Polynomial.toTerm]
  rcases p.written with _ | ⟨⟨m, c⟩, later⟩
  · exact gives_issue (.number 0)
  · exact (gives_monomial m c).bind_ok fun table first _ hfirst => gives_sum hfirst later

/-! ## Reduction -/

mutual

/-- Reducing a term issues its normal form, or fails as that does. -/
theorem gives_reduce {base : TermTable} :
    (t : Term) → Gives base Holds (reduce t) t.normalForm?
  | .number value => by
    rw [reduce, Term.normalForm?]
    exact gives_polynomial _
  | .symbol name => by
    rw [reduce, Term.normalForm?]
    exact gives_polynomial _
  | .operation op left right => by
    rw [reduce, Term.normalForm?]
    cases (Term.operation op left right).polynomial? with
    | error e => exact gives_throw e
    | ok result =>
      cases result with
      | some p => exact gives_polynomial p
      | none =>
        refine (gives_reduce left).bind fun table l l' _ _ hl => ?_
        refine (gives_reduce right).bind fun table r r' _ htable hr => ?_
        exact gives_operation op (hl.mono htable) hr
  | .application name arguments => by
    rw [reduce, Term.normalForm?]
    refine (gives_reduceAll arguments).bind fun table issued ts _ _ hissued => ?_
    rw [hissued.map_term]
    exact gives_issue _

/-- The same for several terms. -/
theorem gives_reduceAll {base : TermTable} :
    (ts : List Term) → Gives base HoldsAll (reduceAll ts) (Term.normalForms? ts)
  | [] => by
    rw [reduceAll, Term.normalForms?]
    exact gives_pure fun _ _ => .nil
  | t :: ts => by
    rw [reduceAll, Term.normalForms?]
    refine (gives_reduce t).bind fun table first t' _ _ hfirst => ?_
    refine (gives_reduceAll ts).bind fun table later ts' _ htable hlater => ?_
    exact gives_pure fun table' htable' =>
      .cons ((hfirst.mono htable).mono htable') (hlater.mono htable')

end

end Builder

/-! ## The values of normal forms -/

section Folds

variable {α β : Type} {v : α → ℚ} {w : β → ℚ} {step : α → β → α}

/-- Steps that multiply a value one after the other multiply it by a product. -/
theorem foldl_eq_mul_prod (h : ∀ a b, v (step a b) = v a * w b) (a : α) (bs : List β) :
    v (bs.foldl step a) = v a * (bs.map w).prod := by
  induction bs generalizing a with
  | nil => rw [List.foldl_nil, List.map_nil, List.prod_nil, mul_one]
  | cons b bs ih => rw [List.foldl_cons, ih, h, List.map_cons, List.prod_cons, mul_assoc]

/-- Steps that add to a value one after the other add a sum to it. -/
theorem foldl_eq_add_sum (h : ∀ a b, v (step a b) = v a + w b) (a : α) (bs : List β) :
    v (bs.foldl step a) = v a + (bs.map w).sum := by
  induction bs generalizing a with
  | nil => rw [List.foldl_nil, List.map_nil, List.sum_nil, add_zero]
  | cons b bs ih => rw [List.foldl_cons, ih, h, List.map_cons, List.sum_cons, add_assoc]

end Folds

variable {M : Interpretation}

namespace Monomial

/-- The value of a monomial. -/
def value (σ : String → ℚ) (m : Monomial) : ℚ := (m.map fun (x, e) => σ x ^ e).prod

theorem eval_monomial_exponents (σ : String → ℚ) (m : Monomial) (c : ℚ) :
    (MvPolynomial.monomial m.exponents c).eval σ = c * m.value σ := by
  rw [MvPolynomial.eval_monomial]
  congr 1
  induction m with
  | nil => simp [value]
  | cons s m ih =>
    rw [exponents_cons, Finsupp.prod_add_index' (by simp) (by intros; rw [pow_add]),
      Finsupp.prod_single_index (by simp), ih]
    simp [value]

theorem value_factorTerm (hM : M.Lawful) (σ : String → ℚ) (x : String) (e : ℕ) :
    (factorTerm x e).value M σ = σ x ^ e := by
  rw [factorTerm]
  split
  · next he => rw [Term.value, he, pow_one]
  · exact hM.power_natCast (σ x) e

theorem value_toTerm (hM : M.Lawful) (σ : String → ℚ) (m : Monomial) (c : ℚ) :
    (m.toTerm c).value M σ = c * m.value σ := by
  have hfactors : ((m.map fun (x, e) => factorTerm x e).map (Term.value M σ)).prod = m.value σ := by
    rw [List.map_map, value]
    congr 2
    exact funext fun s => value_factorTerm hM σ s.1 s.2
  rw [toTerm]
  generalize (m.map fun (x, e) => factorTerm x e) = factors at hfactors ⊢
  cases factors with
  | nil =>
    rw [← hfactors, List.map_nil, List.prod_nil, mul_one]
    rfl
  | cons first later =>
    have hproduct : (later.foldl (.operation .mul) first).value M σ =
        first.value M σ * (later.map (Term.value M σ)).prod :=
      foldl_eq_mul_prod (fun _ _ => rfl) first later
    rw [List.map_cons, List.prod_cons, ← hproduct] at hfactors
    dsimp only
    split
    · next hc => rw [hfactors, hc, one_mul]
    · rw [Term.value, hfactors]
      rfl

end Monomial

namespace Polynomial

theorem value_addTerm (hM : M.Lawful) (σ : String → ℚ) (longer : Term) (m : Monomial) (c : ℚ) :
    (addTerm longer (m, c)).value M σ = longer.value M σ + c * m.value σ := by
  rw [addTerm]
  split
  · rw [Term.value, m.value_toTerm hM, neg_mul]
    exact sub_neg_eq_add _ _
  · rw [Term.value, m.value_toTerm hM]
    rfl

/-- The value of a polynomial, term by term. -/
theorem value_eq_sum (σ : String → ℚ) (p : Polynomial) :
    p.value σ = (p.terms.map fun (m, c) => c * m.value σ).sum := by
  rw [value, toMvPolynomial]
  induction p.terms with
  | nil => simp
  | cons s terms ih =>
    rw [ofTerms_cons, map_add, ih, Monomial.eval_monomial_exponents, List.map_cons, List.sum_cons]

/-- The sum of products has the values of the polynomial. -/
theorem value_toTerm (hM : M.Lawful) (σ : String → ℚ) (p : Polynomial) :
    p.toTerm.value M σ = p.value σ := by
  have hwritten : (p.written.map fun (m, c) => c * m.value σ).sum = p.value σ := by
    rw [value_eq_sum]
    exact ((sortBy_perm writtenLE p.terms).map _).sum_eq
  rw [toTerm]
  cases hp : p.written with
  | nil =>
    rw [← hwritten, hp, List.map_nil, List.sum_nil]
    rfl
  | cons s later =>
    have hsum : (later.foldl addTerm (s.1.toTerm s.2)).value M σ =
        (s.1.toTerm s.2).value M σ + (later.map fun (m, c) => c * m.value σ).sum :=
      foldl_eq_add_sum (fun longer t => value_addTerm hM σ longer t.1 t.2) _ later
    rw [hsum, s.1.value_toTerm hM, ← hwritten, hp, List.map_cons, List.sum_cons]

end Polynomial

namespace Term

/-- The normal form of a term that denotes a polynomial depends on that only. -/
theorem normalForm?_of_polynomial? {t : Term} {p : Polynomial}
    (h : t.polynomial? = .ok (some p)) : t.normalForm? = .ok p.toTerm := by
  rw [normalForm?.eq_def, h]

/-- The normal form of another operation is the operation on normal forms. -/
theorem normalForm?_operation_eq_ok {op : BinaryOp} {left right n : Term}
    (hnone : (operation op left right).polynomial? = .ok none)
    (h : (operation op left right).normalForm? = .ok n) :
    ∃ l r, left.normalForm? = .ok l ∧ right.normalForm? = .ok r ∧ n = operation op l r := by
  rw [normalForm?, hnone] at h
  obtain ⟨l, hl, h⟩ := Except.bind_eq_ok.mp h
  obtain ⟨r, hr, h⟩ := Except.bind_eq_ok.mp h
  exact ⟨l, r, hl, hr, (Except.ok.inj h).symm⟩

mutual

/-- The normal form of a term has the values of the term. -/
theorem value_of_normalForm? (hM : M.Lawful) (σ : String → ℚ) :
    ∀ {t n : Term}, t.normalForm? = .ok n → n.value M σ = t.value M σ
  | .number v, n, h => by
    obtain rfl : (Polynomial.constant v).toTerm = n := by simpa [normalForm?, polynomial?] using h
    rw [Polynomial.value_toTerm hM, Polynomial.value_constant, value]
  | .symbol x, n, h => by
    obtain rfl : (Polynomial.var x).toTerm = n := by simpa [normalForm?, polynomial?] using h
    rw [Polynomial.value_toTerm hM, Polynomial.value_var, value]
  | .operation op left right, n, h => by
    cases hp : (operation op left right).polynomial? with
    | error e => simp [normalForm?, hp] at h
    | ok result =>
      cases result with
      | some p =>
        obtain rfl : p.toTerm = n := by simpa [normalForm?_of_polynomial? hp] using h
        rw [Polynomial.value_toTerm hM, value_of_polynomial? hM σ hp]
      | none =>
        -- an operation that denotes no polynomial is kept, and its operands are reduced
        obtain ⟨l, r, hl, hr, rfl⟩ := normalForm?_operation_eq_ok hp h
        rw [value, value, value_of_normalForm? hM σ hl, value_of_normalForm? hM σ hr]
  | .application name arguments, n, h => by
    rw [normalForm?] at h
    obtain ⟨args, hargs, h⟩ := Except.bind_eq_ok.mp h
    obtain rfl := Except.ok.inj h
    rw [value, value, values_of_normalForms? hM σ hargs]

/-- The normal forms of several terms have their values. -/
theorem values_of_normalForms? (hM : M.Lawful) (σ : String → ℚ) :
    ∀ {ts ns : List Term}, normalForms? ts = .ok ns → values M σ ns = values M σ ts
  | [], ns, h => by
    obtain rfl : [] = ns := by simpa [normalForms?] using h
    rfl
  | t :: ts, ns, h => by
    rw [normalForms?] at h
    obtain ⟨first, hfirst, h⟩ := Except.bind_eq_ok.mp h
    obtain ⟨later, hlater, h⟩ := Except.bind_eq_ok.mp h
    obtain rfl := Except.ok.inj h
    rw [values, values, value_of_normalForm? hM σ hfirst, values_of_normalForms? hM σ hlater]

end

end Term

end MathQuery
