import MathQuery.Proofs.Algebra.Convolution
import MathQuery.Proofs.Algebra.Reduction
import Mathlib.Algebra.MvPolynomial.PDeriv

/-!
# Derivatives of polynomials

Every term of a polynomial is differentiated by itself, and a variable whose exponent is one
leaves its monomial.  What comes out stands for the formal partial derivative, so the laws of
differentiation hold for the lists themselves.

* `Polynomial.toMvPolynomial_derivative` – what a derivative stands for;
* `Polynomial.WellFormed.coefficient_derivative` – its coefficients;
* `Polynomial.WellFormed.derivative_mul?` – the product rule;
* `Polynomial.derivative_isPartial` – these laws together, and the derivative of a term.
-/

namespace MathQuery

open TermTable Builder

namespace Polynomial

variable {p q : Polynomial}

/-! ## What a derivative stands for -/

/-- A single term is differentiated by lowering its exponent, or to zero where the variable does
not occur. -/
theorem toMvPolynomial_derivativeTerm (x : String) {m : Monomial} (c : ℚ) (hm : m.Canonical) :
    (derivativeTerm x (m, c)).toMvPolynomial =
      MvPolynomial.pderiv x (MvPolynomial.monomial m.exponents c) := by
  rw [MvPolynomial.pderiv_monomial, hm.exponents_apply, derivativeTerm]
  split
  · next hzero => rw [hzero, Nat.cast_zero, mul_zero, map_zero, toMvPolynomial_zero]
  · next hne =>
    have hmem : (x, m.exponent x) ∈ m :=
      (hm.mem_iff _).mpr ⟨Nat.pos_of_ne_zero hne, hm.exponents_apply x⟩
    rw [toMvPolynomial_monomial, ← hm.exponents_lower hmem, add_tsub_cancel_right]

/-- A derivative stands for the partial derivative. -/
theorem toMvPolynomial_derivative (x : String) (hp : p.EveryMonomial Monomial.Canonical) :
    (p.derivative x).toMvPolynomial = MvPolynomial.pderiv x p.toMvPolynomial := by
  obtain ⟨terms⟩ := p
  rw [derivative, toMvPolynomial_sum, List.map_map]
  simp only [EveryMonomial, toMvPolynomial] at hp ⊢
  induction terms with
  | nil => simp
  | cons t terms ih =>
    obtain ⟨m, c⟩ := t
    obtain ⟨hm, hterms⟩ := List.forall_mem_cons.mp hp
    rw [List.map_cons, List.sum_cons, ih hterms, ofTerms_cons, map_add]
    congr 1
    exact toMvPolynomial_derivativeTerm x c hm

/-! ## Coefficients -/

/-- The coefficient of a monomial in a derivative is that of the monomial with the exponent raised
by one, times the raised exponent.  Where the exponent cannot be raised there is no such term. -/
theorem WellFormed.coefficient_derivative (hp : p.WellFormed) (x : String) {m : Monomial}
    (hm : m.Canonical) :
    (p.derivative x).coefficient m =
      (m.exponent x + 1) * (m.mulFactor? x 1).elim 0 p.coefficient := by
  have hraised : (p.derivative x).coefficient m =
      (m.exponent x + 1) * p.toMvPolynomial.coeff (m.exponents + Finsupp.single x 1) := by
    rw [(hp.derivative x).canonical.coefficient_eq, if_pos hm,
      toMvPolynomial_derivative x hp.canonical.monomials, MvPolynomial.coeff_pderiv,
      hm.exponents_apply, mul_comm]
  rw [hraised]
  congr 1
  cases hlonger : m.mulFactor? x 1 with
  | some longer =>
    have hcanonical := hm.mulFactor? Nat.one_pos hlonger
    rw [Option.elim_some, hp.canonical.coefficient_eq, if_pos hcanonical,
      Monomial.exponents_mulFactor? hlonger, add_comm]
  | none =>
    rw [Monomial.mulFactor?_eq_none_iff hm (by decide)] at hlonger
    -- no exponent of a term reaches the limit
    refine coeff_ofTerms_of_forall_ne fun t ht heq => ?_
    have hlt := Monomial.Bounded.exponents_lt (hp.canonical.monomials t ht) (hp.bounded t ht) x
    rw [heq, Finsupp.add_apply, Finsupp.single_eq_same] at hlt
    omega

/-! ## Laws -/

/-- Partial derivatives can be exchanged. -/
theorem pderiv_comm (x y : String) (P : MvPolynomial String ℚ) :
    MvPolynomial.pderiv y (MvPolynomial.pderiv x P) =
      MvPolynomial.pderiv x (MvPolynomial.pderiv y P) := by
  rcases eq_or_ne x y with rfl | hne
  · rfl
  · ext e
    rw [MvPolynomial.coeff_pderiv, MvPolynomial.coeff_pderiv, MvPolynomial.coeff_pderiv,
      MvPolynomial.coeff_pderiv, Finsupp.add_apply, Finsupp.add_apply,
      Finsupp.single_eq_of_ne hne, Finsupp.single_eq_of_ne hne.symm, add_zero, add_zero,
      add_right_comm]
    ring

/-- Derivatives by two variables can be exchanged. -/
theorem WellFormed.derivative_comm (hp : p.WellFormed) (x y : String) :
    (p.derivative x).derivative y = (p.derivative y).derivative x := by
  have hx := hp.derivative x
  have hy := hp.derivative y
  apply (hx.derivative y).canonical.eq_of_toMvPolynomial_eq (hy.derivative x).canonical
  rw [toMvPolynomial_derivative y hx.canonical.monomials,
    toMvPolynomial_derivative x hp.canonical.monomials,
    toMvPolynomial_derivative x hy.canonical.monomials,
    toMvPolynomial_derivative y hp.canonical.monomials]
  exact pderiv_comm x y _

/-- The product rule, as far as no product in it is refused. -/
theorem WellFormed.derivative_mul? (hp : p.WellFormed) (hq : q.WellFormed) (x : String)
    {product left right : Polynomial} (hproduct : p.mul? q = some product)
    (hleft : (p.derivative x).mul? q = some left)
    (hright : p.mul? (q.derivative x) = some right) :
    product.derivative x = left.add right := by
  have hwell := hp.mul? hq hproduct
  have hsum := ((hp.derivative x).mul? hq hleft).add (hp.mul? (hq.derivative x) hright)
  apply (hwell.derivative x).canonical.eq_of_toMvPolynomial_eq hsum.canonical
  rw [toMvPolynomial_derivative x hwell.canonical.monomials, toMvPolynomial_mul? hproduct,
    MvPolynomial.pderiv_mul, toMvPolynomial_add, toMvPolynomial_mul? hleft,
    toMvPolynomial_mul? hright, toMvPolynomial_derivative x hp.canonical.monomials,
    toMvPolynomial_derivative x hq.canonical.monomials]

/-! ## Derivatives of terms -/

/-- The derivative of a term that denotes a polynomial, by a symbol, is issued as the term of the
derivative. -/
theorem transform_derivative_of_polynomial? {name : String} (hname : name ∈ ["derivative", "diff"])
    {table : TermTable} {t u : Handle} {a : Term} {x : String} (ht : table.term t = .ok a)
    (hu : table.term u = .ok (.symbol x)) (hp : a.polynomial? = .ok (some p)) :
    ∃ r later, transform name [t, u] table = .ok r later ∧
      later.term r = .ok (p.derivative x).toTerm := by
  have hreduce : name ∉ ["reduce", "expand", "simplify"] := by
    rcases List.mem_pair.mp hname with rfl | rfl <;> decide
  have htransformed : Term.transformed name [a, .symbol x] = .ok (p.derivative x).toTerm := by
    rw [Term.transformed, if_neg hreduce, if_pos hname, Term.derivative?, hp]
  have hgives := gives_transform name (.cons ht (.cons hu .nil))
  rw [htransformed] at hgives
  obtain ⟨r, later, hrun, -, hr⟩ := hgives.exists_run (.refl table)
  exact ⟨r, later, hrun, hr⟩

/-- A derivative has the coefficients of the partial derivative: that of a monomial is the one of
the monomial with the exponent raised by one, times the raised exponent, and zero where the
exponent cannot be raised.  Derivatives by two variables can be exchanged, and the product rule
holds as far as no product in it is refused.  The transformation of a term that denotes the
polynomial, by a symbol, issues a term with the values of the derivative. -/
theorem derivative_isPartial (hp : p.WellFormed) (x : String) :
    (∀ m : Monomial, m.Canonical → (p.derivative x).coefficient m =
      (m.exponent x + 1) * (m.mulFactor? x 1).elim 0 p.coefficient) ∧
    (∀ y, (p.derivative x).derivative y = (p.derivative y).derivative x) ∧
    (∀ q, q.WellFormed → ∀ product left right, p.mul? q = some product →
      (p.derivative x).mul? q = some left → p.mul? (q.derivative x) = some right →
        product.derivative x = left.add right) ∧
    ∀ name ∈ ["derivative", "diff"], ∀ (table : TermTable) (t u : Handle) (a : Term),
      table.term t = .ok a → a.polynomial? = .ok (some p) → table.term u = .ok (.symbol x) →
      ∃ r later b, transform name [t, u] table = .ok r later ∧ later.term r = .ok b ∧
        ∀ M : Interpretation, M.Lawful → ∀ σ, b.value M σ = (p.derivative x).value σ := by
  refine ⟨fun m hm => hp.coefficient_derivative x hm, hp.derivative_comm x,
    fun q hq _ _ _ hproduct hleft hright => hp.derivative_mul? hq x hproduct hleft hright,
    fun name hname table t u a ht ha hu => ?_⟩
  obtain ⟨r, later, hrun, hr⟩ := transform_derivative_of_polynomial? hname ht hu ha
  exact ⟨r, later, _, hrun, hr, fun M hM σ => (p.derivative x).value_toTerm hM σ⟩

/-- In the derivative of `3*x + x^2*y` by `x` the first variable leaves its monomial and the
second one keeps it.  The product with `x - y` is differentiated by the product rule. -/
theorem derivative_isPartial_of_product :
    let p := ((var "x").scale 3).add (monomial [("x", 2), ("y", 1)] 1)
    let q := (var "x").sub (var "y")
    let a := Term.operation .add (.operation .mul (.number 3) (.symbol "x"))
      (.operation .mul (.operation .pow (.symbol "x") (.number 2)) (.symbol "y"))
    p.WellFormed ∧ a.polynomial? = .ok (some p) ∧
    (p.derivative "x").coefficient [] = 3 ∧
    (p.derivative "x").coefficient [("x", 1), ("y", 1)] = 2 ∧
    (p.derivative "x").derivative "y" = (p.derivative "y").derivative "x" ∧
    (∃ product left right, p.mul? q = some product ∧ (p.derivative "x").mul? q = some left ∧
      p.mul? (q.derivative "x") = some right ∧ product.derivative "x" = left.add right) ∧
    ∃ r later b, transform "derivative" [0, 1] ⟨#[a, .symbol "x"]⟩ = .ok r later ∧
      later.term r = .ok b ∧ b.value .field (fun _ => 2) = (p.derivative "x").value fun _ => 2 := by
  intro p q a
  have hx := wellFormed_var "x"
  have hp : p.WellFormed := (hx.scale 3).add
    (wellFormed_monomial 1 ⟨by decide, by simp⟩ (by simp [Monomial.Bounded, exponentLimit]))
  have hq : q.WellFormed := hx.add ((wellFormed_var "y").scale (-1))
  have ha : a.polynomial? = .ok (some p) := by decide +kernel
  have hproduct : p.mul? q ≠ none := by decide +kernel
  have hleft : (p.derivative "x").mul? q ≠ none := by decide +kernel
  have hright : p.mul? (q.derivative "x") ≠ none := by decide +kernel
  obtain ⟨product, hproduct⟩ := Option.ne_none_iff_exists'.mp hproduct
  obtain ⟨left, hleft⟩ := Option.ne_none_iff_exists'.mp hleft
  obtain ⟨right, hright⟩ := Option.ne_none_iff_exists'.mp hright
  obtain ⟨hcoefficient, hcomm, hrule, htransform⟩ := derivative_isPartial hp "x"
  obtain ⟨r, later, b, hrun, hr, hvalue⟩ :=
    htransform "derivative" (by decide) ⟨#[a, .symbol "x"]⟩ 0 1 a rfl ha rfl
  refine ⟨hp, ha, ?_, ?_, hcomm "y",
    ⟨product, left, right, hproduct, hleft, hright,
      hrule q hq product left right hproduct hleft hright⟩,
    r, later, b, hrun, hr, hvalue .field Interpretation.field_lawful _⟩
  · rw [hcoefficient _ Monomial.canonical_nil]
    decide +kernel
  · rw [hcoefficient _ ⟨by decide, by simp⟩]
    decide +kernel

end Polynomial

end MathQuery
