import MathQuery.Proofs.Algebra.Canonical

/-!
# The coefficients of polynomials

Whatever polynomials are made of each other, they stay canonical and their exponents stay
below the limit.  Such a polynomial is determined by its coefficients, and sums, differences
and multiples are formed coefficient by coefficient.  So the laws of addition hold for the
lists themselves.

* `Polynomial.WellFormed` – canonical, with exponents below the limit;
* `Polynomial.Made` – the polynomials that the operations produce, and `Made.wellFormed`;
* `Polynomial.Canonical.coefficient_eq` – the coefficients that a polynomial lists are those
  of what it stands for;
* `Polynomial.coefficientwise_of_made` – all of this for the polynomials that are made.
-/

namespace MathQuery

namespace Monomial

/-- All exponents are below the limit. -/
def Bounded (m : Monomial) : Prop := ∀ s ∈ m, s.2 < exponentLimit

variable {m n product : Monomial} {x : String}

/-- The exponent of a variable is looked up in the factors. -/
theorem Canonical.exponents_apply (hm : m.Canonical) (x : String) :
    m.exponents x = m.exponent x := by
  rw [exponent]
  cases hfind : m.find? (·.1 == x) with
  | none =>
    dsimp only
    by_contra hne
    have hmem := (hm.mem_iff (x, m.exponents x)).mpr ⟨Nat.pos_of_ne_zero hne, rfl⟩
    simpa using List.find?_eq_none.mp hfind _ hmem
  | some s =>
    have hname : s.1 = x := by simpa using List.find?_some hfind
    exact hname ▸ ((hm.mem_iff s).mp (List.mem_of_find?_eq_some hfind)).2

theorem Bounded.mulFactor? {e : ℕ} (hm : m.Bounded) (he : e < exponentLimit)
    (h : m.mulFactor? x e = some product) : product.Bounded := by
  induction m generalizing product with
  | nil =>
    obtain rfl : [(x, e)] = product := by simpa [Monomial.mulFactor?] using h
    simpa [Bounded] using he
  | cons s m ih =>
    obtain ⟨y, d⟩ := s
    obtain ⟨hd, hm⟩ := List.forall_mem_cons.mp hm
    rw [Monomial.mulFactor?] at h
    cases hxy : compare x y with
    | lt =>
      obtain rfl : (x, e) :: (y, d) :: m = product := by simpa [hxy] using h
      exact List.forall_mem_cons.mpr ⟨he, List.forall_mem_cons.mpr ⟨hd, hm⟩⟩
    | eq =>
      obtain ⟨hsum, rfl⟩ : d + e < exponentLimit ∧ (y, d + e) :: m = product := by
        simpa [hxy] using h
      exact List.forall_mem_cons.mpr ⟨hsum, hm⟩
    | gt =>
      simp only [hxy, Option.map_eq_some_iff] at h
      obtain ⟨longer, hlonger, rfl⟩ := h
      exact List.forall_mem_cons.mpr ⟨hd, ih hm hlonger⟩

theorem Bounded.mul? (hm : m.Bounded) (hn : n.Bounded) (h : m.mul? n = some product) :
    product.Bounded := by
  induction n generalizing m with
  | nil =>
    obtain rfl : m = product := by simpa [Monomial.mul?] using h
    exact hm
  | cons s n ih =>
    obtain ⟨he, hn⟩ := List.forall_mem_cons.mp hn
    simp only [Monomial.mul?, Option.bind_eq_some_iff] at h
    obtain ⟨longer, hlonger, hproduct⟩ := h
    exact ih (hm.mulFactor? he hlonger) hn hproduct

/-! ## Lowering an exponent -/

/-- Lowering brings in no new name and no larger exponent. -/
theorem exists_of_mem_lower {s : String × ℕ} (hs : s ∈ m.lower x) :
    ∃ t ∈ m, s.1 = t.1 ∧ s.2 ≤ t.2 := by
  induction m with
  | nil => contradiction
  | cons t m ih =>
    obtain ⟨y, d⟩ := t
    rw [lower] at hs
    split at hs
    · split at hs
      · exact ⟨s, List.mem_cons_of_mem _ hs, rfl, le_rfl⟩
      · rcases List.mem_cons.mp hs with rfl | hs
        · exact ⟨(y, d), List.mem_cons_self, rfl, Nat.sub_le d 1⟩
        · exact ⟨s, List.mem_cons_of_mem _ hs, rfl, le_rfl⟩
    · rcases List.mem_cons.mp hs with rfl | hs
      · exact ⟨(y, d), List.mem_cons_self, rfl, le_rfl⟩
      · obtain ⟨t, ht, hst⟩ := ih hs
        exact ⟨t, List.mem_cons_of_mem _ ht, hst⟩

theorem Bounded.lower (hm : m.Bounded) (x : String) : (m.lower x).Bounded := by
  intro s hs
  obtain ⟨t, ht, -, hle⟩ := exists_of_mem_lower hs
  exact hle.trans_lt (hm t ht)

/-- A variable whose exponent is one leaves the monomial, so no exponent becomes zero. -/
theorem Canonical.lower (hm : m.Canonical) (x : String) : (m.lower x).Canonical := by
  induction m with
  | nil => exact canonical_nil
  | cons t m ih =>
    obtain ⟨y, d⟩ := t
    obtain ⟨hfirst, hlater⟩ := List.pairwise_cons.mp hm.ascending
    obtain ⟨hd, hpositive⟩ := List.forall_mem_cons.mp hm.positive
    rw [Monomial.lower]
    split
    · split
      · exact hm.tail
      · exact ⟨List.pairwise_cons.mpr ⟨hfirst, hlater⟩,
          List.forall_mem_cons.mpr ⟨by dsimp only at hd ⊢; omega, hpositive⟩⟩
    · refine ⟨List.pairwise_cons.mpr ⟨fun s hs => ?_, (ih hm.tail).ascending⟩,
        List.forall_mem_cons.mpr ⟨hd, (ih hm.tail).positive⟩⟩
      obtain ⟨t, ht, hst, -⟩ := exists_of_mem_lower hs
      rw [hst]
      exact hfirst t ht

/-- Lowering takes off exactly one of the exponent of a variable that occurs. -/
theorem Canonical.exponents_lower (hm : m.Canonical) {s : String × ℕ} (hs : s ∈ m) :
    (m.lower s.1).exponents + Finsupp.single s.1 1 = m.exponents := by
  induction m with
  | nil => contradiction
  | cons t m ih =>
    obtain ⟨y, d⟩ := t
    have hd : 0 < d := hm.positive _ List.mem_cons_self
    rw [Monomial.lower]
    split
    · next hxy =>
      split
      · next hone => rw [exponents_cons, hxy, hone, add_comm]
      · have hsucc : d = d - 1 + 1 := by omega
        rw [exponents_cons, exponents_cons, hxy, add_right_comm, ← Finsupp.single_add, ← hsucc]
    · next hxy =>
      have hlater : s ∈ m := by
        rcases List.mem_cons.mp hs with rfl | hs
        · exact absurd rfl hxy
        · exact hs
      rw [exponents_cons, exponents_cons, add_assoc, ih hm.tail hlater]

end Monomial

namespace Polynomial

/-! ## Polynomials that are made -/

/-- Canonical, with all exponents below the limit. -/
structure WellFormed (p : Polynomial) : Prop where
  canonical : p.Canonical
  bounded : p.EveryMonomial Monomial.Bounded

variable {p q r product : Polynomial}

theorem wellFormed_zero : zero.WellFormed :=
  ⟨canonical_zero, by simp [zero, EveryMonomial]⟩

theorem wellFormed_monomial {m : Monomial} (c : ℚ) (hm : m.Canonical) (hbounded : m.Bounded) :
    (monomial m c).WellFormed :=
  ⟨canonical_monomial c hm, .monomial c hbounded⟩

theorem wellFormed_constant (c : ℚ) : (constant c).WellFormed :=
  wellFormed_monomial c Monomial.canonical_nil (by simp [Monomial.Bounded])

theorem wellFormed_var (x : String) : (var x).WellFormed :=
  wellFormed_monomial 1 (Monomial.canonical_single Nat.one_pos)
    (by simp [Monomial.Bounded, exponentLimit])

theorem WellFormed.add (hp : p.WellFormed) (hq : q.WellFormed) : (p.add q).WellFormed :=
  ⟨hp.canonical.add hq.canonical, hp.bounded.add hq.bounded⟩

theorem WellFormed.scale (factor : ℚ) (hp : p.WellFormed) : (p.scale factor).WellFormed :=
  ⟨hp.canonical.scale factor, hp.bounded.scale factor⟩

theorem WellFormed.mul? (hp : p.WellFormed) (hq : q.WellFormed) (h : p.mul? q = some product) :
    product.WellFormed :=
  ⟨hp.canonical.mul? hq.canonical h,
    hp.bounded.mul? (fun _ _ _ => Monomial.Bounded.mul?) hq.bounded h⟩

/-- A property of zero that sums keep holds for a derivative if it holds for the single terms
whose exponent is lowered. -/
theorem derivative_closed {Q : Polynomial → Prop} (hzero : Q zero)
    (hadd : ∀ p q, Q p → Q q → Q (p.add q)) {x : String}
    (hmonomial : ∀ t ∈ p.terms, ∀ c, Q (monomial (t.1.lower x) c)) : Q (p.derivative x) := by
  apply Balanced.combine_closed add zero Q hadd hzero
  intro q hq
  obtain ⟨t, ht, rfl⟩ := List.mem_map.mp hq
  rw [derivativeTerm]
  split
  · exact hzero
  · exact hmonomial t ht _

theorem WellFormed.derivative (x : String) (hp : p.WellFormed) : (p.derivative x).WellFormed :=
  derivative_closed wellFormed_zero (fun _ _ => .add) fun t ht c =>
    wellFormed_monomial c ((hp.canonical.monomials t ht).lower x) ((hp.bounded t ht).lower x)

/-- The polynomials that any succession of operations produces. -/
inductive Made : Polynomial → Prop
  | zero : Made .zero
  | constant (c : ℚ) : Made (.constant c)
  | var (x : String) : Made (.var x)
  | add {p q : Polynomial} (hp : Made p) (hq : Made q) : Made (p.add q)
  | sub {p q : Polynomial} (hp : Made p) (hq : Made q) : Made (p.sub q)
  | neg {p : Polynomial} (hp : Made p) : Made p.neg
  | scale {p : Polynomial} (factor : ℚ) (hp : Made p) : Made (p.scale factor)
  | mul {p q product : Polynomial} (hp : Made p) (hq : Made q) (h : p.mul? q = some product) :
    Made product
  | pow {p power : Polynomial} {n : ℕ} (hp : Made p) (h : p.pow? n = some power) : Made power
  | derivative {p : Polynomial} (x : String) (hp : Made p) : Made (p.derivative x)

/-- No operation leaves a coefficient or an exponent of zero behind, nor an exponent that
reaches the limit. -/
theorem Made.wellFormed (h : p.Made) : p.WellFormed := by
  induction h with
  | zero => exact wellFormed_zero
  | constant c => exact wellFormed_constant c
  | var x => exact wellFormed_var x
  | add _ _ ihp ihq => exact ihp.add ihq
  | sub _ _ ihp ihq => exact ihp.add (ihq.scale (-1))
  | neg _ ih => exact ih.scale (-1)
  | scale factor _ ih => exact ih.scale factor
  | mul _ _ h ihp ihq => exact ihp.mul? ihq h
  | pow _ h ih =>
    exact pow?_closed (wellFormed_constant 1) (fun _ _ _ hp hq => hp.mul? hq) ih h
  | derivative x _ ih => exact ih.derivative x

/-! ## Coefficients -/

/-- The coefficient of a monomial is looked up in the terms. -/
theorem Canonical.coefficient_eq_of_mem (hp : p.Canonical) {t : PolynomialTerm}
    (ht : t ∈ p.terms) : p.coefficient t.1 = t.2 := by
  rw [coefficient]
  cases hfind : p.terms.find? (·.1 == t.1) with
  | none => simpa using List.find?_eq_none.mp hfind t ht
  | some s =>
    -- terms with one monomial have the coefficient that it has in what `p` stands for
    have hmonomial : s.1 = t.1 := by simpa using List.find?_some hfind
    show s.2 = t.2
    rw [← hp.coeff_eq_of_mem (List.mem_of_find?_eq_some hfind), hmonomial,
      hp.coeff_eq_of_mem ht]

theorem coefficient_eq_zero {m : Monomial} (h : ∀ t ∈ p.terms, t.1 ≠ m) :
    p.coefficient m = 0 := by
  have hnone : p.terms.find? (·.1 == m) = none := by simpa using h
  rw [coefficient, hnone]

open scoped Classical in
/-- Canonical monomials have the coefficients that they have in what the polynomial stands for,
and other monomials do not occur. -/
theorem Canonical.coefficient_eq (hp : p.Canonical) (m : Monomial) :
    p.coefficient m = if m.Canonical then p.toMvPolynomial.coeff m.exponents else 0 := by
  by_cases hmem : ∃ t ∈ p.terms, t.1 = m
  · obtain ⟨t, ht, rfl⟩ := hmem
    rw [if_pos (hp.monomials t ht), hp.coefficient_eq_of_mem ht, hp.coeff_eq_of_mem ht]
  · have habsent : ∀ t ∈ p.terms, t.1 ≠ m := fun t ht heq => hmem ⟨t, ht, heq⟩
    rw [coefficient_eq_zero habsent]
    split
    · next hm =>
      refine (coeff_ofTerms_of_forall_ne fun t ht heq => habsent t ht ?_).symm
      exact (hp.monomials t ht).eq_of_exponents_eq hm heq
    · rfl

/-- A polynomial lists the monomials that have coefficients other than zero. -/
theorem Canonical.mem_iff_coefficient (hp : p.Canonical) (t : PolynomialTerm) :
    t ∈ p.terms ↔ t.1.Canonical ∧ t.2 ≠ 0 ∧ p.coefficient t.1 = t.2 := by
  rw [hp.mem_iff, hp.coefficient_eq]
  refine and_congr_right fun hm => ?_
  rw [if_pos hm]

/-- Canonical polynomials with the same coefficients are equal lists. -/
theorem Canonical.eq_iff_coefficient_eq (hp : p.Canonical) (hq : q.Canonical) :
    p = q ↔ ∀ m : Monomial, m.Canonical → p.coefficient m = q.coefficient m := by
  constructor
  · rintro rfl m -
    rfl
  · intro h
    obtain ⟨ps⟩ := p
    obtain ⟨qs⟩ := q
    congr 1
    refine eq_of_mem_iff_of_ascending (fun s t hst hts => ?_) hp.ascending hq.ascending
      fun t => ?_
    · rw [Std.OrientedCmp.gt_of_lt hst] at hts
      contradiction
    · rw [hp.mem_iff_coefficient t, hq.mem_iff_coefficient t]
      refine and_congr_right fun hm => ?_
      rw [h t.1 hm]

theorem Canonical.coefficient_add (hp : p.Canonical) (hq : q.Canonical) (m : Monomial) :
    (p.add q).coefficient m = p.coefficient m + q.coefficient m := by
  rw [(hp.add hq).coefficient_eq, hp.coefficient_eq, hq.coefficient_eq, toMvPolynomial_add]
  split
  · exact MvPolynomial.coeff_add _ _ _
  · exact (add_zero 0).symm

theorem Canonical.coefficient_scale (hp : p.Canonical) (factor : ℚ) (m : Monomial) :
    (p.scale factor).coefficient m = p.coefficient m * factor := by
  rw [(hp.scale factor).coefficient_eq, hp.coefficient_eq, toMvPolynomial_scale]
  split
  · rw [MvPolynomial.coeff_C_mul, mul_comm]
  · exact (zero_mul factor).symm

theorem Canonical.coefficient_neg (hp : p.Canonical) (m : Monomial) :
    p.neg.coefficient m = -p.coefficient m := by
  rw [neg, hp.coefficient_scale, mul_neg_one]

theorem Canonical.coefficient_sub (hp : p.Canonical) (hq : q.Canonical) (m : Monomial) :
    (p.sub q).coefficient m = p.coefficient m - q.coefficient m := by
  have hneg : q.neg.Canonical := hq.scale (-1)
  rw [sub, hp.coefficient_add hneg, hq.coefficient_neg, sub_eq_add_neg]

/-! ## All of it for the polynomials that are made -/

/-- Every polynomial that is made is canonical, with exponents that lie between zero and the
limit, so a derivative lowers an exponent by exactly one.  It is determined by its
coefficients, sums, differences, negatives and multiples are formed coefficient by coefficient,
and the laws of addition are equations of lists. -/
theorem coefficientwise_of_made (hp : p.Made) (hq : q.Made) (hr : r.Made) :
    p.WellFormed ∧
    (∀ t ∈ p.terms, ∀ s ∈ t.1, 1 ≤ s.2 ∧
      (t.1.lower s.1).exponents + Finsupp.single s.1 1 = t.1.exponents) ∧
    (p = q ↔ ∀ m : Monomial, m.Canonical → p.coefficient m = q.coefficient m) ∧
    (∀ m : Monomial, (p.add q).coefficient m = p.coefficient m + q.coefficient m ∧
      (p.sub q).coefficient m = p.coefficient m - q.coefficient m ∧
      p.neg.coefficient m = -p.coefficient m ∧
      ∀ factor, (p.scale factor).coefficient m = p.coefficient m * factor) ∧
    p.add q = q.add p ∧
    (p.add q).add r = p.add (q.add r) ∧
    p.sub p = zero ∧
    ∀ factor, (p.add q).scale factor = (p.scale factor).add (q.scale factor) := by
  have hwell := hp.wellFormed
  have hpc := hp.wellFormed.canonical
  have hqc := hq.wellFormed.canonical
  have hrc := hr.wellFormed.canonical
  refine ⟨hwell, fun t ht s hs => ?_, hpc.eq_iff_coefficient_eq hqc, fun m => ?_, ?_, ?_, ?_,
    fun factor => ?_⟩
  · have ht := hpc.monomials t ht
    exact ⟨ht.positive s hs, ht.exponents_lower hs⟩
  · exact ⟨hpc.coefficient_add hqc m, hpc.coefficient_sub hqc m, hpc.coefficient_neg m,
      fun factor => hpc.coefficient_scale factor m⟩
  -- canonical lists that stand for the same are equal, so the laws are those of the ring
  · apply (hpc.add hqc).eq_of_toMvPolynomial_eq (hqc.add hpc)
    simp only [toMvPolynomial_add]
    ring
  · apply ((hpc.add hqc).add hrc).eq_of_toMvPolynomial_eq (hpc.add (hqc.add hrc))
    simp only [toMvPolynomial_add]
    ring
  · apply (hpc.add (hpc.scale (-1))).eq_of_toMvPolynomial_eq canonical_zero
    exact (toMvPolynomial_sub p p).trans (sub_self _)
  · apply ((hpc.add hqc).scale factor).eq_of_toMvPolynomial_eq
      ((hpc.scale factor).add (hqc.scale factor))
    simp only [toMvPolynomial_add, toMvPolynomial_scale]
    ring

/-- The derivative of `(x + 1)^2`, the product of `x + 1` and `x - 1`, and `1/2`. -/
theorem coefficientwise_of_made_square :
    let longer := (var "x").add (constant 1)
    let p : Polynomial := ⟨[([], 2), ([("x", 1)], 2)]⟩
    let q : Polynomial := ⟨[([], -1), ([("x", 2)], 1)]⟩
    (∃ square, longer.pow? 2 = some square ∧ square.derivative "x" = p) ∧
    longer.mul? ((var "x").sub (constant 1)) = some q ∧
    p.WellFormed ∧
    (∀ t ∈ p.terms, ∀ s ∈ t.1, 1 ≤ s.2 ∧
      (t.1.lower s.1).exponents + Finsupp.single s.1 1 = t.1.exponents) ∧
    (p = q ↔ ∀ m : Monomial, m.Canonical → p.coefficient m = q.coefficient m) ∧
    (p.sub q).coefficient [("x", 2)] = -1 ∧
    p.add q = q.add p ∧
    (p.add q).add (constant (1 / 2)) = p.add (q.add (constant (1 / 2))) ∧
    p.sub p = zero := by
  intro longer p q
  have hlonger : longer.Made := .add (.var "x") (.constant 1)
  let square : Polynomial := ⟨[([], 1), ([("x", 1)], 2), ([("x", 2)], 1)]⟩
  have hsquare : longer.pow? 2 = some square := by decide +kernel
  have hderivative : square.derivative "x" = p := by decide +kernel
  have hproduct : longer.mul? ((var "x").sub (constant 1)) = some q := by decide +kernel
  have hp : p.Made := hderivative ▸ .derivative "x" (.pow hlonger hsquare)
  have hq : q.Made := .mul hlonger (.sub (.var "x") (.constant 1)) hproduct
  obtain ⟨hwell, hlower, hdetermined, hcoefficients, hcomm, hassoc, hself, -⟩ :=
    coefficientwise_of_made hp hq (.constant (1 / 2))
  have hcoefficient : (p.sub q).coefficient [("x", 2)] = -1 := by
    rw [(hcoefficients _).2.1]
    decide +kernel
  exact ⟨⟨square, hsquare, hderivative⟩, hproduct, hwell, hlower, hdetermined, hcoefficient, hcomm,
    hassoc, hself⟩

end Polynomial

end MathQuery
