import MathQuery.Proofs.Algebra.Convolution
import MathQuery.Proofs.Algebra.Idempotence
import Mathlib.Algebra.Ring.GeomSum

/-!
# Products in the other order

The product of two polynomials does not depend on their order, as long as it is not refused.
The number of multiplications and the exponents that add up do not depend on it either.  But
partial products do: where terms cancel later, they may grow too large in one order only.

* `Polynomial.geometric` – sums of powers, whose products with `1 - x` collapse;
* `Polynomial.mul?_geometric` – such a product is refused in one order only;
* `Polynomial.OutgrowsAlone` – only this order of the factors is refused;
* `Term.IsExpanded`, `Polynomial.isExpanded_productTerm_iff` – whether a product of terms is
  expanded by reduction;
* `mul?_eq_swap_iff` – when the order does not matter, why an order is refused, and what that
  means for products that are reduced.
-/

namespace MathQuery

namespace Polynomial

variable {p q : Polynomial}

theorem overflows_swap (h : p.Overflows q) : q.Overflows p := by
  obtain ⟨s, hs, t, ht, x, hlimit⟩ := h
  exact ⟨t, ht, s, hs, x, by rwa [Nat.add_comm]⟩

theorem overflows_comm : p.Overflows q ↔ q.Overflows p := ⟨overflows_swap, overflows_swap⟩

/-! ## Products that are refused in one order only -/

/-- The product of `p` and `q` is refused in this order of the factors only: a partial product is
too large, none is in the other order, and nothing else refuses the product. -/
def OutgrowsAlone (p q : Polynomial) : Prop :=
  p.Outgrows q ∧ ¬ q.Outgrows p ∧ p.size * q.size ≤ productLimit ∧ ¬ p.Overflows q

theorem OutgrowsAlone.mul? (hp : p.WellFormed) (hq : q.WellFormed) (h : p.OutgrowsAlone q) :
    p.mul? q = none ∧ ∃ product, q.mul? p = some product := by
  obtain ⟨hgrown, hother, hlimit, hfits⟩ := h
  refine ⟨(mul?_eq_none_iff hp hq).mpr (.inr (.inr hgrown)), Option.ne_none_iff_exists'.mp ?_⟩
  rw [Ne, mul?_eq_none_iff hq hp, Nat.mul_comm, ← overflows_comm]
  rintro (hproducts | hoverflows | houtgrows)
  · omega
  · exact hfits hoverflows
  · exact hother houtgrows

theorem OutgrowsAlone.mul?_ne (hp : p.WellFormed) (hq : q.WellFormed) (h : p.OutgrowsAlone q) :
    p.mul? q ≠ q.mul? p := by
  obtain ⟨hnone, product, hsome⟩ := h.mul? hp hq
  rw [hnone, hsome]
  exact (Option.some_ne_none product).symm

/-! ## Sums of powers and `1 - x` -/

theorem ofTerms_append (ps qs : List PolynomialTerm) :
    ofTerms (ps ++ qs) = ofTerms ps + ofTerms qs := by
  simp [ofTerms]

theorem card_support_ofTerms_le (terms : List PolynomialTerm) :
    (ofTerms terms).support.card ≤ terms.length := by
  induction terms with
  | nil => simp
  | cons t terms ih =>
    obtain ⟨m, c⟩ := t
    have hfirst : (MvPolynomial.monomial m.exponents c).support.card ≤ 1 :=
      (Finset.card_le_card MvPolynomial.support_monomial_subset).trans_eq (Finset.card_singleton _)
    rw [ofTerms_cons, List.length_cons]
    calc (MvPolynomial.monomial m.exponents c + ofTerms terms).support.card
        ≤ ((MvPolynomial.monomial m.exponents c).support ∪ (ofTerms terms).support).card :=
          Finset.card_le_card MvPolynomial.support_add
      _ ≤ (MvPolynomial.monomial m.exponents c).support.card + (ofTerms terms).support.card :=
          Finset.card_union_le _ _
      _ ≤ terms.length + 1 := by omega

/-- The polynomial `1 + x + x^2 + ...` with `n` terms. -/
def geometric (x : String) (n : ℕ) : Polynomial :=
  ⟨(List.range n).map fun k => (.single x k, 1)⟩

/-- The polynomial `1 - x^n`. -/
def oneMinus (x : String) (n : ℕ) : Polynomial := ⟨[([], 1), ([(x, n)], -1)]⟩

variable {x : String} {n : ℕ}

theorem bounded_single {e : ℕ} (he : e < exponentLimit) : (Monomial.single x e).Bounded := by
  rw [Monomial.single]
  split
  · exact List.forall_mem_nil _
  · exact List.forall_mem_singleton.mpr he

theorem wellFormed_geometric (hn : n ≤ exponentLimit) : (geometric x n).WellFormed := by
  refine ⟨⟨?_, fun t ht => ?_, fun t ht => ?_⟩, fun t ht => ?_⟩
  · exact List.pairwise_map.mpr (List.pairwise_lt_range.imp (Monomial.order_single x))
  all_goals obtain ⟨k, hk, rfl⟩ := List.mem_map.mp ht
  · exact one_ne_zero
  · exact Monomial.canonical_power x k
  · exact bounded_single ((List.mem_range.mp hk).trans_le hn)

theorem wellFormed_oneMinus (hpos : 0 < n) (hn : n < exponentLimit) :
    (oneMinus x n).WellFormed := by
  refine ⟨⟨List.pairwise_pair.mpr rfl, by simp [oneMinus], ?_⟩, ?_⟩
  · simpa [EveryMonomial, oneMinus] using
      ⟨Monomial.canonical_nil, Monomial.canonical_single hpos⟩
  · simpa [EveryMonomial, oneMinus, Monomial.Bounded] using hn

theorem not_overflows_geometric (hn : n < exponentLimit) :
    ¬ (geometric x n).Overflows (oneMinus x 1) := by
  rintro ⟨s, hs, t, ht, y, hlimit⟩
  have hpower (e : ℕ) : (Monomial.single x e).exponent y ≤ e := by
    rw [← (Monomial.canonical_power x e).exponents_apply, Monomial.exponents_single,
      Finsupp.single_apply]
    split <;> omega
  obtain ⟨k, hk, rfl⟩ := List.mem_map.mp hs
  have hk := List.mem_range.mp hk
  have hleft := hpower k
  have hright : t.1.exponent y ≤ 1 := by
    rcases List.mem_pair.mp ht with rfl | rfl
    · exact Nat.zero_le 1
    · exact hpower 1
  dsimp only at hlimit
  omega

theorem toMvPolynomial_geometric (x : String) (n : ℕ) :
    (geometric x n).toMvPolynomial = ∑ k ∈ Finset.range n, MvPolynomial.X x ^ k := by
  induction n with
  | zero => rfl
  | succ n ih =>
    have hterms : (geometric x (n + 1)).terms = (geometric x n).terms ++ [(.single x n, 1)] := by
      simp [geometric, List.range_succ]
    rw [toMvPolynomial, hterms, ofTerms_append, ← toMvPolynomial, ih, ofTerms_cons, ofTerms_nil,
      Monomial.exponents_single, add_zero, ← MvPolynomial.X_pow_eq_monomial, Finset.sum_range_succ]

theorem toMvPolynomial_oneMinus (x : String) (n : ℕ) :
    (oneMinus x n).toMvPolynomial = 1 - MvPolynomial.X x ^ n := by
  rw [MvPolynomial.X_pow_eq_monomial, sub_eq_add_neg, ← map_neg]
  simp [toMvPolynomial, oneMinus]

/-- All terms of the product but the first and the last cancel. -/
theorem toMvPolynomial_geometric_mul (x : String) (n : ℕ) :
    (geometric x n).toMvPolynomial * (oneMinus x 1).toMvPolynomial =
      (oneMinus x n).toMvPolynomial := by
  rw [toMvPolynomial_geometric, toMvPolynomial_oneMinus, toMvPolynomial_oneMinus, pow_one,
    geom_sum_mul_neg]

/-- The first terms of a sum of powers are a sum of powers. -/
theorem exists_of_prefix_geometric {front : List PolynomialTerm}
    (h : front <+: (geometric x n).terms) : ∃ k, front = (geometric x k).terms := by
  refine ⟨min front.length n, ?_⟩
  rw [List.prefix_iff_eq_take.mp h, geometric, ← List.map_take, List.take_range]
  simp [geometric]

/-- Whatever many terms of a sum of powers are multiplied with `1 - x`, two terms are left. -/
theorem not_outgrows_geometric (x : String) (n : ℕ) : ¬ (geometric x n).Outgrows (oneMinus x 1) := by
  rintro ⟨front, hbegins, hgrown⟩
  obtain ⟨k, rfl⟩ := exists_of_prefix_geometric hbegins
  have hproduct : ofTerms (geometric x k).terms * (oneMinus x 1).toMvPolynomial =
      ofTerms (oneMinus x k).terms := toMvPolynomial_geometric_mul x k
  have hsize : (ofTerms (oneMinus x k).terms).support.card ≤ 2 := card_support_ofTerms_le _
  have hlimit : 2 ≤ termLimit := by decide
  rw [hproduct] at hgrown
  omega

/-- The first term of `1 - x` alone leaves all terms of the sum. -/
theorem outgrows_geometric (hn : termLimit < n) (hlimit : n ≤ exponentLimit) :
    (oneMinus x 1).Outgrows (geometric x n) := by
  have hsize : (geometric x n).size = n := by simp [geometric, size]
  refine ⟨[([], 1)], by simp [oneMinus], ?_⟩
  have hone : ofTerms [([], 1)] = 1 := by simp
  rw [hone, one_mul, ← (wellFormed_geometric hlimit).canonical.size_eq_card_support, hsize]
  exact hn

theorem outgrowsAlone_geometric (hn : termLimit < n) (hlimit : 2 * n ≤ productLimit) :
    (oneMinus x 1).OutgrowsAlone (geometric x n) := by
  have hbelow : productLimit < exponentLimit := by decide
  have hsizes : (oneMinus x 1).size * (geometric x n).size = 2 * n := by
    simp [geometric, oneMinus, size]
  refine ⟨outgrows_geometric hn (by omega), not_outgrows_geometric x n, hsizes.trans_le hlimit, ?_⟩
  rw [overflows_comm]
  exact not_overflows_geometric (by omega)

/-- The product of `1 - x` and a long sum of powers is refused, and in the other order it is
`1 - x^n`. -/
theorem mul?_geometric (hn : termLimit < n) (hlimit : 2 * n ≤ productLimit) :
    (oneMinus x 1).mul? (geometric x n) = none ∧
      (geometric x n).mul? (oneMinus x 1) = some (oneMinus x n) := by
  have hbelow : productLimit < exponentLimit := by decide
  have hp : (oneMinus x 1).WellFormed := wellFormed_oneMinus Nat.one_pos (by decide)
  have hq : (geometric x n).WellFormed := wellFormed_geometric (by omega)
  have hsum : (oneMinus x n).WellFormed := wellFormed_oneMinus (by omega) (by omega)
  obtain ⟨hrefused, product, hproduct⟩ := (outgrowsAlone_geometric hn hlimit).mul? hp hq
  refine ⟨hrefused, ?_⟩
  rw [hproduct]
  congr 1
  apply (hq.mul? hp hproduct).canonical.eq_of_toMvPolynomial_eq hsum.canonical
  rw [toMvPolynomial_mul? hproduct, toMvPolynomial_geometric_mul]

/-- The order of a product matters for `1 - x` and the sum of the first 4097 powers of `x`. -/
theorem mul?_ne_swap :
    (oneMinus "x" 1).WellFormed ∧ (geometric "x" 4097).WellFormed ∧
    (oneMinus "x" 1).mul? (geometric "x" 4097) = none ∧
    (geometric "x" 4097).mul? (oneMinus "x" 1) = some (oneMinus "x" 4097) ∧
    (oneMinus "x" 1).mul? (geometric "x" 4097) ≠ (geometric "x" 4097).mul? (oneMinus "x" 1) := by
  obtain ⟨hrefused, hproduct⟩ :=
    mul?_geometric (x := "x") (n := 4097) (by decide) (by decide)
  refine ⟨wellFormed_oneMinus Nat.one_pos (by decide), wellFormed_geometric (by decide),
    hrefused, hproduct, ?_⟩
  rw [hrefused, hproduct]
  exact (Option.some_ne_none _).symm

/-! ## When the order does not matter -/

theorem mul?_eq_swap_of_eq_some {product other : Polynomial} (hp : p.WellFormed)
    (hq : q.WellFormed) (h : p.mul? q = some product) (h' : q.mul? p = some other) :
    product = other := by
  apply (hp.mul? hq h).canonical.eq_of_toMvPolynomial_eq (hq.mul? hp h').canonical
  rw [toMvPolynomial_mul? h, toMvPolynomial_mul? h', mul_comm]

theorem mul?_eq_swap_iff_none (hp : p.WellFormed) (hq : q.WellFormed) :
    p.mul? q = q.mul? p ↔ (p.mul? q = none ↔ q.mul? p = none) := by
  constructor
  · intro h
    rw [h]
  · intro h
    cases hproduct : p.mul? q with
    | none => rw [h.mp hproduct]
    | some product =>
      cases hother : q.mul? p with
      | none =>
        rw [h.mpr hother] at hproduct
        contradiction
      | some other => rw [mul?_eq_swap_of_eq_some hp hq hproduct hother]

/-- The order of the factors matters only where exactly one order is refused. -/
theorem mul?_eq_swap_iff_not_outgrowsAlone (hp : p.WellFormed) (hq : q.WellFormed) :
    p.mul? q = q.mul? p ↔ ¬ p.OutgrowsAlone q ∧ ¬ q.OutgrowsAlone p := by
  constructor
  · intro heq
    exact ⟨fun h => h.mul?_ne hp hq heq, fun h => h.mul?_ne hq hp heq.symm⟩
  · rintro ⟨hleft, hright⟩
    -- given what the two orders share, only the partial products can tell them apart
    rw [OutgrowsAlone] at hleft hright
    rw [Nat.mul_comm, overflows_comm] at hright
    rw [mul?_eq_swap_iff_none hp hq, mul?_eq_none_iff hp hq, mul?_eq_none_iff hq hp,
      Nat.mul_comm q.size, overflows_comm (p := q), ← not_le]
    tauto

/-! ## Products that are expanded -/

/-- What the product of terms that denote two polynomials is reduced to. -/
def productTerm (p q : Polynomial) : Term :=
  match p.mul? q with
  | some product => product.toTerm
  | none => .operation .mul p.toTerm q.toTerm

end Polynomial

/-- A term is expanded if it is a polynomial as it is written, a sum of products. -/
def Term.IsExpanded (t : Term) : Prop := ∃ r : Polynomial, r.Canonical ∧ r.toTerm = t

namespace Monomial

variable {m : Monomial} {c : ℚ} {left right : Term}

theorem factorTerm_ne_mul (x : String) (e : ℕ) : factorTerm x e ≠ .operation .mul left right := by
  rw [factorTerm]
  split <;> simp

/-- A product among the terms of monomials is one of two parts of a monomial. -/
theorem exists_append_of_toTerm_eq_mul (hc : c ≠ 0) (h : m.toTerm c = .operation .mul left right) :
    ∃ front back d, m = front ++ back ∧ d ≠ 0 ∧ front.toTerm d = left ∧ back.toTerm 1 = right := by
  rcases eq_or_ne m [] with rfl | hne
  · cases h
  rcases eq_or_ne c 1 with rfl | hone
  · -- the last factor is what is multiplied last
    obtain ⟨front, ⟨x, e⟩, rfl⟩ := (List.eq_nil_or_concat' m).resolve_left hne
    rcases eq_or_ne front [] with rfl | hfront
    · exact absurd h (factorTerm_ne_mul x e)
    · rw [toTerm_append_singleton hfront] at h
      obtain ⟨-, hleft, hright⟩ := Term.operation.inj h
      exact ⟨front, [(x, e)], 1, rfl, one_ne_zero, hleft, hright⟩
  · rw [toTerm_of_ne_one hne hone] at h
    obtain ⟨-, hleft, hright⟩ := Term.operation.inj h
    exact ⟨[], m, c, rfl, hc, hleft, hright⟩

end Monomial

namespace Polynomial

variable {p q r : Polynomial} {left right : Term}

theorem Canonical.eq_of_toTerm_eq (hp : p.Canonical) (hq : q.Canonical)
    (h : p.toTerm = q.toTerm) : p = q := by
  apply hp.eq_of_value_eq hq
  intro σ
  rw [← p.value_toTerm Interpretation.field_lawful, h, q.value_toTerm Interpretation.field_lawful]

theorem addTerm_ne_mul (longer : Term) (t : PolynomialTerm) :
    addTerm longer t ≠ .operation .mul left right := by
  rw [addTerm]
  split <;> simp

/-- A product among the terms of polynomials is the term of a monomial with a coefficient. -/
theorem Canonical.exists_monomial_of_toTerm_eq_mul (hr : r.Canonical)
    (h : r.toTerm = .operation .mul left right) :
    ∃ (m : Monomial) (c : ℚ), m.Canonical ∧ c ≠ 0 ∧ m.toTerm c = .operation .mul left right := by
  rw [toTerm_eq_sumTerm] at h
  rcases List.eq_nil_or_concat' r.written with hnil | ⟨front, ⟨m, c⟩, hwritten⟩
  · rw [hnil] at h
    cases h
  rw [hwritten] at h
  rcases eq_or_ne front [] with rfl | hfront
  · have hmem : (m, c) ∈ r.terms := (sortBy_perm writtenLE r.terms).mem_iff.mp (by
      rw [← written, hwritten]
      exact List.mem_singleton_self _)
    exact ⟨m, c, hr.monomials _ hmem, hr.nonzero _ hmem, h⟩
  · rw [sumTerm_append_singleton hfront] at h
    exact absurd h (addTerm_ne_mul _ _)

/-- Two polynomials whose terms make up a product that is written as a polynomial are single
terms, and their product is not refused. -/
theorem Canonical.exists_mul?_of_isExpanded (hp : p.Canonical) (hq : q.Canonical)
    (h : (Term.operation .mul p.toTerm q.toTerm).IsExpanded) :
    ∃ product, p.mul? q = some product := by
  obtain ⟨r, hr, hterm⟩ := h
  obtain ⟨m, c, hm, hc, hmonomial⟩ := hr.exists_monomial_of_toTerm_eq_mul hterm
  obtain ⟨front, back, d, rfl, hd, hleft, hright⟩ :=
    Monomial.exists_append_of_toTerm_eq_mul hc hmonomial
  have hback : back.Canonical :=
    ⟨(List.pairwise_append.mp hm.ascending).2.1, fun s hs =>
      hm.positive s (List.mem_append_right front hs)⟩
  have hpfront : p = monomial front d := by
    apply hp.eq_of_toTerm_eq (canonical_monomial d hm.of_append)
    rw [toTerm_monomial front hd, hleft]
  have hqback : q = monomial back 1 := by
    apply hq.eq_of_toTerm_eq (canonical_monomial 1 hback)
    rw [toTerm_monomial back one_ne_zero, hright]
  exact ⟨_, hpfront ▸ hqback ▸ mul?_monomial d 1 (Monomial.mul?_append hm.ascending)⟩

/-- The product of terms is expanded exactly if the product of their polynomials is not
refused. -/
theorem isExpanded_productTerm_iff (hp : p.WellFormed) (hq : q.WellFormed) :
    (p.productTerm q).IsExpanded ↔ ∃ product, p.mul? q = some product := by
  rw [productTerm]
  cases hproduct : p.mul? q with
  | some product =>
    exact iff_of_true ⟨product, (hp.mul? hq hproduct).canonical, rfl⟩ ⟨product, rfl⟩
  | none =>
    refine iff_of_false (fun h => ?_) (by simp)
    obtain ⟨product, hsome⟩ := hp.canonical.exists_mul?_of_isExpanded hq.canonical h
    rw [hproduct] at hsome
    contradiction

/-- Both orders of a product are expanded or neither is, unless exactly one is refused. -/
theorem isExpanded_productTerm_comm_iff (hp : p.WellFormed) (hq : q.WellFormed) :
    ((p.productTerm q).IsExpanded ↔ (q.productTerm p).IsExpanded) ↔
      ¬ p.OutgrowsAlone q ∧ ¬ q.OutgrowsAlone p := by
  rw [isExpanded_productTerm_iff hp hq, isExpanded_productTerm_iff hq hp,
    ← mul?_eq_swap_iff_not_outgrowsAlone hp hq, mul?_eq_swap_iff_none hp hq,
    ← Option.ne_none_iff_exists', ← Option.ne_none_iff_exists', not_iff_not]

end Polynomial

namespace Term

/-- The product of two terms that denote polynomials is reduced to their product, or to the
product of the reduced factors where that is refused. -/
theorem normalForm?_mul {a b : Term} {p q : Polynomial} (ha : a.polynomial? = .ok (some p))
    (hb : b.polynomial? = .ok (some q)) :
    (operation .mul a b).normalForm? = .ok (p.productTerm q) := by
  have hproduct : (operation .mul a b).polynomial? = .ok (p.mul? q) := by
    rw [polynomial?, if_neg (by decide), ha, hb]
    rfl
  rw [Polynomial.productTerm]
  cases hmul : p.mul? q with
  | some product => exact normalForm?_of_polynomial? (hproduct.trans (congrArg _ hmul))
  | none =>
    rw [normalForm?_operation (hproduct.trans (congrArg _ hmul)), normalForm?_of_polynomial? ha,
      normalForm?_of_polynomial? hb]
    rfl

end Term

open TermTable Builder

/-- Two canonical polynomials have the same product in either order, or none, unless exactly one
order has a partial product with too many terms and nothing else refuses the product.  Then that
order is refused and the other one is not.  The two other reasons for a refusal do not depend on
the order, and products that are not refused are equal in any case.  Terms that denote the
polynomials are multiplied by reduction, in each order, exactly if the polynomials are: what
comes out is then a polynomial as it is written, and otherwise it is no such term. -/
theorem mul?_eq_swap_iff {p q : Polynomial} (hp : p.WellFormed) (hq : q.WellFormed) :
    (p.mul? q = q.mul? p ↔ ¬ p.OutgrowsAlone q ∧ ¬ q.OutgrowsAlone p) ∧
    (p.OutgrowsAlone q → p.mul? q = none ∧ ∃ product, q.mul? p = some product) ∧
    (q.OutgrowsAlone p → q.mul? p = none ∧ ∃ product, p.mul? q = some product) ∧
    (p.mul? q = none ↔
      Polynomial.productLimit < p.size * q.size ∨ p.Overflows q ∨ p.Outgrows q) ∧
    (q.mul? p = none ↔
      Polynomial.productLimit < q.size * p.size ∨ q.Overflows p ∨ q.Outgrows p) ∧
    (Polynomial.productLimit < p.size * q.size ↔ Polynomial.productLimit < q.size * p.size) ∧
    (p.Overflows q ↔ q.Overflows p) ∧
    (∀ product other, p.mul? q = some product → q.mul? p = some other → product = other) ∧
    ((p.productTerm q).IsExpanded ↔ ∃ product, p.mul? q = some product) ∧
    ((q.productTerm p).IsExpanded ↔ ∃ product, q.mul? p = some product) ∧
    (((p.productTerm q).IsExpanded ↔ (q.productTerm p).IsExpanded) ↔
      ¬ p.OutgrowsAlone q ∧ ¬ q.OutgrowsAlone p) ∧
    ∀ name ∈ ["reduce", "expand", "simplify"], ∀ (a b : Term) (table : TermTable) (t u : Handle),
      a.polynomial? = .ok (some p) → b.polynomial? = .ok (some q) →
      table.term t = .ok (.operation .mul a b) → table.term u = .ok (.operation .mul b a) →
      ∃ r later s later', transform name [t] table = .ok r later ∧
        later.term r = .ok (p.productTerm q) ∧ transform name [u] table = .ok s later' ∧
        later'.term s = .ok (q.productTerm p) := by
  refine ⟨Polynomial.mul?_eq_swap_iff_not_outgrowsAlone hp hq, fun h => h.mul? hp hq,
    fun h => h.mul? hq hp, Polynomial.mul?_eq_none_iff hp hq, Polynomial.mul?_eq_none_iff hq hp,
    by rw [Nat.mul_comm], Polynomial.overflows_comm,
    fun _ _ => Polynomial.mul?_eq_swap_of_eq_some hp hq,
    Polynomial.isExpanded_productTerm_iff hp hq, Polynomial.isExpanded_productTerm_iff hq hp,
    Polynomial.isExpanded_productTerm_comm_iff hp hq, ?_⟩
  intro name hname a b table t u ha hb ht hu
  have hleft := gives_transform_reduce hname ht
  have hright := gives_transform_reduce hname hu
  rw [Term.normalForm?_mul ha hb] at hleft
  rw [Term.normalForm?_mul hb ha] at hright
  obtain ⟨r, later, hrun, -, hr⟩ := hleft.exists_run (.refl table)
  obtain ⟨s, later', hrun', -, hs⟩ := hright.exists_run (.refl table)
  exact ⟨r, later, s, later', hrun, hr, hrun', hs⟩

/-- The product of `x + y` and `x - y` does not depend on the order, and both orders are expanded.
That of `1 - x` and the sum of the first 4097 powers of `x` is refused in this order only, in which
it is not expanded either. -/
theorem mul?_eq_swap_iff_of_conjugates :
    let x := Polynomial.var "x"
    let y := Polynomial.var "y"
    let a := Term.operation .add (.symbol "x") (.symbol "y")
    let b := Term.operation .sub (.symbol "x") (.symbol "y")
    let table : TermTable := ⟨#[.operation .mul a b, .operation .mul b a]⟩
    let p := Polynomial.oneMinus "x" 1
    let q := Polynomial.geometric "x" 4097
    ((x.add y).mul? (x.sub y) = (x.sub y).mul? (x.add y) ∧
      ((x.add y).productTerm (x.sub y)).IsExpanded ∧
      ((x.sub y).productTerm (x.add y)).IsExpanded ∧
      ∃ r later s later', transform "reduce" [0] table = .ok r later ∧
        later.term r = .ok ((x.add y).productTerm (x.sub y)) ∧
        transform "reduce" [1] table = .ok s later' ∧
        later'.term s = .ok ((x.sub y).productTerm (x.add y))) ∧
    p.OutgrowsAlone q ∧ p.mul? q ≠ q.mul? p ∧
      p.mul? q = none ∧ (∃ product, q.mul? p = some product) ∧
      ¬ (p.productTerm q).IsExpanded ∧ (q.productTerm p).IsExpanded := by
  intro x y a b table p q
  constructor
  · have hx := Polynomial.wellFormed_var "x"
    have hy := Polynomial.wellFormed_var "y"
    have hsum : (x.add y).WellFormed := hx.add hy
    have hdifference : (x.sub y).WellFormed := hx.add (hy.scale (-1))
    have hproduct : (x.add y).mul? (x.sub y) ≠ none := by decide +kernel
    have hother : (x.sub y).mul? (x.add y) ≠ none := by decide +kernel
    obtain ⟨heq, halone, halone', -, -, -, -, -, hexpanded, hexpanded', -, hreduce⟩ :=
      mul?_eq_swap_iff hsum hdifference
    exact ⟨heq.mpr ⟨fun h => hproduct (halone h).1, fun h => hother (halone' h).1⟩,
      hexpanded.mpr (Option.ne_none_iff_exists'.mp hproduct),
      hexpanded'.mpr (Option.ne_none_iff_exists'.mp hother),
      hreduce "reduce" (by decide) a b table 0 1 rfl rfl rfl rfl⟩
  · have hp : p.WellFormed := Polynomial.wellFormed_oneMinus Nat.one_pos (by decide)
    have hq : q.WellFormed := Polynomial.wellFormed_geometric (by decide)
    have hgrown : p.OutgrowsAlone q := Polynomial.outgrowsAlone_geometric (by decide) (by decide)
    obtain ⟨heq, halone, -, -, -, -, -, -, hexpanded, hexpanded', -, -⟩ := mul?_eq_swap_iff hp hq
    obtain ⟨hnone, product, hsome⟩ := halone hgrown
    refine ⟨hgrown, fun h => (heq.mp h).1 hgrown, hnone, ⟨product, hsome⟩, ?_,
      hexpanded'.mpr ⟨product, hsome⟩⟩
    rw [hexpanded, hnone]
    simp

end MathQuery
