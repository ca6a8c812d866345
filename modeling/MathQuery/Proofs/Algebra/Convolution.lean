import MathQuery.Proofs.Algebra.Coefficients

/-!
# Products of polynomials

A product of polynomials that is not refused has the coefficients of the product: those of all
pairs of terms whose exponents add up are multiplied and added.  It is refused if it takes too
many multiplications, if exponents add up to the limit, or if the product of some of the first
terms of one factor with the other factor has too many terms.

* `Monomial.mul?_eq_none_iff` – when two monomials have no product;
* `Polynomial.Canonical.size_eq_card_support` – the number of terms;
* `Polynomial.mulFrom?_eq_none_iff` – when the sum of rows is refused;
* `Polynomial.mul?_eq_none_iff` – when a product is refused;
* `Polynomial.mul?_convolves` – what a product is and when it is refused.
-/

namespace MathQuery

theorem mapM_eq_none_iff {α β : Type} {f : α → Option β} {l : List α} :
    l.mapM f = none ↔ ∃ a ∈ l, f a = none := by
  induction l with
  | nil => simp
  | cons a l ih =>
    simp only [List.mapM_cons, List.mem_cons, exists_eq_or_imp, ← ih]
    cases f a with
    | none => simp
    | some b => cases l.mapM f <;> simp

/-- A part of a list from its start holds the first element alone, or others behind it. -/
theorem exists_prefix_cons_iff {α : Type} {P : List α → Prop} {a : α} {l : List α} :
    (∃ front, front ≠ [] ∧ front <+: a :: l ∧ P front) ↔
      P [a] ∨ ∃ front, front ≠ [] ∧ front <+: l ∧ P (a :: front) := by
  constructor
  · rintro ⟨front, hne, hbegins, hP⟩
    rcases List.prefix_cons_iff.mp hbegins with rfl | ⟨later, rfl, hlater⟩
    · contradiction
    · rcases eq_or_ne later [] with rfl | hlaterne
      · exact .inl hP
      · exact .inr ⟨later, hlaterne, hlater, hP⟩
  · rintro (hP | ⟨later, -, hlater, hP⟩)
    · exact ⟨[a], by simp, by simp, hP⟩
    · exact ⟨a :: later, by simp, by simpa using hlater, hP⟩

namespace Monomial

variable {m n : Monomial} {x : String} {e : ℕ}

/-! ## Exponents that add up to the limit -/

/-- A name that does not come behind the first one of a canonical monomial is not among the
later ones. -/
theorem Canonical.exponents_tail_eq_zero {s : String × ℕ} (hm : Canonical (s :: m))
    (h : compare x s.1 ≠ .gt) : exponents m x = 0 := by
  by_contra hne
  have hmem := (hm.tail.mem_iff (x, exponents m x)).mpr ⟨Nat.pos_of_ne_zero hne, rfl⟩
  have hlt := (List.pairwise_cons.mp hm.ascending).1 _ hmem
  exact h (Std.OrientedCmp.gt_of_lt hlt)

theorem mulFactor?_eq_none_iff (hm : m.Canonical) (he : e < exponentLimit) :
    mulFactor? x e m = none ↔ exponentLimit ≤ exponents m x + e := by
  induction m with
  | nil => simpa [mulFactor?] using he
  | cons s m ih =>
    obtain ⟨y, d⟩ := s
    rw [mulFactor?, exponents_cons, Finsupp.add_apply]
    cases hxy : compare x y with
    | lt =>
      have hne : x ≠ y := fun heq => by simp [heq] at hxy
      have habsent := hm.exponents_tail_eq_zero (x := x) (by simp [hxy])
      simpa [habsent, Finsupp.single_eq_of_ne hne] using he
    | eq =>
      obtain rfl := Std.LawfulEqOrd.eq_of_compare hxy
      have habsent := hm.exponents_tail_eq_zero (x := x) (by simp)
      simp [habsent]
    | gt =>
      have hne : x ≠ y := fun heq => by simp [heq] at hxy
      simpa [Finsupp.single_eq_of_ne hne] using ih hm.tail

theorem Bounded.exponents_lt (hm : m.Canonical) (hbounded : m.Bounded) (x : String) :
    m.exponents x < exponentLimit := by
  rcases Nat.eq_zero_or_pos (m.exponents x) with hzero | hpos
  · rw [hzero]
    exact Nat.pos_of_ne_zero (by decide)
  · exact hbounded _ ((hm.mem_iff (x, m.exponents x)).mpr ⟨hpos, rfl⟩)

/-- Two monomials have no product exactly if their exponents of some variable add up to the
limit. -/
theorem mul?_eq_none_iff (hm : m.Canonical) (hn : n.Canonical) (hbm : m.Bounded)
    (hbn : n.Bounded) :
    m.mul? n = none ↔ ∃ x, exponentLimit ≤ m.exponents x + n.exponents x := by
  induction n generalizing m with
  | nil =>
    have hbelow (x : String) := Bounded.exponents_lt hm hbm x
    simpa [mul?] using hbelow
  | cons s n ih =>
    obtain ⟨x, e⟩ := s
    obtain ⟨he, hbn⟩ := List.forall_mem_cons.mp hbn
    have hfactor := mulFactor?_eq_none_iff (x := x) hm he
    have habsent := hn.exponents_tail_eq_zero (x := x) (by simp)
    rw [mul?]
    cases hlonger : m.mulFactor? x e with
    | none =>
      refine iff_of_true rfl ⟨x, ?_⟩
      rw [exponents_cons, Finsupp.add_apply, Finsupp.single_eq_same, habsent]
      exact hfactor.mp hlonger
    | some longer =>
      have hcanonical := hm.mulFactor? (hn.positive _ List.mem_cons_self) hlonger
      rw [Option.bind_some, ih hcanonical hn.tail (hbm.mulFactor? he hlonger) hbn,
        exponents_mulFactor? hlonger, exponents_cons]
      refine exists_congr fun y => ?_
      rw [Finsupp.add_apply, Finsupp.add_apply]
      omega

end Monomial

namespace Polynomial

variable {p q total product : Polynomial} {terms : List PolynomialTerm}

/-! ## The number of terms -/

/-- A canonical polynomial lists as many terms as there are coefficients other than zero. -/
theorem Canonical.size_eq_card_support (hp : p.Canonical) :
    p.size = p.toMvPolynomial.support.card := by
  have hdistinct : (p.terms.map fun t => t.1.exponents).Nodup := by
    refine (List.pairwise_map.mpr ?_)
    refine hp.ascending.imp_of_mem fun {s t} hs ht hst heq => ?_
    have hst' := (hp.monomials s hs).eq_of_exponents_eq (hp.monomials t ht) heq
    have hself : t.1.order t.1 = .eq := Std.ReflCmp.compare_self
    rw [hst', hself] at hst
    contradiction
  have hsupport : (p.terms.map fun t => t.1.exponents).toFinset = p.toMvPolynomial.support := by
    ext e
    rw [List.mem_toFinset, List.mem_map, MvPolynomial.mem_support_iff]
    constructor
    · rintro ⟨t, ht, rfl⟩
      rw [hp.coeff_eq_of_mem ht]
      exact hp.nonzero t ht
    · intro hne
      by_contra hnot
      exact hne (coeff_ofTerms_of_forall_ne fun t ht heq => hnot ⟨t, ht, heq⟩)
  rw [← hsupport, List.toFinset_card_of_nodup hdistinct, List.length_map, size]

/-! ## Refusals -/

theorem mulTerm?_eq_none_iff {m : Monomial} {c : ℚ} :
    mulTerm? m c q = none ↔ ∃ t ∈ q.terms, m.mul? t.1 = none := by
  rw [mulTerm?, Option.map_eq_none_iff, mapM_eq_none_iff]
  simp only [Option.map_eq_none_iff]

theorem Canonical.mulTerm? {m : Monomial} {c : ℚ} {row : Polynomial} (hm : m.Canonical)
    (hq : q.Canonical) (h : mulTerm? m c q = some row) : row.Canonical :=
  mulTerm?_closed canonical_zero (fun _ _ => Canonical.add)
    (fun t ht _ d hproduct => canonical_monomial d (hm.mul? (hq.monomials t ht) hproduct)) h

/-- Rows are refused if one of them is, or if one of the partial sums has too many terms. -/
theorem mulFrom?_eq_none_iff (hq : q.Canonical) (htotal : total.Canonical)
    (hterms : ∀ s ∈ terms, s.1.Canonical) :
    mulFrom? q total terms = none ↔
      (∃ s ∈ terms, ∃ t ∈ q.terms, s.1.mul? t.1 = none) ∨
      ∃ front, front ≠ [] ∧ front <+: terms ∧
        termLimit < (total.toMvPolynomial + ofTerms front * q.toMvPolynomial).support.card := by
  -- the sum so far is what a row changes, so it is generalised
  induction terms generalizing total with
  | nil => simp [mulFrom?]
  | cons s terms ih =>
    obtain ⟨m, c⟩ := s
    obtain ⟨hm, hterms⟩ := List.forall_mem_cons.mp hterms
    rw [mulFrom?]
    cases hrow : mulTerm? m c q with
    | none =>
      obtain ⟨t, ht, hnone⟩ := mulTerm?_eq_none_iff.mp hrow
      exact iff_of_true rfl (.inl ⟨(m, c), List.mem_cons_self, t, ht, hnone⟩)
    | some row =>
      have hfits : ¬ ∃ t ∈ q.terms, m.mul? t.1 = none := by
        rw [← mulTerm?_eq_none_iff (c := c), hrow]
        exact Option.some_ne_none row
      have hlonger : (total.add row).Canonical := htotal.add (Canonical.mulTerm? hm hq hrow)
      have hsum (front : List PolynomialTerm) :
          total.toMvPolynomial + ofTerms ((m, c) :: front) * q.toMvPolynomial =
            (total.add row).toMvPolynomial + ofTerms front * q.toMvPolynomial := by
        rw [toMvPolynomial_add, toMvPolynomial_mulTerm? hrow, ofTerms_cons]
        ring
      have hsize : (total.toMvPolynomial + ofTerms [(m, c)] * q.toMvPolynomial).support.card =
          (total.add row).size := by
        rw [hlonger.size_eq_card_support, hsum [], ofTerms_nil, zero_mul, add_zero]
      -- the first partial sum is the one that is looked at now, the others come later
      rw [exists_prefix_cons_iff, hsize]
      simp only [List.mem_cons, exists_eq_or_imp, hfits, false_or, hsum]
      split
      · next hlimit => exact iff_of_true rfl (.inr (.inl hlimit))
      · next hlimit => rw [ih hlonger hterms, or_iff_right hlimit]

theorem size_le_of_mulFrom? (htotal : total.size ≤ termLimit)
    (h : mulFrom? q total terms = some product) : product.size ≤ termLimit := by
  induction terms generalizing total with
  | nil =>
    obtain rfl : total = product := by simpa [mulFrom?] using h
    exact htotal
  | cons s terms ih =>
    rw [mulFrom?] at h
    cases hrow : mulTerm? s.1 s.2 q with
    | none => simp [hrow] at h
    | some row =>
      simp only [hrow] at h
      split at h
      · contradiction
      · next hlimit => exact ih (not_lt.mp hlimit) h

theorem size_le_of_mul? (h : p.mul? q = some product) : product.size ≤ termLimit := by
  rw [mul?] at h
  split at h
  · contradiction
  · exact size_le_of_mulFrom? (Nat.zero_le _) h

/-- The exponents of two terms add up to the limit. -/
def Overflows (p q : Polynomial) : Prop :=
  ∃ s ∈ p.terms, ∃ t ∈ q.terms, ∃ x, exponentLimit ≤ s.1.exponent x + t.1.exponent x

/-- The product of some of the first terms of `p` with `q` has too many terms. -/
def Outgrows (p q : Polynomial) : Prop :=
  ∃ front, front <+: p.terms ∧ termLimit < (ofTerms front * q.toMvPolynomial).support.card

/-- The three reasons for which a product is refused. -/
theorem mul?_eq_none_iff (hp : p.WellFormed) (hq : q.WellFormed) :
    p.mul? q = none ↔ productLimit < p.size * q.size ∨ p.Overflows q ∨ p.Outgrows q := by
  rw [mul?]
  split
  · next hlimit => exact iff_of_true rfl (.inl hlimit)
  next hlimit =>
  rw [or_iff_right hlimit,
    mulFrom?_eq_none_iff hq.canonical canonical_zero hp.canonical.monomials]
  refine or_congr ?_ ?_
  · refine exists_congr fun s => and_congr_right fun hs => ?_
    refine exists_congr fun t => and_congr_right fun ht => ?_
    have hs' := hp.canonical.monomials s hs
    have ht' := hq.canonical.monomials t ht
    rw [Monomial.mul?_eq_none_iff hs' ht' (hp.bounded s hs) (hq.bounded t ht)]
    simp only [hs'.exponents_apply, ht'.exponents_apply]
  · rw [toMvPolynomial_zero]
    refine exists_congr fun front => ?_
    rw [zero_add]
    constructor
    · rintro ⟨-, hfront⟩
      exact hfront
    · rintro ⟨hbegins, hgrown⟩
      -- a product with no terms at all is zero
      refine ⟨?_, hbegins, hgrown⟩
      rintro rfl
      simp at hgrown

/-! ## Coefficients of products -/

open scoped Classical in
/-- The products of the coefficients of all pairs of terms whose exponents add up to given
ones, added up. -/
noncomputable def convolved (ps qs : List PolynomialTerm) (e : String →₀ ℕ) : ℚ :=
  (ps.map fun s => (qs.map fun t =>
    if s.1.exponents + t.1.exponents = e then s.2 * t.2 else 0).sum).sum

theorem coeff_monomial_mul_ofTerms (s : PolynomialTerm) (qs : List PolynomialTerm)
    (e : String →₀ ℕ) :
    (MvPolynomial.monomial s.1.exponents s.2 * ofTerms qs).coeff e = convolved [s] qs e := by
  rw [convolved, List.map_singleton, List.sum_singleton]
  induction qs with
  | nil => simp
  | cons t qs ih =>
    obtain ⟨n, d⟩ := t
    rw [ofTerms_cons, mul_add, MvPolynomial.coeff_add, ih, MvPolynomial.monomial_mul,
      MvPolynomial.coeff_monomial, List.map_cons, List.sum_cons]

theorem coeff_ofTerms_mul (ps qs : List PolynomialTerm) (e : String →₀ ℕ) :
    (ofTerms ps * ofTerms qs).coeff e = convolved ps qs e := by
  induction ps with
  | nil => simp [convolved]
  | cons s ps ih =>
    have hfirst := coeff_monomial_mul_ofTerms s qs e
    rw [convolved, List.map_singleton, List.sum_singleton] at hfirst
    rw [ofTerms_cons, add_mul, MvPolynomial.coeff_add, hfirst, ih, convolved, convolved,
      List.map_cons, List.sum_cons]

/-- A product that is not refused has the coefficients of the product, exponents being added up
as natural numbers, and no more terms than the limit.  It is refused exactly if it takes too
many multiplications, if exponents add up to the limit, or if the product of some of the first
terms of `p` with `q` has too many terms. -/
theorem mul?_convolves (hp : p.WellFormed) (hq : q.WellFormed) :
    (∀ product, p.mul? q = some product →
      product.WellFormed ∧ product.size ≤ termLimit ∧
        ∀ m : Monomial, m.Canonical →
          product.coefficient m = convolved p.terms q.terms m.exponents) ∧
    (p.mul? q = none ↔ productLimit < p.size * q.size ∨ p.Overflows q ∨ p.Outgrows q) := by
  refine ⟨fun product h => ?_, mul?_eq_none_iff hp hq⟩
  have hproduct : product.WellFormed := hp.mul? hq h
  refine ⟨hproduct, size_le_of_mul? h, fun m hm => ?_⟩
  rw [hproduct.canonical.coefficient_eq, if_pos hm, toMvPolynomial_mul? h]
  exact coeff_ofTerms_mul p.terms q.terms m.exponents

/-- In the product of `x + y` and `x - y` the coefficients of `x * y` cancel.  The square of a
large power of `x` is refused. -/
theorem mul?_convolves_of_conjugates :
    let p := (var "x").add (var "y")
    let q := (var "x").sub (var "y")
    let large := monomial [("x", 2147483648)] 1
    (∃ product, p.mul? q = some product ∧ product.WellFormed ∧ product.size ≤ termLimit ∧
      convolved p.terms q.terms (Monomial.exponents [("x", 1), ("y", 1)]) = 0) ∧
    large.Overflows large ∧ large.mul? large = none := by
  intro p q large
  have hp : p.WellFormed := (wellFormed_var "x").add (wellFormed_var "y")
  have hq : q.WellFormed := (wellFormed_var "x").add ((wellFormed_var "y").scale (-1))
  have hlarge : large.WellFormed :=
    wellFormed_monomial 1 (Monomial.canonical_single (by decide))
      (by simp [Monomial.Bounded, exponentLimit])
  have hproduct : p.mul? q = some ⟨[([("x", 2)], 1), ([("y", 2)], -1)]⟩ := by decide +kernel
  have hmonomial : Monomial.Canonical [("x", 1), ("y", 1)] :=
    ⟨by decide, by simp⟩
  have hoverflows : large.Overflows large := by
    refine ⟨_, List.mem_singleton_self _, _, List.mem_singleton_self _, "x", ?_⟩
    simp [Monomial.exponent, exponentLimit]
  obtain ⟨hwell, hsize, hconvolved⟩ := (mul?_convolves hp hq).1 _ hproduct
  refine ⟨⟨_, hproduct, hwell, hsize, ?_⟩, hoverflows,
    (mul?_convolves hlarge hlarge).2.mpr (.inr (.inl hoverflows))⟩
  rw [← hconvolved _ hmonomial]
  decide +kernel

end Polynomial

end MathQuery
