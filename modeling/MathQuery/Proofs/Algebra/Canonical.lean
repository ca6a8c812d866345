import MathQuery.Proofs.Algebra.Meaning
import Mathlib.Algebra.CharZero.Infinite

/-!
# Canonical polynomials

A monomial is canonical when its names ascend and no exponent is zero, a polynomial
when its monomials are canonical and ascend and no coefficient is zero.  Every
operation keeps canonical polynomials canonical, and a canonical polynomial can be
read off what it stands for:

* `Canonical.add`, `scale`, `mul?` – the operations keep the form;
* `mul?_closed`, `pow?_closed` – how to carry any property through products and powers;
* `Canonical.eq_of_toMvPolynomial_eq` – what a canonical polynomial stands for
  determines its list.
-/

namespace MathQuery

/-- Ascending lists with the same members are equal. -/
theorem eq_of_mem_iff_of_ascending {α : Type} {lt : α → α → Prop}
    (hasymm : ∀ a b, lt a b → ¬ lt b a) {l k : List α}
    (hl : l.Pairwise lt) (hk : k.Pairwise lt) (h : ∀ a, a ∈ l ↔ a ∈ k) : l = k := by
  have hne {a b : α} (hab : lt a b) : a ≠ b := fun heq => hasymm a b hab (heq ▸ hab)
  have hperm : l.Perm k :=
    (List.perm_ext_iff_of_nodup (hl.imp hne) (hk.imp hne)).mpr h
  exact hperm.eq_of_pairwise (fun a b _ _ hab hba => absurd hba (hasymm a b hab)) hl hk

theorem mem_of_mapM_eq_some {α β : Type} {f : α → Option β} {l : List α} {k : List β}
    (h : l.mapM f = some k) {b : β} (hb : b ∈ k) : ∃ a ∈ l, f a = some b := by
  induction l generalizing k with
  | nil =>
    obtain rfl : k = [] := by simpa using h
    contradiction
  | cons a l ih =>
    simp only [List.mapM_cons, Option.bind_eq_bind, Option.bind_eq_some_iff, Option.pure_def,
      Option.some.injEq] at h
    obtain ⟨first, hfirst, later, hlater, rfl⟩ := h
    rcases List.mem_cons.mp hb with rfl | hb
    · exact ⟨a, List.mem_cons_self, hfirst⟩
    · obtain ⟨a', ha', hab⟩ := ih hlater hb
      exact ⟨a', List.mem_cons_of_mem a ha', hab⟩

namespace Monomial

/-- Names ascend and no exponent is zero. -/
structure Canonical (m : Monomial) : Prop where
  ascending : m.Pairwise fun s t => compare s.1 t.1 = .lt
  positive : ∀ s ∈ m, 0 < s.2

theorem canonical_nil : Canonical [] := ⟨.nil, by simp⟩

theorem canonical_single {x : String} {e : ℕ} (he : 0 < e) : Canonical [(x, e)] :=
  ⟨List.pairwise_singleton _ _, by simpa using he⟩

theorem Canonical.tail {s : String × ℕ} {m : Monomial} (h : Canonical (s :: m)) :
    Canonical m :=
  ⟨(List.pairwise_cons.mp h.ascending).2, fun t ht => h.positive t (List.mem_cons_of_mem s ht)⟩

/-- A product with a power of `x` has no other new name. -/
theorem name_mem_of_mulFactor? {x : String} {e : ℕ} {m product : Monomial}
    (h : mulFactor? x e m = some product) {s : String × ℕ} (hs : s ∈ product) :
    s.1 = x ∨ ∃ t ∈ m, s.1 = t.1 := by
  induction m generalizing product with
  | nil =>
    obtain rfl : [(x, e)] = product := by simpa [mulFactor?] using h
    left
    simp_all
  | cons t m ih =>
    obtain ⟨y, d⟩ := t
    rw [mulFactor?] at h
    cases hxy : compare x y with
    | lt =>
      obtain rfl : (x, e) :: (y, d) :: m = product := by simpa [hxy] using h
      rcases List.mem_cons.mp hs with rfl | hs
      · exact .inl rfl
      · exact .inr ⟨s, hs, rfl⟩
    | eq =>
      obtain ⟨-, rfl⟩ : d + e < exponentLimit ∧ (y, d + e) :: m = product := by
        simpa [hxy] using h
      rcases List.mem_cons.mp hs with rfl | hs
      · exact .inr ⟨(y, d), List.mem_cons_self, rfl⟩
      · exact .inr ⟨s, List.mem_cons_of_mem _ hs, rfl⟩
    | gt =>
      simp only [hxy, Option.map_eq_some_iff] at h
      obtain ⟨longer, hlonger, rfl⟩ := h
      rcases List.mem_cons.mp hs with rfl | hs
      · exact .inr ⟨(y, d), List.mem_cons_self, rfl⟩
      · rcases ih hlonger hs with h | ⟨t, ht, hst⟩
        · exact .inl h
        · exact .inr ⟨t, List.mem_cons_of_mem _ ht, hst⟩

/-- A product has no other names than its factors. -/
theorem name_mem_of_mul? {S : Set String} {m n product : Monomial} (hm : ∀ s ∈ m, s.1 ∈ S)
    (hn : ∀ s ∈ n, s.1 ∈ S) (h : m.mul? n = some product) : ∀ s ∈ product, s.1 ∈ S := by
  induction n generalizing m with
  | nil =>
    obtain rfl : m = product := by simpa [mul?] using h
    exact hm
  | cons t n ih =>
    simp only [mul?, Option.bind_eq_some_iff] at h
    obtain ⟨longer, hlonger, hproduct⟩ := h
    refine ih (fun s hs => ?_) (fun s hs => hn s (List.mem_cons_of_mem t hs)) hproduct
    rcases name_mem_of_mulFactor? hlonger hs with hst | ⟨u, hu, hsu⟩
    · rw [hst]
      exact hn t List.mem_cons_self
    · rw [hsu]
      exact hm u hu

theorem Canonical.mulFactor? {x : String} {e : ℕ} {m product : Monomial}
    (hm : m.Canonical) (he : 0 < e) (h : mulFactor? x e m = some product) :
    Canonical product := by
  induction m generalizing product with
  | nil =>
    obtain rfl : [(x, e)] = product := by simpa [Monomial.mulFactor?] using h
    exact canonical_single he
  | cons t m ih =>
    obtain ⟨y, d⟩ := t
    have hfirst := (List.pairwise_cons.mp hm.ascending).1
    rw [Monomial.mulFactor?] at h
    cases hxy : compare x y with
    | lt =>
      obtain rfl : (x, e) :: (y, d) :: m = product := by simpa [hxy] using h
      refine ⟨List.pairwise_cons.mpr ⟨fun s hs => ?_, hm.ascending⟩, fun s hs => ?_⟩
      · rcases List.mem_cons.mp hs with rfl | hs
        · exact hxy
        · exact Std.TransCmp.lt_trans hxy (hfirst s hs)
      · rcases List.mem_cons.mp hs with rfl | hs
        · exact he
        · exact hm.positive s hs
    | eq =>
      obtain ⟨-, rfl⟩ : d + e < exponentLimit ∧ (y, d + e) :: m = product := by
        simpa [hxy] using h
      refine ⟨List.pairwise_cons.mpr ⟨hfirst, hm.tail.ascending⟩, fun s hs => ?_⟩
      rcases List.mem_cons.mp hs with rfl | hs
      · exact Nat.add_pos_right d he
      · exact hm.tail.positive s hs
    | gt =>
      simp only [hxy, Option.map_eq_some_iff] at h
      obtain ⟨longer, hlonger, rfl⟩ := h
      have hlater := ih hm.tail hlonger
      refine ⟨List.pairwise_cons.mpr ⟨fun s hs => ?_, hlater.ascending⟩, fun s hs => ?_⟩
      · rcases name_mem_of_mulFactor? hlonger hs with hsx | ⟨t, ht, hst⟩
        · rw [hsx]
          exact Std.OrientedCmp.lt_of_gt hxy
        · rw [hst]
          exact hfirst t ht
      · rcases List.mem_cons.mp hs with rfl | hs
        · exact hm.positive _ List.mem_cons_self
        · exact hlater.positive s hs

theorem Canonical.mul? {m n product : Monomial} (hm : m.Canonical) (hn : n.Canonical)
    (h : m.mul? n = some product) : Canonical product := by
  induction n generalizing m with
  | nil =>
    obtain rfl : m = product := by simpa [Monomial.mul?] using h
    exact hm
  | cons s n ih =>
    obtain ⟨x, e⟩ := s
    simp only [Monomial.mul?, Option.bind_eq_some_iff] at h
    obtain ⟨longer, hlonger, hproduct⟩ := h
    exact ih (hm.mulFactor? (hn.positive _ List.mem_cons_self) hlonger) hn.tail hproduct

/-- The factors of a canonical monomial can be read off its exponents. -/
theorem Canonical.mem_iff {m : Monomial} (hm : m.Canonical) (s : String × ℕ) :
    s ∈ m ↔ 0 < s.2 ∧ exponents m s.1 = s.2 := by
  induction m generalizing s with
  | nil => simp; omega
  | cons t m ih =>
    obtain ⟨x, e⟩ := s
    obtain ⟨y, d⟩ := t
    have hd : 0 < d := hm.positive _ List.mem_cons_self
    have hfirst := (List.pairwise_cons.mp hm.ascending).1
    -- the symbols ascend, so that of the first factor does not come again
    have habsent : exponents m y = 0 := by
      by_contra hne
      have hy := (ih hm.tail (y, exponents m y)).mpr ⟨Nat.pos_of_ne_zero hne, rfl⟩
      have hyy := hfirst _ hy
      simp at hyy
    rw [List.mem_cons, ih hm.tail (x, e), exponents_cons, Finsupp.add_apply]
    by_cases hxy : y = x
    · subst hxy
      simp [habsent, eq_comm]
      omega
    · simp [Finsupp.single_eq_of_ne (Ne.symm hxy), Ne.symm hxy]

/-- Canonical monomials with the same exponents are equal. -/
theorem Canonical.eq_of_exponents_eq {m n : Monomial} (hm : m.Canonical) (hn : n.Canonical)
    (h : m.exponents = n.exponents) : m = n := by
  refine eq_of_mem_iff_of_ascending (fun s t hst hts => ?_) hm.ascending hn.ascending
    fun s => ?_
  · rw [Std.OrientedCmp.gt_of_lt hst] at hts
    contradiction
  · rw [hm.mem_iff, hn.mem_iff, h]

end Monomial

namespace Polynomial

/-- Every monomial of a polynomial has a property. -/
def EveryMonomial (P : Monomial → Prop) (p : Polynomial) : Prop := ∀ t ∈ p.terms, P t.1

/-- Monomials ascend and are canonical, and no coefficient is zero. -/
structure Canonical (p : Polynomial) : Prop where
  ascending : p.terms.Pairwise fun s t => s.1.order t.1 = .lt
  nonzero : ∀ t ∈ p.terms, t.2 ≠ 0
  monomials : p.EveryMonomial Monomial.Canonical

/-! ## Where the monomials of a result come from -/

theorem monomial_mem_of_merge {p q : List PolynomialTerm} {t : PolynomialTerm}
    (ht : t ∈ merge p q) : (∃ s ∈ p, t.1 = s.1) ∨ ∃ s ∈ q, t.1 = s.1 := by
  induction p, q using merge_induction with
  | nil_left q => exact .inr ⟨t, ht, rfl⟩
  | nil_right m c p ih | left m c p n d q hmn ih
  | right m c p n d q hmn ih | join m c p d q hcd ih =>
    rcases List.mem_cons.mp ht with rfl | ht
    · simp
    · rcases ih ht with ⟨s, hs, hts⟩ | ⟨s, hs, hts⟩
      · exact .inl ⟨s, by simp_all, hts⟩
      · exact .inr ⟨s, by simp_all, hts⟩
  | cancel m c p d q hcd ih =>
    rcases ih ht with ⟨s, hs, hts⟩ | ⟨s, hs, hts⟩
    · exact .inl ⟨s, List.mem_cons_of_mem _ hs, hts⟩
    · exact .inr ⟨s, List.mem_cons_of_mem _ hs, hts⟩

variable {P : Monomial → Prop} {p q : Polynomial}

theorem EveryMonomial.monomial {m : Monomial} (c : ℚ) (hm : P m) :
    (Polynomial.monomial m c).EveryMonomial P := by
  intro t ht
  by_cases h : c = 0 <;> simp_all [Polynomial.monomial]

theorem EveryMonomial.add (hp : p.EveryMonomial P) (hq : q.EveryMonomial P) :
    (p.add q).EveryMonomial P := by
  intro t ht
  rcases monomial_mem_of_merge ht with ⟨s, hs, hts⟩ | ⟨s, hs, hts⟩
  · exact hts ▸ hp s hs
  · exact hts ▸ hq s hs

theorem mem_scale {factor : ℚ} {p : Polynomial} {t : PolynomialTerm}
    (ht : t ∈ (p.scale factor).terms) : ∃ s ∈ p.terms, t = (s.1, s.2 * factor) ∧ t.2 ≠ 0 := by
  obtain ⟨⟨m, c⟩, hs, hst⟩ := List.mem_filterMap.mp ht
  by_cases hzero : c * factor = 0
  · simp [hzero] at hst
  · obtain rfl : (m, c * factor) = t := by simpa [hzero] using hst
    exact ⟨(m, c), hs, rfl, hzero⟩

theorem EveryMonomial.scale (factor : ℚ) (hp : p.EveryMonomial P) :
    (p.scale factor).EveryMonomial P := by
  intro t ht
  obtain ⟨s, hs, rfl, -⟩ := mem_scale ht
  exact hp s hs

theorem mulTerm?_closed {Q : Polynomial → Prop} (hzero : Q zero)
    (hadd : ∀ p q, Q p → Q q → Q (p.add q)) {m : Monomial} {c : ℚ} {q row : Polynomial}
    (hmonomial : ∀ t ∈ q.terms, ∀ product d, m.mul? t.1 = some product → Q (monomial product d))
    (h : mulTerm? m c q = some row) : Q row := by
  simp only [mulTerm?, Option.map_eq_some_iff] at h
  obtain ⟨products, hproducts, rfl⟩ := h
  refine Balanced.combine_closed add zero Q hadd hzero products fun r hr => ?_
  obtain ⟨t, ht, htr⟩ := mem_of_mapM_eq_some hproducts hr
  obtain ⟨product, hproduct, rfl⟩ := Option.map_eq_some_iff.mp htr
  exact hmonomial t ht product _ hproduct

/-- A property of zero that sums keep holds for a product if it holds for the single
terms that the product adds up. -/
theorem mul?_closed {Q : Polynomial → Prop} (hzero : Q zero)
    (hadd : ∀ p q, Q p → Q q → Q (p.add q)) {p q product : Polynomial}
    (hmonomial : ∀ s ∈ p.terms, ∀ t ∈ q.terms, ∀ m c, s.1.mul? t.1 = some m → Q (monomial m c))
    (h : p.mul? q = some product) : Q product := by
  -- the property is kept by every partial sum, so the sum so far is generalised
  have hfrom (terms : List PolynomialTerm) (hterms : ∀ s ∈ terms, s ∈ p.terms)
      (total : Polynomial) (htotal : Q total) (hrun : mulFrom? q total terms = some product) :
      Q product := by
    induction terms generalizing total with
    | nil =>
      obtain rfl : total = product := by simpa [mulFrom?] using hrun
      exact htotal
    | cons s terms ih =>
      rw [mulFrom?] at hrun
      cases hrow : mulTerm? s.1 s.2 q with
      | none => simp [hrow] at hrun
      | some row =>
        have hQ : Q row := mulTerm?_closed hzero hadd
          (fun t ht m c hm => hmonomial s (hterms s List.mem_cons_self) t ht m c hm) hrow
        simp only [hrow] at hrun
        split at hrun
        · contradiction
        · exact ih (fun u hu => hterms u (List.mem_cons_of_mem s hu)) _
            (hadd _ _ htotal hQ) hrun
  rw [mul?] at h
  split at h
  · contradiction
  · exact hfrom p.terms (fun s hs => hs) zero hzero h

/-- A property of one that products keep holds for powers. -/
theorem pow?_closed {Q : Polynomial → Prop} (hone : Q (constant 1))
    (hmul : ∀ p q product, Q p → Q q → p.mul? q = some product → Q product)
    {p power : Polynomial} {n : ℕ} (hp : Q p) (h : p.pow? n = some power) : Q power := by
  -- the squares have the property like the product so far
  have hfrom (bits : List Bool) (product base : Polynomial) (hproduct : Q product)
      (hbase : Q base) (hrun : powFrom? product base bits = some power) : Q power := by
    induction bits generalizing product base with
    | nil =>
      obtain rfl : product = power := by simpa [powFrom?] using hrun
      exact hproduct
    | cons bit bits ih =>
      rw [powFrom?_cons] at hrun
      obtain ⟨longer, hlonger, hrun⟩ := Option.bind_eq_some_iff.mp hrun
      have hQ : Q longer := by
        cases bit with
        | false =>
          obtain rfl : product = longer := by simpa using hlonger
          exact hproduct
        | true => exact hmul product base longer hproduct hbase hlonger
      split at hrun
      · obtain rfl : longer = power := by simpa using hrun
        exact hQ
      · obtain ⟨square, hsquare, hrun⟩ := Option.bind_eq_some_iff.mp hrun
        exact ih longer square hQ (hmul base base square hbase hbase hsquare) hrun
  exact hfrom (bits n) (constant 1) p hone hp h

theorem EveryMonomial.mul? {product : Polynomial}
    (hP : ∀ m n product, P m → P n → m.mul? n = some product → P product)
    (hp : p.EveryMonomial P) (hq : q.EveryMonomial P) (h : p.mul? q = some product) :
    product.EveryMonomial P :=
  mul?_closed (fun _ ht => by simp [zero] at ht) (fun _ _ => EveryMonomial.add)
    (fun s hs t ht m c hm => .monomial c (hP _ _ m (hp s hs) (hq t ht) hm)) h

/-! ## Canonical polynomials -/

theorem canonical_zero : zero.Canonical :=
  ⟨.nil, by simp [zero], by simp [zero, EveryMonomial]⟩

theorem canonical_monomial {m : Monomial} (c : ℚ) (hm : m.Canonical) :
    (monomial m c).Canonical := by
  refine ⟨?_, ?_, .monomial c hm⟩
  all_goals by_cases h : c = 0 <;> simp [monomial, h]

theorem canonical_constant (c : ℚ) : (constant c).Canonical :=
  canonical_monomial c Monomial.canonical_nil

theorem canonical_var (x : String) : (var x).Canonical :=
  canonical_monomial 1 (Monomial.canonical_single Nat.one_pos)

theorem ascending_merge {p q : List PolynomialTerm}
    (hp : p.Pairwise fun s t => s.1.order t.1 = .lt)
    (hq : q.Pairwise fun s t => s.1.order t.1 = .lt) :
    (merge p q).Pairwise fun s t => s.1.order t.1 = .lt := by
  induction p, q using merge_induction with
  | nil_left q => exact hq
  | nil_right m c p ih =>
    obtain ⟨hfirst, hp⟩ := List.pairwise_cons.mp hp
    refine List.pairwise_cons.mpr ⟨fun t ht => ?_, ih hp hq⟩
    rcases monomial_mem_of_merge ht with ⟨s, hs, hts⟩ | ⟨s, hs, -⟩
    · exact hts ▸ hfirst s hs
    · contradiction
  | left m c p n d q hmn ih =>
    obtain ⟨hfirst, hp⟩ := List.pairwise_cons.mp hp
    refine List.pairwise_cons.mpr ⟨fun t ht => ?_, ih hp hq⟩
    rcases monomial_mem_of_merge ht with ⟨s, hs, hts⟩ | ⟨s, hs, hts⟩
    · exact hts ▸ hfirst s hs
    · rw [hts]
      rcases List.mem_cons.mp hs with rfl | hs
      · exact hmn
      · exact Std.TransCmp.lt_trans hmn ((List.pairwise_cons.mp hq).1 s hs)
  | right m c p n d q hmn ih =>
    obtain ⟨hfirst, hq⟩ := List.pairwise_cons.mp hq
    refine List.pairwise_cons.mpr ⟨fun t ht => ?_, ih hp hq⟩
    rcases monomial_mem_of_merge ht with ⟨s, hs, hts⟩ | ⟨s, hs, hts⟩
    · have hnm : n.order m = .lt := Std.OrientedCmp.lt_of_gt hmn
      rw [hts]
      rcases List.mem_cons.mp hs with rfl | hs
      · exact hnm
      · exact Std.TransCmp.lt_trans hnm ((List.pairwise_cons.mp hp).1 s hs)
    · exact hts ▸ hfirst s hs
  | cancel m c p d q hcd ih =>
    exact ih (List.pairwise_cons.mp hp).2 (List.pairwise_cons.mp hq).2
  | join m c p d q hcd ih =>
    obtain ⟨hfirstp, hp⟩ := List.pairwise_cons.mp hp
    obtain ⟨hfirstq, hq⟩ := List.pairwise_cons.mp hq
    refine List.pairwise_cons.mpr ⟨fun t ht => ?_, ih hp hq⟩
    rcases monomial_mem_of_merge ht with ⟨s, hs, hts⟩ | ⟨s, hs, hts⟩
    · exact hts ▸ hfirstp s hs
    · exact hts ▸ hfirstq s hs

theorem nonzero_merge {p q : List PolynomialTerm} (hp : ∀ t ∈ p, t.2 ≠ 0)
    (hq : ∀ t ∈ q, t.2 ≠ 0) : ∀ t ∈ merge p q, t.2 ≠ 0 := by
  induction p, q using merge_induction with
  | nil_left q => exact hq
  | nil_right m c p ih =>
    obtain ⟨hc, hp⟩ := List.forall_mem_cons.mp hp
    exact List.forall_mem_cons.mpr ⟨hc, ih hp hq⟩
  | left m c p n d q hmn ih =>
    obtain ⟨hc, hp⟩ := List.forall_mem_cons.mp hp
    exact List.forall_mem_cons.mpr ⟨hc, ih hp hq⟩
  | right m c p n d q hmn ih =>
    obtain ⟨hd, hq⟩ := List.forall_mem_cons.mp hq
    exact List.forall_mem_cons.mpr ⟨hd, ih hp hq⟩
  | cancel m c p d q hcd ih =>
    exact ih (List.forall_mem_cons.mp hp).2 (List.forall_mem_cons.mp hq).2
  | join m c p d q hcd ih =>
    exact List.forall_mem_cons.mpr
      ⟨hcd, ih (List.forall_mem_cons.mp hp).2 (List.forall_mem_cons.mp hq).2⟩

theorem Canonical.add {p q : Polynomial} (hp : p.Canonical) (hq : q.Canonical) :
    (p.add q).Canonical :=
  ⟨ascending_merge hp.ascending hq.ascending, nonzero_merge hp.nonzero hq.nonzero,
    hp.monomials.add hq.monomials⟩

theorem Canonical.scale (factor : ℚ) {p : Polynomial} (hp : p.Canonical) :
    (p.scale factor).Canonical := by
  refine ⟨?_, fun t ht => ?_, hp.monomials.scale factor⟩
  · refine hp.ascending.filterMap _ fun s t hst s' hs' t' ht' => ?_
    have hfst (u u' : PolynomialTerm)
        (hu : (if u.2 * factor = 0 then none else some (u.1, u.2 * factor)) = some u') :
        u'.1 = u.1 := by
      split at hu
      · contradiction
      · rw [← Option.some.inj hu]
    rw [hfst s s' hs', hfst t t' ht']
    exact hst
  · obtain ⟨s, -, rfl, hne⟩ := mem_scale ht
    exact hne

theorem Canonical.mul? {p q product : Polynomial} (hp : p.Canonical) (hq : q.Canonical)
    (h : p.mul? q = some product) : product.Canonical :=
  mul?_closed canonical_zero (fun _ _ => Canonical.add)
    (fun s hs t ht _ c hm =>
      canonical_monomial c ((hp.monomials s hs).mul? (hq.monomials t ht) hm)) h

/-! ## Canonical polynomials are determined by what they stand for -/

theorem coeff_ofTerms_of_forall_ne {terms : List PolynomialTerm} {e : String →₀ ℕ}
    (h : ∀ t ∈ terms, t.1.exponents ≠ e) : (ofTerms terms).coeff e = 0 := by
  induction terms with
  | nil => simp
  | cons t terms ih =>
    obtain ⟨n, c⟩ := t
    rw [ofTerms_cons, MvPolynomial.coeff_add, MvPolynomial.coeff_monomial,
      if_neg (h _ List.mem_cons_self), ih fun u hu => h u (List.mem_cons_of_mem _ hu), add_zero]

/-- The coefficients of a canonical polynomial are those it lists. -/
theorem Canonical.coeff_eq_of_mem {p : Polynomial} (hp : p.Canonical) {m : Monomial} {c : ℚ}
    (h : (m, c) ∈ p.terms) : p.toMvPolynomial.coeff m.exponents = c := by
  obtain ⟨terms⟩ := p
  have hmonomials := hp.monomials
  have hascending := hp.ascending
  clear hp
  simp only [toMvPolynomial, EveryMonomial] at *
  induction terms with
  | nil => contradiction
  | cons t terms ih =>
    obtain ⟨n, d⟩ := t
    obtain ⟨hfirst, hlater⟩ := List.pairwise_cons.mp hascending
    -- canonical monomials with the same exponents are equal, and no monomial is before itself
    have hne (s : PolynomialTerm) (hs : s ∈ terms) : n.exponents ≠ s.1.exponents := by
      intro heq
      have hns := (hmonomials _ List.mem_cons_self).eq_of_exponents_eq
        (hmonomials s (List.mem_cons_of_mem _ hs)) heq
      have hlt := hfirst s hs
      have hself : n.order n = .eq := Std.ReflCmp.compare_self
      rw [← hns, hself] at hlt
      contradiction
    rw [ofTerms_cons, MvPolynomial.coeff_add, MvPolynomial.coeff_monomial]
    rcases List.mem_cons.mp h with heq | hmem
    · obtain ⟨rfl, rfl⟩ := Prod.mk.inj heq
      rw [if_pos rfl, coeff_ofTerms_of_forall_ne fun s hs => (hne s hs).symm, add_zero]
    · rw [if_neg (hne _ hmem), zero_add]
      exact ih hmem (fun s hs => hmonomials s (List.mem_cons_of_mem _ hs)) hlater

theorem Canonical.mem_iff {p : Polynomial} (hp : p.Canonical) (t : PolynomialTerm) :
    t ∈ p.terms ↔ t.1.Canonical ∧ t.2 ≠ 0 ∧ p.toMvPolynomial.coeff t.1.exponents = t.2 := by
  constructor
  · intro ht
    exact ⟨hp.monomials t ht, hp.nonzero t ht, hp.coeff_eq_of_mem ht⟩
  · rintro ⟨hcanonical, hne, hcoeff⟩
    by_contra hnot
    refine hne (hcoeff.symm.trans (coeff_ofTerms_of_forall_ne fun s hs heq => hnot ?_))
    have hmonomial := (hp.monomials s hs).eq_of_exponents_eq hcanonical heq
    have hcoefficient : s.2 = t.2 := by
      rw [← hp.coeff_eq_of_mem hs, hmonomial, hcoeff]
    exact Prod.ext hmonomial hcoefficient ▸ hs

/-- Canonical polynomials that stand for the same are equal. -/
theorem Canonical.eq_of_toMvPolynomial_eq {p q : Polynomial} (hp : p.Canonical)
    (hq : q.Canonical) (h : p.toMvPolynomial = q.toMvPolynomial) : p = q := by
  obtain ⟨ps⟩ := p
  obtain ⟨qs⟩ := q
  congr 1
  refine eq_of_mem_iff_of_ascending (fun s t hst hts => ?_) hp.ascending hq.ascending
    fun t => ?_
  · rw [Std.OrientedCmp.gt_of_lt hst] at hts
    contradiction
  · rw [hp.mem_iff t, hq.mem_iff t, h]

end Polynomial
end MathQuery
