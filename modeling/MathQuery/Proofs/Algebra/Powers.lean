import MathQuery.Algebra.Term
import MathQuery.Proofs.Algebra.Convolution
import MathQuery.Proofs.Algebra.Numeral
import MathQuery.Proofs.Algebra.Single

/-!
# Powers of polynomials

A power is computed by squaring, which multiplies copies of the polynomial in a grouping of its
own.  Products do not depend on their grouping, so the power is the product of the copies
however it is formed, unless it is refused.  A power of a single term is refused only if it has
to be: no square on the way has a larger exponent than the power itself.

* `Polynomial.RepeatedProduct` – products of some number of copies, in any grouping;
* `Polynomial.repeatedProduct_pow?` – a power is such a product;
* `Polynomial.SingleTerm` – a single term with given exponents;
* `Polynomial.exists_pow?_of_singleTerm` – powers of a single term that are not refused;
* `power_natCast`, `power_var` – which powers are expanded;
* `Polynomial.pow?_computes` – what a power is and when that of a single term is refused.
-/

namespace MathQuery

namespace Polynomial

variable {p q base product power : Polynomial} {n : ℕ}

/-! ## Products of copies -/

/-- A product of a number of copies of one polynomial, multiplied in any grouping. -/
inductive RepeatedProduct (p : Polynomial) : ℕ → Polynomial → Prop
  | one : RepeatedProduct p 0 (constant 1)
  | copy : RepeatedProduct p 1 p
  | mul {m n : ℕ} {q r product : Polynomial} (hq : RepeatedProduct p m q)
    (hr : RepeatedProduct p n r) (h : q.mul? r = some product) : RepeatedProduct p (m + n) product

namespace RepeatedProduct

theorem wellFormed (h : p.RepeatedProduct n product) (hp : p.WellFormed) :
    product.WellFormed := by
  induction h with
  | one => exact wellFormed_constant 1
  | copy => exact hp
  | mul _ _ h ihq ihr => exact ihq.mul? ihr h

theorem toMvPolynomial_eq (h : p.RepeatedProduct n product) :
    product.toMvPolynomial = p.toMvPolynomial ^ n := by
  induction h with
  | one => rw [toMvPolynomial_constant, map_one, pow_zero]
  | copy => rw [pow_one]
  | mul _ _ h ihq ihr => rw [toMvPolynomial_mul? h, ihq, ihr, pow_add]

/-- Products of equally many copies are equal, whatever their groupings are. -/
theorem unique (h : p.RepeatedProduct n product) (hp : p.WellFormed)
    (h' : p.RepeatedProduct n power) : product = power := by
  apply (h.wellFormed hp).canonical.eq_of_toMvPolynomial_eq (h'.wellFormed hp).canonical
  rw [h.toMvPolynomial_eq, h'.toMvPolynomial_eq]

end RepeatedProduct

/-- At every digit, the product so far has the copies of the digits before it, and the square
has as many copies as the digit is worth. -/
theorem repeatedProduct_powFrom? {bits : List Bool} {a b : ℕ}
    (hproduct : p.RepeatedProduct a product) (hbase : p.RepeatedProduct b base)
    (h : powFrom? product base bits = some power) :
    p.RepeatedProduct (a + b * ofBits bits) power := by
  induction bits generalizing product base a b with
  | nil =>
    obtain rfl : product = power := by simpa [powFrom?] using h
    exact hproduct
  | cons bit bits ih =>
    rw [powFrom?_cons] at h
    obtain ⟨longer, hlonger, h⟩ := Option.bind_eq_some_iff.mp h
    have hdigit : p.RepeatedProduct (a + if bit then b else 0) longer := by
      cases bit with
      | false =>
        obtain rfl : product = longer := by simpa using hlonger
        exact hproduct
      | true => exact hproduct.mul hbase hlonger
    have hcopies : a + b * ofBits (bit :: bits) =
        a + (if bit then b else 0) + (b + b) * ofBits bits := by
      rw [ofBits]
      cases bit <;> simp <;> ring
    rw [hcopies]
    by_cases hend : bits.isEmpty
    · obtain rfl : longer = power := by simpa [hend] using h
      rw [List.isEmpty_iff.mp hend, ofBits, Nat.mul_zero, Nat.add_zero]
      exact hdigit
    · rw [if_neg hend] at h
      obtain ⟨square, hsquare, h⟩ := Option.bind_eq_some_iff.mp h
      exact ih hdigit (hbase.mul hbase hsquare) h

/-- A power that is not refused is a product of as many copies as the exponent says. -/
theorem repeatedProduct_pow? (h : p.pow? n = some power) : p.RepeatedProduct n power := by
  have hpower := repeatedProduct_powFrom? .one .copy h
  rwa [ofBits_bits, Nat.zero_add, Nat.one_mul] at hpower

/-! ## Powers of a single term -/

/-- A single term with the given exponents, all of which are below the limit. -/
def SingleTerm (e : String →₀ ℕ) (p : Polynomial) : Prop :=
  ∃ m c, p = monomial m c ∧ m.Canonical ∧ m.Bounded ∧ m.exponents = e

variable {d e : String →₀ ℕ}

/-- The product of two single terms is one, unless exponents add up to the limit. -/
theorem SingleTerm.exists_mul? (hp : p.SingleTerm d) (hq : q.SingleTerm e)
    (hfits : ∀ x, d x + e x < exponentLimit) :
    ∃ product, p.mul? q = some product ∧ product.SingleTerm (d + e) := by
  obtain ⟨m, c, rfl, hm, hbm, rfl⟩ := hp
  obtain ⟨n, c', rfl, hn, hbn, rfl⟩ := hq
  have hne : m.mul? n ≠ none := by
    rw [Ne, Monomial.mul?_eq_none_iff hm hn hbm hbn]
    rintro ⟨x, hlimit⟩
    exact absurd (hfits x) (not_lt.mpr hlimit)
  obtain ⟨product, hproduct⟩ := Option.ne_none_iff_exists'.mp hne
  exact ⟨_, mul?_monomial c c' hproduct, product, c * c', rfl, hm.mul? hn hproduct,
    hbm.mul? hbn hproduct, Monomial.exponents_mul? hproduct⟩

/-- Binary digits without a leading zero: the last one is not zero. -/
def NoLeadingZero (bits : List Bool) : Prop := bits.getLast? ≠ some false

theorem noLeadingZero_nil : NoLeadingZero [] := by
  simp [NoLeadingZero]

theorem NoLeadingZero.tail {bit : Bool} {bits : List Bool} (h : NoLeadingZero (bit :: bits)) :
    NoLeadingZero bits := by
  cases bits with
  | nil => exact noLeadingZero_nil
  | cons next later => simpa [NoLeadingZero] using h

theorem NoLeadingZero.ofBits_pos {bits : List Bool} (h : NoLeadingZero bits) (hne : bits ≠ []) :
    0 < ofBits bits := by
  induction bits with
  | nil => contradiction
  | cons bit bits ih =>
    rw [ofBits]
    rcases eq_or_ne bits [] with rfl | hbits
    · cases bit with
      | false => exact absurd rfl h
      | true => simp [ofBits]
    · have hpos := ih h.tail hbits
      omega

theorem noLeadingZero_bitsUpTo (fuel n : ℕ) (h : n < 2 ^ fuel) :
    NoLeadingZero (bitsUpTo fuel n) := by
  induction fuel generalizing n with
  | zero => exact noLeadingZero_nil
  | succ fuel ih =>
    rw [bitsUpTo]
    split
    · exact noLeadingZero_nil
    next hn =>
    have hlater := ih (n / 2) (by omega)
    rcases eq_or_ne (bitsUpTo fuel (n / 2)) [] with hend | hne
    · -- nothing is left only of one
      have hhalf : n / 2 = 0 := by
        rw [← ofBits_bitsUpTo fuel (n / 2) (by omega), hend, ofBits]
      have hone : n % 2 = 1 := by omega
      simp [NoLeadingZero, hend, hone]
    · rwa [NoLeadingZero, List.getLast?_cons_of_ne_nil hne]

theorem noLeadingZero_bits (n : ℕ) : NoLeadingZero (bits n) :=
  noLeadingZero_bitsUpTo _ n Nat.lt_log2_self

/-- Every square that is computed is a factor of the power, so it has no exponent that the power
has not. -/
theorem exists_powFrom?_of_singleTerm {bits : List Bool} (hbits : NoLeadingZero bits)
    (hproduct : product.SingleTerm d) (hbase : base.SingleTerm e)
    (hfits : ∀ x, d x + ofBits bits * e x < exponentLimit) :
    ∃ power, powFrom? product base bits = some power ∧
      power.SingleTerm (d + ofBits bits • e) := by
  induction bits generalizing product base d e with
  | nil => exact ⟨product, rfl, by simpa [ofBits] using hproduct⟩
  | cons bit bits ih =>
    have hexponents : d + ofBits (bit :: bits) • e =
        (d + if bit then e else 0) + ofBits bits • (e + e) := by
      rw [ofBits]
      cases bit <;> ext x <;> simp <;> ring
    have hlimit (x : String) :
        (d + if bit then e else 0) x + ofBits bits * (e + e) x < exponentLimit := by
      have hx := DFunLike.congr_fun hexponents x
      simp only [Finsupp.add_apply, Finsupp.smul_apply, smul_eq_mul] at hx ⊢
      rw [← hx]
      exact hfits x
    have hlonger : ∃ longer, (if bit then product.mul? base else some product) = some longer ∧
        longer.SingleTerm (d + if bit then e else 0) := by
      cases bit with
      | false => exact ⟨product, rfl, by simpa using hproduct⟩
      | true =>
        refine hproduct.exists_mul? hbase fun x => ?_
        have hx := hlimit x
        rw [Finsupp.add_apply] at hx
        omega
    obtain ⟨longer, hrun, hlonger⟩ := hlonger
    rw [powFrom?_cons, hrun, Option.bind_some, hexponents]
    rcases eq_or_ne bits [] with rfl | hne
    · exact ⟨longer, rfl, by simpa [ofBits] using hlonger⟩
    · -- a square is needed only where another digit follows, and the last one is not zero
      have hpos := hbits.tail.ofBits_pos hne
      have hsquares (x : String) : e x + e x < exponentLimit := by
        have hx := hlimit x
        have hle : e x + e x ≤ ofBits bits * (e + e) x := Nat.le_mul_of_pos_left _ hpos
        omega
      obtain ⟨square, hsquare, hsingle⟩ := hbase.exists_mul? hbase hsquares
      rw [if_neg (by simpa using hne), hsquare, Option.bind_some]
      exact ih hbits.tail hlonger hsingle hlimit

/-- A power of a single term is not refused if its exponents are below the limit. -/
theorem exists_pow?_of_singleTerm (hp : p.SingleTerm e) (hfits : ∀ x, n * e x < exponentLimit) :
    ∃ power, p.pow? n = some power ∧ power.SingleTerm (n • e) := by
  have hone : (constant 1).SingleTerm 0 :=
    ⟨[], 1, rfl, Monomial.canonical_nil, List.forall_mem_nil _, rfl⟩
  have hpower := exists_powFrom?_of_singleTerm (noLeadingZero_bits n) hone hp
    (by simpa [ofBits_bits])
  rwa [ofBits_bits, zero_add] at hpower

/-- A power of a single term that is not refused is the single term with its exponents. -/
theorem lt_of_pow?_eq_some {m : Monomial} {c : ℚ} (hp : p.WellFormed) (hterms : p.terms = [(m, c)])
    (h : p.pow? n = some power) (x : String) : n * m.exponents x < exponentLimit := by
  have hpower := (repeatedProduct_pow? h).wellFormed hp
  have hvalue : power.toMvPolynomial = MvPolynomial.monomial (n • m.exponents) (c ^ n) := by
    rw [toMvPolynomial_pow? h, toMvPolynomial, hterms, ofTerms_cons, ofTerms_nil, add_zero,
      MvPolynomial.monomial_pow]
  have hc : c ^ n ≠ 0 := pow_ne_zero n (hp.canonical.nonzero (m, c) (by simp [hterms]))
  -- the coefficient is not zero, so the exponents are those of a term, which are below the limit
  by_contra hlimit
  apply hc
  have hcoeff : power.toMvPolynomial.coeff (n • m.exponents) = c ^ n := by
    rw [hvalue, MvPolynomial.coeff_monomial, if_pos rfl]
  rw [← hcoeff]
  refine coeff_ofTerms_of_forall_ne fun t ht heq => hlimit ?_
  have hx := Monomial.Bounded.exponents_lt (hpower.canonical.monomials t ht) (hpower.bounded t ht) x
  rwa [heq, Finsupp.smul_apply, smul_eq_mul] at hx

/-- A power of a single term is refused exactly if one of its exponents reaches the limit. -/
theorem pow?_eq_none_iff {m : Monomial} {c : ℚ} (hp : p.WellFormed)
    (hterms : p.terms = [(m, c)]) :
    p.pow? n = none ↔ ∃ s ∈ m, exponentLimit ≤ s.2 * n := by
  have hmem : (m, c) ∈ p.terms := by simp [hterms]
  have hm := hp.canonical.monomials _ hmem
  have hsingle : p.SingleTerm m.exponents := by
    refine ⟨m, c, ?_, hm, hp.bounded _ hmem, rfl⟩
    rw [monomial, if_neg (hp.canonical.nonzero _ hmem), ← hterms]
  constructor
  · intro hnone
    by_contra! hbelow
    obtain ⟨power, hpower, -⟩ := exists_pow?_of_singleTerm (n := n) hsingle fun x => by
      rcases Nat.eq_zero_or_pos (m.exponents x) with hzero | hpos
      · rw [hzero, Nat.mul_zero]
        decide
      · rw [Nat.mul_comm]
        exact hbelow _ ((hm.mem_iff (x, m.exponents x)).mpr ⟨hpos, rfl⟩)
    rw [hnone] at hpower
    contradiction
  · rintro ⟨s, hs, hlimit⟩
    by_contra hsome
    obtain ⟨power, hpower⟩ := Option.ne_none_iff_exists'.mp hsome
    have hlt := lt_of_pow?_eq_some hp hterms hpower s.1
    rw [((hm.mem_iff s).mp hs).2, Nat.mul_comm] at hlt
    omega

/-! ## Powers of a variable -/

/-- A power of a variable is not refused as long as its exponent is below the limit. -/
theorem pow?_var (x : String) (hn : 0 < n) (hlimit : n < exponentLimit) :
    (var x).pow? n = some (monomial [(x, n)] 1) := by
  have hsingle : (var x).SingleTerm (Finsupp.single x 1) :=
    ⟨[(x, 1)], 1, rfl, Monomial.canonical_single Nat.one_pos,
      by simp [Monomial.Bounded, exponentLimit], by simp⟩
  obtain ⟨power, hpower, -⟩ := exists_pow?_of_singleTerm (n := n) hsingle fun y => by
    rw [Finsupp.single_apply]
    split <;> omega
  have hwell := (repeatedProduct_pow? hpower).wellFormed (wellFormed_var x)
  rw [hpower]
  congr 1
  apply hwell.canonical.eq_of_toMvPolynomial_eq
    (canonical_monomial 1 (Monomial.canonical_single hn))
  rw [toMvPolynomial_pow? hpower, toMvPolynomial_var, toMvPolynomial_monomial,
    MvPolynomial.X_pow_eq_monomial, Monomial.exponents_cons, Monomial.exponents_nil, add_zero]

/-! ## What a power is -/

/-- The power with the exponent zero is one.  A power that is not refused has the coefficients of
the product of as many copies, and every product of the copies that is not refused, in whatever
grouping, is this polynomial.  The power of a single term is refused exactly if an exponent of
the result would reach the limit. -/
theorem pow?_computes (hp : p.WellFormed) (n : ℕ) :
    p.pow? 0 = some (constant 1) ∧
    (∀ power, p.pow? n = some power →
      power.WellFormed ∧
      (∀ m : Monomial, m.Canonical →
        power.coefficient m = (p.toMvPolynomial ^ n).coeff m.exponents) ∧
      ∀ product, p.RepeatedProduct n product → product = power) ∧
    ∀ m c, p.terms = [(m, c)] → (p.pow? n = none ↔ ∃ s ∈ m, exponentLimit ≤ s.2 * n) := by
  refine ⟨rfl, fun power h => ?_, fun m c hterms => pow?_eq_none_iff hp hterms⟩
  have hcopies := repeatedProduct_pow? h
  have hpower := hcopies.wellFormed hp
  refine ⟨hpower, fun m hm => ?_, fun product hproduct => hproduct.unique hp hcopies⟩
  rw [hpower.canonical.coefficient_eq, if_pos hm, hcopies.toMvPolynomial_eq]

/-- The third power of `x - 1` is the product in another grouping than that of squaring, and the
power of `3*x^65536` is refused from the exponent 65536 on. -/
theorem pow?_computes_of_difference :
    let p := (var "x").sub (constant 1)
    let cube : Polynomial := ⟨[([], -1), ([("x", 1)], 3), ([("x", 2)], -3), ([("x", 3)], 1)]⟩
    let large := monomial [("x", 65536)] 3
    p.WellFormed ∧ p.pow? 3 = some cube ∧
    (∃ square, p.mul? p = some square ∧ square.mul? p = some cube) ∧
    (p.toMvPolynomial ^ 3).coeff (Monomial.exponents [("x", 2)]) = -3 ∧
    large.WellFormed ∧ large.pow? 65535 ≠ none ∧ large.pow? 65536 = none := by
  intro p cube large
  have hp : p.WellFormed := (wellFormed_var "x").add ((wellFormed_constant 1).scale (-1))
  have hlarge : large.WellFormed :=
    wellFormed_monomial 3 (Monomial.canonical_single (by decide))
      (by simp [Monomial.Bounded, exponentLimit])
  have hpower : p.pow? 3 = some cube := by decide +kernel
  obtain ⟨-, hcoefficients, hunique⟩ := (pow?_computes hp 3).2.1 cube hpower
  -- squaring multiplies `p` with the square, the other grouping the square with `p`
  let square : Polynomial := ⟨[([], 1), ([("x", 1)], -2), ([("x", 2)], 1)]⟩
  have hsquare : p.mul? p = some square := by decide +kernel
  have hother : square.mul? p ≠ none := by decide +kernel
  obtain ⟨product, hproduct⟩ := Option.ne_none_iff_exists'.mp hother
  have hproduct' : square.mul? p = some cube := by
    rw [hproduct, hunique product (.mul (.mul .copy .copy hsquare) .copy hproduct)]
  refine ⟨hp, hpower, ⟨square, hsquare, hproduct'⟩, ?_, hlarge, ?_, ?_⟩
  · rw [← hcoefficients _ (Monomial.canonical_single (by decide))]
    decide +kernel
  · rw [Ne, (pow?_computes hlarge 65535).2.2 _ _ rfl]
    simp [exponentLimit]
  · rw [(pow?_computes hlarge 65536).2.2 _ _ rfl]
    simp [exponentLimit]

end Polynomial

/-- Powers with a natural exponent are expanded up to the limit of expansion. -/
theorem power_natCast (base : Polynomial) (e : ℕ) :
    power base (.constant e) = .ok (if e ≤ expansionLimit then base.pow? e else none) := by
  have hwhole : isWhole (e : ℚ) = true := isWhole_natCast e
  have hnonneg : 0 ≤ (e : ℚ).num := Int.natCast_nonneg e
  have hexponent : (e : ℚ).num.natAbs = e := by rw [Rat.num_natCast, Int.natAbs_natCast]
  rw [power, Polynomial.constant?_constant]
  dsimp only
  rw [hwhole, if_neg (by simp), if_pos hnonneg, hexponent]
  split <;> rfl

/-- The powers of a variable are expanded up to the limit of expansion. -/
theorem power_var (x : String) {e : ℕ} (he : 0 < e) (hlimit : e ≤ expansionLimit) :
    power (.var x) (.constant e) = .ok (some (.monomial [(x, e)] 1)) := by
  have hbelow : expansionLimit < exponentLimit := by decide
  rw [power_natCast, if_pos hlimit, Polynomial.pow?_var x he (hlimit.trans_lt hbelow)]

end MathQuery
