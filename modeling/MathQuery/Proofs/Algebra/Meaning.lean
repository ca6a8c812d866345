import MathQuery.Algebra.Polynomial
import Mathlib.Algebra.MvPolynomial.Funext
import Mathlib.Tactic.LinearCombination

/-!
# Listed polynomials as polynomial functions

A polynomial is a list of terms, and what it stands for is their sum in the ring of
polynomials over the rationals.  Every operation on lists is the operation of that
ring, whether or not the lists are in canonical form; products and powers are so
whenever they are not refused.

* `Polynomial.toMvPolynomial` – what a polynomial stands for;
* `Polynomial.toMvPolynomial_add`, `_scale`, `_sub`, `_mul?`, `_pow?` – the operations.
-/

namespace MathQuery

namespace Monomial

/-- The exponents of a monomial, as a function of the names. -/
noncomputable def exponents (m : Monomial) : String →₀ ℕ :=
  (m.map fun (x, e) => Finsupp.single x e).sum

@[simp] theorem exponents_nil : exponents [] = 0 := rfl

@[simp] theorem exponents_cons (x : String) (e : ℕ) (m : Monomial) :
    exponents ((x, e) :: m) = Finsupp.single x e + exponents m := by
  simp [exponents]

theorem exponents_mulFactor? {x : String} {e : ℕ} {m product : Monomial}
    (h : mulFactor? x e m = some product) :
    exponents product = Finsupp.single x e + exponents m := by
  induction m generalizing product with
  | nil =>
    obtain rfl : [(x, e)] = product := by simpa [mulFactor?] using h
    simp
  | cons s m ih =>
    obtain ⟨y, d⟩ := s
    rw [mulFactor?] at h
    cases hxy : compare x y with
    | lt =>
      obtain rfl : (x, e) :: (y, d) :: m = product := by simpa [hxy] using h
      simp
    | eq =>
      obtain rfl := Std.LawfulEqOrd.eq_of_compare hxy
      obtain ⟨-, rfl⟩ : d + e < exponentLimit ∧ (x, d + e) :: m = product := by
        simpa [hxy] using h
      rw [exponents_cons, exponents_cons, Nat.add_comm, Finsupp.single_add, add_assoc]
    | gt =>
      simp only [hxy, Option.map_eq_some_iff] at h
      obtain ⟨longer, hlonger, rfl⟩ := h
      rw [exponents_cons, exponents_cons, ih hlonger, add_left_comm]

/-- A product of monomials adds their exponents. -/
theorem exponents_mul? {m n product : Monomial} (h : m.mul? n = some product) :
    exponents product = exponents m + exponents n := by
  induction n generalizing m with
  | nil =>
    obtain rfl : m = product := by simpa [mul?] using h
    simp
  | cons s n ih =>
    obtain ⟨x, e⟩ := s
    simp only [mul?, Option.bind_eq_some_iff] at h
    obtain ⟨longer, hlonger, hproduct⟩ := h
    rw [ih hproduct, exponents_mulFactor? hlonger, exponents_cons]
    abel

theorem order_eq : order = List.compareLex compareFactor :=
  funext fun m => funext fun n => order_eq_compareLex m n

instance : Std.LawfulEqCmp compareFactor where
  compare_self := by simp [compareFactor, compareLex, compareOn]
  eq_of_compare := by
    intro s t h
    simp only [compareFactor, compareLex_eq_eq, compareOn, Std.LawfulEqOrd.compare_eq_iff_eq] at h
    exact Prod.ext h.1 h.2

instance : Std.TransCmp compareFactor :=
  inferInstanceAs (Std.TransCmp (compareLex _ _))

instance : Std.LawfulEqCmp order := order_eq ▸ inferInstance

instance : Std.TransCmp order := order_eq ▸ inferInstance

end Monomial

namespace Polynomial

/-- The polynomial function that listed terms stand for: their sum. -/
noncomputable def ofTerms (terms : List PolynomialTerm) : MvPolynomial String ℚ :=
  (terms.map fun (m, c) => MvPolynomial.monomial m.exponents c).sum

@[simp] theorem ofTerms_nil : ofTerms [] = 0 := rfl

@[simp] theorem ofTerms_cons (m : Monomial) (c : ℚ) (terms : List PolynomialTerm) :
    ofTerms ((m, c) :: terms) = MvPolynomial.monomial m.exponents c + ofTerms terms := by
  simp [ofTerms]

/-- What a polynomial stands for. -/
noncomputable def toMvPolynomial (p : Polynomial) : MvPolynomial String ℚ :=
  ofTerms p.terms

@[simp] theorem toMvPolynomial_zero : zero.toMvPolynomial = 0 := rfl

@[simp] theorem toMvPolynomial_monomial (m : Monomial) (c : ℚ) :
    (monomial m c).toMvPolynomial = MvPolynomial.monomial m.exponents c := by
  by_cases h : c = 0 <;> simp [monomial, toMvPolynomial, h]

@[simp] theorem toMvPolynomial_constant (c : ℚ) :
    (constant c).toMvPolynomial = MvPolynomial.C c := by
  rw [constant, toMvPolynomial_monomial, Monomial.exponents_nil, MvPolynomial.C_apply]

@[simp] theorem toMvPolynomial_var (x : String) :
    (var x).toMvPolynomial = MvPolynomial.X x := by
  simp [var, MvPolynomial.X]


/-- Induction along a merge, by which of the two first monomials comes first. -/
theorem merge_induction {C : List PolynomialTerm → List PolynomialTerm → List PolynomialTerm → Prop}
    (nil_left : ∀ q, C [] q q)
    (nil_right : ∀ m c p, C p [] (merge p []) → C ((m, c) :: p) [] ((m, c) :: merge p []))
    (left : ∀ m c p n d q, m.order n = .lt → C p ((n, d) :: q) (merge p ((n, d) :: q)) →
      C ((m, c) :: p) ((n, d) :: q) ((m, c) :: merge p ((n, d) :: q)))
    (right : ∀ m c p n d q, m.order n = .gt → C ((m, c) :: p) q (merge ((m, c) :: p) q) →
      C ((m, c) :: p) ((n, d) :: q) ((n, d) :: merge ((m, c) :: p) q))
    (cancel : ∀ m c p d q, c + d = 0 → C p q (merge p q) →
      C ((m, c) :: p) ((m, d) :: q) (merge p q))
    (join : ∀ m c p d q, c + d ≠ 0 → C p q (merge p q) →
      C ((m, c) :: p) ((m, d) :: q) ((m, c + d) :: merge p q))
    (p q : List PolynomialTerm) : C p q (merge p q) := by
  -- the outer induction shortens the first list, the inner one the second
  induction p generalizing q with
  | nil => exact nil_left q
  | cons s p ih =>
    obtain ⟨m, c⟩ := s
    induction q with
    | nil => exact nil_right m c p (ih [])
    | cons t q ihq =>
      obtain ⟨n, d⟩ := t
      rw [merge, mergeTerm]
      cases hmn : m.order n with
      | lt => exact left m c p n d q hmn (ih _)
      | gt => exact right m c p n d q hmn ihq
      | eq =>
        obtain rfl : m = n := Std.LawfulEqCmp.eq_of_compare hmn
        by_cases hcd : c + d = 0
        · simpa [hcd] using cancel m c p d q hcd (ih q)
        · simpa [hcd] using join m c p d q hcd (ih q)

theorem ofTerms_merge (p q : List PolynomialTerm) :
    ofTerms (merge p q) = ofTerms p + ofTerms q := by
  -- coefficients of one monomial are added up
  have hadd (m : Monomial) (c d : ℚ) := map_add (MvPolynomial.monomial m.exponents) c d
  induction p, q using merge_induction with
  | nil_left q => simp
  | nil_right m c p ih => simp [ih]
  | left m c p n d q hmn ih => rw [ofTerms_cons, ih, ofTerms_cons m c p, add_assoc]
  | right m c p n d q hmn ih =>
    simp only [ofTerms_cons] at ih ⊢
    rw [ih]
    abel
  | cancel m c p d q hcd ih =>
    have hzero := hadd m c d
    rw [hcd, map_zero] at hzero
    simp only [ofTerms_cons]
    linear_combination ih + hzero
  | join m c p d q hcd ih =>
    simp only [ofTerms_cons]
    linear_combination ih + hadd m c d

@[simp] theorem toMvPolynomial_add (p q : Polynomial) :
    (p.add q).toMvPolynomial = p.toMvPolynomial + q.toMvPolynomial :=
  ofTerms_merge p.terms q.terms

@[simp] theorem toMvPolynomial_scale (factor : ℚ) (p : Polynomial) :
    (p.scale factor).toMvPolynomial = MvPolynomial.C factor * p.toMvPolynomial := by
  obtain ⟨terms⟩ := p
  simp only [toMvPolynomial, scale]
  induction terms with
  | nil => simp
  | cons t terms ih =>
    obtain ⟨m, c⟩ := t
    by_cases h : c * factor = 0
    · rw [List.filterMap_cons_none (by simp [h]), ih, ofTerms_cons, mul_add,
        MvPolynomial.C_mul_monomial, mul_comm factor c, h, map_zero, zero_add]
    · rw [List.filterMap_cons_some (by simp [h]; rfl), ofTerms_cons, ih, ofTerms_cons, mul_add,
        MvPolynomial.C_mul_monomial, mul_comm factor c]

@[simp] theorem toMvPolynomial_neg (p : Polynomial) :
    p.neg.toMvPolynomial = -p.toMvPolynomial := by
  simp [neg]

@[simp] theorem toMvPolynomial_sub (p q : Polynomial) :
    (p.sub q).toMvPolynomial = p.toMvPolynomial - q.toMvPolynomial := by
  simp [sub, sub_eq_add_neg]

theorem toMvPolynomial_sum (ps : List Polynomial) :
    (sum ps).toMvPolynomial = (ps.map toMvPolynomial).sum := by
  rw [sum, Balanced.combine_hom add zero toMvPolynomial (· + ·) toMvPolynomial_add add_assoc
    (fun p => by rw [toMvPolynomial_zero, add_zero])]
  rfl

theorem toMvPolynomial_mulTerm? {m : Monomial} {c : ℚ} {q row : Polynomial}
    (h : mulTerm? m c q = some row) :
    row.toMvPolynomial = MvPolynomial.monomial m.exponents c * q.toMvPolynomial := by
  simp only [mulTerm?, Option.map_eq_some_iff] at h
  obtain ⟨products, hproducts, rfl⟩ := h
  rw [toMvPolynomial_sum]
  obtain ⟨terms⟩ := q
  simp only [toMvPolynomial] at hproducts ⊢
  induction terms generalizing products with
  | nil =>
    obtain rfl : products = [] := by simpa using hproducts
    simp
  | cons t terms ih =>
    obtain ⟨n, d⟩ := t
    simp only [List.mapM_cons, Option.bind_eq_bind, Option.bind_eq_some_iff,
      Option.map_eq_some_iff, Option.pure_def, Option.some.injEq] at hproducts
    obtain ⟨first, ⟨product, hproduct, rfl⟩, later, hlater, rfl⟩ := hproducts
    have hfirst : (monomial product (c * d)).toMvPolynomial =
        MvPolynomial.monomial m.exponents c * MvPolynomial.monomial n.exponents d := by
      rw [toMvPolynomial_monomial, MvPolynomial.monomial_mul, Monomial.exponents_mul? hproduct]
    rw [List.map_cons, List.sum_cons, ih later hlater, hfirst, ofTerms_cons, mul_add]

theorem toMvPolynomial_mulFrom? {q total product : Polynomial} {terms : List PolynomialTerm}
    (h : mulFrom? q total terms = some product) :
    product.toMvPolynomial =
      total.toMvPolynomial + ofTerms terms * q.toMvPolynomial := by
  induction terms generalizing total with
  | nil =>
    obtain rfl : total = product := by simpa [mulFrom?] using h
    simp
  | cons t terms ih =>
    obtain ⟨m, c⟩ := t
    rw [mulFrom?] at h
    cases hrow : mulTerm? m c q with
    | none => simp [hrow] at h
    | some row =>
      simp only [hrow] at h
      split at h
      · contradiction
      · rw [ih h, toMvPolynomial_add, toMvPolynomial_mulTerm? hrow, ofTerms_cons]
        ring

/-- A product that is not refused is the product. -/
theorem toMvPolynomial_mul? {p q product : Polynomial} (h : p.mul? q = some product) :
    product.toMvPolynomial = p.toMvPolynomial * q.toMvPolynomial := by
  rw [mul?] at h
  split at h
  · contradiction
  · rw [toMvPolynomial_mulFrom? h, toMvPolynomial_zero, zero_add]
    rfl

/-- The number that binary digits stand for, lowest first. -/
def ofBits : List Bool → ℕ
  | [] => 0
  | bit :: bits => (if bit then 1 else 0) + 2 * ofBits bits

theorem ofBits_bitsUpTo (fuel n : ℕ) (h : n < 2 ^ fuel) : ofBits (bitsUpTo fuel n) = n := by
  induction fuel generalizing n with
  | zero =>
    have hn : n = 0 := by simpa using h
    rw [hn, bitsUpTo, ofBits]
  | succ fuel ih =>
    rw [bitsUpTo]
    split
    · simp_all [ofBits]
    · rw [ofBits, ih (n / 2) (by omega)]
      by_cases hodd : n % 2 = 1 <;> simp [hodd] <;> omega

theorem ofBits_bits (n : ℕ) : ofBits (bits n) = n :=
  ofBits_bitsUpTo (n.log2 + 1) n Nat.lt_log2_self

theorem powFrom?_cons (product base : Polynomial) (bit : Bool) (bits : List Bool) :
    powFrom? product base (bit :: bits) =
      (if bit then product.mul? base else some product).bind fun longer =>
        if bits.isEmpty then some longer
        else (base.mul? base).bind fun square => powFrom? longer square bits := by
  cases bit <;> rfl

theorem toMvPolynomial_powFrom? {product base power : Polynomial} {bits : List Bool}
    (h : powFrom? product base bits = some power) :
    power.toMvPolynomial = product.toMvPolynomial * base.toMvPolynomial ^ ofBits bits := by
  -- the product times the power that is left is the same at every digit
  induction bits generalizing product base with
  | nil =>
    obtain rfl : product = power := by simpa [powFrom?] using h
    simp [ofBits]
  | cons bit bits ih =>
    rw [powFrom?_cons] at h
    obtain ⟨longer, hlonger, h⟩ := Option.bind_eq_some_iff.mp h
    have hdigit : longer.toMvPolynomial =
        product.toMvPolynomial * base.toMvPolynomial ^ (if bit then 1 else 0) := by
      cases bit with
      | false =>
        obtain rfl : product = longer := by simpa using hlonger
        simp
      | true => simpa using toMvPolynomial_mul? hlonger
    rw [ofBits, pow_add, pow_mul, ← mul_assoc, ← hdigit]
    by_cases hend : bits.isEmpty
    · obtain rfl : longer = power := by simpa [hend] using h
      rw [List.isEmpty_iff.mp hend]
      simp [ofBits]
    · rw [if_neg hend] at h
      obtain ⟨square, hsquare, h⟩ := Option.bind_eq_some_iff.mp h
      rw [ih h, toMvPolynomial_mul? hsquare, sq]

/-- A power that is not refused is the power. -/
theorem toMvPolynomial_pow? {p power : Polynomial} {n : ℕ} (h : p.pow? n = some power) :
    power.toMvPolynomial = p.toMvPolynomial ^ n := by
  rw [toMvPolynomial_powFrom? h, ofBits_bits, toMvPolynomial_constant, map_one, one_mul]

theorem toMvPolynomial_of_constant? {p : Polynomial} {c : ℚ} (h : p.constant? = some c) :
    p.toMvPolynomial = MvPolynomial.C c := by
  obtain ⟨terms⟩ := p
  rcases terms with _ | ⟨⟨_ | ⟨s, m⟩, d⟩, _ | ⟨t, terms⟩⟩
  · obtain rfl : 0 = c := by simpa [constant?] using h
    simp [toMvPolynomial]
  · obtain rfl : d = c := by simpa [constant?] using h
    rw [MvPolynomial.C_apply]
    simp [toMvPolynomial]
  all_goals simp [constant?] at h

end Polynomial
end MathQuery
