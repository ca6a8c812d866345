import MathQuery.Proofs.Algebra.Canonical

/-!
# Polynomials of a single term

Products may be refused for their size, but not those of single terms whose monomials have a
product.

* `Monomial.mul?_append` – monomials whose names ascend are multiplied by writing one behind
  the other;
* `Monomial.single` – the powers of a variable;
* `Polynomial.mul?_monomial` – the product of single terms.
-/

namespace MathQuery

namespace Monomial

/-- A factor whose name is behind all others is written behind them. -/
theorem mulFactor?_append {m : Monomial} {x : String} {e : ℕ}
    (h : ∀ s ∈ m, compare s.1 x = .lt) : m.mulFactor? x e = some (m ++ [(x, e)]) := by
  induction m with
  | nil => rfl
  | cons s m ih =>
    obtain ⟨y, d⟩ := s
    obtain ⟨hfirst, hlater⟩ := List.forall_mem_cons.mp h
    have hgt : compare x y = .gt := Std.OrientedCmp.gt_of_lt hfirst
    rw [mulFactor?, hgt]
    dsimp only
    rw [ih hlater]
    rfl

/-- Monomials whose names ascend are multiplied by writing one behind the other. -/
theorem mul?_append {m n : Monomial} (h : (m ++ n).Pairwise fun s t => compare s.1 t.1 = .lt) :
    m.mul? n = some (m ++ n) := by
  induction n generalizing m with
  | nil => rw [mul?, List.append_nil]
  | cons s n ih =>
    obtain ⟨x, e⟩ := s
    have hbehind : ∀ s ∈ m, compare s.1 x = .lt := fun s hs =>
      (List.pairwise_append.mp h).2.2 s hs (x, e) List.mem_cons_self
    have hsplit : m ++ (x, e) :: n = (m ++ [(x, e)]) ++ n := by simp
    rw [hsplit] at h ⊢
    rw [mul?, mulFactor?_append hbehind, Option.bind_some, ih h]

/-- A power of a variable, which is one if the exponent is zero. -/
def single (x : String) (e : ℕ) : Monomial := if e = 0 then [] else [(x, e)]

theorem exponents_single (x : String) (e : ℕ) : (single x e).exponents = Finsupp.single x e := by
  rw [single]
  split
  · next he => rw [he, Finsupp.single_zero, exponents_nil]
  · rw [exponents_cons, exponents_nil, add_zero]

theorem canonical_power (x : String) (e : ℕ) : (single x e).Canonical := by
  rw [single]
  split
  · exact canonical_nil
  · next he => exact canonical_single (Nat.pos_of_ne_zero he)

/-- Powers of a variable are in the order of their exponents. -/
theorem order_single (x : String) {d e : ℕ} (h : d < e) :
    (single x d).order (single x e) = .lt := by
  have he : single x e = [(x, e)] := if_neg (by omega)
  rcases Nat.eq_zero_or_pos d with rfl | hd
  · rw [he]
    rfl
  · have hd : single x d = [(x, d)] := if_neg hd.ne'
    have hlt : compare d e = .lt := Nat.compare_eq_lt.mpr h
    rw [hd, he, order, if_pos rfl, hlt]

end Monomial

namespace Polynomial

variable {m n product : Monomial} (c d : ℚ)

theorem scale_monomial (m : Monomial) (factor : ℚ) :
    (monomial m c).scale factor = monomial m (c * factor) := by
  by_cases hc : c = 0
  · simp [monomial, scale, hc]
  · by_cases hfactor : factor = 0
    · simp [monomial, scale, hfactor]
    · simp [monomial, scale, hc, hfactor]

theorem constant?_constant (c : ℚ) : (constant c).constant? = some c := by
  by_cases hc : c = 0
  · simp [constant, monomial, constant?, hc]
  · simp [constant, monomial, constant?, hc]

theorem terms_monomial_of_ne {c : ℚ} (hc : c ≠ 0) : (monomial m c).terms = [(m, c)] := if_neg hc

theorem size_monomial_le (m : Monomial) : (monomial m c).size ≤ 1 := by
  by_cases hc : c = 0
  · simp [monomial, size, hc]
  · simp [monomial, size, hc]

theorem mulTerm?_monomial (h : m.mul? n = some product) :
    mulTerm? m c (monomial n d) = some (monomial product (c * d)) := by
  by_cases hd : d = 0
  · have hproduct : monomial product (c * d) = zero := by simp [monomial, zero, hd]
    rw [hproduct, hd]
    rfl
  · rw [mulTerm?, terms_monomial_of_ne hd, List.mapM_cons, List.mapM_nil]
    dsimp only
    rw [h]
    rfl

/-- The product of two single terms is one, if their monomials have a product. -/
theorem mul?_monomial (h : m.mul? n = some product) :
    (monomial m c).mul? (monomial n d) = some (monomial product (c * d)) := by
  have hsize : ¬ productLimit < (monomial m c).size * (monomial n d).size := by
    have hle := Nat.mul_le_mul (size_monomial_le c m) (size_monomial_le d n)
    have hlimit : 1 * 1 ≤ productLimit := by decide
    omega
  rw [mul?, if_neg hsize]
  by_cases hc : c = 0
  · have hproduct : monomial product (c * d) = zero := by simp [monomial, zero, hc]
    rw [hproduct, hc]
    rfl
  · have hsum : ¬ termLimit < (zero.add (monomial product (c * d))).size := by
      have hle := size_monomial_le (c * d) product
      have hlimit : 1 ≤ termLimit := by decide
      exact Nat.not_lt.mpr (hle.trans hlimit)
    rw [terms_monomial_of_ne hc, mulFrom?, mulTerm?_monomial c d h]
    dsimp only
    rw [if_neg hsum]
    rfl

end Polynomial

end MathQuery
