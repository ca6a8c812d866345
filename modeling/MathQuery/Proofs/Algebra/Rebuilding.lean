import MathQuery.Proofs.Algebra.Encoding

/-!
# A polynomial rebuilt from its term

The term of a polynomial denotes the polynomial again, as long as all its exponents may be
expanded.  With a larger exponent it denotes none, for the power that is written with it stays
symbolic.  No other limit is met on the way: products are those of single terms, and sums have
no limit.

* `Term.DenotesIf` – a term denotes a polynomial under a condition, and none otherwise;
* `Monomial.Expanded` – no exponent is too large to be expanded;
* `Polynomial.Canonical.denotesIf_toTerm` – what the term of a polynomial denotes.
-/

namespace MathQuery

namespace Term

/-- Under a condition a term denotes a polynomial, and otherwise it denotes none. -/
structure DenotesIf (P : Prop) (t : Term) (p : Polynomial) : Prop where
  met : P → t.polynomial? = .ok (some p)
  unmet : ¬ P → t.polynomial? = .ok none

variable {P Q : Prop} {t left right : Term} {p q r : Polynomial}

theorem DenotesIf.congr (h : t.DenotesIf P p) (hPQ : P ↔ Q) : t.DenotesIf Q p :=
  ⟨fun hQ => h.met (hPQ.mpr hQ), fun hQ => h.unmet fun hP => hQ (hPQ.mp hP)⟩

theorem denotesIf_of_eq (hP : P) (h : t.polynomial? = .ok (some p)) : t.DenotesIf P p :=
  ⟨fun _ => h, fun hnot => absurd hP hnot⟩

theorem DenotesIf.polynomial?_eq [Decidable P] (h : t.DenotesIf P p) :
    t.polynomial? = .ok (if P then some p else none) := by
  split
  · next hP => exact h.met hP
  · next hnot => exact h.unmet hnot

/-- An operation denotes a polynomial if both operands do. -/
theorem DenotesIf.operation {op : BinaryOp} (hl : left.DenotesIf P p) (hr : right.DenotesIf Q q)
    (h : combine op p q = .ok (some r)) : (operation op left right).DenotesIf (P ∧ Q) r := by
  have hop : op ≠ .equal := by
    rintro rfl
    simp [combine] at h
  constructor
  · rintro ⟨hP, hQ⟩
    rw [polynomial?, if_neg hop, hl.met hP, hr.met hQ]
    exact h
  · intro hnot
    rw [polynomial?, if_neg hop]
    by_cases hP : P
    · have hQ : ¬ Q := fun hQ => hnot ⟨hP, hQ⟩
      rw [hl.met hP, hr.unmet hQ]
      rfl
    · rw [hl.unmet hP]
      by_cases hQ : Q
      · rw [hr.met hQ]
        rfl
      · rw [hr.unmet hQ]
        rfl

end Term

/-! ## Monomials -/

namespace Monomial

/-- No exponent is too large to be expanded. -/
def Expanded (m : Monomial) : Prop := ∀ s ∈ m, s.2 ≤ expansionLimit

theorem denotesIf_factorTerm (x : String) {e : ℕ} (he : 0 < e) :
    (factorTerm x e).DenotesIf (Expanded [(x, e)]) (.monomial [(x, e)] 1) := by
  have hexpanded : Expanded [(x, e)] ↔ e ≤ expansionLimit := by simp [Expanded]
  rw [factorTerm]
  split
  · next hone =>
    subst hone
    apply Term.denotesIf_of_eq
    · rw [hexpanded]
      decide
    · rw [Term.polynomial?]
      rfl
  · apply Term.DenotesIf.congr _ hexpanded.symm
    constructor
    · intro hlimit
      show combine .pow (.var x) (.constant e) = _
      exact power_var x he hlimit
    · intro hlimit
      show combine .pow (.var x) (.constant e) = _
      rw [combine, power_natCast, if_neg hlimit]

/-- Factors whose names ascend are multiplied one after the other. -/
theorem denotesIf_foldl_mul (front : Monomial) {later : Monomial} {t : Term} {c : ℚ} {P : Prop}
    (h : t.DenotesIf P (.monomial front c)) (hpositive : ∀ s ∈ later, 0 < s.2)
    (hascending : (front ++ later).Pairwise fun s t => compare s.1 t.1 = .lt) :
    ((later.map fun (x, e) => factorTerm x e).foldl (.operation .mul) t).DenotesIf
      (P ∧ later.Expanded) (.monomial (front ++ later) c) := by
  induction later generalizing front t P with
  | nil =>
    rw [List.append_nil]
    exact h.congr (by simp [Expanded])
  | cons s later ih =>
    obtain ⟨x, e⟩ := s
    obtain ⟨hfirst, hlater⟩ := List.forall_mem_cons.mp hpositive
    have hsplit : front ++ (x, e) :: later = (front ++ [(x, e)]) ++ later := by simp
    rw [hsplit] at hascending ⊢
    have hproduct : combine .mul (.monomial front c) (.monomial [(x, e)] 1) =
        .ok (some (.monomial (front ++ [(x, e)]) c)) := by
      rw [combine, Polynomial.mul?_monomial c 1
        (mul?_append (List.pairwise_append.mp hascending).1), mul_one]
    have hlonger := h.operation (denotesIf_factorTerm x hfirst) hproduct
    apply (ih _ hlonger hlater hascending).congr
    simp [Expanded, and_assoc]

/-- What the product of the factors of a monomial denotes. -/
theorem Canonical.denotesIf_toTerm {m : Monomial} (hm : m.Canonical) (c : ℚ) :
    (m.toTerm c).DenotesIf m.Expanded (.monomial m c) := by
  cases m with
  | nil =>
    apply Term.denotesIf_of_eq
    · simp [Expanded]
    · show (Term.number c).polynomial? = _
      rw [Term.polynomial?]
      rfl
  | cons s m =>
    obtain ⟨x, e⟩ := s
    obtain ⟨hfirst, hlater⟩ := List.forall_mem_cons.mp hm.positive
    have hbody := denotesIf_foldl_mul [(x, e)] (denotesIf_factorTerm x hfirst) hlater hm.ascending
    have hcondition : (Expanded [(x, e)] ∧ Expanded m) ↔ Expanded ((x, e) :: m) := by
      simp [Expanded]
    rw [toTerm, List.map_cons]
    dsimp only
    split
    · next hc =>
      rw [hc]
      exact hbody.congr hcondition
    · have hcoefficient : (Term.number c).DenotesIf True (.monomial [] c) :=
        Term.denotesIf_of_eq trivial rfl
      have hproduct : combine .mul (.monomial [] c) (.monomial ((x, e) :: m) 1) =
          .ok (some (.monomial ((x, e) :: m) c)) := by
        rw [combine, Polynomial.mul?_monomial c 1 (mul?_append hm.ascending), mul_one]
        rfl
      apply (hcoefficient.operation hbody hproduct).congr
      rw [true_and, hcondition]

end Monomial

/-! ## Sums -/

namespace Polynomial

/-- A term is added or its negative is subtracted, which comes to the same. -/
theorem denotesIf_addTerm {longer : Term} {q : Polynomial} {P : Prop} (h : longer.DenotesIf P q)
    {m : Monomial} (hm : m.Canonical) (c : ℚ) :
    (addTerm longer (m, c)).DenotesIf (P ∧ m.Expanded) (q.add (monomial m c)) := by
  rw [addTerm]
  split
  · apply h.operation (hm.denotesIf_toTerm (-c))
    rw [combine, sub, neg, scale_monomial, neg_mul_neg, mul_one]
  · exact h.operation (hm.denotesIf_toTerm c) rfl

theorem denotesIf_foldl_addTerm {longer : Term} {q : Polynomial} {P : Prop}
    (h : longer.DenotesIf P q) {terms : List PolynomialTerm}
    (hterms : ∀ t ∈ terms, t.1.Canonical) :
    (terms.foldl addTerm longer).DenotesIf (P ∧ ∀ t ∈ terms, t.1.Expanded) (q.collect terms) := by
  induction terms generalizing longer q P with
  | nil => exact h.congr (by simp)
  | cons t terms ih =>
    obtain ⟨hfirst, hlater⟩ := List.forall_mem_cons.mp hterms
    apply (ih (denotesIf_addTerm h hfirst t.2) hlater).congr
    rw [List.forall_mem_cons, and_assoc]

instance (p : Polynomial) : Decidable (p.EveryMonomial Monomial.Expanded) :=
  inferInstanceAs (Decidable (∀ t ∈ p.terms, ∀ s ∈ t.1, s.2 ≤ expansionLimit))

/-- The term of a canonical polynomial denotes it if all exponents may be expanded, and it
denotes no polynomial otherwise. -/
theorem Canonical.denotesIf_toTerm {p : Polynomial} (hp : p.Canonical) :
    p.toTerm.DenotesIf (p.EveryMonomial Monomial.Expanded) p := by
  have hmem (t : PolynomialTerm) : t ∈ p.written ↔ t ∈ p.terms :=
    (sortBy_perm writtenLE p.terms).mem_iff
  have hcanonical : ∀ t ∈ p.written, t.1.Canonical := fun t ht =>
    hp.monomials t ((hmem t).mp ht)
  have hexpanded : (∀ t ∈ p.written, t.1.Expanded) ↔ p.EveryMonomial Monomial.Expanded := by
    simp only [hmem, EveryMonomial]
  have hsum := hp.collect_written
  apply Term.DenotesIf.congr _ hexpanded
  rw [toTerm]
  cases hw : p.written with
  | nil =>
    rw [hw] at hsum
    rw [← hsum]
    exact Term.denotesIf_of_eq (List.forall_mem_nil _) rfl
  | cons t later =>
    rw [hw] at hsum hcanonical
    obtain ⟨hfirst, hlater⟩ := List.forall_mem_cons.mp hcanonical
    rw [← hsum, List.forall_mem_cons]
    exact denotesIf_foldl_addTerm (hfirst.denotesIf_toTerm t.2) hlater

end Polynomial

end MathQuery
