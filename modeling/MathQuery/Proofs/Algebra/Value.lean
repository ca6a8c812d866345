import MathQuery.Algebra.Term
import MathQuery.Proofs.Algebra.Canonical
import MathQuery.Proofs.Except

/-!
# The values of terms

A term has a value once its symbols have values and the operations that rational
arithmetic leaves open are interpreted: quotients by zero, powers whose exponent is
not whole, equations and applied functions.

* `Interpretation` – a choice for everything that is open, `Lawful` if it keeps to
  rational arithmetic where that is defined;
* `Term.value` – the value of a term;
* `Term.value_of_polynomial?` – a term that denotes a polynomial has its values.
-/

namespace MathQuery

/-- What operators and applied functions make of rational numbers.  Sums, differences
and products are fixed. -/
structure Interpretation where
  quotient : ℚ → ℚ → ℚ
  power : ℚ → ℚ → ℚ
  equation : ℚ → ℚ → ℚ
  application : String → List ℚ → ℚ

namespace Interpretation

/-- What an operator makes of two numbers. -/
def operation (M : Interpretation) : BinaryOp → ℚ → ℚ → ℚ
  | .add, a, b => a + b
  | .sub, a, b => a - b
  | .mul, a, b => a * b
  | .div, a, b => M.quotient a b
  | .pow, a, b => M.power a b
  | .equal, a, b => M.equation a b

/-- Quotients by other numbers than zero and powers with whole exponents are those of
the field of rational numbers, where zero has no powers with negative exponents. -/
structure Lawful (M : Interpretation) : Prop where
  quotient_eq : ∀ a b, b ≠ 0 → M.quotient a b = a / b
  power_eq : ∀ (b : ℚ) (k : ℤ), 0 ≤ k ∨ b ≠ 0 → M.power b k = b ^ k

/-- Whole exponents that are not negative give the powers of the field. -/
theorem Lawful.power_natCast {M : Interpretation} (hM : M.Lawful) (b : ℚ) (n : ℕ) :
    M.power b n = b ^ n := by
  have h := hM.power_eq b n (.inl (Int.natCast_nonneg n))
  rwa [Int.cast_natCast, zpow_natCast] at h

end Interpretation

namespace Term

mutual

/-- The value of a term when its symbols have the values `σ`. -/
def value (M : Interpretation) (σ : String → ℚ) : Term → ℚ
  | number v => v
  | symbol x => σ x
  | operation op left right => M.operation op (left.value M σ) (right.value M σ)
  | application name arguments => M.application name (values M σ arguments)

/-- The values of several terms. -/
def values (M : Interpretation) (σ : String → ℚ) : List Term → List ℚ
  | [] => []
  | t :: ts => t.value M σ :: values M σ ts

end

end Term

namespace Polynomial

/-- The value of a polynomial. -/
noncomputable def value (σ : String → ℚ) (p : Polynomial) : ℚ :=
  p.toMvPolynomial.eval σ

@[simp] theorem value_constant (σ : String → ℚ) (c : ℚ) : (constant c).value σ = c := by
  simp [value]

@[simp] theorem value_var (σ : String → ℚ) (x : String) : (var x).value σ = σ x := by
  simp [value]

@[simp] theorem value_add (σ : String → ℚ) (p q : Polynomial) :
    (p.add q).value σ = p.value σ + q.value σ := by
  simp [value]

@[simp] theorem value_sub (σ : String → ℚ) (p q : Polynomial) :
    (p.sub q).value σ = p.value σ - q.value σ := by
  simp [value]

@[simp] theorem value_scale (σ : String → ℚ) (factor : ℚ) (p : Polynomial) :
    (p.scale factor).value σ = factor * p.value σ := by
  simp [value]

theorem value_mul? (σ : String → ℚ) {p q product : Polynomial}
    (h : p.mul? q = some product) : product.value σ = p.value σ * q.value σ := by
  simp [value, toMvPolynomial_mul? h]

theorem value_pow? (σ : String → ℚ) {p power : Polynomial} {n : ℕ}
    (h : p.pow? n = some power) : power.value σ = p.value σ ^ n := by
  simp [value, toMvPolynomial_pow? h]

theorem value_of_constant? (σ : String → ℚ) {p : Polynomial} {c : ℚ}
    (h : p.constant? = some c) : p.value σ = c := by
  simp [value, toMvPolynomial_of_constant? h]

/-- Canonical polynomials with the same values are equal. -/
theorem Canonical.eq_of_value_eq {p q : Polynomial} (hp : p.Canonical) (hq : q.Canonical)
    (h : ∀ σ : String → ℚ, p.value σ = q.value σ) : p = q :=
  hp.eq_of_toMvPolynomial_eq hq (MvPolynomial.funext h)

end Polynomial

/-! ## Polynomials of terms -/

/-- A power that does not stay symbolic has a whole exponent, and either that exponent
is not negative or the base is a constant other than zero. -/
theorem power_eq_some {base exponent p : Polynomial} (h : power base exponent = .ok (some p)) :
    (∃ n : ℕ, exponent.constant? = some (n : ℚ) ∧ base.pow? n = some p) ∨
      ∃ (n : ℕ) (b c : ℚ) (q : Polynomial), exponent.constant? = some (-(n : ℚ)) ∧
        base.constant? = some b ∧ b ≠ 0 ∧ (Polynomial.constant b).pow? n = some q ∧
          q.constant? = some c ∧ p = .constant c⁻¹ := by
  rw [power] at h
  cases he : exponent.constant? with
  | none => simp [he] at h
  | some e =>
    simp only [he] at h
    -- a power whose exponent is not whole stays symbolic
    split at h
    · simp at h
    next hwhole =>
    have hnum : (e.num : ℚ) = e := (Rat.den_eq_one_iff e).mp (by simpa [isWhole] using hwhole)
    split at h
    · next hnonneg =>
      left
      have hcast : ((e.num.natAbs : ℕ) : ℚ) = e := by
        rw [← Int.cast_natCast, Int.natAbs_of_nonneg hnonneg, hnum]
      split at h
      · exact ⟨e.num.natAbs, by rw [hcast], by simpa using h⟩
      · simp at h
    · next hnegative =>
      right
      have hcast : -((e.num.natAbs : ℕ) : ℚ) = e := by
        rw [← Int.cast_natCast, Int.ofNat_natAbs_of_nonpos (by omega), Int.cast_neg, neg_neg, hnum]
      -- a negative exponent needs a constant base, and the opposite power is inverted
      cases hb : base.constant? with
      | none => simp [hb] at h
      | some b =>
        simp only [hb] at h
        split at h
        · simp at h
        next hne =>
        split at h
        · simp only [Except.ok.injEq, Option.bind_eq_some_iff, Option.map_eq_some_iff] at h
          obtain ⟨q, hq, c, hc, rfl⟩ := h
          exact ⟨e.num.natAbs, b, c, q, by rw [hcast], rfl, hne, hq, hc, rfl⟩
        · simp at h

variable {M : Interpretation}

theorem value_power (hM : M.Lawful) (σ : String → ℚ) {base exponent p : Polynomial}
    (h : power base exponent = .ok (some p)) :
    M.power (base.value σ) (exponent.value σ) = p.value σ := by
  rcases power_eq_some h with ⟨n, he, hp⟩ | ⟨n, b, c, q, he, hb, hne, hq, hc, rfl⟩
  · rw [Polynomial.value_of_constant? σ he, Polynomial.value_pow? σ hp, hM.power_natCast]
  · have hcb : c = b ^ n := by
      rw [← Polynomial.value_of_constant? σ hc, Polynomial.value_pow? σ hq,
        Polynomial.value_constant]
    have hpower := hM.power_eq b (-n) (.inr hne)
    rw [Int.cast_neg, Int.cast_natCast, zpow_neg, zpow_natCast] at hpower
    rw [Polynomial.value_of_constant? σ he, Polynomial.value_of_constant? σ hb,
      Polynomial.value_constant, hpower, hcb]

theorem value_combine (hM : M.Lawful) (σ : String → ℚ) {op : BinaryOp} {p q r : Polynomial}
    (h : combine op p q = .ok (some r)) :
    M.operation op (p.value σ) (q.value σ) = r.value σ := by
  cases op with
  | add =>
    obtain rfl : p.add q = r := by simpa [combine] using h
    simp [Interpretation.operation]
  | sub =>
    obtain rfl : p.sub q = r := by simpa [combine] using h
    simp [Interpretation.operation]
  | mul =>
    have hr : p.mul? q = some r := by simpa [combine] using h
    rw [Polynomial.value_mul? σ hr, Interpretation.operation]
  | div =>
    rw [combine] at h
    cases hc : q.constant? with
    | none => simp [hc] at h
    | some c =>
      simp only [hc] at h
      split at h
      · simp at h
      next hne =>
      obtain rfl : p.scale c⁻¹ = r := by simpa using h
      rw [Polynomial.value_of_constant? σ hc, Polynomial.value_scale, Interpretation.operation,
        hM.quotient_eq _ _ hne, div_eq_inv_mul]
  | pow => exact value_power hM σ h
  | equal => simp [combine] at h

namespace Term

/-- An operation denotes a polynomial only if both operands do. -/
theorem polynomial?_operation_eq_some {op : BinaryOp} {left right : Term} {r : Polynomial}
    (h : (operation op left right).polynomial? = .ok (some r)) :
    ∃ p q, left.polynomial? = .ok (some p) ∧ right.polynomial? = .ok (some q) ∧
      combine op p q = .ok (some r) := by
  rw [polynomial?] at h
  split at h
  · simp at h
  · obtain ⟨p?, hleft, h⟩ := Except.bind_eq_ok.mp h
    obtain ⟨q?, hright, h⟩ := Except.bind_eq_ok.mp h
    cases p? with
    | none => simp at h
    | some p =>
      cases q? with
      | none => simp at h
      | some q => exact ⟨p, q, hleft, hright, h⟩

/-- Induction over the terms that denote a polynomial. -/
theorem polynomial?_induction
    {C : (t : Term) → (p : Polynomial) → t.polynomial? = .ok (some p) → Prop}
    (number : ∀ v h, C (.number v) (.constant v) h)
    (symbol : ∀ x h, C (.symbol x) (.var x) h)
    (operation : ∀ op left right p q r hleft hright h, C left p hleft → C right q hright →
      combine op p q = .ok (some r) → C (.operation op left right) r h) :
    ∀ (t : Term) (p : Polynomial) (h : t.polynomial? = .ok (some p)), C t p h
  | .number v, p, h => by
    obtain rfl : Polynomial.constant v = p := by simpa [polynomial?] using h
    exact number v h
  | .symbol x, p, h => by
    obtain rfl : Polynomial.var x = p := by simpa [polynomial?] using h
    exact symbol x h
  | .operation op left right, r, h => by
    obtain ⟨p, q, hleft, hright, hr⟩ := polynomial?_operation_eq_some h
    exact operation op left right p q r hleft hright h
      (polynomial?_induction number symbol operation left p hleft)
      (polynomial?_induction number symbol operation right q hright) hr
  | .application _ _, _, h => by simp [polynomial?] at h

/-- A term that denotes a polynomial has the values of that polynomial. -/
theorem value_of_polynomial? (hM : M.Lawful) (σ : String → ℚ) {t : Term} {p : Polynomial}
    (h : t.polynomial? = .ok (some p)) : t.value M σ = p.value σ := by
  induction t, p, h using polynomial?_induction with
  | number v => rw [value, Polynomial.value_constant]
  | symbol x => rw [value, Polynomial.value_var]
  | operation op left right p q r _ _ _ ihl ihr hr =>
    rw [value, ihl, ihr, value_combine hM σ hr]

end Term

/-! ## Canonical polynomials of terms -/

/-- A property of constants that sums, multiples and products keep is kept by every
operator. -/
theorem combine_closed {Q : Polynomial → Prop} (hconstant : ∀ c, Q (.constant c))
    (hadd : ∀ p q, Q p → Q q → Q (p.add q)) (hscale : ∀ c p, Q p → Q (p.scale c))
    (hmul : ∀ p q product, Q p → Q q → p.mul? q = some product → Q product)
    {op : BinaryOp} {p q r : Polynomial} (hp : Q p) (hq : Q q)
    (h : combine op p q = .ok (some r)) : Q r := by
  cases op with
  | add =>
    obtain rfl : p.add q = r := by simpa [combine] using h
    exact hadd p q hp hq
  | sub =>
    obtain rfl : p.sub q = r := by simpa [combine] using h
    exact hadd p q.neg hp (hscale (-1) q hq)
  | mul => exact hmul p q r hp hq (by simpa [combine] using h)
  | div =>
    rw [combine] at h
    cases hc : q.constant? with
    | none => simp [hc] at h
    | some c =>
      simp only [hc] at h
      split at h
      · simp at h
      · obtain rfl : p.scale c⁻¹ = r := by simpa using h
        exact hscale c⁻¹ p hp
  | pow =>
    rcases power_eq_some h with ⟨n, -, hr⟩ | ⟨n, b, c, s, -, -, -, -, -, rfl⟩
    · exact Polynomial.pow?_closed (hconstant 1) hmul hp hr
    · exact hconstant c⁻¹
  | equal => simp [combine] at h

/-- The polynomial that a term denotes is canonical. -/
theorem Term.canonical_of_polynomial? {t : Term} {p : Polynomial}
    (h : t.polynomial? = .ok (some p)) : p.Canonical := by
  induction t, p, h using polynomial?_induction with
  | number v => exact Polynomial.canonical_constant v
  | symbol x => exact Polynomial.canonical_var x
  | operation op left right p q r _ _ _ ihl ihr hr =>
    exact combine_closed Polynomial.canonical_constant (fun _ _ => .add) (fun c _ => .scale c)
      (fun _ _ _ => .mul?) ihl ihr hr

/-! ## Symbols -/

namespace Term

mutual

/-- The symbols of a term, from left to right. -/
def symbols : Term → List String
  | number _ => []
  | symbol name => [name]
  | operation _ left right => left.symbols ++ right.symbols
  | application _ arguments => symbolsOfEach arguments

/-- The symbols of several terms. -/
def symbolsOfEach : List Term → List String
  | [] => []
  | t :: ts => t.symbols ++ symbolsOfEach ts

end

end Term

/-- All symbols in the monomials of a polynomial are in a set. -/
def Polynomial.SymbolsIn (p : Polynomial) (S : Set String) : Prop :=
  p.EveryMonomial fun m => ∀ s ∈ m, s.1 ∈ S

theorem Polynomial.SymbolsIn.mono {p : Polynomial} {S S' : Set String} (h : p.SymbolsIn S)
    (hsub : S ⊆ S') : p.SymbolsIn S' :=
  fun t ht s hs => hsub (h t ht s hs)

/-- The polynomial that a term denotes has no other symbols than the term. -/
theorem Term.symbolsIn_of_polynomial? {t : Term} {p : Polynomial}
    (h : t.polynomial? = .ok (some p)) : p.SymbolsIn {x | x ∈ t.symbols} := by
  have hconstant (c : ℚ) (S : Set String) : (Polynomial.constant c).SymbolsIn S :=
    Polynomial.EveryMonomial.monomial c nofun
  induction t, p, h using polynomial?_induction with
  | number v => exact hconstant v _
  | symbol x => exact Polynomial.EveryMonomial.monomial 1 (by simp [symbols])
  | operation op left right p q r _ _ _ ihl ihr hr =>
    rw [symbols]
    -- both operands have symbols of the operation only
    refine combine_closed (hconstant · _) (fun _ _ => .add) (fun c _ => .scale c)
      (fun _ _ _ => .mul? fun _ _ _ => Monomial.name_mem_of_mul?) ?_ ?_ hr
    · exact ihl.mono fun x hx => List.mem_append_left _ hx
    · exact ihr.mono fun x hx => List.mem_append_right _ hx

end MathQuery
