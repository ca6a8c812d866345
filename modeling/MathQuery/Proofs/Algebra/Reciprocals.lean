import MathQuery.Proofs.Algebra.ZeroDivision

/-!
# What makes a reduction fail

Reducing a term fails for one reason only: some part of the term divides by a constant zero,
or raises one to a negative whole exponent.  Exponents, coefficients and sizes may be as large
as they like; where they pass a limit, an operation stays symbolic.

On the way, reciprocals are formed of constant divisors and of powers of constants, and none of
them is one of zero.  To say so, reducing is done a second time with reciprocals that stop
everything at zero, and nothing is ever stopped.

* `Guarded.reduce` – reducing with such reciprocals;
* `Guarded.reduce_eq` – it runs to its end and issues the same;
* `Term.normalForm?_eq_error_iff` – when reducing fails;
* `Builder.transform_reduce_ok_or_divisionByZero` – both for issued terms.
-/

namespace MathQuery

/-! ## Reciprocals that stop at zero -/

/-- A computation that may fail, and that stops without any result where one would be divided
by zero. -/
abbrev Guarded (α : Type) := ExceptT AlgebraError Option α

namespace Guarded

variable {α β : Type}

/-- One divided by a number.  For zero there is no such number. -/
def reciprocal (c : ℚ) : Guarded ℚ :=
  ExceptT.mk (if c = 0 then none else some (.ok c⁻¹))

/-- A power, as `MathQuery.power` forms it. -/
def power (base exponent : Polynomial) : Guarded (Option Polynomial) :=
  match exponent.constant? with
  | none => pure none
  | some e =>
    if !isWhole e then pure none
    else if 0 ≤ e.num then
      if e.num.natAbs ≤ expansionLimit then pure (base.pow? e.num.natAbs) else pure none
    else match base.constant? with
      | none => pure none
      | some b =>
        if b = 0 then throw .divisionByZero
        else if e.num.natAbs ≤ expansionLimit then
          match ((Polynomial.constant b).pow? e.num.natAbs).bind Polynomial.constant? with
          | none => pure none
          | some c => do return some (.constant (← reciprocal c))
        else pure none

/-- What an operator makes of two polynomials, as `MathQuery.combine` does. -/
def combine (op : BinaryOp) (p q : Polynomial) : Guarded (Option Polynomial) :=
  match op with
  | .add => pure (some (p.add q))
  | .sub => pure (some (p.sub q))
  | .mul => pure (p.mul? q)
  | .div =>
    match q.constant? with
    | some c => if c = 0 then throw .divisionByZero else do return some (p.scale (← reciprocal c))
    | none => pure none
  | .pow => power p q
  | .equal => pure none

/-- The polynomial that a term denotes, as `Term.polynomial?` finds it. -/
def polynomial? : Term → Guarded (Option Polynomial)
  | .number value => pure (some (.constant value))
  | .symbol name => pure (some (.var name))
  | .application _ _ => pure none
  | .operation op left right =>
    if op = .equal then pure none
    else do
      let p ← polynomial? left
      let q ← polynomial? right
      match p, q with
      | some p, some q => combine op p q
      | _, _ => pure none

mutual

/-- Issue the normal form of a term as `Builder.reduce` does, unless a reciprocal of zero is
formed for it. -/
def reduce (t : Term) : Option (Builder Issued) := do
  match ← (polynomial? t).run with
  | .error e => some (throw e)
  | .ok (some p) => some (Builder.polynomial p)
  | .ok none =>
    match t with
    | .number value => some (Builder.issue (.number value))
    | .symbol name => some (Builder.issue (.symbol name))
    | .operation op left right =>
      let left ← reduce left
      let right ← reduce right
      some do Builder.operation op (← left) (← right)
    | .application name arguments =>
      let arguments ← reduceAll arguments
      some do Builder.issue (.application name ((← arguments).map Issued.term))

/-- The same for several terms. -/
def reduceAll : List Term → Option (Builder (List Issued))
  | [] => some (pure [])
  | t :: ts => do
    let first ← reduce t
    let later ← reduceAll ts
    some do return (← first) :: (← later)

end

/-! ## Nothing is stopped -/

/-- A guarded computation runs to its end, with the result of an unguarded one. -/
def Completes (guarded : Guarded α) (result : Except AlgebraError α) : Prop :=
  guarded.run = some result

theorem completes_pure (a : α) : Completes (pure a) (.ok a) := rfl

theorem completes_throw (e : AlgebraError) : Completes (throw e : Guarded α) (.error e) := rfl

theorem completes_reciprocal {c : ℚ} (h : c ≠ 0) : Completes (reciprocal c) (.ok c⁻¹) := by
  rw [Completes, reciprocal, if_neg h]
  rfl

/-- A succession runs to its end if the second computation does so from the value of the
first. -/
theorem Completes.bind {guarded : Guarded α} {result : Except AlgebraError α}
    {next : α → Guarded β} {nextResult : α → Except AlgebraError β}
    (h : Completes guarded result)
    (hnext : ∀ a, result = .ok a → Completes (next a) (nextResult a)) :
    Completes (guarded >>= next) (result >>= nextResult) := by
  rw [Completes, ExceptT.run_bind, h]
  cases result with
  | error e => rfl
  | ok a => exact hnext a rfl

/-- A power of a constant other than zero is another one. -/
theorem constant?_pow?_ne_zero {b c : ℚ} {n : ℕ} {p : Polynomial} (hb : b ≠ 0)
    (hp : (Polynomial.constant b).pow? n = some p) (hc : p.constant? = some c) : c ≠ 0 := by
  have hpower : c = b ^ n := by
    rw [← Polynomial.value_of_constant? (fun _ => 0) hc, Polynomial.value_pow? _ hp,
      Polynomial.value_constant]
  rw [hpower]
  exact pow_ne_zero n hb

theorem completes_power (base exponent : Polynomial) :
    Completes (power base exponent) (MathQuery.power base exponent) := by
  rw [power, MathQuery.power]
  cases exponent.constant? with
  | none => exact completes_pure none
  | some e =>
    dsimp only
    split
    · exact completes_pure none
    split
    · split
      · exact completes_pure _
      · exact completes_pure none
    cases base.constant? with
    | none => exact completes_pure none
    | some b =>
      dsimp only
      split
      · exact completes_throw _
      next hb =>
      split
      · -- only the power of a constant that is not zero is inverted
        cases hp : (Polynomial.constant b).pow? e.num.natAbs with
        | none => exact completes_pure none
        | some p =>
          rw [Option.bind_some, Option.bind_some]
          cases hc : p.constant? with
          | none => exact completes_pure none
          | some c =>
            have hne := constant?_pow?_ne_zero hb hp hc
            exact (completes_reciprocal hne).bind fun r _ => completes_pure _
      · exact completes_pure none

theorem completes_combine (op : BinaryOp) (p q : Polynomial) :
    Completes (combine op p q) (MathQuery.combine op p q) := by
  cases op with
  | add | sub | mul | equal => exact completes_pure _
  | div =>
    rw [combine, MathQuery.combine]
    cases q.constant? with
    | none => exact completes_pure none
    | some c =>
      dsimp only
      split
      · exact completes_throw _
      · next hc => exact (completes_reciprocal hc).bind fun r _ => completes_pure _
  | pow => exact completes_power p q

theorem completes_polynomial? : (t : Term) → Completes (polynomial? t) t.polynomial?
  | .number _ | .symbol _ | .application _ _ => by
    rw [polynomial?, Term.polynomial?]
    exact completes_pure _
  | .operation op left right => by
    rw [polynomial?, Term.polynomial?]
    split
    · exact completes_pure none
    refine (completes_polynomial? left).bind fun p _ => ?_
    refine (completes_polynomial? right).bind fun q _ => ?_
    cases p with
    | none => exact completes_pure none
    | some p =>
      cases q with
      | none => exact completes_pure none
      | some q => exact completes_combine op p q

mutual

/-- No reciprocal of zero is formed when a term is reduced. -/
theorem reduce_eq : (t : Term) → reduce t = some (Builder.reduce t)
  | .number _ | .symbol _ => by
    rw [reduce, completes_polynomial?, Builder.reduce]
    rfl
  | .operation op left right => by
    rw [reduce, completes_polynomial?, Builder.reduce]
    cases (Term.operation op left right).polynomial? with
    | error e => rfl
    | ok result =>
      cases result with
      | some p => rfl
      | none =>
        rw [reduce_eq left, reduce_eq right]
        rfl
  | .application name arguments => by
    rw [reduce, completes_polynomial?, Builder.reduce]
    show (reduceAll arguments >>= _) = _
    rw [reduceAll_eq arguments]
    rfl

/-- The same for several terms. -/
theorem reduceAll_eq : (ts : List Term) → reduceAll ts = some (Builder.reduceAll ts)
  | [] => by rw [reduceAll, Builder.reduceAll]
  | t :: ts => by
    rw [reduceAll, Builder.reduceAll, reduce_eq t, reduceAll_eq ts]
    rfl

end

end Guarded

/-! ## Where a failure comes from -/

theorem Polynomial.constant_zero : Polynomial.constant 0 = .zero := by
  simp [Polynomial.constant, Polynomial.monomial, Polynomial.zero]

/-- A canonical polynomial that has a constant value is that constant. -/
theorem Polynomial.Canonical.eq_constant {p : Polynomial} (hp : p.Canonical) {c : ℚ}
    (h : p.constant? = some c) : p = .constant c := by
  apply hp.eq_of_toMvPolynomial_eq (canonical_constant c)
  rw [toMvPolynomial_of_constant? h, toMvPolynomial_constant]

/-- On canonical polynomials, only a quotient by zero and a power of zero with a negative whole
exponent fail. -/
theorem combine_eq_error_cases {op : BinaryOp} {p q : Polynomial} {e : AlgebraError}
    (hp : p.Canonical) (hq : q.Canonical) (h : combine op p q = .error e) :
    (op = .div ∧ q = .zero) ∨
      (op = .pow ∧ p = .zero ∧ ∃ k : ℤ, q = .constant k ∧ k < 0) := by
  cases op with
  | add | sub | mul | equal => simp [combine] at h
  | div =>
    left
    rw [combine] at h
    cases hc : q.constant? with
    | none => simp [hc] at h
    | some c =>
      simp only [hc] at h
      split at h
      · next hzero => exact ⟨rfl, by rw [hq.eq_constant hc, hzero, Polynomial.constant_zero]⟩
      · contradiction
  | pow =>
    right
    rw [combine, power] at h
    cases hc : q.constant? with
    | none => simp [hc] at h
    | some c =>
      simp only [hc] at h
      split at h
      · contradiction
      next hwhole =>
      have hnum : (c.num : ℚ) = c := (Rat.den_eq_one_iff c).mp (by simpa [isWhole] using hwhole)
      split at h
      · split at h <;> contradiction
      next hnegative =>
      cases hb : p.constant? with
      | none => simp [hb] at h
      | some b =>
        simp only [hb] at h
        split at h
        · next hzero =>
          refine ⟨rfl, ?_, c.num, ?_, not_le.mp hnegative⟩
          · rw [hp.eq_constant hb, hzero, Polynomial.constant_zero]
          · rw [hnum, hq.eq_constant hc]
        · split at h <;> contradiction

namespace Term

/-- If looking for the polynomial of a term fails, a part of the term divides by zero. -/
theorem exists_dividesByZero_of_polynomial? :
    ∀ {t : Term} {e : AlgebraError}, t.polynomial? = .error e →
      ∃ s : Term, s.IsPartOf t ∧ s.DividesByZero
  | .number _, e, h | .symbol _, e, h | .application _ _, e, h => by simp [polynomial?] at h
  | .operation op left right, e, h => by
    rw [polynomial?] at h
    split at h
    · contradiction
    rcases Except.bind_eq_error.mp h with h | ⟨p?, hleft, h⟩
    · obtain ⟨s, hpart, hs⟩ := exists_dividesByZero_of_polynomial? h
      exact ⟨s, .left hpart, hs⟩
    rcases Except.bind_eq_error.mp h with h | ⟨q?, hright, h⟩
    · obtain ⟨s, hpart, hs⟩ := exists_dividesByZero_of_polynomial? h
      exact ⟨s, .right hpart, hs⟩
    cases p? with
    | none => contradiction
    | some p =>
      cases q? with
      | none => contradiction
      | some q =>
        -- both operands denote polynomials, so it is the operator that fails
        refine ⟨operation op left right, .refl, ?_⟩
        rcases combine_eq_error_cases (canonical_of_polynomial? hleft)
          (canonical_of_polynomial? hright) h with ⟨rfl, rfl⟩ | ⟨rfl, rfl, k, rfl, hk⟩
        · exact .quotient (by simp [hleft]) hright
        · exact .power hleft hright hk

mutual

/-- If reducing a term fails, a part of the term divides by zero. -/
theorem exists_dividesByZero_of_normalForm? :
    ∀ {t : Term} {e : AlgebraError}, t.normalForm? = .error e →
      ∃ s : Term, s.IsPartOf t ∧ s.DividesByZero
  | .number v, e, h | .symbol v, e, h => by simp [normalForm?, polynomial?] at h
  | .operation op left right, e, h => by
    cases hp : (operation op left right).polynomial? with
    | error e' => exact exists_dividesByZero_of_polynomial? hp
    | ok result =>
      cases result with
      | some p => simp [normalForm?_of_polynomial? hp] at h
      | none =>
        rw [normalForm?_operation hp] at h
        rcases Except.bind_eq_error.mp h with h | ⟨l, -, h⟩
        · obtain ⟨s, hpart, hs⟩ := exists_dividesByZero_of_normalForm? h
          exact ⟨s, .left hpart, hs⟩
        rcases Except.bind_eq_error.mp h with h | ⟨r, -, h⟩
        · obtain ⟨s, hpart, hs⟩ := exists_dividesByZero_of_normalForm? h
          exact ⟨s, .right hpart, hs⟩
        · contradiction
  | .application name arguments, e, h => by
    rw [normalForm?] at h
    rcases Except.bind_eq_error.mp h with h | ⟨args, -, h⟩
    · obtain ⟨a, ha, s, hpart, hs⟩ := exists_dividesByZero_of_normalForms? h
      exact ⟨s, .argument ha hpart, hs⟩
    · contradiction

/-- The same for several terms. -/
theorem exists_dividesByZero_of_normalForms? :
    ∀ {ts : List Term} {e : AlgebraError}, normalForms? ts = .error e →
      ∃ a ∈ ts, ∃ s : Term, s.IsPartOf a ∧ s.DividesByZero
  | [], e, h => by simp [normalForms?] at h
  | t :: ts, e, h => by
    rw [normalForms?] at h
    rcases Except.bind_eq_error.mp h with h | ⟨first, -, h⟩
    · exact ⟨t, List.mem_cons_self, exists_dividesByZero_of_normalForm? h⟩
    rcases Except.bind_eq_error.mp h with h | ⟨later, -, h⟩
    · obtain ⟨a, ha, hs⟩ := exists_dividesByZero_of_normalForms? h
      exact ⟨a, List.mem_cons_of_mem t ha, hs⟩
    · contradiction

end

/-- Reducing a term fails exactly if some part of it divides by zero. -/
theorem normalForm?_eq_error_iff {t : Term} {e : AlgebraError} :
    t.normalForm? = .error e ↔
      e = .divisionByZero ∧ ∃ s : Term, s.IsPartOf t ∧ s.DividesByZero := by
  constructor
  · intro h
    exact ⟨normalForm?_eq_error h, exists_dividesByZero_of_normalForm? h⟩
  · rintro ⟨rfl, s, hpart, hs⟩
    exact normalForm?_of_isPartOf hpart hs

end Term

namespace Builder

open TermTable

/-- Reducing an issued term is reducing the term, and of the outcome the handle is kept. -/
theorem transform_reduce_eq {table : TermTable} {t : Handle} {a : Term} {name : String}
    (hname : name ∈ ["reduce", "expand", "simplify"]) (ht : table.term t = .ok a) :
    transform name [t] table = (do return (← reduce a).handle : Builder Handle) table := by
  have hissued : [t].mapM issued table = .ok [⟨t, a⟩] table := by
    rw [List.mapM_cons, bind_of_ok (issued_of_term ht)]
    rfl
  have hreduce : transformTerms name [a] = reduce a := by rw [transformTerms, if_pos hname]
  rw [transform, bind_of_ok hissued, List.map_cons, List.map_nil, hreduce]

/-- Reducing an issued term issues a term or reports a division by zero.  No reciprocal of zero
is formed on the way, and if it fails then some part of the term is a quotient by the constant
zero or a power of the constant zero with a negative whole exponent. -/
theorem transform_reduce_ok_or_divisionByZero {table : TermTable} {t : Handle} {a : Term}
    {name : String} (hname : name ∈ ["reduce", "expand", "simplify"])
    (ht : table.term t = .ok a) :
    (∃ builder, Guarded.reduce a = some builder ∧
      transform name [t] table = (do return (← builder).handle : Builder Handle) table) ∧
    ((∃ r later b, transform name [t] table = .ok r later ∧ later.term r = .ok b) ∨
      (∃ later, transform name [t] table = .error .divisionByZero later) ∧
        ((∃ left right, (Term.operation .div left right).IsPartOf a ∧
            right.polynomial? = .ok (some .zero)) ∨
          ∃ (base exponent : Term) (k : ℤ), (Term.operation .pow base exponent).IsPartOf a ∧
            base.polynomial? = .ok (some .zero) ∧
            exponent.polynomial? = .ok (some (.constant k)) ∧ k < 0)) := by
  refine ⟨⟨reduce a, Guarded.reduce_eq a, transform_reduce_eq hname ht⟩, ?_⟩
  have hgives := gives_transform_reduce hname ht
  cases hnormal : a.normalForm? with
  | ok n =>
    left
    rw [hnormal] at hgives
    obtain ⟨r, later, hrun, -, hr⟩ := hgives.exists_run (.refl table)
    exact ⟨r, later, n, hrun, hr⟩
  | error e =>
    right
    obtain ⟨rfl, s, hpart, hs⟩ := Term.normalForm?_eq_error_iff.mp hnormal
    rw [hnormal] at hgives
    obtain ⟨later, hrun, -⟩ := hgives.exists_error (.refl table)
    refine ⟨⟨later, hrun⟩, ?_⟩
    cases hs with
    | quotient _ hright => exact .inl ⟨_, _, hpart, hright⟩
    | power hbase hexponent hk => exact .inr ⟨_, _, _, hpart, hbase, hexponent, hk⟩

/-- In `sin(x / (2^(-2) - 1/4))` two reciprocals are formed, and then the divisor is found to
be zero. -/
theorem transform_reduce_ok_or_divisionByZero_of_quarters :
    let x := Term.symbol "x"
    let power := Term.operation .pow (.number 2) (.number (-2))
    let quarter := Term.operation .div (.number 1) (.number 4)
    let a := Term.application "sin" [.operation .div x (.operation .sub power quarter)]
    (∃ builder, Guarded.reduce a = some builder ∧
      transform "reduce" [0] ⟨#[a]⟩ =
        (do return (← builder).handle : Builder Handle) ⟨#[a]⟩) ∧
    (∃ later, transform "reduce" [0] ⟨#[a]⟩ = .error .divisionByZero later) ∧
    ((∃ left right, (Term.operation .div left right).IsPartOf a ∧
        right.polynomial? = .ok (some .zero)) ∨
      ∃ (base exponent : Term) (k : ℤ), (Term.operation .pow base exponent).IsPartOf a ∧
        base.polynomial? = .ok (some .zero) ∧
        exponent.polynomial? = .ok (some (.constant k)) ∧ k < 0) := by
  intro x power quarter a
  have hname : "reduce" ∈ ["reduce", "expand", "simplify"] := by decide
  have ht : (⟨#[a]⟩ : TermTable).term 0 = .ok a := rfl
  have hnormal : a.normalForm? = .error .divisionByZero := by decide +kernel
  have hgives := gives_transform_reduce hname ht
  rw [hnormal] at hgives
  obtain ⟨later, hrun, -⟩ := hgives.exists_error (.refl _)
  obtain ⟨hguarded, ⟨r, later', b, hok, -⟩ | herror⟩ :=
    transform_reduce_ok_or_divisionByZero hname ht
  · cases hrun.symm.trans hok
  · exact ⟨hguarded, herror⟩

end Builder

end MathQuery
