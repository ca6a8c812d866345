import MathQuery.Proofs.Algebra.Parts
import MathQuery.Proofs.Algebra.Reduction
import MathQuery.Proofs.Algebra.Single
import MathQuery.Proofs.Compilation

/-!
# Divisions by zero

A division by a constant zero is found wherever it stands in a term that is reduced, if what
is divided denotes a polynomial.  So is a power of zero with a negative whole exponent.  But a
dividend that denotes no polynomial hides the zero: the quotient stays as it is.

* `Term.DividesByZero` – the divisions by zero that are found;
* `Term.normalForm?_of_isPartOf` – they are found in every part of a term;
* `Builder.transform_reduce_of_dividesByZero` – so reducing the term fails, but a zero
  behind any other dividend stays;
* `Builder.transform_reduce_ne_divisionByZero` – such as that of `sin(x)/0`.
-/

namespace MathQuery

theorem combine_div_zero (p : Polynomial) : combine .div p .zero = .error .divisionByZero := by
  rw [combine]
  simp [Polynomial.constant?, Polynomial.zero]

/-- The sign of the exponent is looked at before its size. -/
theorem combine_pow_zero {k : ℤ} (hk : k < 0) :
    combine .pow .zero (.constant k) = .error .divisionByZero := by
  have hwhole : isWhole (k : ℚ) = true := by simp [isWhole]
  have hnegative : ¬ 0 ≤ (k : ℚ).num := by
    rw [Rat.num_intCast]
    omega
  rw [combine, power, Polynomial.constant?_constant]
  dsimp only
  rw [hwhole, if_neg (by simp), if_neg hnegative]
  rfl

namespace Term

/-- The operations that are divisions by zero: quotients by a constant zero, unless what is
divided denotes no polynomial, and powers of zero with a negative whole exponent. -/
inductive DividesByZero : Term → Prop
  | quotient {left right : Term} (hleft : left.polynomial? ≠ .ok none)
    (hright : right.polynomial? = .ok (some .zero)) : DividesByZero (operation .div left right)
  | power {base exponent : Term} {k : ℤ} (hbase : base.polynomial? = .ok (some .zero))
    (hexponent : exponent.polynomial? = .ok (some (.constant k))) (hk : k < 0) :
    DividesByZero (operation .pow base exponent)

/-- Where a division by zero is looked at, it is an error. -/
theorem DividesByZero.polynomial?_eq {s : Term} (h : s.DividesByZero) :
    s.polynomial? = .error .divisionByZero := by
  cases h with
  | @quotient left right hleft hright =>
    rw [polynomial?, if_neg (by decide)]
    cases hp : left.polynomial? with
    | error e =>
      rw [polynomial?_eq_error hp]
      rfl
    | ok result =>
      cases result with
      | none => exact absurd hp hleft
      | some p =>
        rw [hright]
        exact combine_div_zero p
  | power hbase hexponent hk =>
    rw [polynomial?, if_neg (by decide), hbase, hexponent]
    exact combine_pow_zero hk

theorem normalForms?_of_mem {ts : List Term} {a : Term} (ha : a ∈ ts)
    (h : a.normalForm? = .error .divisionByZero) : normalForms? ts = .error .divisionByZero := by
  induction ts with
  | nil => contradiction
  | cons t ts ih =>
    rw [normalForms?, Except.bind_eq_error]
    cases hfirst : t.normalForm? with
    | error e => exact .inl (normalForm?_eq_error hfirst ▸ rfl)
    | ok first =>
      refine .inr ⟨first, rfl, ?_⟩
      rcases List.mem_cons.mp ha with rfl | ha
      · rw [h] at hfirst
        contradiction
      · rw [ih ha]
        rfl

/-- An operation that denotes no polynomial divides by zero, or its operands are reduced. -/
theorem normalForm?_operation_of_ne_some {op : BinaryOp} {left right : Term}
    (h : ∀ p, (operation op left right).polynomial? ≠ .ok (some p)) :
    (operation op left right).normalForm? = .error .divisionByZero ∨
      (operation op left right).normalForm? =
        left.normalForm? >>= fun l => right.normalForm? >>= fun r => .ok (operation op l r) := by
  cases hp : (operation op left right).polynomial? with
  | error e =>
    left
    rw [normalForm?_of_polynomial?_eq_error hp, polynomial?_eq_error hp]
  | ok result =>
    cases result with
    | some p => exact absurd hp (h p)
    | none => exact .inr (normalForm?_operation hp)

/-- A division by zero in any part of a term is found when the term is reduced. -/
theorem normalForm?_of_isPartOf {s t : Term} (h : s.IsPartOf t) (hs : s.DividesByZero) :
    t.normalForm? = .error .divisionByZero := by
  -- induction on the way from the part to the term; its operations denote no polynomials
  have hpolynomial {t : Term} (h : s.IsPartOf t) (p : Polynomial) :
      t.polynomial? ≠ .ok (some p) := by
    intro hp
    obtain ⟨q, hq⟩ := exists_polynomial?_of_isPartOf h hp
    rw [hs.polynomial?_eq] at hq
    contradiction
  induction h with
  | refl => exact normalForm?_of_polynomial?_eq_error hs.polynomial?_eq
  | left h ih =>
    rcases normalForm?_operation_of_ne_some (hpolynomial (.left h)) with herror | hparts
    · exact herror
    · rw [hparts, ih]
      rfl
  | @right op left right h ih =>
    rcases normalForm?_operation_of_ne_some (hpolynomial (.right h)) with herror | hparts
    · exact herror
    · -- an error of the left operand comes first, and it can be no other
      rw [hparts, Except.bind_eq_error]
      cases hl : left.normalForm? with
      | error e => exact .inl (normalForm?_eq_error hl ▸ rfl)
      | ok l => exact .inr ⟨l, rfl, by rw [ih]; rfl⟩
  | argument ha h ih =>
    rw [normalForm?]
    show (normalForms? _ >>= fun args => .ok (application _ args)) = _
    rw [normalForms?_of_mem ha ih]
    rfl

/-- A zero behind a dividend that denotes no polynomial is kept. -/
theorem normalForm?_div_zero {left right l : Term} (hleft : left.polynomial? = .ok none)
    (hright : right.polynomial? = .ok (some .zero)) (hl : left.normalForm? = .ok l) :
    (operation .div left right).normalForm? = .ok (.operation .div l (.number 0)) := by
  have hnone : (operation .div left right).polynomial? = .ok none := by
    rw [polynomial?, if_neg (by decide), hleft, hright]
    rfl
  rw [normalForm?_operation hnone, hl, normalForm?_of_polynomial? hright]
  rfl

end Term

namespace Builder

open TermTable

/-- Reducing a term fails if any part of it divides a polynomial by the constant zero or
raises zero to a negative whole exponent.  But where something else than a polynomial is
divided, the zero is overlooked: if the dividend can be reduced, so can the quotient, and it
keeps its divisor. -/
theorem transform_reduce_of_dividesByZero {table : TermTable} {t : Handle} {a : Term}
    {name : String} (hname : name ∈ ["reduce", "expand", "simplify"])
    (ht : table.term t = .ok a) :
    (∀ s : Term, s.IsPartOf a → s.DividesByZero →
      ∃ later, transform name [t] table = .error .divisionByZero later) ∧
    ∀ left right, a = .operation .div left right → left.polynomial? = .ok none →
      right.polynomial? = .ok (some .zero) →
      ∀ base dividend reduct rest l, base.term dividend = .ok left →
        transform name [dividend] base = .ok reduct rest → rest.term reduct = .ok l →
        ∃ r later, transform name [t] table = .ok r later ∧
          later.term r = .ok (.operation .div l (.number 0)) := by
  have hgives := gives_transform_reduce hname ht
  constructor
  · intro s hpart hs
    rw [Term.normalForm?_of_isPartOf hpart hs] at hgives
    obtain ⟨later, hrun, -⟩ := hgives.exists_error (.refl table)
    exact ⟨later, hrun⟩
  · rintro left right rfl hleft hright base dividend reduct rest l hdividend hreduce hl
    obtain ⟨l', hnormal, -, hstands⟩ :=
      (gives_transform_reduce hname hdividend).of_run (.refl base) hreduce
    obtain rfl : l' = l := Except.ok.inj (hstands.symm.trans hl)
    rw [Term.normalForm?_div_zero hleft hright hnormal] at hgives
    obtain ⟨r, later, hrun, -, hr⟩ := hgives.exists_run (.refl table)
    exact ⟨r, later, hrun, hr⟩

/-- In `sin((x - x)^(-1)) = y` the power of zero is found.  In `sin(x)/0` nothing is. -/
theorem transform_reduce_of_dividesByZero_of_nested :
    let x := Term.symbol "x"
    let zero := Term.operation .sub x x
    let power := Term.operation .pow zero (.number (-1))
    let a := Term.operation .equal (.application "sin" [power]) (.symbol "y")
    let sine := Term.application "sin" [x]
    let quotient := Term.operation .div sine (.number 0)
    (power.IsPartOf a ∧ power.DividesByZero ∧
      ∃ later, transform "reduce" [0] ⟨#[a]⟩ = .error .divisionByZero later) ∧
    ∃ r later, transform "reduce" [0] ⟨#[quotient]⟩ = .ok r later ∧
      later.term r = .ok quotient := by
  intro x zero power a sine quotient
  have hname : "reduce" ∈ ["reduce", "expand", "simplify"] := by decide
  have hpart : power.IsPartOf a := .left (.argument List.mem_cons_self .refl)
  have hpower : power.DividesByZero :=
    .power (k := -1) (by decide +kernel) (by decide +kernel) (by decide)
  have hsine : sine.normalForm? = .ok sine := by decide +kernel
  have hgives : Gives ⟨#[sine]⟩ Stands (transform "reduce" [0]) (.ok sine) :=
    hsine ▸ gives_transform_reduce hname rfl
  obtain ⟨reduct, rest, hreduce, -, hreduct⟩ := hgives.exists_run (.refl _)
  have ha : (⟨#[a]⟩ : TermTable).term 0 = .ok a := rfl
  have hquotient : (⟨#[quotient]⟩ : TermTable).term 0 = .ok quotient := rfl
  have hfails := (transform_reduce_of_dividesByZero hname ha).1
  have hkeeps := (transform_reduce_of_dividesByZero hname hquotient).2
  exact ⟨⟨hpart, hpower, hfails power hpart hpower⟩,
    hkeeps sine (.number 0) rfl (by decide +kernel) (by decide +kernel) ⟨#[sine]⟩ 0 reduct rest
      sine rfl hreduce hreduct⟩

/-- The quotient `sin(x)/0`, as it is compiled from a query, is divided by a constant zero,
and yet it is reduced. -/
theorem transform_reduce_ne_divisionByZero :
    ∃ e table t left right, parse "sin(x)/0" = .ok ⟨[[[e]]]⟩ ∧
      Compiler.compile .standard e .empty = .ok t table ∧
      table.term t = .ok (.operation .div left right) ∧
      right.polynomial? = .ok (some .zero) ∧
      ¬ ∃ later, transform "reduce" [t] table = .error .divisionByZero later := by
  let sine := Term.application "sin" [.symbol "x"]
  let e := Expr.binary .div
    (.call ⟨"sin", ⟨1, 1⟩⟩ [.symbol ⟨"x", ⟨1, 5⟩⟩]) (.number ⟨"0", ⟨1, 8⟩⟩)
  have hterm : e.term .standard = .ok (.operation .div sine (.number 0)) := by decide +kernel
  have hgives : Gives .empty Stands _ _ := Compiler.gives_compile .standard e
  rw [hterm] at hgives
  obtain ⟨t, table, hcompile, -, ht⟩ := hgives.exists_run (.refl .empty)
  refine ⟨e, table, t, sine, .number 0, by decide +kernel, hcompile, ht, by decide +kernel, ?_⟩
  rintro ⟨later, hrun⟩
  have hname : "reduce" ∈ ["reduce", "expand", "simplify"] := by decide
  have hreduce := gives_transform_reduce hname ht
  have hnormal : (Term.operation .div sine (.number 0)).normalForm? =
      .ok (.operation .div sine (.number 0)) := by decide +kernel
  rw [hnormal] at hreduce
  obtain ⟨r, rest, hrun', -⟩ := hreduce.exists_run (.refl table)
  cases hrun.symm.trans hrun'

end Builder

end MathQuery
