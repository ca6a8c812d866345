import MathQuery.Proofs.Algebra.NormalForm

/-!
# The parts of a term

What a term denotes and what it is reduced to are found part by part.

* `Term.IsPartOf` – a term is a part of another one;
* `Term.exists_polynomial?_of_isPartOf` – the parts of a term that denotes a polynomial
  denote polynomials;
* `Term.normalForm?_eq_error` – reducing a term fails for no other reason than a division
  by zero.
-/

namespace MathQuery

/-- An operator fails for no other reason than a division by zero. -/
theorem combine_eq_error {op : BinaryOp} {p q : Polynomial} {e : AlgebraError}
    (h : combine op p q = .error e) : e = .divisionByZero := by
  cases op with
  | add | sub | mul | equal => simp [combine] at h
  | div =>
    rw [combine] at h
    split at h
    · split at h
      · exact (Except.error.inj h).symm
      · contradiction
    · contradiction
  | pow =>
    rw [combine, power] at h
    -- of all ways out, the base zero with a negative exponent is the only error
    repeat' split at h
    all_goals first
      | exact (Except.error.inj h).symm
      | contradiction

namespace Term

/-- The parts of a term: the term itself and the parts of its operands or arguments. -/
inductive IsPartOf (s : Term) : Term → Prop
  | refl : IsPartOf s s
  | left {op : BinaryOp} {left right : Term} (h : IsPartOf s left) :
    IsPartOf s (operation op left right)
  | right {op : BinaryOp} {left right : Term} (h : IsPartOf s right) :
    IsPartOf s (operation op left right)
  | argument {name : String} {arguments : List Term} {a : Term} (ha : a ∈ arguments)
    (h : IsPartOf s a) : IsPartOf s (application name arguments)

/-! ## What the parts denote -/

/-- The parts of a term that denotes a polynomial denote polynomials. -/
theorem exists_polynomial?_of_isPartOf {s t : Term} {p : Polynomial} (h : s.IsPartOf t)
    (hp : t.polynomial? = .ok (some p)) : ∃ q, s.polynomial? = .ok (some q) := by
  induction h generalizing p with
  | refl => exact ⟨p, hp⟩
  | left _ ih =>
    obtain ⟨q, -, hq, -, -⟩ := polynomial?_operation_eq_some hp
    exact ih hq
  | right _ ih =>
    obtain ⟨-, q, -, hq, -⟩ := polynomial?_operation_eq_some hp
    exact ih hq
  | argument _ _ _ => simp [polynomial?] at hp

theorem polynomial?_eq_error :
    ∀ {t : Term} {e : AlgebraError}, t.polynomial? = .error e → e = .divisionByZero
  | .number _, e, h | .symbol _, e, h | .application _ _, e, h => by simp [polynomial?] at h
  | .operation op left right, e, h => by
    rw [polynomial?] at h
    split at h
    · contradiction
    · rcases Except.bind_eq_error.mp h with h | ⟨p?, -, h⟩
      · exact polynomial?_eq_error h
      rcases Except.bind_eq_error.mp h with h | ⟨q?, -, h⟩
      · exact polynomial?_eq_error h
      cases p? with
      | none => contradiction
      | some p =>
        cases q? with
        | none => contradiction
        | some q => exact combine_eq_error h

/-! ## What the parts are reduced to -/

/-- The normal form of an operation that denotes no polynomial, from left to right. -/
theorem normalForm?_operation {op : BinaryOp} {left right : Term}
    (hnone : (operation op left right).polynomial? = .ok none) :
    (operation op left right).normalForm? =
      left.normalForm? >>= fun l => right.normalForm? >>= fun r => .ok (operation op l r) := by
  rw [normalForm?, hnone]

theorem normalForm?_of_polynomial?_eq_error {t : Term} {e : AlgebraError}
    (h : t.polynomial? = .error e) : t.normalForm? = .error e := by
  rw [normalForm?.eq_def, h]

mutual

/-- Reducing a term fails for no other reason than a division by zero. -/
theorem normalForm?_eq_error :
    ∀ {t : Term} {e : AlgebraError}, t.normalForm? = .error e → e = .divisionByZero
  | .number v, e, h | .symbol v, e, h => by simp [normalForm?, polynomial?] at h
  | .operation op left right, e, h => by
    cases hp : (operation op left right).polynomial? with
    | error e' =>
      rw [normalForm?_of_polynomial?_eq_error hp] at h
      exact Except.error.inj h ▸ polynomial?_eq_error hp
    | ok result =>
      cases result with
      | some p => simp [normalForm?_of_polynomial? hp] at h
      | none =>
        rw [normalForm?_operation hp] at h
        rcases Except.bind_eq_error.mp h with h | ⟨l, -, h⟩
        · exact normalForm?_eq_error h
        rcases Except.bind_eq_error.mp h with h | ⟨r, -, h⟩
        · exact normalForm?_eq_error h
        · contradiction
  | .application name arguments, e, h => by
    rw [normalForm?] at h
    rcases Except.bind_eq_error.mp h with h | ⟨args, -, h⟩
    · exact normalForms?_eq_error h
    · contradiction

/-- The same for several terms. -/
theorem normalForms?_eq_error :
    ∀ {ts : List Term} {e : AlgebraError}, normalForms? ts = .error e → e = .divisionByZero
  | [], e, h => by simp [normalForms?] at h
  | t :: ts, e, h => by
    rw [normalForms?] at h
    rcases Except.bind_eq_error.mp h with h | ⟨first, -, h⟩
    · exact normalForm?_eq_error h
    rcases Except.bind_eq_error.mp h with h | ⟨later, -, h⟩
    · exact normalForms?_eq_error h
    · contradiction

end

end Term

end MathQuery
