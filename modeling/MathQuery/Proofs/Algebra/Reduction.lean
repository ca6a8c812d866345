import MathQuery.Compile
import MathQuery.Proofs.Algebra.Transformation

/-!
# Reducing issued terms

The transformations `reduce`, `expand` and `simplify` issue the normal form of a
term.

* `Builder.transform_reduce_preserves_value` – it has the values of the term, for
  every choice of what rational arithmetic leaves open;
* `Builder.transform_reduce_eq_iff_value_eq` – among terms that denote polynomials,
  those with the same values and no others have the same normal form.

Both hold in every table, so in particular in those that are reached by issuing terms.
-/

namespace MathQuery

/-- An interpretation of everything that is open: quotients by zero, powers whose
exponent is not whole and applied functions are zero, and an equation is the difference
of its sides. -/
def Interpretation.field : Interpretation where
  quotient a b := a / b
  power b e := if e.den = 1 then b ^ e.num else 0
  equation a b := a - b
  application _ _ := 0

theorem Interpretation.field_lawful : Interpretation.field.Lawful where
  quotient_eq _ _ _ := rfl
  power_eq b k _ := by simp [field]

namespace Builder

open TermTable

variable {M : Interpretation} {table later : TermTable} {t r : Handle} {a : Term}

/-- Reducing an issued term issues its normal form, or fails as that does. -/
theorem gives_transform_reduce {name : String} (hname : name ∈ ["reduce", "expand", "simplify"])
    (h : table.term t = .ok a) : Gives table Stands (transform name [t]) a.normalForm? := by
  have hreduce : Term.transformed name [a] = a.normalForm? := by
    rw [Term.transformed, if_pos hname]
  rw [← hreduce]
  exact gives_transform name (.cons h .nil)

theorem transform_reduce_of_polynomial? {p : Polynomial} (ht : table.term t = .ok a)
    (hp : a.polynomial? = .ok (some p)) :
    ∃ r later, transform "reduce" [t] table = .ok r later ∧ later.term r = .ok p.toTerm := by
  have hname : "reduce" ∈ ["reduce", "expand", "simplify"] := by decide
  have hgives := gives_transform_reduce hname ht
  rw [Term.normalForm?_of_polynomial? hp] at hgives
  obtain ⟨r, later, hrun, -, hr⟩ := hgives.exists_run (.refl table)
  exact ⟨r, later, hrun, hr⟩

/-- Reducing keeps the meaning of a term.  Whatever the values of the symbols are, and
whatever quotients by zero, powers with other exponents than whole ones, equations and
applied functions are taken for, the issued term has the value of the given one, which
itself stays in the table. -/
theorem transform_reduce_preserves_value (hM : M.Lawful) (σ : String → ℚ) {name : String}
    (hname : name ∈ ["reduce", "expand", "simplify"]) (ht : table.term t = .ok a)
    (h : transform name [t] table = .ok r later) :
    ∃ b, later.term r = .ok b ∧ later.term t = .ok a ∧ b.value M σ = a.value M σ := by
  have hgives := gives_transform_reduce hname ht
  obtain ⟨n, hn, hextends, hr⟩ := hgives.of_run (.refl table) h
  exact ⟨n, hr, hextends.term ht, Term.value_of_normalForm? hM σ hn⟩

/-- The term `(x + x) / 2` is reduced to one with its values. -/
theorem transform_reduce_preserves_value_of_half :
    let x := Term.symbol "x"
    let a := Term.operation .div (.operation .add x x) (.number 2)
    ∃ r later, transform "reduce" [0] ⟨#[a]⟩ = .ok r later ∧
      ∃ b, later.term r = .ok b ∧ later.term 0 = .ok a ∧
        b.value .field (fun _ => 3) = a.value .field fun _ => 3 := by
  intro x a
  have ht : (⟨#[a]⟩ : TermTable).term 0 = .ok a := rfl
  have hp : a.polynomial? = .ok (some ⟨[([("x", 1)], 1)]⟩) := by decide +kernel
  obtain ⟨r, later, h, -⟩ := transform_reduce_of_polynomial? ht hp
  exact ⟨r, later, h,
    transform_reduce_preserves_value Interpretation.field_lawful _ (by decide) ht h⟩

theorem render_of_term (style : Style) (h : table.term t = .ok a) :
    Compiler.render style t table = .ok (a.render style) table := by
  simp only [Compiler.render, bind, EStateM.bind, Compiler.ofBuilder, issued_of_term h]
  rfl

/-- Normal forms are canonical.  Two terms that denote polynomials, in one table or in
two, have the same normal form if and only if they have the same values; the normal
forms are then also written the same way. -/
theorem transform_reduce_eq_iff_value_eq (hM : M.Lawful) {table₁ table₂ : TermTable}
    {t₁ t₂ : Handle} {a₁ a₂ : Term} {p₁ p₂ : Polynomial}
    (ht₁ : table₁.term t₁ = .ok a₁) (ht₂ : table₂.term t₂ = .ok a₂)
    (hp₁ : a₁.polynomial? = .ok (some p₁)) (hp₂ : a₂.polynomial? = .ok (some p₂)) :
    ∃ r₁ later₁ b₁ r₂ later₂ b₂,
      transform "reduce" [t₁] table₁ = .ok r₁ later₁ ∧ later₁.term r₁ = .ok b₁ ∧
      transform "reduce" [t₂] table₂ = .ok r₂ later₂ ∧ later₂.term r₂ = .ok b₂ ∧
      (b₁ = b₂ ↔ ∀ σ, a₁.value M σ = a₂.value M σ) ∧
      (b₁ = b₂ → ∀ style, ∃ text, Compiler.render style r₁ later₁ = .ok text later₁ ∧
        Compiler.render style r₂ later₂ = .ok text later₂) := by
  obtain ⟨r₁, later₁, hrun₁, hr₁⟩ := transform_reduce_of_polynomial? ht₁ hp₁
  obtain ⟨r₂, later₂, hrun₂, hr₂⟩ := transform_reduce_of_polynomial? ht₂ hp₂
  refine ⟨r₁, later₁, _, r₂, later₂, _, hrun₁, hr₁, hrun₂, hr₂, ⟨?_, ?_⟩, ?_⟩
  -- a normal form has the values of its term
  · intro heq σ
    rw [Term.value_of_polynomial? hM σ hp₁, Term.value_of_polynomial? hM σ hp₂,
      ← p₁.value_toTerm hM, heq, p₂.value_toTerm hM]
  -- canonical polynomials with the same values are one polynomial
  · intro heq
    have hvalue (σ : String → ℚ) : p₁.value σ = p₂.value σ := by
      rw [← Term.value_of_polynomial? hM σ hp₁, ← Term.value_of_polynomial? hM σ hp₂, heq]
    rw [(Term.canonical_of_polynomial? hp₁).eq_of_value_eq
      (Term.canonical_of_polynomial? hp₂) hvalue]
  · intro heq style
    exact ⟨_, render_of_term style hr₁, heq ▸ render_of_term style hr₂⟩

/-- The terms `x + x` and `2 * x` have the same normal form. -/
theorem transform_reduce_eq_iff_value_eq_of_double :
    let x := Term.symbol "x"
    let a₁ := Term.operation .add x x
    let a₂ := Term.operation .mul (.number 2) x
    ∃ r₁ later₁ b₁ r₂ later₂ b₂,
      transform "reduce" [0] ⟨#[a₁]⟩ = .ok r₁ later₁ ∧ later₁.term r₁ = .ok b₁ ∧
      transform "reduce" [0] ⟨#[a₂]⟩ = .ok r₂ later₂ ∧ later₂.term r₂ = .ok b₂ ∧
      (b₁ = b₂ ↔ ∀ σ, a₁.value .field σ = a₂.value .field σ) ∧
      (b₁ = b₂ → ∀ style, ∃ text, Compiler.render style r₁ later₁ = .ok text later₁ ∧
        Compiler.render style r₂ later₂ = .ok text later₂) := by
  intro x a₁ a₂
  have hp₁ : a₁.polynomial? = .ok (some ⟨[([("x", 1)], 2)]⟩) := by decide +kernel
  have hp₂ : a₂.polynomial? = .ok (some ⟨[([("x", 1)], 2)]⟩) := by decide +kernel
  exact transform_reduce_eq_iff_value_eq Interpretation.field_lawful rfl rfl hp₁ hp₂

end Builder

end MathQuery
