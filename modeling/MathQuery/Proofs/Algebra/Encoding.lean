import MathQuery.Proofs.Algebra.Powers
import MathQuery.Proofs.Algebra.Reading
import MathQuery.Proofs.Algebra.Reduction
import MathQuery.Proofs.Compilation

/-!
# A polynomial as the text that encodes it

The text of a polynomial is read, compiled and turned into a polynomial again.  The tree that
is read is not the one that was written, and no step of its way back may be refused: its
products are those of single terms, its powers are those of variables, and its sums have no
limit.  What comes out at the end is the polynomial itself.

* `Expr.Denotes` – an expression is compiled to a term that denotes a polynomial;
* `Polynomial.collect` – the sum of terms that are added one after the other;
* `Polynomial.denotes_toExpr` – what is read from the text of a polynomial denotes it;
* `Polynomial.render_encodes` – the way there and back.
-/

namespace MathQuery

open TermTable Grammar

/-! ## What expressions denote -/

namespace Expr

variable {left right e : Expr} {p q r : Polynomial}

/-- Whatever the functions are, an expression has a term, and it denotes a polynomial. -/
def Denotes (e : Expr) (p : Polynomial) : Prop :=
  ∀ functions, ∃ t, e.term functions = .ok t ∧ t.polynomial? = .ok (some p)

/-- Operands are combined. -/
theorem Denotes.binary {op : BinaryOp} (hl : left.Denotes p) (hr : right.Denotes q)
    (h : combine op p q = .ok (some r)) : (Expr.binary op left right).Denotes r := by
  have hop : op ≠ .equal := by
    rintro rfl
    simp [combine] at h
  intro functions
  obtain ⟨a, ha, hp⟩ := hl functions
  obtain ⟨b, hb, hq⟩ := hr functions
  refine ⟨.operation op a b, ?_, ?_⟩
  · rw [term, ha, hb]
    rfl
  · rw [Term.polynomial?, if_neg hop, hp, hq]
    exact h

theorem denotes_number {literal : Spelling} {c : ℚ} (h : rational? literal.text = some c) :
    (number literal).Denotes (.constant c) := by
  refine fun functions => ⟨.number c, ?_, ?_⟩
  · rw [term, literalTerm, h]
  · rw [Term.polynomial?]

theorem denotes_symbol {x : String} (hx : IsWord x.toList) :
    (symbol ⟨x, .start⟩).Denotes (.var x) := by
  have hne : x.isEmpty = false := by
    refine Bool.eq_false_iff.mpr fun hempty => ?_
    rw [String.isEmpty_iff.mp hempty] at hx
    cases hx
  refine fun functions => ⟨.symbol x, ?_, ?_⟩
  · rw [term, symbolTerm, hne]
    rfl
  · rw [Term.polynomial?]

/-- Factors whose names ascend are written one behind the other. -/
theorem Denotes.mul {m n : Monomial} {c d : ℚ} (hl : left.Denotes (.monomial m c))
    (hr : right.Denotes (.monomial n d))
    (h : (m ++ n).Pairwise fun s t => compare s.1 t.1 = .lt) :
    (Expr.binary .mul left right).Denotes (.monomial (m ++ n) (c * d)) := by
  refine hl.binary hr ?_
  rw [combine, Polynomial.mul?_monomial c d (Monomial.mul?_append h)]

theorem denotes_natural (n : ℕ) : (natural n).Denotes (.constant n) :=
  denotes_number (rational?_toString n)

/-- A sign is read as a factor. -/
theorem Denotes.negated {m : Monomial} {c : ℚ} (h : e.Denotes (.monomial m c))
    (hm : m.Pairwise fun s t => compare s.1 t.1 = .lt) :
    e.negated.Denotes (.monomial m (-c)) := by
  have hsign : (number ⟨"-1", .start⟩).Denotes (.constant (-1)) :=
    denotes_number (by decide +kernel)
  have hproduct : (Expr.binary .mul (number ⟨"-1", .start⟩) e).Denotes (.monomial m (-1 * c)) :=
    Denotes.mul (m := []) hsign h hm
  rwa [neg_one_mul] at hproduct

theorem denotes_whole (z : ℤ) : (whole z).Denotes (.constant z) := by
  cases z with
  | ofNat n => exact denotes_natural n
  | negSucc n =>
    rw [whole, Int.cast_negSucc]
    exact (denotes_natural (n + 1)).negated .nil

theorem denotes_rational (q : ℚ) : (rational q).Denotes (.constant q) := by
  have hnum := denotes_whole q.num
  rw [rational]
  split
  · next hwhole =>
    rwa [num_of_isWhole hwhole] at hnum
  · have hden : (q.den : ℚ) ≠ 0 := Nat.cast_ne_zero.mpr q.den_ne_zero
    refine hnum.binary (denotes_natural q.den) ?_
    rw [combine, Polynomial.constant?_constant]
    dsimp only
    rw [if_neg hden, Polynomial.constant, Polynomial.scale_monomial, ← div_eq_mul_inv,
      Rat.num_div_den]
    rfl

end Expr

/-! ## Monomials -/

namespace Monomial

/-- A monomial that is read as it was written: names ascend and are identifiers, and no
exponent is zero or too large to be expanded. -/
structure Readable (m : Monomial) : Prop where
  canonical : m.Canonical
  isWord : ∀ s ∈ m, IsWord s.1.toList
  expanded : ∀ s ∈ m, s.2 ≤ expansionLimit

theorem Readable.tail {s : String × ℕ} {m : Monomial} (h : Readable (s :: m)) : m.Readable :=
  ⟨h.canonical.tail, (List.forall_mem_cons.mp h.isWord).2, (List.forall_mem_cons.mp h.expanded).2⟩

theorem denotes_factorExpr {x : String} {e : ℕ} (hx : IsWord x.toList) (hpos : 0 < e)
    (hlimit : e ≤ expansionLimit) : (factorExpr x e).Denotes (.monomial [(x, e)] 1) := by
  rw [factorExpr]
  split
  · next he =>
    rw [he]
    exact Expr.denotes_symbol hx
  · exact (Expr.denotes_symbol hx).binary (Expr.denotes_natural e) (power_var x hpos hlimit)

/-- Factors that are read one by one behind what is read so far. -/
theorem denotes_foldl_mul (front : Monomial) {later : Monomial} {e : Expr} {c : ℚ}
    (h : e.Denotes (.monomial front c)) (hlater : later.Readable)
    (hascending : (front ++ later).Pairwise fun s t => compare s.1 t.1 = .lt) :
    ((later.map fun (x, e) => factorExpr x e).foldl (.binary .mul) e).Denotes
      (.monomial (front ++ later) c) := by
  induction later generalizing front e with
  | nil => rwa [List.append_nil]
  | cons s later ih =>
    obtain ⟨x, d⟩ := s
    have hsplit : front ++ (x, d) :: later = (front ++ [(x, d)]) ++ later := by simp
    rw [hsplit] at hascending ⊢
    have hfactor := denotes_factorExpr (hlater.isWord _ List.mem_cons_self)
      (hlater.canonical.positive _ List.mem_cons_self) (hlater.expanded _ List.mem_cons_self)
    have hlonger := h.mul hfactor (List.pairwise_append.mp hascending).1
    rw [mul_one] at hlonger
    exact ih _ hlonger hlater.tail hascending

/-- What is read from the text of a monomial denotes it. -/
theorem denotes_toExpr {m : Monomial} (hm : m.Readable) (c : ℚ) :
    (m.toExpr c).Denotes (.monomial m c) := by
  cases m with
  | nil => exact Expr.denotes_rational c
  | cons s m =>
    obtain ⟨x, d⟩ := s
    have hfirst := denotes_factorExpr (hm.isWord _ List.mem_cons_self)
      (hm.canonical.positive _ List.mem_cons_self) (hm.expanded _ List.mem_cons_self)
    rw [toExpr, List.map_cons]
    dsimp only
    refine denotes_foldl_mul [(x, d)] ?_ hm.tail hm.canonical.ascending
    -- the sign and the coefficient are joined to the first factor
    split
    · next hc => rwa [hc]
    · split
      · next hc =>
        rw [hc]
        exact hfirst.negated (List.pairwise_singleton _ _)
      · have hproduct := Expr.Denotes.mul (m := []) (Expr.denotes_rational c) hfirst
          (List.pairwise_singleton _ _)
        rwa [mul_one] at hproduct

end Monomial

/-! ## Sums -/

namespace Polynomial

/-- A polynomial to which terms are added one after the other. -/
def collect (p : Polynomial) (terms : List PolynomialTerm) : Polynomial :=
  terms.foldl (fun q t => q.add (monomial t.1 t.2)) p

theorem toMvPolynomial_collect (p : Polynomial) (terms : List PolynomialTerm) :
    (p.collect terms).toMvPolynomial = p.toMvPolynomial + ofTerms terms := by
  induction terms generalizing p with
  | nil => rw [ofTerms_nil, add_zero]; rfl
  | cons t terms ih =>
    obtain ⟨m, c⟩ := t
    have hlonger : (p.collect ((m, c) :: terms)) = (p.add (monomial m c)).collect terms := rfl
    rw [hlonger, ih, toMvPolynomial_add, toMvPolynomial_monomial, ofTerms_cons, add_assoc]

theorem Canonical.collect {p : Polynomial} (hp : p.Canonical) {terms : List PolynomialTerm}
    (hterms : ∀ t ∈ terms, t.1.Canonical) : (p.collect terms).Canonical := by
  induction terms generalizing p with
  | nil => exact hp
  | cons t terms ih =>
    obtain ⟨hfirst, hlater⟩ := List.forall_mem_cons.mp hterms
    exact ih (hp.add (canonical_monomial t.2 hfirst)) hlater

/-- A canonical polynomial is the sum of its terms in the order in which they are written. -/
theorem Canonical.collect_written {p : Polynomial} (hp : p.Canonical) :
    zero.collect p.written = p := by
  have hperm : p.written.Perm p.terms := sortBy_perm writtenLE p.terms
  have hmonomials : ∀ t ∈ p.written, t.1.Canonical := fun t ht =>
    hp.monomials t (hperm.mem_iff.mp ht)
  refine (canonical_zero.collect hmonomials).eq_of_toMvPolynomial_eq hp ?_
  rw [toMvPolynomial_collect, toMvPolynomial_zero, zero_add]
  exact (hperm.map _).sum_eq

/-- A term of a sum is added, whether it is written behind a plus or a minus. -/
theorem denotes_addExpr {longer : Expr} {q : Polynomial} (h : longer.Denotes q) {m : Monomial}
    (hm : m.Readable) (c : ℚ) : (addExpr longer (m, c)).Denotes (q.add (monomial m c)) := by
  rw [addExpr]
  split
  · refine h.binary (Monomial.denotes_toExpr hm (-c)) ?_
    rw [combine, sub, neg, scale_monomial, neg_mul_neg, mul_one]
  · exact h.binary (Monomial.denotes_toExpr hm c) rfl

theorem denotes_foldl_addExpr {longer : Expr} {q : Polynomial} (h : longer.Denotes q)
    {terms : List PolynomialTerm} (hterms : ∀ t ∈ terms, t.1.Readable) :
    (terms.foldl addExpr longer).Denotes (q.collect terms) := by
  induction terms generalizing longer q with
  | nil => exact h
  | cons t terms ih =>
    obtain ⟨hfirst, hlater⟩ := List.forall_mem_cons.mp hterms
    exact ih (denotes_addExpr h hfirst t.2) hlater

/-- What is read from the text of a canonical polynomial denotes it. -/
theorem denotes_toExpr {p : Polynomial} (hp : p.Canonical) (hreadable : p.EveryMonomial Monomial.Readable) :
    p.toExpr.Denotes p := by
  have hwritten : ∀ t ∈ p.written, t.1.Readable := fun t ht =>
    hreadable t ((sortBy_perm writtenLE p.terms).mem_iff.mp ht)
  have hsum := hp.collect_written
  rw [toExpr]
  cases hw : p.written with
  | nil =>
    rw [hw] at hsum
    rw [← hsum]
    exact Expr.denotes_rational 0
  | cons t later =>
    rw [hw] at hsum hwritten
    obtain ⟨hfirst, hlater⟩ := List.forall_mem_cons.mp hwritten
    rw [← hsum]
    exact denotes_foldl_addExpr (Monomial.denotes_toExpr hfirst t.2) hlater

/-! ## There and back -/

/-- The text of a polynomial encodes it.  A canonical polynomial whose symbols are identifiers
and whose exponents are not too large to be expanded is written as a text that is read as one
term.  Whatever the functions are and whatever was issued before, this is compiled to a term
that denotes the polynomial, and reducing it gives the same text. -/
theorem render_encodes {p : Polynomial} (hp : p.Canonical) (hlegible : p.Legible)
    (hexpanded : p.EveryMonomial fun m => ∀ s ∈ m, s.2 ≤ expansionLimit) :
    ∃ text e,
      (∀ table, ∃ issued later, Builder.polynomial p table = .ok issued later ∧
        Compiler.render .plain issued.handle later = .ok text later) ∧
      parse text = .ok ⟨[[[e]]]⟩ ∧
      ∀ functions table, ∃ handle later t,
        Compiler.compile functions e table = .ok handle later ∧
        later.term handle = .ok t ∧ t.polynomial? = .ok (some p) ∧
        ∃ reduced after, Builder.transform "reduce" [handle] later = .ok reduced after ∧
          Compiler.render .plain reduced after = .ok text after := by
  have hreadable : p.EveryMonomial Monomial.Readable := fun t ht =>
    ⟨hp.monomials t ht, hlegible t ht, hexpanded t ht⟩
  obtain ⟨e, hparse, he⟩ := (spells_toTerm hlegible).parse_eq_ok
  refine ⟨p.toTerm.render .plain, e, fun table => ?_, hparse, fun functions table => ?_⟩
  · obtain ⟨issued, later, hrun, -, hholds⟩ :=
      (Builder.gives_polynomial p).exists_run (.refl table)
    exact ⟨issued, later, hrun, Builder.render_of_term .plain hholds.2⟩
  · -- places do not matter for the term of what is read
    obtain ⟨t, ht, ht'⟩ := denotes_toExpr hp hreadable functions
    have hterm : e.term functions = .ok t := by
      rw [← Expr.term_relocate (fun _ => .start) e, ← ht, ← he]
      rfl
    have hcompile : Gives table Stands (Compiler.compile functions e) (.ok t) :=
      hterm ▸ Compiler.gives_compile functions e
    obtain ⟨handle, later, hrun, -, hstands⟩ := hcompile.exists_run (.refl table)
    obtain ⟨reduced, after, hreduce, hreduced⟩ :=
      Builder.transform_reduce_of_polynomial? hstands ht'
    exact ⟨handle, later, t, hrun, hstands, ht', reduced, after, hreduce,
      Builder.render_of_term .plain hreduced⟩

/-- The polynomial `-x*y^2 + 3/2*x^2 - 1/3` is encoded by its text. -/
theorem render_encodes_of_signs :
    let p : Polynomial := ⟨[([], -1/3), ([("x", 1), ("y", 2)], -1), ([("x", 2)], 3/2)]⟩
    p.toTerm.render .plain = "-x*y^2 + 3/2*x^2 - 1/3" ∧
    ∃ text e,
      (∀ table, ∃ issued later, Builder.polynomial p table = .ok issued later ∧
        Compiler.render .plain issued.handle later = .ok text later) ∧
      parse text = .ok ⟨[[[e]]]⟩ ∧
      ∀ functions table, ∃ handle later t,
        Compiler.compile functions e table = .ok handle later ∧
        later.term handle = .ok t ∧ t.polynomial? = .ok (some p) ∧
        ∃ reduced after, Builder.transform "reduce" [handle] later = .ok reduced after ∧
          Compiler.render .plain reduced after = .ok text after := by
  intro p
  have hmonomials : p.EveryMonomial Monomial.Canonical := by
    simp only [EveryMonomial, p, List.forall_mem_cons]
    exact ⟨Monomial.canonical_nil, ⟨by decide +kernel, by decide⟩,
      Monomial.canonical_single (by decide), List.forall_mem_nil _⟩
  have hp : p.Canonical := ⟨by decide +kernel, by decide +kernel, hmonomials⟩
  have hlegible : p.Legible := by
    show ∀ t ∈ p.terms, ∀ s ∈ t.1, IsWord s.1.toList
    decide +kernel
  have hexpanded : p.EveryMonomial fun m => ∀ s ∈ m, s.2 ≤ expansionLimit := by
    show ∀ t ∈ p.terms, ∀ s ∈ t.1, s.2 ≤ expansionLimit
    decide +kernel
  exact ⟨by decide +kernel, render_encodes hp hlegible hexpanded⟩

end Polynomial

end MathQuery
