import MathQuery.Proofs.Algebra.Rebuilding
import MathQuery.Proofs.Arena.Discipline

/-!
# A polynomial rebuilt among nodes

The nodes of a polynomial are added behind those that are there, and the tree that is built does
not depend on what was asked before.  It has the values of the polynomial, and a walk through it
finds the polynomial again, unless one of its exponents is too large to be expanded.

* `Represents.exists_polynomial` – the nodes of a polynomial stand for its term;
* `Polynomial.recognised_of_rebuilt` – the tree of a polynomial, its values and what is found in
  it.
-/

namespace MathQuery

open TermTable

namespace Arena

variable {arena : Arena} {table : TermTable}

/-- The nodes of a polynomial can be added to every arena that stands for a table, and the handle
they end in denotes the term of the polynomial. -/
theorem Represents.exists_polynomial (h : Represents arena table) (p : Polynomial) :
    ∃ handle later rest, ArenaBuilder.polynomial p arena = .ok handle later ∧
      later.Extends arena ∧ Represents later rest ∧ Stands rest handle p.toTerm := by
  obtain ⟨issued, rest, hissue, -, hholds⟩ :=
    (Builder.gives_polynomial p).exists_run (.refl table)
  -- adding nodes keeps step with issuing whole terms, which does not fail
  have hends := tracks_polynomial p arena table h (.refl table)
  rw [hissue] at hends
  generalize ArenaBuilder.polynomial p arena = run at hends ⊢
  cases hends with
  | ok hrep harena _ hpoints =>
    obtain ⟨rfl, -⟩ := hpoints
    exact ⟨_, _, rest, rfl, harena, hrep, hholds.2⟩

end Arena

namespace Polynomial

/-- A canonical polynomial is rebuilt as one and the same tree in every table of terms, and in
whatever arena requests leave of one that was empty.  Under every assignment the tree has the
value of the polynomial.  The polynomial is recognised in it if no exponent is too large to be
expanded, and no polynomial is recognised otherwise; neither way is there an error. -/
theorem recognised_of_rebuilt {p : Polynomial} (hp : p.Canonical) :
    let recognised := if p.EveryMonomial Monomial.Expanded then some p else none
    ∃ t : Term,
      (∀ M : Interpretation, M.Lawful → ∀ σ, t.value M σ = p.value σ) ∧
      t.polynomial? = .ok recognised ∧
      (∀ table, ∃ issued later, Builder.polynomial p table = .ok issued later ∧
        later.Extends table ∧ later.term issued.handle = .ok t) ∧
      ∀ history : List Request,
        let arena := Arena.empty.afterAll history
        ∃ handle later, ArenaBuilder.polynomial p arena = .ok handle later ∧
          later.Extends arena ∧ handle < later.size ∧
          ∀ fuel, handle < fuel → later.term fuel handle = .ok t ∧
            later.polynomial? fuel handle = .ok recognised := by
  intro recognised
  have hrecognised : p.toTerm.polynomial? = .ok recognised := hp.denotesIf_toTerm.polynomial?_eq
  refine ⟨p.toTerm, fun M hM σ => p.value_toTerm hM σ, hrecognised, fun table => ?_,
    fun history => ?_⟩
  · obtain ⟨issued, later, hrun, hextends, hholds⟩ :=
      (Builder.gives_polynomial p).exists_run (.refl table)
    exact ⟨issued, later, hrun, hextends, hholds.2⟩
  · obtain ⟨hrep, -, -⟩ := Arena.represents_empty.afterAll history
    obtain ⟨handle, later, rest, hrun, hextends, hrep', hstands⟩ := hrep.exists_polynomial p
    refine ⟨handle, later, hrun, hextends, ?_, fun fuel hfuel => ⟨hrep'.term_eq hstands hfuel, ?_⟩⟩
    · rw [hrep'.size_eq]
      exact Arena.lt_size_of_stands hstands
    · rw [hrep'.polynomial?_eq hstands hfuel, hrecognised]
      rfl

/-- Behind a symbol and a request that fails, `-1/2*a*b^256 + 3` is rebuilt and recognised, and
`-1/2*a*b^257 + 3` is rebuilt and not recognised.  The variables are no words of the query
language: the name of `a` is empty, and that of `b` has a space in it. -/
theorem recognised_of_rebuilt_of_limit :
    let p (e : ℕ) : Polynomial := ⟨[([], 3), ([("", 1), ("x y", e)], -1/2)]⟩
    let arena := Arena.empty.afterAll [.symbol "x", .apply .div 0 7]
    (p 256).Canonical ∧ (p 257).Canonical ∧
      (∃ handle later, ArenaBuilder.polynomial (p 256) arena = .ok handle later ∧
        later.polynomial? later.size handle = .ok (some (p 256))) ∧
      ∃ handle later t, ArenaBuilder.polynomial (p 257) arena = .ok handle later ∧
        later.polynomial? later.size handle = .ok none ∧
        later.term later.size handle = .ok t ∧
        t.value .field (fun _ => 2) = (p 257).value fun _ => 2 := by
  intro p arena
  have hp (e : ℕ) (he : 0 < e) : (p e).Canonical := by
    have hnames : compare "" "x y" = .lt := by decide +kernel
    have hfactors : Monomial.Canonical [("", 1), ("x y", e)] :=
      ⟨List.pairwise_pair.mpr hnames, by simp [he]⟩
    refine ⟨by simp [p, Monomial.order], by simp [p], ?_⟩
    show ∀ t ∈ (p e).terms, t.1.Canonical
    simp only [p, List.forall_mem_cons]
    exact ⟨Monomial.canonical_nil, hfactors, List.forall_mem_nil _⟩
  have hsmall : (p 256).EveryMonomial Monomial.Expanded := by decide +kernel
  have hlarge : ¬ (p 257).EveryMonomial Monomial.Expanded := by decide +kernel
  obtain ⟨_, -, -, -, hnodes⟩ := recognised_of_rebuilt (hp 256 (by decide))
  obtain ⟨t, hvalue, -, -, hnodes'⟩ := recognised_of_rebuilt (hp 257 (by decide))
  rw [if_pos hsmall] at hnodes
  rw [if_neg hlarge] at hnodes'
  refine ⟨hp 256 (by decide), hp 257 (by decide), ?_, ?_⟩
  · obtain ⟨handle, later, hrun, -, hknown, hwalk⟩ := hnodes [.symbol "x", .apply .div 0 7]
    exact ⟨handle, later, hrun, (hwalk later.size hknown).2⟩
  · obtain ⟨handle, later, hrun, -, hknown, hwalk⟩ := hnodes' [.symbol "x", .apply .div 0 7]
    obtain ⟨hterm, hnone⟩ := hwalk later.size hknown
    exact ⟨handle, later, t, hrun, hnone, hterm, hvalue .field Interpretation.field_lawful _⟩

end Polynomial

end MathQuery
