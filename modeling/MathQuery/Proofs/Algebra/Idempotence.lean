import MathQuery.Proofs.Algebra.Parts
import MathQuery.Proofs.Algebra.Rebuilding

/-!
# Reducing leaves nothing to reduce

A part of a normal form either denotes no polynomial, or it is already the term of the
polynomial that it denotes.  So a normal form is its own normal form, although it may not
denote what the term denoted that it comes from: a power with a large exponent is the result
of some reductions, but by itself it stays symbolic.

* `Polynomial.Canonical.exists_written_eq` – the first terms of a polynomial, as they are
  written, are a polynomial as it is written;
* `Term.Settled` – there is nothing to reduce in a term itself;
* `Polynomial.Canonical.allSettled_toTerm`, `Term.allSettled_of_normalForm?` – nor in the parts
  of a normal form;
* `Builder.transform_reduce_settles` – reducing an issued term a second time changes nothing.
-/

namespace MathQuery

/-! ## The order in which terms are written -/

namespace Polynomial

/-- Monomials by degree, and those of one degree by their factors. -/
def compareWritten : Monomial → Monomial → Ordering :=
  compareLex (compareOn Monomial.degree) Monomial.order

instance : Std.TransCmp compareWritten :=
  inferInstanceAs (Std.TransCmp (compareLex (compareOn Monomial.degree) Monomial.order))

theorem eq_of_compareWritten {m n : Monomial} (h : compareWritten m n = .eq) : m = n := by
  rw [compareWritten, compareLex_eq_eq] at h
  exact Std.LawfulEqCmp.eq_of_compare h.2

/-- What is compared first is written last. -/
theorem writtenLE_eq_isLE (s t : PolynomialTerm) :
    writtenLE s t = (compareWritten t.1 s.1).isLE := by
  rw [writtenLE, compareWritten, compareLex, compareOn]
  cases compare t.1.degree s.1.degree <;> rfl

/-- Of two terms of a canonical polynomial, one is written before the other. -/
theorem Canonical.pairwise_written {p : Polynomial} (hp : p.Canonical) :
    p.written.Pairwise fun s t => compareWritten t.1 s.1 = .lt := by
  have hsorted : p.written.Pairwise fun s t => writtenLE s t := by
    apply sortBy_pairwise
    · intro a b c hab hbc
      rw [writtenLE_eq_isLE] at hab hbc ⊢
      exact Std.TransCmp.isLE_trans hbc hab
    · intro a b
      have hswap : compareWritten b.1 a.1 = (compareWritten a.1 b.1).swap :=
        Std.OrientedCmp.eq_swap
      rw [writtenLE_eq_isLE, writtenLE_eq_isLE, hswap]
      cases compareWritten a.1 b.1 <;> rfl
  have hne : p.terms.Pairwise fun s t => s.1 ≠ t.1 := by
    apply hp.ascending.imp
    intro s t hst heq
    have hself : t.1.order t.1 = .eq := Std.ReflCmp.compare_self
    rw [heq, hself] at hst
    contradiction
  have hdistinct : p.written.Pairwise fun s t => s.1 ≠ t.1 :=
    ((sortBy_perm writtenLE p.terms).pairwise_iff fun h => h.symm).mpr hne
  apply (hsorted.and hdistinct).imp
  rintro s t ⟨hle, hst⟩
  rw [writtenLE_eq_isLE] at hle
  cases hcompare : compareWritten t.1 s.1 with
  | lt => rfl
  | eq => exact absurd (eq_of_compareWritten hcompare).symm hst
  | gt => simp [hcompare] at hle

/-- The first terms of a polynomial, as they are written, are a polynomial as it is written. -/
theorem Canonical.exists_written_eq {p : Polynomial} (hp : p.Canonical)
    {front : List PolynomialTerm} (h : front <+: p.written) :
    ∃ q : Polynomial, q.Canonical ∧ q.written = front := by
  have hterms : ∀ t ∈ front, t ∈ p.terms := fun t ht =>
    (sortBy_perm writtenLE p.terms).mem_iff.mp (h.subset ht)
  let q : Polynomial := ⟨p.terms.filter (· ∈ front)⟩
  have hmem {t : PolynomialTerm} (ht : t ∈ q.terms) : t ∈ p.terms := (List.mem_filter.mp ht).1
  have hq : q.Canonical :=
    ⟨hp.ascending.filter _, fun t ht => hp.nonzero t (hmem ht),
      fun t ht => hp.monomials t (hmem ht)⟩
  refine ⟨q, hq, ?_⟩
  apply eq_of_mem_iff_of_ascending _ hq.pairwise_written (hp.pairwise_written.sublist h.sublist)
  · intro t
    rw [written, mem_sortBy, List.mem_filter, decide_eq_true_eq]
    exact and_iff_right_of_imp (hterms t)
  · intro s t hst hts
    rw [Std.OrientedCmp.gt_of_lt hst] at hts
    contradiction

end Polynomial

/-! ## Terms in which nothing is to be reduced -/

namespace Term

/-- A term that denotes no polynomial, or that is the term of the polynomial it denotes. -/
def Settled (t : Term) : Prop :=
  t.polynomial? = .ok none ∨ ∃ p, t.polynomial? = .ok (some p) ∧ p.toTerm = t

/-- All parts of a term are settled. -/
def AllSettled (t : Term) : Prop := ∀ s : Term, s.IsPartOf t → s.Settled

variable {t left right : Term} {p : Polynomial}

theorem DenotesIf.settled {P : Prop} (h : t.DenotesIf P p) (ht : p.toTerm = t) : t.Settled := by
  by_cases hP : P
  · exact .inr ⟨p, h.met hP, ht⟩
  · exact .inl (h.unmet hP)

theorem AllSettled.settled (h : t.AllSettled) : t.Settled := h t .refl

theorem allSettled_operation {op : BinaryOp} (h : (operation op left right).Settled)
    (hl : left.AllSettled) (hr : right.AllSettled) : (operation op left right).AllSettled := by
  intro s hs
  cases hs with
  | refl => exact h
  | left hs => exact hl s hs
  | right hs => exact hr s hs

theorem allSettled_application {name : String} {arguments : List Term}
    (h : ∀ a ∈ arguments, a.AllSettled) : (application name arguments).AllSettled := by
  intro s hs
  cases hs with
  | refl =>
    left
    rw [polynomial?]
  | argument ha hs => exact h _ ha s hs

end Term

namespace Polynomial

theorem toTerm_monomial (m : Monomial) {c : ℚ} (hc : c ≠ 0) :
    (monomial m c).toTerm = m.toTerm c := by
  have hwritten : (monomial m c).written = [(m, c)] := by
    rw [written, terms_monomial_of_ne hc]
    exact List.perm_singleton.mp (sortBy_perm writtenLE [(m, c)])
  rw [toTerm, hwritten]
  rfl

theorem toTerm_constant (c : ℚ) : (constant c).toTerm = .number c := by
  by_cases hc : c = 0
  · subst hc
    rfl
  · exact toTerm_monomial [] hc

end Polynomial

theorem Term.allSettled_number (c : ℚ) : (number c).AllSettled := by
  intro s hs
  cases hs with
  | refl => exact .inr ⟨.constant c, by rw [polynomial?], Polynomial.toTerm_constant c⟩

theorem Term.allSettled_symbol (x : String) : (symbol x).AllSettled := by
  intro s hs
  cases hs with
  | refl =>
    exact .inr ⟨.var x, by rw [polynomial?], Polynomial.toTerm_monomial [(x, 1)] one_ne_zero⟩

/-! ## The parts of products -/

namespace Monomial

variable {m : Monomial} {c : ℚ}

theorem toTerm_append_singleton (hm : m ≠ []) (x : String) (e : ℕ) :
    (m ++ [(x, e)]).toTerm 1 = .operation .mul (m.toTerm 1) (factorTerm x e) := by
  cases m with
  | nil => contradiction
  | cons s m => simp [toTerm]

theorem toTerm_of_ne_one (hm : m ≠ []) (hc : c ≠ 1) :
    m.toTerm c = .operation .mul (.number c) (m.toTerm 1) := by
  cases m with
  | nil => contradiction
  | cons s m => simp [toTerm, hc]

theorem Canonical.of_append {front back : Monomial} (h : (front ++ back).Canonical) :
    front.Canonical :=
  ⟨(List.pairwise_append.mp h.ascending).1, fun s hs => h.positive s (List.mem_append_left back hs)⟩

theorem Canonical.settled_toTerm (hm : m.Canonical) (hc : c ≠ 0) : (m.toTerm c).Settled :=
  (hm.denotesIf_toTerm c).settled (Polynomial.toTerm_monomial m hc)

theorem allSettled_factorTerm (x : String) {e : ℕ} (he : 0 < e) : (factorTerm x e).AllSettled := by
  have hsettled : (factorTerm x e).Settled := by
    have htoTerm : toTerm [(x, e)] 1 = factorTerm x e := by simp [toTerm]
    exact htoTerm ▸ (canonical_single he).settled_toTerm one_ne_zero
  rw [factorTerm] at hsettled ⊢
  split
  · exact Term.allSettled_symbol x
  · next hone =>
    rw [if_neg hone] at hsettled
    exact Term.allSettled_operation hsettled (Term.allSettled_symbol x) (Term.allSettled_number e)

/-- The products of the first factors of a monomial are settled as well. -/
theorem Canonical.allSettled_toTerm_one (hm : m.Canonical) : (m.toTerm 1).AllSettled := by
  induction m using List.reverseRecOn with
  | nil => exact Term.allSettled_number 1
  | append_singleton front s ih =>
    obtain ⟨x, e⟩ := s
    have hfactor := allSettled_factorTerm x (hm.positive (x, e) (by simp))
    rcases eq_or_ne front [] with rfl | hfront
    · simpa [toTerm] using hfactor
    · have hsettled := hm.settled_toTerm one_ne_zero
      rw [toTerm_append_singleton hfront] at hsettled ⊢
      exact Term.allSettled_operation hsettled (ih hm.of_append) hfactor

theorem Canonical.allSettled_toTerm (hm : m.Canonical) (hc : c ≠ 0) : (m.toTerm c).AllSettled := by
  rcases eq_or_ne m [] with rfl | hne
  · exact Term.allSettled_number c
  rcases eq_or_ne c 1 with rfl | hone
  · exact hm.allSettled_toTerm_one
  · have hsettled := hm.settled_toTerm hc
    rw [toTerm_of_ne_one hne hone] at hsettled ⊢
    exact Term.allSettled_operation hsettled (Term.allSettled_number c) hm.allSettled_toTerm_one

end Monomial

/-! ## The parts of sums -/

namespace Polynomial

/-- The sum of terms in the order in which they are listed. -/
def sumTerm : List PolynomialTerm → Term
  | [] => .number 0
  | (m, c) :: later => later.foldl addTerm (m.toTerm c)

theorem toTerm_eq_sumTerm (p : Polynomial) : p.toTerm = sumTerm p.written := by
  rw [toTerm]
  cases p.written <;> rfl

theorem sumTerm_append_singleton {front : List PolynomialTerm} (hfront : front ≠ [])
    (t : PolynomialTerm) : sumTerm (front ++ [t]) = addTerm (sumTerm front) t := by
  cases front with
  | nil => contradiction
  | cons s front => simp [sumTerm]

theorem allSettled_addTerm {longer : Term} (hlonger : longer.AllSettled) {m : Monomial} {c : ℚ}
    (hm : m.Canonical) (hc : c ≠ 0) (h : (addTerm longer (m, c)).Settled) :
    (addTerm longer (m, c)).AllSettled := by
  rw [addTerm] at h ⊢
  split
  · next hneg =>
    rw [if_pos hneg] at h
    exact Term.allSettled_operation h hlonger (hm.allSettled_toTerm (neg_ne_zero.mpr hc))
  · next hpos =>
    rw [if_neg hpos] at h
    exact Term.allSettled_operation h hlonger (hm.allSettled_toTerm hc)

/-- The sums of the first terms of a polynomial are terms of polynomials themselves. -/
theorem Canonical.allSettled_sumTerm {p : Polynomial} (hp : p.Canonical)
    {front : List PolynomialTerm} (h : front <+: p.written) : (sumTerm front).AllSettled := by
  induction front using List.reverseRecOn with
  | nil => exact Term.allSettled_number 0
  | append_singleton front t ih =>
    obtain ⟨m, c⟩ := t
    have hmem : (m, c) ∈ p.terms :=
      (sortBy_perm writtenLE p.terms).mem_iff.mp (h.subset (by simp))
    have hm := hp.monomials _ hmem
    have hc := hp.nonzero _ hmem
    rcases eq_or_ne front [] with rfl | hfront
    · exact hm.allSettled_toTerm hc
    · have hsettled : (sumTerm (front ++ [(m, c)])).Settled := by
        obtain ⟨q, hq, hwritten⟩ := hp.exists_written_eq h
        rw [← hwritten, ← toTerm_eq_sumTerm]
        exact hq.denotesIf_toTerm.settled rfl
      rw [sumTerm_append_singleton hfront] at hsettled ⊢
      exact allSettled_addTerm (ih ((List.prefix_append _ _).trans h)) hm hc hsettled

/-- Nothing is to be reduced in the term of a canonical polynomial. -/
theorem Canonical.allSettled_toTerm {p : Polynomial} (hp : p.Canonical) : p.toTerm.AllSettled := by
  rw [toTerm_eq_sumTerm]
  exact hp.allSettled_sumTerm List.prefix_rfl

end Polynomial

/-! ## The parts of normal forms -/

namespace Term

/-- A normal form denotes what its term denotes, or no polynomial. -/
theorem polynomial?_of_normalForm? :
    ∀ {t n : Term}, t.normalForm? = .ok n →
      n.polynomial? = .ok none ∨ n.polynomial? = t.polynomial?
  | .number v, n, h => by
    obtain rfl : (Polynomial.constant v).toTerm = n := by simpa [normalForm?, polynomial?] using h
    rw [Polynomial.toTerm_constant]
    exact .inr rfl
  | .symbol x, n, h => by
    obtain rfl : (Polynomial.var x).toTerm = n := by simpa [normalForm?, polynomial?] using h
    rw [Polynomial.var, Polynomial.toTerm_monomial _ one_ne_zero]
    exact .inr rfl
  | .application name arguments, n, h => by
    rw [normalForm?] at h
    obtain ⟨args, -, h⟩ := Except.bind_eq_ok.mp h
    obtain rfl := Except.ok.inj h
    left
    rw [polynomial?]
  | .operation op left right, n, h => by
    cases hp : (operation op left right).polynomial? with
    | error e => simp [normalForm?_of_polynomial?_eq_error hp] at h
    | ok result =>
      cases result with
      | some p =>
        obtain rfl : p.toTerm = n := by simpa [normalForm?_of_polynomial? hp] using h
        have hdenotes := (canonical_of_polynomial? hp).denotesIf_toTerm
        by_cases hexpanded : p.EveryMonomial Monomial.Expanded
        · exact .inr (hdenotes.met hexpanded)
        · exact .inl (hdenotes.unmet hexpanded)
      | none =>
        -- operands that denote less than before do not make a polynomial of the operation
        obtain ⟨l, r, hl, hr, rfl⟩ := normalForm?_operation_eq_ok hp h
        left
        rw [polynomial?] at hp ⊢
        split
        · rfl
        · next hop =>
          rw [if_neg hop] at hp
          obtain ⟨p?, hp?, hp⟩ := Except.bind_eq_ok.mp hp
          obtain ⟨q?, hq?, hp⟩ := Except.bind_eq_ok.mp hp
          rcases polynomial?_of_normalForm? hl with hl | hl
          · rcases polynomial?_of_normalForm? hr with hr | hr
            · rw [hl, hr]
              rfl
            · rw [hl, hr, hq?]
              rfl
          · rcases polynomial?_of_normalForm? hr with hr | hr
            · rw [hl, hr, hp?]
              cases p? <;> rfl
            · rw [hl, hr, hp?, hq?]
              exact hp

mutual

/-- Nothing is to be reduced in a normal form. -/
theorem allSettled_of_normalForm? : ∀ {t n : Term}, t.normalForm? = .ok n → n.AllSettled
  | .number v, n, h => by
    obtain rfl : (Polynomial.constant v).toTerm = n := by simpa [normalForm?, polynomial?] using h
    exact (Polynomial.canonical_constant v).allSettled_toTerm
  | .symbol x, n, h => by
    obtain rfl : (Polynomial.var x).toTerm = n := by simpa [normalForm?, polynomial?] using h
    exact (Polynomial.canonical_var x).allSettled_toTerm
  | .operation op left right, n, h => by
    cases hp : (operation op left right).polynomial? with
    | error e => simp [normalForm?_of_polynomial?_eq_error hp] at h
    | ok result =>
      cases result with
      | some p =>
        obtain rfl : p.toTerm = n := by simpa [normalForm?_of_polynomial? hp] using h
        exact (canonical_of_polynomial? hp).allSettled_toTerm
      | none =>
        have hnone : n.polynomial? = .ok none := by
          rcases polynomial?_of_normalForm? h with hn | hn
          · exact hn
          · exact hn.trans hp
        obtain ⟨l, r, hl, hr, rfl⟩ := normalForm?_operation_eq_ok hp h
        exact allSettled_operation (.inl hnone) (allSettled_of_normalForm? hl)
          (allSettled_of_normalForm? hr)
  | .application name arguments, n, h => by
    rw [normalForm?] at h
    obtain ⟨args, hargs, h⟩ := Except.bind_eq_ok.mp h
    obtain rfl := Except.ok.inj h
    exact allSettled_application (allSettled_of_normalForms? hargs)

/-- The same for several terms. -/
theorem allSettled_of_normalForms? :
    ∀ {ts ns : List Term}, normalForms? ts = .ok ns → ∀ n ∈ ns, n.AllSettled
  | [], ns, h => by
    obtain rfl : [] = ns := by simpa [normalForms?] using h
    exact List.forall_mem_nil _
  | t :: ts, ns, h => by
    rw [normalForms?] at h
    obtain ⟨first, hfirst, h⟩ := Except.bind_eq_ok.mp h
    obtain ⟨later, hlater, h⟩ := Except.bind_eq_ok.mp h
    obtain rfl := Except.ok.inj h
    exact List.forall_mem_cons.mpr
      ⟨allSettled_of_normalForm? hfirst, allSettled_of_normalForms? hlater⟩

end

mutual

/-- A term in which nothing is to be reduced is its own normal form. -/
theorem AllSettled.normalForm?_eq : ∀ {t : Term}, t.AllSettled → t.normalForm? = .ok t
  | .number v, _ => by
    rw [normalForm?, polynomial?]
    exact congrArg Except.ok (Polynomial.toTerm_constant v)
  | .symbol x, _ => by
    rw [normalForm?, polynomial?]
    exact congrArg Except.ok (Polynomial.toTerm_monomial _ one_ne_zero)
  | .operation op left right, h => by
    rcases h.settled with hnone | ⟨p, hp, hterm⟩
    · have hl : left.normalForm? = .ok left :=
        AllSettled.normalForm?_eq fun s hs => h s (.left hs)
      have hr : right.normalForm? = .ok right :=
        AllSettled.normalForm?_eq fun s hs => h s (.right hs)
      rw [normalForm?_operation hnone, hl, hr]
      rfl
    · rw [normalForm?_of_polynomial? hp, hterm]
  | .application name arguments, h => by
    have hargs : normalForms? arguments = .ok arguments :=
      AllSettled.normalForms?_eq fun a ha s hs => h s (.argument ha hs)
    rw [normalForm?]
    show (normalForms? arguments >>= fun args => .ok (application name args)) = _
    rw [hargs]
    rfl

/-- The same for several terms. -/
theorem AllSettled.normalForms?_eq :
    ∀ {ts : List Term}, (∀ t ∈ ts, t.AllSettled) → normalForms? ts = .ok ts
  | [], _ => by rw [normalForms?]
  | t :: ts, h => by
    obtain ⟨hfirst, hlater⟩ := List.forall_mem_cons.mp h
    rw [normalForms?, AllSettled.normalForm?_eq hfirst, AllSettled.normalForms?_eq hlater]
    rfl

end

end Term

/-! ## Reducing issued terms -/

namespace Builder

open TermTable

/-- Reducing leaves nothing to reduce.  No part of the issued term divides by zero, and every
part that denotes a polynomial is the very term that is issued for this polynomial in any
table.  Reducing the issued term again, by any name, succeeds with the same term. -/
theorem transform_reduce_settles {table later : TermTable} {t r : Handle} {a : Term}
    {name : String} (hname : name ∈ ["reduce", "expand", "simplify"])
    (ht : table.term t = .ok a) (h : transform name [t] table = .ok r later) :
    ∃ b, later.term r = .ok b ∧
      (∀ s : Term, s.IsPartOf b → s.polynomial? ≠ .error .divisionByZero ∧
        ∀ p, s.polynomial? = .ok (some p) → ∀ base, ∃ issued rest,
          polynomial p base = .ok issued rest ∧ rest.term issued.handle = .ok s) ∧
      ∀ again ∈ ["reduce", "expand", "simplify"], ∃ r' rest,
        transform again [r] later = .ok r' rest ∧ rest.term r' = .ok b := by
  obtain ⟨b, hb, -, hr⟩ := (gives_transform_reduce hname ht).of_run (.refl table) h
  have hsettled := Term.allSettled_of_normalForm? hb
  refine ⟨b, hr, ?_, ?_⟩
  · intro s hs
    rcases hsettled s hs with hnone | ⟨q, hq, hterm⟩
    · constructor
      · simp [hnone]
      · simp [hnone]
    · constructor
      · simp [hq]
      · intro p hp base
        obtain rfl : q = p := by simpa using hq.symm.trans hp
        obtain ⟨issued, rest, hrun, -, hholds⟩ := (gives_polynomial q).exists_run (.refl base)
        exact ⟨issued, rest, hrun, hterm ▸ hholds.2⟩
  · intro again hagain
    have hgives := gives_transform_reduce hagain hr
    rw [hsettled.normalForm?_eq] at hgives
    obtain ⟨r', rest, hrun, -, hr'⟩ := hgives.exists_run (.refl later)
    exact ⟨r', rest, hrun, hr'⟩

/-- In `x^200 * x^100 - x = sin(y + y)` the power `x^300` is the result of one reduction, and
the next one keeps it. -/
theorem transform_reduce_settles_of_large :
    let x := Term.symbol "x"
    let y := Term.symbol "y"
    let raised (k : ℕ) := Term.operation .pow x (.number k)
    let a := Term.operation .equal
      (.operation .sub (.operation .mul (raised 200) (raised 100)) x)
      (.application "sin" [.operation .add y y])
    let b := Term.operation .equal (.operation .sub (raised 300) x)
      (.application "sin" [.operation .mul (.number 2) y])
    ∃ r later, transform "reduce" [0] ⟨#[a]⟩ = .ok r later ∧ later.term r = .ok b ∧
      (raised 300).polynomial? = .ok none ∧
      ∃ b', later.term r = .ok b' ∧
        (∀ s : Term, s.IsPartOf b' → s.polynomial? ≠ .error .divisionByZero ∧
          ∀ p, s.polynomial? = .ok (some p) → ∀ base, ∃ issued rest,
            polynomial p base = .ok issued rest ∧ rest.term issued.handle = .ok s) ∧
        ∀ again ∈ ["reduce", "expand", "simplify"], ∃ r' rest,
          transform again [r] later = .ok r' rest ∧ rest.term r' = .ok b' := by
  intro x y raised a b
  have hname : "reduce" ∈ ["reduce", "expand", "simplify"] := by decide
  have ht : (⟨#[a]⟩ : TermTable).term 0 = .ok a := rfl
  have hgives := gives_transform_reduce hname ht
  have hnormal : a.normalForm? = .ok b := by decide +kernel
  rw [hnormal] at hgives
  obtain ⟨r, later, h, -, hr⟩ := hgives.exists_run (.refl _)
  exact ⟨r, later, h, hr, by decide +kernel, transform_reduce_settles hname ht h⟩

end Builder

end MathQuery
