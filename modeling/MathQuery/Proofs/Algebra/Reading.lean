import MathQuery.Algebra.Rendering
import MathQuery.Proofs.Algebra.NormalForm
import MathQuery.Proofs.Algebra.Numeral
import MathQuery.Proofs.Query.Arithmetic
import MathQuery.Proofs.Query.Spelling

/-!
# Reading a written polynomial

A polynomial that is written as a sum of products is text that the grammar of queries
reads again.  What is read is not the same tree: a sign applies to the first factor only,
and a coefficient is joined to the first factor before the others.  Its value is the same.

* `Polynomial.toExpr` – the expression that is read;
* `Polynomial.spells_toTerm` – the text of a polynomial spells this expression, if its
  symbols are identifiers;
* `Polynomial.value_toExpr` – the expression has the values of the polynomial.
-/

namespace MathQuery

open Grammar

/-! ## Numbers -/

namespace Expr

/-- A natural number as it is read. -/
def natural (n : ℕ) : Expr := .number ⟨toString n, .start⟩

/-- A whole number as it is read: a minus in front is a sign. -/
def whole : ℤ → Expr
  | .ofNat n => natural n
  | .negSucc n => (natural (n + 1)).negated

/-- A rational number as it is read: a fraction is a quotient. -/
def rational (q : ℚ) : Expr :=
  if isWhole q then whole q.num else .binary .div (whole q.num) (natural q.den)

variable {M : Interpretation} {σ : String → ℚ}

theorem value_natural (n : ℕ) : (natural n).value M σ = n := by
  rw [natural, value, rational?_toString, Option.getD_some]

theorem value_negated (e : Expr) : e.negated.value M σ = -e.value M σ := by
  have hsign : rational? "-1" = some (-1) := by decide +kernel
  rw [negated, value, value, hsign, Option.getD_some, Interpretation.operation, neg_one_mul]

theorem value_whole (z : ℤ) : (whole z).value M σ = z := by
  cases z with
  | ofNat n => rw [whole, value_natural, Int.ofNat_eq_natCast, Int.cast_natCast]
  | negSucc n => rw [whole, value_negated, value_natural, Int.cast_negSucc]

theorem value_rational (hM : M.Lawful) (q : ℚ) : (rational q).value M σ = q := by
  rw [rational]
  split
  · next hwhole =>
    rw [value_whole, num_of_isWhole hwhole]
  · have hden : (q.den : ℚ) ≠ 0 := Nat.cast_ne_zero.mpr q.den_ne_zero
    rw [value, value_whole, value_natural, Interpretation.operation, hM.quotient_eq _ _ hden,
      Rat.num_div_den]

end Expr

theorem spells_natural (n : ℕ) : Spells IsPrimary (toString n) (.natural n) :=
  spells_number (.whole (toString_ne_nil n) (isDigit_of_mem_toString n))

theorem spells_whole (z : ℤ) : Spells (IsUnary IsPrimary) (toString z) (.whole z) := by
  cases z with
  | ofNat n =>
    have hpower : Spells (IsPower IsPrimary) (toString n) (.natural n) :=
      (spells_natural n).mono fun _ _ => .primary
    exact hpower.mono fun _ _ => .power
  | negSucc n =>
    have hpower : Spells (IsPower IsPrimary) (toString (n + 1)) (.natural (n + 1)) :=
      (spells_natural (n + 1)).mono fun _ _ => .primary
    exact hpower.minus

theorem spells_rational (q : ℚ) : Spells (IsFactor IsPrimary) (renderRational q) (.rational q) := by
  have hnum : Spells (IsFactor IsPrimary) (toString q.num) (.whole q.num) :=
    (spells_whole q.num).mono fun _ _ => .unary
  rw [renderRational, Expr.rational]
  split
  · exact hnum
  · have hden : Spells (IsUnary IsPrimary) (toString q.den) (.natural q.den) := spells_whole q.den
    exact hnum.div hden

theorem renderRational_natCast (n : ℕ) : renderRational (n : ℚ) = toString n := by
  rw [renderRational, if_pos (isWhole_natCast n), Rat.num_natCast]
  rfl

theorem precedence_natCast (n : ℕ) :
    (Term.number (n : ℚ)).precedence .plain = atomPrecedence := by
  rw [Term.precedence, if_neg (not_lt.mpr (Nat.cast_nonneg n)), isWhole_natCast]
  rfl

/-! ## Products -/

namespace Term

/-- An operation as plain text, unless it is a product with minus one. -/
theorem render_operation {op : BinaryOp} {left : Term} (right : Term)
    (h : op = .mul → left.isMinusOne = false) :
    (operation op left right).render .plain =
      Style.plain.parenthesized (leftParens .plain op left) (left.render .plain) ++ op.between ++
        Style.plain.parenthesized (rightParens .plain op right) (right.render .plain) := by
  have hsign : (op == .mul && left.isMinusOne) = false := by
    by_cases hop : op = .mul
    · rw [h hop, Bool.and_false]
    · rw [beq_false_of_ne hop, Bool.false_and]
  rw [render, hsign, String.append_assoc]
  cases op <;> rfl

/-- A term that needs no parentheses as an operand of a product. -/
structure IsProduct (t : Term) : Prop where
  notMinusOne : t.isMinusOne = false
  precedence : 2 ≤ t.precedence .plain

section Parentheses

variable {style : Style} {op : BinaryOp} {t : Term}

/-- A left operand that binds as tightly as the operator needs no parentheses, unless it is
the base of a power. -/
theorem leftParens_of_le (hop : op ≠ .pow) (h : op.precedence ≤ t.precedence style) :
    leftParens style op t = false := by
  rw [leftParens, decide_eq_false (Nat.not_lt.mpr h), beq_false_of_ne hop]
  rfl

/-- An operand that binds more tightly than the operator needs no parentheses. -/
theorem rightParens_of_lt (h : op.precedence < t.precedence style) :
    rightParens style op t = false := by
  rw [rightParens, decide_eq_false (Nat.lt_asymm h), beq_false_of_ne (Nat.ne_of_gt h),
    Bool.and_false]
  rfl

/-- A right operand that binds as tightly as the operator needs no parentheses, unless it
is subtracted or divided by. -/
theorem rightParens_of_le (hsub : op ≠ .sub) (hdiv : op ≠ .div)
    (h : op.precedence ≤ t.precedence style) : rightParens style op t = false := by
  rw [rightParens, decide_eq_false (Nat.not_lt.mpr h), beq_false_of_ne hsub,
    beq_false_of_ne hdiv]
  rfl

end Parentheses

variable {left right : Term}

theorem render_mul (hl : left.IsProduct) (hr : 2 ≤ right.precedence .plain) :
    (operation .mul left right).render .plain =
      left.render .plain ++ BinaryOp.between .mul ++ right.render .plain := by
  have hleft : leftParens .plain .mul left = false := leftParens_of_le (by decide) hl.precedence
  have hright : rightParens .plain .mul right = false := rightParens_of_le (by decide) (by decide) hr
  rw [render_operation right fun _ => hl.notMinusOne, hleft, hright]
  rfl

theorem isProduct_mul (hl : left.isMinusOne = false) : (operation .mul left right).IsProduct := by
  refine ⟨rfl, ?_⟩
  rw [precedence, hl]
  decide

end Term

namespace Monomial

/-- A power of a symbol as it is read. -/
def factorExpr (x : String) (e : ℕ) : Expr :=
  if e = 1 then .symbol ⟨x, .start⟩ else .binary .pow (.symbol ⟨x, .start⟩) (.natural e)

/-- A monomial with its coefficient as it is read. -/
def toExpr (m : Monomial) (c : ℚ) : Expr :=
  match m.map fun (x, e) => factorExpr x e with
  | [] => .rational c
  | first :: later =>
    let start :=
      if c = 1 then first
      else if c = -1 then first.negated
      else .binary .mul (.rational c) first
    later.foldl (.binary .mul) start

theorem isProduct_factorTerm (x : String) (e : ℕ) : (factorTerm x e).IsProduct := by
  rw [factorTerm]
  split
  · exact ⟨rfl, show 2 ≤ atomPrecedence by decide⟩
  · exact ⟨rfl, show 2 ≤ BinaryOp.precedence .pow by decide⟩

theorem spells_factorTerm {x : String} (hx : IsWord x.toList) (e : ℕ) :
    Spells (IsPower IsPrimary) ((factorTerm x e).render .plain) (factorExpr x e) := by
  have hsymbol : Spells IsPrimary ((Term.symbol x).render .plain) (.symbol ⟨x, .start⟩) := by
    rw [Term.render]
    exact spells_symbol hx
  rw [factorTerm, factorExpr]
  split
  · exact hsymbol.mono fun _ _ => .primary
  · -- an exponent is written without a sign and without parentheses
    have hexponent : (Term.number (e : ℚ)).render .plain = toString e := by
      rw [Term.render]
      exact renderRational_natCast e
    have hright : Term.rightParens .plain .pow (.number (e : ℚ)) = false := by
      refine Term.rightParens_of_lt ?_
      rw [precedence_natCast]
      decide
    have hrender := Term.render_operation (.number (e : ℚ))
      (by simp : BinaryOp.pow = .mul → (Term.symbol x).isMinusOne = false)
    rw [hrender, hright, hexponent]
    exact hsymbol.pow (spells_natural e)

theorem isProduct_foldl_mul {first : Term} (hfirst : first.IsProduct) (factors : List Term) :
    (factors.foldl (.operation .mul) first).IsProduct := by
  induction factors generalizing first with
  | nil => exact hfirst
  | cons next factors ih => exact ih (Term.isProduct_mul hfirst.notMinusOne)

/-- Factors that are joined one by one to the end of what is written so far. -/
theorem spells_foldl_mul {written : String} {first : Term} {e : Expr} (hfirst : first.IsProduct)
    (h : Spells (IsFactor IsPrimary) (written ++ first.render .plain) e) {m : Monomial}
    (hm : ∀ s ∈ m, IsWord s.1.toList) :
    Spells (IsFactor IsPrimary)
      (written ++ ((m.map fun (x, e) => factorTerm x e).foldl (.operation .mul) first).render .plain)
      ((m.map fun (x, e) => factorExpr x e).foldl (.binary .mul) e) := by
  induction m generalizing first e with
  | nil => exact h
  | cons s m ih =>
    obtain ⟨x, d⟩ := s
    refine ih (Term.isProduct_mul hfirst.notMinusOne) ?_ fun t ht => hm t (List.mem_cons_of_mem _ ht)
    have hfactor : Spells (IsUnary IsPrimary) ((factorTerm x d).render .plain) (factorExpr x d) :=
      (spells_factorTerm (hm (x, d) List.mem_cons_self) d).mono fun _ _ => .power
    rw [Term.render_mul hfirst (isProduct_factorTerm x d).precedence, ← String.append_assoc,
      ← String.append_assoc]
    exact h.mul hfactor

/-- A coefficient in front of a product. -/
theorem spells_coefficient (c : ℚ) :
    Spells (IsFactor IsPrimary)
      (Style.plain.parenthesized (Term.leftParens .plain .mul (.number c)) (renderRational c))
      (.rational c) := by
  cases Term.leftParens .plain .mul (.number c) with
  | false => exact spells_rational c
  | true =>
    -- a coefficient in parentheses is read as a group
    have hterm : Spells (IsTerm IsPrimary) (renderRational c) (.rational c) :=
      (spells_rational c).mono fun _ _ => .factor
    have hpower : Spells (IsPower IsPrimary) ("(" ++ renderRational c ++ ")") (.rational c) :=
      hterm.group.mono fun _ _ => .primary
    have hunary : Spells (IsUnary IsPrimary) ("(" ++ renderRational c ++ ")") (.rational c) :=
      hpower.mono fun _ _ => .power
    exact hunary.mono fun _ _ => .unary

theorem render_minus {body : Term} (h : body.IsProduct) :
    (Term.operation .mul (.number (-1)) body).render .plain = "-" ++ body.render .plain := by
  have hparens : decide (body.precedence .plain < 2) = false :=
    decide_eq_false (Nat.not_lt.mpr h.precedence)
  rw [Term.render]
  show "-" ++ Style.plain.parenthesized (decide (body.precedence .plain < 2)) _ = _
  rw [hparens]
  rfl

/-- The text of a monomial with its coefficient. -/
theorem spells_toTerm {m : Monomial} (hm : ∀ s ∈ m, IsWord s.1.toList) (c : ℚ) :
    Spells (IsFactor IsPrimary) ((m.toTerm c).render .plain) (m.toExpr c) := by
  cases m with
  | nil =>
    have hrender : (Term.number c).render .plain = renderRational c := by rw [Term.render]; rfl
    show Spells _ ((Term.number c).render .plain) (.rational c)
    rw [hrender]
    exact spells_rational c
  | cons s m =>
    obtain ⟨x, d⟩ := s
    have hlater : ∀ s ∈ m, IsWord s.1.toList := fun t ht => hm t (List.mem_cons_of_mem _ ht)
    have hfirst := isProduct_factorTerm x d
    have hpower := spells_factorTerm (hm (x, d) List.mem_cons_self) d
    have hunary : Spells (IsUnary IsPrimary) ((factorTerm x d).render .plain) (factorExpr x d) :=
      hpower.mono fun _ _ => .power
    have hfactor : Spells (IsFactor IsPrimary) ((factorTerm x d).render .plain) (factorExpr x d) :=
      hunary.mono fun _ _ => .unary
    have hproduct := isProduct_foldl_mul hfirst (m.map fun (x, e) => factorTerm x e)
    rw [toTerm, toExpr, List.map_cons, List.map_cons]
    dsimp only
    by_cases hone : c = 1
    · have hwritten : Spells (IsFactor IsPrimary) ("" ++ (factorTerm x d).render .plain)
          (factorExpr x d) := by rwa [String.empty_append]
      have hbody := spells_foldl_mul hfirst hwritten hlater
      rw [if_pos hone, if_pos hone]
      rwa [String.empty_append] at hbody
    rw [if_neg hone, if_neg hone]
    by_cases hminus : c = -1
    · -- the sign is read as that of the first factor
      have hsigned : Spells (IsFactor IsPrimary) ("-" ++ (factorTerm x d).render .plain)
          (factorExpr x d).negated := hpower.minus.mono fun _ _ => .unary
      rw [if_pos hminus, hminus, render_minus hproduct]
      exact spells_foldl_mul hfirst hsigned hlater
    · have hjoined := (spells_coefficient c).mul hunary
      have hsign : (Term.number c).isMinusOne = false := beq_false_of_ne hminus
      have hparens : Term.rightParens .plain .mul _ = false :=
        Term.rightParens_of_le (by decide) (by decide) hproduct.precedence
      rw [if_neg hminus, Term.render_operation _ fun _ => hsign, hparens]
      exact spells_foldl_mul hfirst hjoined hlater

/-- How tightly a monomial binds: a minus in front of it binds like a sum. -/
theorem precedence_toTerm (m : Monomial) (c : ℚ) :
    1 ≤ (m.toTerm c).precedence .plain ∧ (0 ≤ c → 2 ≤ (m.toTerm c).precedence .plain) := by
  cases m with
  | nil =>
    show 1 ≤ (Term.number c).precedence .plain ∧ (0 ≤ c → 2 ≤ (Term.number c).precedence .plain)
    rw [Term.precedence]
    split
    · next hc => exact ⟨Nat.le_refl 1, fun hnonneg => absurd hc (not_lt.mpr hnonneg)⟩
    · split
      · exact ⟨by decide, fun _ => by decide⟩
      · exact ⟨by decide, fun _ => by decide⟩
  | cons s m =>
    obtain ⟨x, d⟩ := s
    have hproduct := isProduct_foldl_mul (isProduct_factorTerm x d)
      (m.map fun (x, e) => factorTerm x e)
    rw [toTerm, List.map_cons]
    dsimp only
    split
    · have htight := hproduct.precedence
      exact ⟨Nat.le_of_succ_le htight, fun _ => htight⟩
    · rw [Term.precedence]
      cases hsign : (Term.number c).isMinusOne with
      | false => exact ⟨by decide, fun _ => by decide⟩
      -- only minus one is written as a mere sign, and it is negative
      | true =>
        have hc : c = -1 := by simpa [Term.isMinusOne] using hsign
        refine ⟨by decide, fun hnonneg => ?_⟩
        rw [hc] at hnonneg
        exact absurd hnonneg (by norm_num)

variable {M : Interpretation} {σ : String → ℚ}

theorem value_factorExpr (hM : M.Lawful) (x : String) (e : ℕ) :
    (factorExpr x e).value M σ = σ x ^ e := by
  rw [factorExpr]
  split
  · next he => rw [Expr.value, he, pow_one]
  · rw [Expr.value, Expr.value, Expr.value_natural]
    exact hM.power_natCast (σ x) e

/-- What is read has the value of the monomial. -/
theorem value_toExpr (hM : M.Lawful) (m : Monomial) (c : ℚ) :
    (m.toExpr c).value M σ = c * m.value σ := by
  cases m with
  | nil => rw [toExpr, List.map_nil, Expr.value_rational hM, value, List.map_nil, List.prod_nil, mul_one]
  | cons s m =>
    obtain ⟨x, d⟩ := s
    have hlater : ((m.map fun (x, e) => factorExpr x e).map (Expr.value M σ)).prod = value σ m := by
      rw [List.map_map, value]
      congr 2
      exact funext fun s => value_factorExpr hM s.1 s.2
    have hfirst := value_factorExpr (σ := σ) hM x d
    have hvalue : value σ ((x, d) :: m) = σ x ^ d * value σ m := by
      rw [value, List.map_cons, List.prod_cons, value]
    have hproduct (start : Expr) (es : List Expr) : (es.foldl (.binary .mul) start).value M σ =
        start.value M σ * (es.map (Expr.value M σ)).prod :=
      foldl_eq_mul_prod (fun _ _ => rfl) start es
    rw [toExpr, List.map_cons]
    dsimp only
    rw [hproduct, hlater, hvalue, ← mul_assoc]
    congr 1
    split
    · next hc => rw [hfirst, hc, one_mul]
    · split
      · next hc => rw [Expr.value_negated, hfirst, hc, neg_one_mul]
      · rw [Expr.value, Expr.value_rational hM, hfirst]
        rfl

end Monomial

/-! ## Sums -/

namespace Polynomial

/-- One more term of a sum as it is read. -/
def addExpr (longer : Expr) (t : PolynomialTerm) : Expr :=
  if t.2 < 0 then .binary .sub longer (t.1.toExpr (-t.2)) else .binary .add longer (t.1.toExpr t.2)

/-- A polynomial as it is read. -/
def toExpr (p : Polynomial) : Expr :=
  match p.written with
  | [] => .rational 0
  | (m, c) :: later => later.foldl addExpr (m.toExpr c)

/-- The identifiers of a polynomial are those that the grammar reads as such. -/
def Legible (p : Polynomial) : Prop := p.SymbolsIn {x | IsWord x.toList}

theorem spells_addTerm {longer : Term} {e : Expr} (hlonger : 1 ≤ longer.precedence .plain)
    (h : Spells (IsTerm IsPrimary) (longer.render .plain) e) {m : Monomial}
    (hm : ∀ s ∈ m, IsWord s.1.toList) (c : ℚ) :
    1 ≤ (addTerm longer (m, c)).precedence .plain ∧
      Spells (IsTerm IsPrimary) ((addTerm longer (m, c)).render .plain) (addExpr e (m, c)) := by
  rw [addTerm, addExpr]
  dsimp only
  split
  · next hc =>
    have htight := (m.precedence_toTerm (-c)).2 (by linarith)
    have hleft : Term.leftParens .plain .sub longer = false := Term.leftParens_of_le (by decide) hlonger
    have hright : Term.rightParens .plain .sub (m.toTerm (-c)) = false :=
      Term.rightParens_of_lt htight
    refine ⟨Nat.le_refl 1, ?_⟩
    have hrender := Term.render_operation (m.toTerm (-c))
      (by simp : BinaryOp.sub = .mul → longer.isMinusOne = false)
    rw [hrender, hleft, hright]
    exact h.sub (Monomial.spells_toTerm hm (-c))
  · next hc =>
    have htight := (m.precedence_toTerm c).2 (not_lt.mp hc)
    have hleft : Term.leftParens .plain .add longer = false := Term.leftParens_of_le (by decide) hlonger
    have hright : Term.rightParens .plain .add (m.toTerm c) = false :=
      Term.rightParens_of_lt htight
    refine ⟨Nat.le_refl 1, ?_⟩
    have hrender := Term.render_operation (m.toTerm c)
      (by simp : BinaryOp.add = .mul → longer.isMinusOne = false)
    rw [hrender, hleft, hright]
    exact h.add (Monomial.spells_toTerm hm c)

theorem spells_foldl_addTerm {longer : Term} {e : Expr} (hlonger : 1 ≤ longer.precedence .plain)
    (h : Spells (IsTerm IsPrimary) (longer.render .plain) e) {terms : List PolynomialTerm}
    (hterms : ∀ t ∈ terms, ∀ s ∈ t.1, IsWord s.1.toList) :
    Spells (IsTerm IsPrimary) ((terms.foldl addTerm longer).render .plain)
      (terms.foldl addExpr e) := by
  induction terms generalizing longer e with
  | nil => exact h
  | cons t terms ih =>
    obtain ⟨m, c⟩ := t
    obtain ⟨hprecedence, hspells⟩ := spells_addTerm hlonger h (hterms (m, c) List.mem_cons_self) c
    exact ih hprecedence hspells fun t ht => hterms t (List.mem_cons_of_mem _ ht)

/-- The text of a polynomial spells the expression that is read, if its symbols are
identifiers. -/
theorem spells_toTerm {p : Polynomial} (hp : p.Legible) :
    Spells (IsTerm IsPrimary) (p.toTerm.render .plain) p.toExpr := by
  have hwritten : ∀ t ∈ p.written, ∀ s ∈ t.1, IsWord s.1.toList :=
    fun t ht => hp t ((sortBy_perm writtenLE p.terms).mem_iff.mp ht)
  rw [toTerm, toExpr]
  cases hw : p.written with
  | nil => exact (Monomial.spells_toTerm (m := []) (by simp) 0).mono fun _ _ => .factor
  | cons t later =>
    obtain ⟨m, c⟩ := t
    rw [hw] at hwritten
    have hfirst : Spells (IsTerm IsPrimary) ((m.toTerm c).render .plain) (m.toExpr c) :=
      (Monomial.spells_toTerm (hwritten (m, c) List.mem_cons_self) c).mono fun _ _ => .factor
    exact spells_foldl_addTerm (m.precedence_toTerm c).1 hfirst
      fun t ht => hwritten t (List.mem_cons_of_mem _ ht)

variable {M : Interpretation} {σ : String → ℚ}

theorem value_addExpr (hM : M.Lawful) (longer : Expr) (m : Monomial) (c : ℚ) :
    (addExpr longer (m, c)).value M σ = longer.value M σ + c * m.value σ := by
  rw [addExpr]
  split
  · rw [Expr.value, m.value_toExpr hM, neg_mul]
    exact sub_neg_eq_add _ _
  · rw [Expr.value, m.value_toExpr hM]
    rfl

/-- What is read has the values of the polynomial. -/
theorem value_toExpr (hM : M.Lawful) (p : Polynomial) : p.toExpr.value M σ = p.value σ := by
  have hwritten : (p.written.map fun t => t.2 * t.1.value σ).sum = p.value σ := by
    rw [value_eq_sum]
    exact ((sortBy_perm writtenLE p.terms).map _).sum_eq
  rw [toExpr]
  cases hp : p.written with
  | nil =>
    rw [← hwritten, hp, List.map_nil, List.sum_nil]
    exact Expr.value_rational hM 0
  | cons s later =>
    have hsum : (later.foldl addExpr (s.1.toExpr s.2)).value M σ =
        (s.1.toExpr s.2).value M σ + (later.map fun t => t.2 * t.1.value σ).sum :=
      foldl_eq_add_sum (fun longer t => value_addExpr hM longer t.1 t.2) _ later
    rw [hsum, s.1.value_toExpr hM, ← hwritten, hp, List.map_cons, List.sum_cons]

end Polynomial

end MathQuery
