import MathQuery.Proofs.Algebra.Reading
import MathQuery.Proofs.Query.Meaning

/-!
# Reading a written term

Plain text is written to be read by the grammar of queries again.  For terms whose names
are identifiers it means the value of the term, with one exception: a power that is an
exponent stands without parentheses, and powers do not chain.

A sign needs attention of its own.  Where a factor minus one is written as a sign, this
sign is read as that of the first factor behind it, so the text of a product has to mean the
negative of the product once there is a sign in front of it.

* `Term.hasTower` – whether some power is the exponent of a power;
* `Term.Written` – the text of a term means its value, also behind a sign;
* `Term.Legible.written` – it does for all terms without towers whose names are identifiers;
* `Term.LegibleEquation.parse_eq_ok` – the text of such a term, or of an equation of such
  terms, is read as one term with its value.
-/

namespace MathQuery

open Grammar

namespace Term

/-! ## Terms that can be read -/

/-- Whether a term is a power. -/
def isPower : Term → Bool
  | operation .pow _ _ => true
  | _ => false

mutual

/-- Whether some power in a term has a power as its exponent. -/
def hasTower : Term → Bool
  | number _ => false
  | symbol _ => false
  | operation op left right =>
    (op == .pow && right.isPower) || left.hasTower || right.hasTower
  | application _ arguments => hasTowerEach arguments

/-- Whether some power in one of several terms has a power as its exponent. -/
def hasTowerEach : List Term → Bool
  | [] => false
  | t :: ts => t.hasTower || hasTowerEach ts

end

/-- The terms without a sign of equality whose names are identifiers. -/
inductive Legible : Term → Prop
  | number (value : ℚ) : Legible (.number value)
  | symbol {name : String} (h : IsWord name.toList) : Legible (.symbol name)
  | operation {op : BinaryOp} {left right : Term} (hop : op ≠ .equal) (hl : Legible left)
    (hr : Legible right) : Legible (.operation op left right)
  | application {name : String} {arguments : List Term} (hname : IsWord name.toList)
    (h : ∀ a ∈ arguments, Legible a) : Legible (.application name arguments)

/-- Such terms, and equations of such terms. -/
inductive LegibleEquation : Term → Prop
  | term {t : Term} (h : Legible t) : LegibleEquation t
  | equal {left right : Term} (hl : Legible left) (hr : Legible right) :
    LegibleEquation (.operation .equal left right)

/-! ## Values -/

/-- The value of a term. -/
def meaning (t : Term) : Meaning := fun M σ => t.value M σ

theorem meaning_operation (op : BinaryOp) (left right : Term) :
    (operation op left right).meaning = left.meaning.operation op right.meaning := by
  funext M σ
  rw [meaning, value]
  rfl

theorem values_eq_map (M : Interpretation) (σ : String → ℚ) (ts : List Term) :
    values M σ ts = ts.map (value M σ) := by
  induction ts with
  | nil => rw [values, List.map_nil]
  | cons t ts ih => rw [values, List.map_cons, ih]

theorem meaning_application (name : String) (arguments : List Term) :
    (application name arguments).meaning = .application name (arguments.map meaning) := by
  funext M σ
  rw [meaning, value, values_eq_map, Meaning.application, List.map_map]
  rfl

/-- The product with minus one is the negative. -/
theorem meaning_minusOne_mul {left : Term} (h : left.isMinusOne = true) (right : Term) :
    (operation .mul left right).meaning = right.meaning.negative := by
  cases left with
  | symbol _ | operation _ _ _ | application _ _ => contradiction
  | number v =>
    obtain rfl : v = -1 := by simpa [isMinusOne] using h
    funext M σ
    rw [meaning, value, value]
    exact neg_one_mul _

/-! ## Parentheses -/

section Parentheses

variable {op : BinaryOp} {t : Term}

/-- Only powers bind exactly as tightly as powers. -/
theorem isPower_of_precedence (h : t.precedence .plain = BinaryOp.precedence .pow) :
    t.isPower = true := by
  cases t with
  | number v =>
    rw [precedence] at h
    split at h
    · contradiction
    · split at h <;> contradiction
  | symbol _ | application _ _ =>
    rw [precedence] at h
    contradiction
  | operation op left right =>
    rw [precedence] at h
    cases op with
    | pow => rfl
    | mul => cases hsign : left.isMinusOne <;> simp [hsign, BinaryOp.precedence] at h
    | add | sub | div | equal => simp [BinaryOp.precedence] at h

/-- A left operand without parentheses binds as tightly as it has to. -/
theorem leftLevel_le (h : leftParens .plain op t = false) :
    op.leftLevel ≤ t.precedence .plain := by
  simp only [leftParens, Bool.or_eq_false_iff, decide_eq_false_iff_not, not_lt] at h
  obtain ⟨hle, hpow⟩ := h
  refine BinaryOp.leftLevel_le hle ?_
  rintro rfl
  simpa using hpow

/-- A right operand without parentheses binds as tightly as it has to, unless it is a power
and the exponent of one. -/
theorem rightLevel_le (htower : (op == .pow && t.isPower) = false)
    (h : rightParens .plain op t = false) : op.rightLevel ≤ t.precedence .plain := by
  simp only [rightParens, Bool.or_eq_false_iff, decide_eq_false_iff_not, not_lt] at h
  obtain ⟨hle, hstrict⟩ := h
  refine BinaryOp.rightLevel_le hle ?_
  rintro (rfl | rfl | rfl)
  · simpa using hstrict
  · simpa using hstrict
  · -- here parentheses are missing, and an exponent that would need them is a tower
    intro heq
    rw [isPower_of_precedence heq] at htower
    contradiction

end Parentheses

/-! ## Written terms -/

/-- The text of a term means its value where an operand has to bind as tightly as the term
does, and a sign in front of a product means the negative. -/
structure Written (t : Term) : Prop where
  means : MeansAt (t.precedence .plain) (t.render .plain) t.meaning
  signed : 2 ≤ t.precedence .plain →
    Means (IsFactor IsPrimary) ("-" ++ t.render .plain) t.meaning.negative

theorem means_signed_of_power {text : String} {v : Meaning}
    (h : Means (IsPower IsPrimary) text v) :
    Means (IsFactor IsPrimary) ("-" ++ text) v.negative :=
  h.minus.mono fun _ _ => .unary

theorem Written.of_primary {t : Term} (hprecedence : t.precedence .plain = atomPrecedence)
    (h : Means IsPrimary (t.render .plain) t.meaning) : t.Written := by
  refine ⟨.of_primary h (hprecedence ▸ by decide), fun _ => ?_⟩
  exact means_signed_of_power (h.mono fun _ _ => .primary)

/-- A sign in front of an operand of a product, which may stand in parentheses. -/
theorem Written.signed_operand {t : Term} (h : t.Written) {parens : Bool}
    (hparens : parens = false → 2 ≤ t.precedence .plain) :
    Means (IsFactor IsPrimary) ("-" ++ parenthesized parens (t.render .plain))
      t.meaning.negative := by
  cases parens with
  | false => exact h.signed (hparens rfl)
  | true =>
    have hgroup : Means IsPrimary ("(" ++ t.render .plain ++ ")") t.meaning := h.means.term.group
    exact means_signed_of_power (hgroup.mono fun _ _ => .primary)

/-! ### Numbers -/

/-- The same number whatever the symbols stand for. -/
def constant (q : ℚ) : Meaning := fun _ _ => q

theorem means_natural (n : ℕ) : Means IsPrimary (toString n) (constant n) :=
  ⟨_, spells_natural n, fun _ _ _ => Expr.value_natural n⟩

theorem means_whole (z : ℤ) : Means (IsUnary IsPrimary) (toString z) (constant z) :=
  ⟨_, spells_whole z, fun _ _ _ => Expr.value_whole z⟩

theorem agree_num_div_den (q : ℚ) :
    ((constant q.num).operation .div (constant q.den)).Agree (constant q) := by
  intro M hM σ
  rw [Meaning.operation, Interpretation.operation, hM.quotient_eq]
  exact q.num_div_den

/-- A number is written as a product: a whole number, or a quotient of two. -/
theorem meansProduct_rational (q : ℚ) : MeansProduct (renderRational q) (constant q) := by
  have hnum : MeansProduct (toString q.num) (constant q.num) := .of_unary (means_whole q.num)
  rw [renderRational]
  split
  · next hwhole => rwa [num_of_isWhole hwhole] at hnum
  · have hden : Means (IsUnary IsPrimary) (toString q.den) (constant q.den) := means_whole q.den
    have hquotient := hnum.div hden
    exact ⟨hquotient.alone.congr (agree_num_div_den q), fun hwritten =>
      (hquotient.behind hwritten).congr ((Meaning.Agree.refl _).operation (agree_num_div_den q) _)⟩

theorem render_number (q : ℚ) : (number q).render .plain = renderRational q := by
  rw [render]
  rfl

theorem written_number (q : ℚ) : (number q).Written := by
  have hprecedence : (number q).precedence .plain =
      if q < 0 then 1 else if !isWhole q && Style.plain == .plain then 2 else atomPrecedence := by
    rw [precedence]
  by_cases hneg : q < 0
  · -- a negative number binds like a sum
    rw [if_pos hneg] at hprecedence
    refine ⟨?_, fun htight => absurd htight (by rw [hprecedence]; decide)⟩
    rw [hprecedence, render_number]
    exact MeansSum.of_factor (meansProduct_rational q).alone
  obtain ⟨n, hn⟩ : ∃ n : ℕ, q.num = n :=
    Int.eq_ofNat_of_zero_le (Rat.num_nonneg.mpr (not_lt.mp hneg))
  have hnum : Means (IsPower IsPrimary) (toString q.num) (constant q.num) := by
    rw [hn]
    exact (means_natural n).mono fun _ _ => .primary
  rw [if_neg hneg] at hprecedence
  cases hwhole : isWhole q with
  | true =>
    refine Written.of_primary (by rw [hprecedence, hwhole]; rfl) ?_
    rw [render_number, renderRational, if_pos hwhole, hn]
    have hvalue : (number q).meaning = constant n := by
      funext M σ
      rw [meaning, value, constant, ← num_of_isWhole hwhole, hn, Int.cast_natCast]
    rw [hvalue]
    exact means_natural n
  | false =>
    rw [hwhole] at hprecedence
    refine ⟨?_, fun _ => ?_⟩
    · rw [hprecedence, render_number]
      exact meansProduct_rational q
    · -- the sign is read as that of the numerator
      have hden : Means (IsUnary IsPrimary) (toString q.den) (constant q.den) := means_whole q.den
      have hsigned := (means_signed_of_power hnum).div hden
      rw [render_number, renderRational, if_neg (Bool.eq_false_iff.mp hwhole)]
      simp only [String.append_assoc] at hsigned ⊢
      refine hsigned.congr (Meaning.agree_negative_div.trans fun M hM σ => ?_)
      exact congrArg (- ·) (agree_num_div_den q M hM σ)

/-! ### Operations and applications -/

section Operations

variable {op : BinaryOp} {left right : Term}

/-- A product with minus one is written with a sign. -/
theorem written_minusOne_mul (h : left.isMinusOne = true) (hr : right.Written) :
    (operation .mul left right).Written := by
  have hprecedence : (operation .mul left right).precedence .plain = 1 := by
    rw [precedence, h]
    rfl
  have hrender : (operation .mul left right).render .plain =
      "-" ++ parenthesized (right.precedence .plain < 2) (right.render .plain) := by
    rw [render, h]
    rfl
  refine ⟨?_, fun htight => absurd htight (by rw [hprecedence]; decide)⟩
  rw [hprecedence, hrender, meaning_minusOne_mul h]
  refine MeansSum.of_factor (hr.signed_operand fun hparens => ?_)
  exact not_lt.mp (of_decide_eq_false hparens)

theorem precedence_operation (h : op = .mul → left.isMinusOne = false) :
    (operation op left right).precedence .plain = op.precedence := by
  have hsign : (op == .mul && left.isMinusOne) = false := by
    by_cases hop : op = .mul
    · rw [h hop, Bool.and_false]
    · rw [beq_false_of_ne hop, Bool.false_and]
  rw [precedence, hsign]
  cases op <;> rfl

/-- A sign in front of a power, a product or a quotient is read as that of its first factor. -/
theorem means_signed_operation (hop : 2 ≤ op.precedence) (hl : left.Written) {text : String}
    {w : Meaning} (hr : MeansAt op.rightLevel text w)
    (hbinary : MeansAt op.precedence
      (parenthesized (leftParens .plain op left) (left.render .plain) ++ op.between ++ text)
      (left.meaning.operation op w)) :
    Means (IsFactor IsPrimary)
      ("-" ++ (parenthesized (leftParens .plain op left) (left.render .plain) ++ op.between ++ text))
      (left.meaning.operation op w).negative := by
  have hsigned : Means (IsFactor IsPrimary)
      ("-" ++ parenthesized (leftParens .plain op left) (left.render .plain))
      left.meaning.negative := by
    refine hl.signed_operand fun hparens => ?_
    have hle := leftLevel_le hparens
    have hlevel : 2 ≤ op.leftLevel := by cases op <;> first | contradiction | decide
    omega
  cases op with
  | add | sub | equal => contradiction
  | mul =>
    have hjoined := (hr.product (Nat.le_refl 2)).behind hsigned
    simp only [String.append_assoc] at hjoined ⊢
    exact hjoined.congr Meaning.agree_negative_mul
  | div =>
    have hjoined := hsigned.div (hr.unary (Nat.le_refl 3))
    simp only [String.append_assoc] at hjoined ⊢
    exact hjoined.congr Meaning.agree_negative_div
  | pow => exact means_signed_of_power (hbinary.power (Nat.le_refl 3))

theorem written_operation (hop : op ≠ .equal) (htower : (op == .pow && right.isPower) = false)
    (hl : left.Written) (hr : right.Written) : (operation op left right).Written := by
  by_cases hsign : op = .mul ∧ left.isMinusOne = true
  · obtain ⟨rfl, hminus⟩ := hsign
    exact written_minusOne_mul hminus hr
  have hplain : op = .mul → left.isMinusOne = false := fun hmul =>
    Bool.eq_false_iff.mpr fun hminus => hsign ⟨hmul, hminus⟩
  have hleft : MeansAt op.leftLevel
      (parenthesized (leftParens .plain op left) (left.render .plain)) left.meaning :=
    hl.means.operand leftLevel_le
  have hright : MeansAt op.rightLevel
      (parenthesized (rightParens .plain op right) (right.render .plain)) right.meaning :=
    hr.means.operand (rightLevel_le htower)
  have hbinary := MeansAt.binary hop hleft hright
  refine ⟨?_, fun htight => ?_⟩
  · rw [precedence_operation hplain, render_operation right hplain, meaning_operation]
    exact hbinary
  · rw [precedence_operation hplain] at htight
    rw [render_operation right hplain, meaning_operation]
    exact means_signed_operation htight hl hright hbinary

end Operations

theorem renderEach_eq_map (style : Style) (ts : List Term) :
    renderEach style ts = ts.map (render style) := by
  induction ts with
  | nil => rw [renderEach, List.map_nil]
  | cons t ts ih => rw [renderEach, List.map_cons, ih]

/-- Arguments are written one by one. -/
theorem means_renderEach {ts : List Term} (h : ∀ t ∈ ts, t.Written) :
    List.Forall₂ (Means (IsTerm IsPrimary)) (renderEach .plain ts) (ts.map meaning) := by
  rw [renderEach_eq_map, List.forall₂_map_left_iff, List.forall₂_map_right_iff]
  exact List.forall₂_same.mpr fun t ht => (h t ht).means.term

theorem hasTowerEach_eq_any (ts : List Term) : hasTowerEach ts = ts.any hasTower := by
  induction ts with
  | nil => rw [hasTowerEach, List.any_nil]
  | cons t ts ih => rw [hasTowerEach, List.any_cons, ih]

/-- The text of a term without towers means its value. -/
theorem Legible.written {t : Term} (h : t.Legible) (htower : t.hasTower = false) : t.Written := by
  -- induction on the term; what it is made of has no towers either
  induction h with
  | number v => exact written_number v
  | @symbol name h =>
    refine .of_primary rfl ?_
    rw [render]
    exact ⟨_, spells_symbol h, .refl _⟩
  | operation hop _ _ ihl ihr =>
    rw [hasTower, Bool.or_eq_false_iff, Bool.or_eq_false_iff] at htower
    obtain ⟨⟨hexponent, hleft⟩, hright⟩ := htower
    exact written_operation hop hexponent (ihl hleft) (ihr hright)
  | application hname _ ih =>
    rw [hasTower, hasTowerEach_eq_any, List.any_eq_false] at htower
    refine .of_primary rfl ?_
    rw [render, meaning_application]
    refine .call hname (means_renderEach fun a ha => ?_)
    exact ih a ha (Bool.eq_false_iff.mpr (htower a ha))

/-- The text of a term without towers is read as one term that has its value.  An equation
is read as an equation whose sides have the values of the sides. -/
theorem LegibleEquation.parse_eq_ok {t : Term} (h : t.LegibleEquation)
    (htower : t.hasTower = false) :
    ∃ e, parse (t.render .plain) = .ok ⟨[[[e]]]⟩ ∧
      (∀ M : Interpretation, M.Exact → ∀ σ, e.value M σ = t.value M σ) ∧
      ∀ left right, t = .operation .equal left right →
        ∃ left' right', e = .binary .equal left' right' ∧
          ∀ M : Interpretation, M.Exact → ∀ σ,
            left'.value M σ = left.value M σ ∧ right'.value M σ = right.value M σ := by
  cases h with
  | term h =>
    obtain ⟨e, hparse, hvalue⟩ := (h.written htower).means.term.parse_eq_ok
    refine ⟨e, hparse, hvalue, ?_⟩
    rintro left right rfl
    -- an equation is no part of a term
    cases h with
    | operation hop _ _ => contradiction
  | @equal left right hl hr =>
    rw [hasTower, Bool.or_eq_false_iff, Bool.or_eq_false_iff] at htower
    obtain ⟨⟨-, hleft⟩, hright⟩ := htower
    obtain ⟨left', right', hparse, hvalue, hvalue'⟩ :=
      (hl.written hleft).means.term.parse_equal_eq_ok (hr.written hright).means.term
    have hrender : (operation .equal left right).render .plain =
        left.render .plain ++ BinaryOp.between .equal ++ right.render .plain := by
      have hplain : BinaryOp.equal = .mul → left.isMinusOne = false := by simp
      have hleft : leftParens .plain .equal left = false :=
        leftParens_of_le (by decide) (Nat.zero_le _)
      have hright : rightParens .plain .equal right = false :=
        rightParens_of_le (by decide) (by decide) (Nat.zero_le _)
      rw [render_operation right hplain, hleft, hright]
      rfl
    rw [hrender]
    refine ⟨.binary .equal left' right', hparse, fun M hM σ => ?_, ?_⟩
    · rw [Expr.value, value]
      exact congrArg₂ (M.operation .equal) (hvalue M hM σ) (hvalue' M hM σ)
    · rintro _ _ ⟨⟩
      exact ⟨left', right', rfl, fun M hM σ => ⟨hvalue M hM σ, hvalue' M hM σ⟩⟩

end Term

end MathQuery
