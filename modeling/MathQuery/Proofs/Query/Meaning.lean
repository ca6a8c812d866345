import MathQuery.Proofs.Query.Arithmetic
import MathQuery.Proofs.Query.Spelling

/-!
# Texts with a meaning

What a text is read as is a matter of grouping: `a + b + c` is read as a sum of a sum and
`c`, whatever it was written for.  The value is the same, and it is by their values that
texts are described here.  A text means a value if some expression that it spells has this
value.

Products and sums need more than that.  A product that stands behind another factor is not
read by itself, its factors are joined one by one to what stands before it, and this has to
give the value of the whole; and so it is with sums.

* `Meaning` – a value for every interpretation and all values of the symbols;
* `Means` – a text reads as an expression with a given value;
* `MeansProduct`, `MeansSum` – it does so also behind other factors or other terms;
* `MeansAt` – what an operand has to satisfy to stand without parentheses;
* `MeansAt.operand` – with parentheses where they are needed every operand does;
* `MeansAt.binary` – such operands with an operator between them mean what it makes of them.
-/

namespace MathQuery

open Grammar

/-! ## Meanings -/

/-- Quotients are those of the rational numbers, where a quotient by zero is zero.
Everything else that is open stays open. -/
structure Interpretation.Exact (M : Interpretation) : Prop where
  quotient_eq : ∀ a b, M.quotient a b = a / b

/-- A value for every interpretation and all values of the symbols. -/
abbrev Meaning := Interpretation → (String → ℚ) → ℚ

namespace Meaning

/-- The same values wherever quotients are those of the rational numbers. -/
def Agree (v w : Meaning) : Prop := ∀ M : Interpretation, M.Exact → ∀ σ, v M σ = w M σ

variable {u v w : Meaning}

theorem Agree.refl (v : Meaning) : v.Agree v := fun _ _ _ => rfl

theorem Agree.trans (h : u.Agree v) (h' : v.Agree w) : u.Agree w :=
  fun M hM σ => (h M hM σ).trans (h' M hM σ)

/-- What an operator makes of two meanings. -/
def operation (op : BinaryOp) (v w : Meaning) : Meaning :=
  fun M σ => M.operation op (v M σ) (w M σ)

/-- The negative of a meaning. -/
def negative (v : Meaning) : Meaning := fun M σ => -v M σ

/-- What the function of a name makes of several meanings. -/
def application (name : String) (vs : List Meaning) : Meaning :=
  fun M σ => M.application name (vs.map fun v => v M σ)

theorem Agree.operation {v' w' : Meaning} (h : v.Agree v') (h' : w.Agree w') (op : BinaryOp) :
    (v.operation op w).Agree (v'.operation op w') := by
  intro M hM σ
  rw [Meaning.operation, Meaning.operation, h M hM σ, h' M hM σ]

theorem agree_application (name : String) {vs ws : List Meaning}
    (h : List.Forall₂ Agree vs ws) : (application name vs).Agree (application name ws) := by
  intro M hM σ
  have heach : vs.map (fun v => v M σ) = ws.map fun w => w M σ := by
    induction h with
    | nil => rfl
    | cons hfirst _ ih => rw [List.map_cons, List.map_cons, hfirst M hM σ, ih]
  rw [application, application, heach]

theorem agree_add_assoc : (operation .add (operation .add u v) w).Agree
    (u.operation .add (v.operation .add w)) :=
  fun _ _ _ => add_assoc _ _ _

theorem agree_add_sub : (operation .sub (operation .add u v) w).Agree
    (u.operation .add (v.operation .sub w)) :=
  fun _ _ _ => add_sub_assoc _ _ _

theorem agree_mul_assoc : (operation .mul (operation .mul u v) w).Agree
    (u.operation .mul (v.operation .mul w)) :=
  fun _ _ _ => mul_assoc _ _ _

theorem agree_mul_div : (operation .div (operation .mul u v) w).Agree
    (u.operation .mul (v.operation .div w)) := by
  intro M hM σ
  simp only [operation, Interpretation.operation, hM.quotient_eq]
  exact mul_div_assoc _ _ _

theorem agree_negative_mul : (operation .mul v.negative w).Agree (v.operation .mul w).negative :=
  fun _ _ _ => neg_mul _ _

theorem agree_negative_div :
    (operation .div v.negative w).Agree (v.operation .div w).negative := by
  intro M hM σ
  simp only [operation, Interpretation.operation, hM.quotient_eq, negative]
  exact neg_div _ _

end Meaning

namespace Expr

/-- The value of an expression. -/
def meaning (e : Expr) : Meaning := fun M σ => e.value M σ

theorem meaning_binary (op : BinaryOp) (left right : Expr) :
    (binary op left right).meaning = left.meaning.operation op right.meaning := by
  funext M σ
  rw [meaning, value]
  rfl

theorem values_eq_map (M : Interpretation) (σ : String → ℚ) (es : List Expr) :
    values M σ es = es.map (value M σ) := by
  induction es with
  | nil => rw [values, List.map_nil]
  | cons e es ih => rw [values, List.map_cons, ih]

theorem meaning_call (name : Spelling) (arguments : List Expr) :
    (call name arguments).meaning = .application name.text (arguments.map meaning) := by
  funext M σ
  rw [meaning, value, values_eq_map, Meaning.application, List.map_map]
  rfl

theorem meaning_unplaced (e : Expr) : e.unplaced.meaning = e.meaning := by
  funext M σ
  exact e.value_unplaced

end Expr

/-! ## Reading a meaning -/

/-- A text reads as an expression of a production that has the given values. -/
def Means (D : Derivation) (text : String) (v : Meaning) : Prop :=
  ∃ e, Spells D text e ∧ e.meaning.Agree v

variable {D D' : Derivation} {text left right : String} {v w l r : Meaning}

theorem Spells.means {e : Expr} (h : Spells D text e) : Means D text e.meaning :=
  ⟨e, h, .refl _⟩

namespace Means

theorem mono (h : Means D text v) (hD : ∀ ls a, D ls a → D' ls a) : Means D' text v := by
  obtain ⟨e, hspells, hvalue⟩ := h
  exact ⟨e, hspells.mono hD, hvalue⟩

theorem congr (h : Means D text v) (hvw : v.Agree w) : Means D text w := by
  obtain ⟨e, hspells, hvalue⟩ := h
  exact ⟨e, hspells, hvalue.trans hvw⟩

theorem group (h : Means (IsTerm IsPrimary) text v) : Means IsPrimary ("(" ++ text ++ ")") v := by
  obtain ⟨e, hspells, hvalue⟩ := h
  exact ⟨e, hspells.group, hvalue⟩

/-- Operands that are read as expressions make up an operation that is read as one. -/
theorem binary {E : Derivation} {op : BinaryOp}
    (hrule : ∀ {a b : Expr}, Spells D left a → Spells D' right b →
      Spells E (left ++ op.between ++ right) (.binary op a b))
    (hl : Means D left l) (hr : Means D' right r) :
    Means E (left ++ op.between ++ right) (l.operation op r) := by
  obtain ⟨a, ha, hal⟩ := hl
  obtain ⟨b, hb, hbr⟩ := hr
  refine ⟨.binary op a b, hrule ha hb, ?_⟩
  rw [Expr.meaning_binary]
  exact hal.operation hbr op

theorem pow (hl : Means IsPrimary left l) (hr : Means IsPrimary right r) :
    Means (IsPower IsPrimary) (left ++ BinaryOp.between .pow ++ right) (l.operation .pow r) :=
  hl.binary .pow hr

theorem mul (hl : Means (IsFactor IsPrimary) left l) (hr : Means (IsUnary IsPrimary) right r) :
    Means (IsFactor IsPrimary) (left ++ BinaryOp.between .mul ++ right) (l.operation .mul r) :=
  hl.binary .mul hr

theorem div (hl : Means (IsFactor IsPrimary) left l) (hr : Means (IsUnary IsPrimary) right r) :
    Means (IsFactor IsPrimary) (left ++ BinaryOp.between .div ++ right) (l.operation .div r) :=
  hl.binary .div hr

theorem add (hl : Means (IsTerm IsPrimary) left l) (hr : Means (IsFactor IsPrimary) right r) :
    Means (IsTerm IsPrimary) (left ++ BinaryOp.between .add ++ right) (l.operation .add r) :=
  hl.binary .add hr

theorem sub (hl : Means (IsTerm IsPrimary) left l) (hr : Means (IsFactor IsPrimary) right r) :
    Means (IsTerm IsPrimary) (left ++ BinaryOp.between .sub ++ right) (l.operation .sub r) :=
  hl.binary .sub hr

theorem minus (h : Means (IsPower IsPrimary) text v) :
    Means (IsUnary IsPrimary) ("-" ++ text) v.negative := by
  obtain ⟨e, hspells, hvalue⟩ := h
  refine ⟨e.negated, hspells.minus, fun M hM σ => ?_⟩
  have hsign : rational? "-1" = some (-1) := by decide +kernel
  rw [Expr.meaning, Expr.negated, Expr.value, Expr.value, hsign, Option.getD_some,
    Interpretation.operation, neg_one_mul]
  exact congrArg (- ·) (hvalue M hM σ)

theorem call {name : String} {texts : List String} {vs : List Meaning}
    (hname : IsWord name.toList) (h : List.Forall₂ (Means (IsTerm IsPrimary)) texts vs) :
    Means IsPrimary (name ++ "(" ++ ", ".intercalate texts ++ ")") (.application name vs) := by
  have heach : ∃ es : List Expr, List.Forall₂ (Spells (IsTerm IsPrimary)) texts es ∧
      List.Forall₂ Meaning.Agree (es.map Expr.meaning) vs := by
    induction h with
    | nil => exact ⟨[], .nil, .nil⟩
    | cons hfirst _ ih =>
      obtain ⟨e, hspells, hvalue⟩ := hfirst
      obtain ⟨es, hlater, hvalues⟩ := ih
      exact ⟨e :: es, .cons hspells hlater, .cons hvalue hvalues⟩
  obtain ⟨es, hspells, hvalues⟩ := heach
  refine ⟨_, .call hname hspells, ?_⟩
  rw [Expr.meaning_call]
  exact Meaning.agree_application name hvalues

/-- A text is read as a term that has the values that it means. -/
theorem parse_eq_ok (h : Means (IsTerm IsPrimary) text v) :
    ∃ e, parse text = .ok ⟨[[[e]]]⟩ ∧ e.meaning.Agree v := by
  obtain ⟨_, hspells, hvalue⟩ := h
  obtain ⟨e, hparse, rfl⟩ := hspells.parse_eq_ok
  rw [Expr.meaning_unplaced] at hvalue
  exact ⟨e, hparse, hvalue⟩

/-- Two texts with the sign of equality between them are read as an equation of what they
mean. -/
theorem parse_equal_eq_ok (hl : Means (IsTerm IsPrimary) left l)
    (hr : Means (IsTerm IsPrimary) right r) :
    ∃ a b, parse (left ++ BinaryOp.between .equal ++ right) =
      .ok ⟨[[[.binary .equal a b]]]⟩ ∧ a.meaning.Agree l ∧ b.meaning.Agree r := by
  obtain ⟨_, ha, hal⟩ := hl
  obtain ⟨_, hb, hbr⟩ := hr
  obtain ⟨e, hparse, he⟩ := (ha.equal hb).parse_eq_ok_of_equation
  cases e with
  | number _ | symbol _ | call _ _ => contradiction
  | binary op a b =>
    obtain ⟨rfl, rfl, rfl⟩ := Expr.binary.inj he
    exact ⟨a, b, hparse, a.meaning_unplaced ▸ hal, b.meaning_unplaced ▸ hbr⟩

end Means

/-! ## Products and sums -/

/-- A text means a value as a product, alone and behind other factors. -/
structure MeansProduct (text : String) (v : Meaning) : Prop where
  alone : Means (IsFactor IsPrimary) text v
  behind : ∀ {written : String} {u : Meaning}, Means (IsFactor IsPrimary) written u →
    Means (IsFactor IsPrimary) (written ++ BinaryOp.between .mul ++ text) (u.operation .mul v)

namespace MeansProduct

theorem of_unary (h : Means (IsUnary IsPrimary) text v) : MeansProduct text v :=
  ⟨h.mono fun _ _ => .unary, fun hwritten => hwritten.mul h⟩

/-- Factors of the right operand are joined one by one to the left operand. -/
theorem mul (hl : MeansProduct left l) (hr : MeansProduct right r) :
    MeansProduct (left ++ BinaryOp.between .mul ++ right) (l.operation .mul r) := by
  refine ⟨hr.behind hl.alone, fun {written u} hwritten => ?_⟩
  have hjoined := hr.behind (hl.behind hwritten)
  simp only [String.append_assoc] at hjoined ⊢
  exact hjoined.congr Meaning.agree_mul_assoc

theorem div (hl : MeansProduct left l) (hr : Means (IsUnary IsPrimary) right r) :
    MeansProduct (left ++ BinaryOp.between .div ++ right) (l.operation .div r) := by
  refine ⟨hl.alone.div hr, fun {written u} hwritten => ?_⟩
  have hjoined := (hl.behind hwritten).div hr
  simp only [String.append_assoc] at hjoined ⊢
  exact hjoined.congr Meaning.agree_mul_div

end MeansProduct

/-- A text means a value as a sum, alone and behind other terms. -/
structure MeansSum (text : String) (v : Meaning) : Prop where
  alone : Means (IsTerm IsPrimary) text v
  behind : ∀ {written : String} {u : Meaning}, Means (IsTerm IsPrimary) written u →
    Means (IsTerm IsPrimary) (written ++ BinaryOp.between .add ++ text) (u.operation .add v)

namespace MeansSum

theorem of_factor (h : Means (IsFactor IsPrimary) text v) : MeansSum text v :=
  ⟨h.mono fun _ _ => .factor, fun hwritten => hwritten.add h⟩

/-- Terms of the right operand are joined one by one to the left operand. -/
theorem add (hl : MeansSum left l) (hr : MeansSum right r) :
    MeansSum (left ++ BinaryOp.between .add ++ right) (l.operation .add r) := by
  refine ⟨hr.behind hl.alone, fun {written u} hwritten => ?_⟩
  have hjoined := hr.behind (hl.behind hwritten)
  simp only [String.append_assoc] at hjoined ⊢
  exact hjoined.congr Meaning.agree_add_assoc

theorem sub (hl : MeansSum left l) (hr : Means (IsFactor IsPrimary) right r) :
    MeansSum (left ++ BinaryOp.between .sub ++ right) (l.operation .sub r) := by
  refine ⟨hl.alone.sub hr, fun {written u} hwritten => ?_⟩
  have hjoined := (hl.behind hwritten).sub hr
  simp only [String.append_assoc] at hjoined ⊢
  exact hjoined.congr Meaning.agree_add_sub

end MeansSum

/-! ## Operands -/

/-- A text means a value where an operand has to bind as tightly as operators of the given
precedence, or more tightly than every operator. -/
def MeansAt (precedence : ℕ) (text : String) (v : Meaning) : Prop :=
  match precedence with
  | 0 | 1 => MeansSum text v
  | 2 => MeansProduct text v
  | 3 => Means (IsPower IsPrimary) text v
  | _ + 4 => Means IsPrimary text v

namespace MeansAt

variable {p q : ℕ}

theorem of_primary (h : Means IsPrimary text v) (hp : 4 ≤ p) : MeansAt p text v := by
  obtain ⟨p, rfl⟩ := Nat.exists_eq_add_of_le' hp
  exact h

theorem primary (h : MeansAt p text v) (hp : 4 ≤ p) : Means IsPrimary text v := by
  obtain ⟨p, rfl⟩ := Nat.exists_eq_add_of_le' hp
  exact h

theorem power (h : MeansAt p text v) (hp : 3 ≤ p) : Means (IsPower IsPrimary) text v := by
  rcases Nat.eq_or_lt_of_le hp with rfl | hlt
  · exact h
  · exact (h.primary hlt).mono fun _ _ => .primary

theorem unary (h : MeansAt p text v) (hp : 3 ≤ p) : Means (IsUnary IsPrimary) text v :=
  (h.power hp).mono fun _ _ => .power

theorem product (h : MeansAt p text v) (hp : 2 ≤ p) : MeansProduct text v := by
  rcases Nat.eq_or_lt_of_le hp with rfl | hlt
  · exact h
  · exact .of_unary (h.unary hlt)

theorem sum (h : MeansAt p text v) : MeansSum text v := by
  match p with
  | 0 | 1 => exact h
  | _ + 2 => exact .of_factor (h.product (Nat.le_add_left 2 _)).alone

theorem term (h : MeansAt p text v) : Means (IsTerm IsPrimary) text v := h.sum.alone

/-- An operand that binds more tightly than it has to needs nothing else. -/
theorem mono (h : MeansAt p text v) (hle : q ≤ p) : MeansAt q text v := by
  match q with
  | 0 | 1 => exact h.sum
  | 2 => exact h.product hle
  | 3 => exact h.power hle
  | _ + 4 => exact of_primary (h.primary (by omega)) (by omega)

/-- An operand stands in parentheses unless it binds as tightly as it has to. -/
theorem operand (h : MeansAt p text v) {parens : Bool} (hparens : parens = false → q ≤ p) :
    MeansAt q (parenthesized parens text) v := by
  cases parens with
  | false => exact h.mono (hparens rfl)
  | true =>
    -- in parentheses everything is a primary
    have hgroup : Means IsPrimary ("(" ++ text ++ ")") v := h.term.group
    have hprimary : MeansAt (q + 4) ("(" ++ text ++ ")") v := hgroup
    exact hprimary.mono (Nat.le_add_right q 4)

end MeansAt

/-! ## Operations -/

namespace BinaryOp

/-- How tightly the left operand of an operator has to bind.  Operators chain to the left,
but the base of a power is a single operand. -/
def leftLevel (op : BinaryOp) : ℕ := if op = .pow then op.precedence + 1 else op.precedence

/-- How tightly the right operand of an operator has to bind.  Sums and products can be
regrouped, what is subtracted, divided by or an exponent cannot. -/
def rightLevel (op : BinaryOp) : ℕ :=
  if op = .sub ∨ op = .div ∨ op = .pow then op.precedence + 1 else op.precedence

variable {op : BinaryOp} {p : ℕ}

theorem leftLevel_le (hle : op.precedence ≤ p) (hpow : op = .pow → p ≠ op.precedence) :
    op.leftLevel ≤ p := by
  unfold leftLevel
  split
  · next hop => exact Nat.lt_of_le_of_ne hle (hpow hop).symm
  · exact hle

theorem rightLevel_le (hle : op.precedence ≤ p)
    (hstrict : op = .sub ∨ op = .div ∨ op = .pow → p ≠ op.precedence) : op.rightLevel ≤ p := by
  unfold rightLevel
  split
  · next hop => exact Nat.lt_of_le_of_ne hle (hstrict hop).symm
  · exact hle

end BinaryOp

/-- Operands that bind as tightly as they have to make up an operation. -/
theorem MeansAt.binary {op : BinaryOp} (hop : op ≠ .equal) (hl : MeansAt op.leftLevel left l)
    (hr : MeansAt op.rightLevel right r) :
    MeansAt op.precedence (left ++ op.between ++ right) (l.operation op r) := by
  cases op with
  | add => exact MeansSum.add hl.sum hr.sum
  | sub => exact MeansSum.sub hl.sum (hr.product (Nat.le_refl 2)).alone
  | mul => exact MeansProduct.mul (hl.product (Nat.le_refl 2)) (hr.product (Nat.le_refl 2))
  | div => exact MeansProduct.div (hl.product (Nat.le_refl 2)) (hr.unary (Nat.le_refl 3))
  | pow => exact Means.pow (hl.primary (Nat.le_refl 4)) (hr.primary (Nat.le_refl 4))
  | equal => contradiction

end MathQuery
