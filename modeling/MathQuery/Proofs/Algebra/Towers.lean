import MathQuery.Proofs.Algebra.Printing
import MathQuery.Proofs.Query.Chaining

/-!
# Towers are not read

A power that is an exponent is written without parentheses.  So in the text of a term with
a tower the base of the inner power stands between two carets, and powers do not chain: the
text of such a term is never read.

* `Term.Legible.plain` – the text of a term is made of lexemes;
* `Term.Legible.chained` – in that of a term with a tower a primary stands between carets;
* `Term.LegibleEquation.parse_ne_ok` – so it is not read.
-/

namespace MathQuery

open Grammar Lexeme

variable {text : String}

/-! ## Plain texts -/

namespace Plain

theorem append {text' : String} (h : Plain text) (h' : Plain text') : Plain (text ++ text') := by
  rw [Plain, String.toList_append, List.all_append, Bool.and_eq_true]
  exact ⟨h, h'⟩

theorem of_isAlphanumeric (h : ∀ c ∈ text.toList, isAlphanumeric c = true) : Plain text := by
  refine List.all_eq_true.mpr fun c hc => ?_
  have hpoint : c ≠ '.' := by
    rintro rfl
    exact absurd (h _ hc) (by decide)
  simp [isPlain, hpoint, h c hc]

theorem parenthesized (h : Plain text) (parens : Bool) :
    Plain (Style.plain.parenthesized parens text) := by
  cases parens with
  | false => exact h
  | true =>
    have hopening : Plain "(" := rfl
    have hclosing : Plain ")" := rfl
    exact (hopening.append h).append hclosing

theorem intercalate {texts : List String} (h : ∀ text ∈ texts, Plain text) :
    Plain (", ".intercalate texts) := by
  induction texts with
  | nil => rfl
  | cons text texts ih =>
    obtain ⟨hfirst, hlater⟩ := List.forall_mem_cons.mp h
    cases texts with
    | nil => rwa [String.intercalate_singleton]
    | cons text' texts =>
      have hcomma : Plain ", " := rfl
      rw [String.intercalate_cons_of_ne_nil (List.cons_ne_nil _ _)]
      exact (hfirst.append hcomma).append (ih hlater)

end Plain

theorem plain_natural (n : ℕ) : Plain (toString n) :=
  .of_isAlphanumeric fun d hd => isAlphanumeric_of_isDigit (isDigit_of_mem_toString n d hd)

theorem plain_whole (z : ℤ) : Plain (toString z) := by
  cases z with
  | ofNat n => exact plain_natural n
  | negSucc n =>
    have hsign : Plain "-" := rfl
    exact hsign.append (plain_natural (n + 1))

theorem plain_rational (q : ℚ) : Plain (renderRational q) := by
  rw [renderRational]
  split
  · exact plain_whole q.num
  · have hslash : Plain "/" := rfl
    exact ((plain_whole q.num).append hslash).append (plain_natural q.den)

theorem plain_word (h : IsWord text.toList) : Plain text := by
  generalize hcs : text.toList = cs at h
  obtain ⟨-, hletters⟩ := h
  exact .of_isAlphanumeric (hcs ▸ hletters)

/-! ## Texts of terms -/

namespace Term

/-- An operation is written with its operands, each in parentheses or not, except that minus
one is not written where it is a sign. -/
theorem render_operation_cases (op : BinaryOp) (left right : Term) :
    left.isMinusOne = true ∧ (∃ parens, (operation op left right).render .plain =
      "-" ++ Style.plain.parenthesized parens (right.render .plain)) ∨
    ∃ parens parens', (operation op left right).render .plain =
      Style.plain.parenthesized parens (left.render .plain) ++ op.between ++
        Style.plain.parenthesized parens' (right.render .plain) := by
  by_cases hsign : op = .mul ∧ left.isMinusOne = true
  · obtain ⟨rfl, hminus⟩ := hsign
    refine .inl ⟨hminus, decide (right.precedence .plain < 2), ?_⟩
    rw [render, hminus]
    rfl
  · have hplain : op = .mul → left.isMinusOne = false := fun hmul =>
      Bool.eq_false_iff.mpr fun hminus => hsign ⟨hmul, hminus⟩
    exact .inr ⟨_, _, render_operation right hplain⟩

theorem plain_operation (op : BinaryOp) {left right : Term} (hl : Plain (left.render .plain))
    (hr : Plain (right.render .plain)) : Plain ((operation op left right).render .plain) := by
  rcases render_operation_cases op left right with
    ⟨-, parens, hrender⟩ | ⟨parens, parens', hrender⟩
  · have hsign : Plain "-" := rfl
    rw [hrender]
    exact hsign.append (hr.parenthesized parens)
  · have hbetween : Plain op.between := by cases op <;> rfl
    rw [hrender]
    exact ((hl.parenthesized parens).append hbetween).append (hr.parenthesized parens')

theorem Legible.plain {t : Term} (h : t.Legible) : Plain (t.render .plain) := by
  induction h with
  | number v =>
    rw [render_number]
    exact plain_rational v
  | symbol h =>
    rw [render]
    exact plain_word h
  | @operation op _ _ _ _ _ ihl ihr => exact plain_operation op ihl ihr
  | @application name arguments hname _ ih =>
    have heach : ∀ text ∈ renderEach .plain arguments, Plain text := by
      rw [renderEach_eq_map]
      exact List.forall_mem_map.mpr ih
    have hopening : Plain "(" := rfl
    have hclosing : Plain ")" := rfl
    rw [render]
    exact (((plain_word hname).append hopening).append (.intercalate heach)).append hclosing

/-! ### Carets -/

theorem infix_intercalate (separator : String) {text : String} {texts : List String}
    (h : text ∈ texts) : text.toList <:+: (separator.intercalate texts).toList := by
  induction texts with
  | nil => contradiction
  | cons first texts ih =>
    cases texts with
    | nil =>
      obtain rfl := List.mem_singleton.mp h
      rw [String.intercalate_singleton]
    | cons second texts =>
      rw [String.intercalate_cons_of_ne_nil (List.cons_ne_nil _ _), String.append_assoc,
        String.toList_append, String.toList_append]
      rcases List.mem_cons.mp h with rfl | h
      · exact (List.prefix_append _ _).isInfix
      · have hlater := (ih h).trans (List.suffix_append separator.toList _).isInfix
        exact hlater.trans (List.suffix_append _ _).isInfix

theorem infix_parenthesized (parens : Bool) (text : String) :
    text.toList <:+: (Style.plain.parenthesized parens text).toList := by
  cases parens with
  | false => exact List.infix_rfl
  | true =>
    refine ⟨['('], [')'], ?_⟩
    rw [Style.parenthesized, if_pos rfl, String.toList_append, String.toList_append]
    rfl

theorem hasTower_of_isMinusOne {t : Term} (h : t.isMinusOne = true) : t.hasTower = false := by
  cases t with
  | number v => rw [hasTower]
  | symbol _ | operation _ _ _ | application _ _ => contradiction

/-- The text of an operation contains that of its left operand, if this is no mere sign. -/
theorem infix_left (op : BinaryOp) {left : Term} (right : Term) (h : left.hasTower = true) :
    (left.render .plain).toList <:+: ((operation op left right).render .plain).toList := by
  rcases render_operation_cases op left right with ⟨hminus, -⟩ | ⟨parens, parens', hrender⟩
  · rw [hasTower_of_isMinusOne hminus] at h
    contradiction
  · rw [hrender, String.append_assoc, String.toList_append]
    exact (infix_parenthesized parens _).trans (List.prefix_append _ _).isInfix

theorem infix_right (op : BinaryOp) (left right : Term) :
    (right.render .plain).toList <:+: ((operation op left right).render .plain).toList := by
  rcases render_operation_cases op left right with
    ⟨-, parens, hrender⟩ | ⟨parens, parens', hrender⟩
  all_goals rw [hrender, String.toList_append]
  · exact (infix_parenthesized parens _).trans (List.suffix_append _ _).isInfix
  · exact (infix_parenthesized parens' _).trans (List.suffix_append _ _).isInfix

theorem infix_application (name : String) {arguments : List Term} {a : Term}
    (ha : a ∈ arguments) :
    (a.render .plain).toList <:+: ((application name arguments).render .plain).toList := by
  have hmem : a.render .plain ∈ arguments.map (render .plain) := List.mem_map_of_mem ha
  have harguments := infix_intercalate ", " hmem
  have hopened := harguments.trans (List.suffix_append (name ++ "(").toList _).isInfix
  rw [render, renderEach_eq_map, Style.application, String.toList_append, String.toList_append]
  exact hopened.trans (List.prefix_append _ _).isInfix

/-- An exponent that is a power is written without parentheses, so that there are carets on
both sides of its base. -/
theorem render_tower (left base exponent : Term) :
    ∃ front back, (operation .pow left (operation .pow base exponent)).render .plain =
      front ++ ("^" ++ parenthesized (leftParens .plain .pow base) (base.render .plain) ++ "^") ++
        back := by
  have hparens : rightParens .plain .pow (operation .pow base exponent) = false := by
    refine rightParens_of_le (by decide) (by decide) ?_
    rw [precedence_operation (by simp)]
  refine ⟨Style.plain.parenthesized (leftParens .plain .pow left) (left.render .plain),
    Style.plain.parenthesized (rightParens .plain .pow exponent) (exponent.render .plain), ?_⟩
  rw [render_operation _ (by simp), render_operation _ (by simp), hparens]
  simp only [String.append_assoc]
  rfl

/-- The base of an exponent that is a power is read as a primary if it has no towers. -/
theorem chained_tower (left : Term) {base : Term} (exponent : Term) (h : base.Legible)
    (htower : base.hasTower = false) :
    Chained ((operation .pow left (operation .pow base exponent)).render .plain) := by
  have hwritten : MeansAt (BinaryOp.leftLevel .pow)
      (parenthesized (leftParens .plain .pow base) (base.render .plain)) base.meaning :=
    (h.written htower).means.operand leftLevel_le
  obtain ⟨e, hspells, -⟩ := hwritten.primary (Nat.le_refl 4)
  obtain ⟨front, back, hrender⟩ := render_tower left base exponent
  refine ⟨_, e, hspells, front.toList, back.toList, ?_⟩
  simp only [hrender, String.toList_append]

/-- In the text of a term with a tower a primary stands between two carets. -/
theorem Legible.chained {t : Term} (h : t.Legible) (htower : t.hasTower = true) :
    Chained (t.render .plain) := by
  -- induction on the term, down to a tower whose base has none
  induction h with
  | number _ | symbol _ =>
    rw [hasTower] at htower
    contradiction
  | @operation op left right hop hl hr ihl ihr =>
    cases hleft : left.hasTower with
    | true => exact (ihl hleft).mono (infix_left op right hleft)
    | false =>
    cases hright : right.hasTower with
    | true => exact (ihr hright).mono (infix_right op left right)
    | false =>
      rw [hasTower, hleft, hright, Bool.or_false, Bool.or_false, Bool.and_eq_true] at htower
      obtain ⟨hpow, hpower⟩ := htower
      obtain rfl := eq_of_beq hpow
      cases hr with
      | number _ | symbol _ | application _ _ => contradiction
      | @operation op base exponent _ hbase _ =>
        obtain rfl : op = .pow := by cases op <;> first | rfl | contradiction
        rw [hasTower, Bool.or_eq_false_iff, Bool.or_eq_false_iff] at hright
        exact chained_tower left exponent hbase hright.1.2
  | @application name arguments hname _ ih =>
    rw [hasTower, hasTowerEach_eq_any, List.any_eq_true] at htower
    obtain ⟨a, ha, htower⟩ := htower
    exact (ih a ha htower).mono (infix_application name ha)

/-- The text of a term with a tower is not read, nor that of an equation with one. -/
theorem LegibleEquation.parse_ne_ok {t : Term} (h : t.LegibleEquation)
    (htower : t.hasTower = true) (p : Program) : parse (t.render .plain) ≠ .ok p := by
  cases h with
  | term h => exact (h.chained htower).parse_ne_ok h.plain p
  | @equal left right hl hr =>
    refine Chained.parse_ne_ok ?_ (plain_operation .equal hl.plain hr.plain) p
    rw [hasTower, Bool.or_eq_true, Bool.or_eq_true] at htower
    obtain (hpow | hleft) | hright := htower
    · contradiction
    · exact (hl.chained hleft).mono (infix_left .equal right hleft)
    · exact (hr.chained hright).mono (infix_right .equal left right)

end Term

end MathQuery
