import MathQuery.Proofs.Algebra.Parts
import MathQuery.Proofs.Algebra.Printing
import MathQuery.Proofs.Markup.Delimiters

/-!
# Terms in LaTeX

The LaTeX of a term whose names are made of letters and digits has well nested delimiters.  A
product without a sign between its factors has a right factor whose text does not begin with a
digit, so the two factors do not run into one number: the leftmost leaf of the factor, which
decides about the sign, is what its text begins with, unless that is a parenthesis or a command.

* `Term.Lettered` – the terms whose names are made of letters and digits;
* `Lettered.closed` – their LaTeX is well nested;
* `Lettered.not_beginsWithDigit` – a term whose leftmost leaf is no number does not begin with a
  digit;
* `ProductText`, `Lettered.productText` – how products are written.
-/

namespace MathQuery

open Markup

/-- A name of letters and digits that does not begin with a decimal digit. -/
structure IsName (name : String) : Prop where
  letters : ∀ c ∈ name.toList, isAlphanumeric c = true
  head : ∀ c, name.toList.head? = some c → c.isDigit = false

theorem IsName.of_isWord {name : String} (h : IsWord name.toList) : IsName name := by
  generalize hcs : name.toList = cs at h
  obtain ⟨hdigit, hletters⟩ := h
  constructor
  · rwa [hcs]
  · intro c hc
    rw [hcs, List.head?_cons] at hc
    exact Option.some.inj hc ▸ hdigit

theorem IsName.closed {name : String} (h : IsName name) : Closed name :=
  closed_ordinary fun c hc => isOrdinary_of_isAlphanumeric (h.letters c hc)

/-- Whether a text begins with a decimal digit. -/
def BeginsWithDigit (text : String) : Prop := ∃ d, text.toList.head? = some d ∧ d.isDigit = true

theorem BeginsWithDigit.of_append {first second : String} (h : BeginsWithDigit (first ++ second)) :
    BeginsWithDigit first ∨ BeginsWithDigit second := by
  obtain ⟨d, hhead, hdigit⟩ := h
  rw [String.toList_append, List.head?_append] at hhead
  rcases Option.or_eq_some_iff.mp hhead with hfirst | ⟨-, hsecond⟩
  · exact .inl ⟨d, hfirst, hdigit⟩
  · exact .inr ⟨d, hsecond, hdigit⟩

theorem not_beginsWithDigit_append {first second : String} (h : ¬BeginsWithDigit first)
    (h' : ¬BeginsWithDigit second) : ¬BeginsWithDigit (first ++ second) :=
  fun hboth => hboth.of_append.elim h h'

/-- What follows a text that is not empty is not what it begins with. -/
theorem not_beginsWithDigit_of_head {first : String} {c : Char}
    (h : first.toList.head? = some c) (hc : c.isDigit = false) (second : String) :
    ¬BeginsWithDigit (first ++ second) := by
  rintro ⟨d, hhead, hdigit⟩
  rw [String.toList_append, List.head?_append, h] at hhead
  obtain rfl := Option.some.inj hhead
  rw [hc] at hdigit
  contradiction

theorem IsName.not_beginsWithDigit {name : String} (h : IsName name) : ¬BeginsWithDigit name := by
  rintro ⟨d, hhead, hdigit⟩
  rw [h.head d hhead] at hdigit
  contradiction

namespace Style

theorem not_beginsWithDigit_parenthesized {text : String} (h : ¬BeginsWithDigit text)
    (parens : Bool) : ¬BeginsWithDigit (latex.parenthesized parens text) := by
  cases parens with
  | false => exact h
  | true =>
    rw [parenthesized, if_pos rfl, String.append_assoc]
    exact not_beginsWithDigit_of_head (c := '\\') rfl rfl _

theorem not_beginsWithDigit_fraction (numerator denominator : String) :
    ¬BeginsWithDigit (fraction numerator denominator) := by
  rw [fraction, String.append_assoc]
  exact not_beginsWithDigit_of_head (c := '\\') rfl rfl _

/-- An application is written with a command. -/
theorem not_beginsWithDigit_application (name : String) (arguments : List String) :
    ¬BeginsWithDigit (latex.application name arguments) := by
  unfold application
  split
  · contradiction
  · exact not_beginsWithDigit_of_head (c := '\\') rfl rfl _
  · rw [String.append_assoc, String.append_assoc]
    exact not_beginsWithDigit_of_head (c := '\\') rfl rfl _
  · rw [String.append_assoc, String.append_assoc]
    split
    · rw [String.append_assoc]
      exact not_beginsWithDigit_of_head (c := '\\') rfl rfl _
    · rw [String.append_assoc]
      exact not_beginsWithDigit_of_head (c := '\\') rfl rfl _

/-- A number in LaTeX. -/
theorem closed_number (q : ℚ) : Closed (latex.number q) := by
  rw [number]
  split
  · next hwhole =>
    rw [renderRational, if_pos hwhole]
    exact closed_whole q.num
  · have hfraction := (closed_natural q.num.natAbs).fraction (closed_natural q.den)
    split
    · have hsign : Closed "-" := closed_symbols rfl
      exact hsign.append hfraction
    · rwa [String.empty_append]

theorem closed_application {name : String} (hname : IsName name) {arguments : List String}
    (h : ∀ text ∈ arguments, Closed text) : Closed (latex.application name arguments) := by
  unfold application
  split
  · contradiction
  · have hcommand : Closed "\\sqrt" := .of_brackets fun rest => by simp [brackets]
    exact hcommand.append (h _ (by simp)).braced
  · have hcommand : Closed "\\sqrt[" := .of_brackets fun rest => by simp [brackets]
    have hend : Closed "]" := closed_symbols rfl
    exact ((hcommand.append (h _ (by simp))).append hend).append (h _ (by simp)).braced
  · have harguments := (Closed.intercalate h).inParens
    rw [String.append_assoc] at harguments
    rw [String.append_assoc, String.append_assoc]
    refine Closed.append ?_ harguments
    split
    · next hmem => exact closed_command hmem
    · have hcommand : Closed "\\operatorname" := .of_brackets fun rest => by simp [brackets]
      exact hcommand.append hname.closed.braced

end Style

namespace Term

/-- The terms whose names are made of letters and digits and do not begin with a digit. -/
inductive Lettered : Term → Prop
  | number (value : ℚ) : Lettered (.number value)
  | symbol {name : String} (h : IsName name) : Lettered (.symbol name)
  | operation (op : BinaryOp) {left right : Term} (hl : Lettered left) (hr : Lettered right) :
    Lettered (.operation op left right)
  | application {name : String} {arguments : List Term} (hname : IsName name)
    (h : ∀ a ∈ arguments, Lettered a) : Lettered (.application name arguments)

theorem Lettered.of_isPartOf {s t : Term} (hpart : s.IsPartOf t) (h : t.Lettered) :
    s.Lettered := by
  induction hpart with
  | refl => exact h
  | left _ ih =>
    obtain _ | _ | ⟨_, hl, -⟩ := h
    exact ih hl
  | right _ ih =>
    obtain _ | _ | ⟨_, -, hr⟩ := h
    exact ih hr
  | argument ha _ ih =>
    obtain _ | _ | _ | ⟨-, hall⟩ := h
    exact ih (hall _ ha)

/-- An operation in LaTeX. -/
theorem render_latex_operation (op : BinaryOp) (left right : Term) :
    (operation op left right).render .latex =
      if op == .mul && left.isMinusOne then
        "-" ++ Style.latex.parenthesized (right.precedence .latex < 2) (right.render .latex)
      else if op == .div then Style.fraction (left.render .latex) (right.render .latex)
      else Style.latex.parenthesized (leftParens .latex op left) (left.render .latex) ++
        if op == .pow then "^" ++ Style.braced (right.render .latex)
        else between .latex op right ++
          Style.latex.parenthesized (rightParens .latex op right) (right.render .latex) := by
  rw [render]
  simp only [beq_self_eq_true, Bool.and_true]

theorem closed_sign (op : BinaryOp) : Closed op.between := by
  cases op <;> exact closed_symbols rfl

/-- Only products have no sign. -/
theorem between_latex {op : BinaryOp} (h : op ≠ .mul) (right : Term) :
    between .latex op right = op.between := by
  cases op with
  | mul => contradiction
  | add | sub | div | pow | equal => rfl

theorem closed_between (op : BinaryOp) (right : Term) : Closed (between .latex op right) := by
  by_cases hop : op = .mul
  · rw [hop, between]
    split
    · exact .of_brackets fun rest => by simp [brackets]
    · exact closed_symbols rfl
  · rw [between_latex hop]
    exact closed_sign op

/-- What a right operand begins with matters only if its leftmost leaf is no number. -/
theorem not_beginsWithDigit_between (op : BinaryOp) {right : Term} {text : String}
    (h : right.startsWithNumber = false → ¬BeginsWithDigit text) :
    ¬BeginsWithDigit (between .latex op right ++ text) := by
  by_cases hop : op = .mul
  · rw [hop, between]
    split
    · exact not_beginsWithDigit_of_head (c := ' ') rfl rfl _
    · next hleaf =>
      rw [String.empty_append]
      exact h (Bool.eq_false_iff.mpr hleaf)
  · rw [between_latex hop]
    rintro ⟨d, hhead, hdigit⟩
    rw [String.toList_append] at hhead
    obtain ⟨hletter, -⟩ := op.breaks_between text.toList d hhead
    rw [isDigit_of_isAlphanumeric_eq_false hletter] at hdigit
    contradiction

/-- The LaTeX of a term is well nested. -/
theorem Lettered.closed {t : Term} (h : t.Lettered) : Closed (t.render .latex) := by
  -- induction on the term, one case for each way to write it
  induction h with
  | number value =>
    rw [render]
    exact Style.closed_number value
  | symbol h =>
    rw [render]
    exact h.closed
  | @operation op left right _ _ ihl ihr =>
    rw [render_latex_operation]
    split
    · have hsign : Closed "-" := closed_symbols rfl
      exact hsign.append (ihr.parenthesized _)
    split
    · exact ihl.fraction ihr
    refine (ihl.parenthesized _).append ?_
    split
    · have hsign : Closed "^" := closed_symbols rfl
      exact hsign.append ihr.braced
    · exact (closed_between op right).append (ihr.parenthesized _)
  | application hname _ ih =>
    rw [render, renderEach_eq_map]
    exact Style.closed_application hname (List.forall_mem_map.mpr ih)

/-- A term whose leftmost leaf is no number is not written with a digit in front. -/
theorem Lettered.not_beginsWithDigit {t : Term} (h : t.Lettered)
    (hleaf : t.startsWithNumber = false) : ¬BeginsWithDigit (t.render .latex) := by
  induction h with
  | number value =>
    rw [startsWithNumber] at hleaf
    contradiction
  | symbol h =>
    rw [render]
    exact h.not_beginsWithDigit
  | @operation op left right _ _ ihl ihr =>
    rw [startsWithNumber] at hleaf
    have hminus : left.isMinusOne = false := by
      cases left with
      | number _ => contradiction
      | symbol _ | operation _ _ _ | application _ _ => rfl
    rw [render_latex_operation, hminus, Bool.and_false, if_neg Bool.false_ne_true]
    split
    · exact Style.not_beginsWithDigit_fraction _ _
    refine not_beginsWithDigit_append
      (Style.not_beginsWithDigit_parenthesized (ihl hleaf) _) ?_
    split
    · exact not_beginsWithDigit_of_head (c := '^') rfl rfl _
    · exact not_beginsWithDigit_between op fun hright =>
        Style.not_beginsWithDigit_parenthesized (ihr hright) _
  | application _ _ _ =>
    rw [render]
    exact Style.not_beginsWithDigit_application _ _

/-! ## Products -/

/-- The text of the left factor of a product. -/
def leftFactor (left : Term) : String :=
  Style.latex.parenthesized (leftParens .latex .mul left) (left.render .latex)

/-- The text of the right factor of a product. -/
def rightFactor (right : Term) : String :=
  Style.latex.parenthesized (rightParens .latex .mul right) (right.render .latex)

/-- How a product is written.  A left factor of minus one is a sign; other factors stand side by
side only if the text of the right one does not begin with a digit. -/
inductive ProductText (left right : Term) : String → Prop
  | negative (h : left.isMinusOne = true) : ProductText left right ("-" ++ rightFactor right)
  | signed (h : left.isMinusOne = false) :
    ProductText left right (leftFactor left ++ (" \\cdot " ++ rightFactor right))
  | juxtaposed (h : left.isMinusOne = false) (hright : ¬BeginsWithDigit (rightFactor right)) :
    ProductText left right (leftFactor left ++ rightFactor right)

theorem Lettered.productText (left : Term) {right : Term} (h : right.Lettered) :
    ProductText left right ((Term.operation .mul left right).render .latex) := by
  have hparens : decide (right.precedence .latex < 2) = rightParens .latex .mul right := by
    rw [rightParens]
    exact (Bool.or_false _).symm
  rw [render_latex_operation, hparens]
  cases hminus : left.isMinusOne with
  | true => exact .negative hminus
  | false =>
    show ProductText left right
      (leftFactor left ++ (between .latex .mul right ++ rightFactor right))
    rw [between]
    cases hleaf : right.startsWithNumber with
    | true => exact .signed hminus
    | false =>
      rw [if_neg Bool.false_ne_true, String.empty_append]
      exact .juxtaposed hminus
        (Style.not_beginsWithDigit_parenthesized (h.not_beginsWithDigit hleaf) _)

end Term

end MathQuery
