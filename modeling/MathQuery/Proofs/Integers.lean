import MathQuery.Proofs.Calls
import MathQuery.Proofs.Query.Leaves
import MathQuery.Schema.Match

/-!
# Where integers are asked for

An integer is asked for in three places: by a slot of a pattern, by a parameter of a function
that is called, and by a parameter of an operation whose slot captured an expression.  All three
take digits without a point, with the same number, and refuse everything else, except that a
slot also takes a number behind a sign.

* `Expr.AtIntegerSlot`, `Expr.AtIntegerParameter`, `Expr.AtIntegerOperand` – what becomes of an
  expression in the three places;
* `Expr.TakenAs`, `Expr.TakenNowhere` – all three take it as an integer, or none does;
* `Expr.integer_places` – which of the two it is for each part of a query;
* `Expr.integer_places_differ` – in `root(x, -2)` the slot would take what the function does not.
-/

namespace MathQuery

/-! ## Texts of integers -/

theorem nat?_of_digits {text : String} (hne : text.toList ≠ []) (hdigits : IsDigits text.toList) :
    nat? text = some (positional text.toList) := by
  have hall : text.toList.all Char.isDigit = true := List.all_eq_true.mpr hdigits
  rw [nat?, List.isEmpty_eq_false_iff.mpr hne, hall, ← natOfDigits_eq_positional]
  rfl

theorem nat?_of_point {text : String} (hpoint : '.' ∈ text.toList) : nat? text = none := by
  have hall : text.toList.all Char.isDigit = false := by
    rw [List.all_eq_false]
    exact ⟨'.', hpoint, by decide⟩
  rw [nat?, hall]
  simp

/-- Digits are read as the integer that they are by their places. -/
theorem int?_of_digits {text : String} (hne : text.toList ≠ []) (hdigits : IsDigits text.toList) :
    int? text = some (positional text.toList : ℤ) := by
  rw [int?]
  split
  · next ds hds =>
    have hminus := hdigits '-' (by rw [hds]; exact List.mem_cons_self)
    contradiction
  · rw [nat?_of_digits hne hdigits]
    rfl

/-- A number with a point is no integer, whatever its value. -/
theorem int?_of_point {text : String} (hpoint : '.' ∈ text.toList) : int? text = none := by
  rw [int?]
  split
  · next ds hds =>
    rw [hds, List.mem_cons] at hpoint
    have hlater : '.' ∈ (String.ofList ds).toList := by
      rw [String.toList_ofList]
      exact hpoint.resolve_left (by decide)
    rw [nat?_of_point hlater, Option.map_none]
  · rw [nat?_of_point hpoint, Option.map_none]

/-! ## The three places -/

namespace Compiler

/-- Wherever the computation starts, it issues one term and nothing else. -/
def Issues (c : Compiler Handle) (t : Term) : Prop :=
  ∀ table, c table = .ok table.size ⟨table.terms.push t⟩

/-- An operation reads its parameters from the captured arguments. -/
theorem parameter_integer {functions : FunctionTable} {operation : String} {arguments : Arguments}
    {index : ℕ} {captured : Value} (h : arguments.get? index = some captured) :
    parameter functions operation arguments index .integer =
      integer functions operation index captured := by
  have hargument : argument operation arguments index = pure captured := by
    rw [argument, h]
  rw [parameter, hargument]
  exact pure_bind captured _

/-- An operation takes a captured integer as it is. -/
theorem issues_parameter_integer {functions : FunctionTable} {operation : String}
    {arguments : Arguments} {index : ℕ} {n : ℤ} (h : arguments.get? index = some (.integer n)) :
    Issues (parameter functions operation arguments index .integer) (.number n) := by
  intro table
  rw [parameter_integer h]
  exact (value_integer functions n table).2 operation index

end Compiler

namespace Expr

open Compiler

/-- What a slot of integers captures of an expression, or why it refuses it, where the pattern
does not go on with this very word. -/
def AtIntegerSlot (e : Expr) (result : Except MatchError Value) : Prop :=
  ∀ (t node : Trie) (declared : Slot) (captured : Arguments),
    t.slot? = some (declared, node) → declared.type = .integer →
    (∀ w, e.word? = some w → t.word? w = none) →
    t.follow captured e = result.map fun value => (node, captured.insert declared.index value)

/-- Whether a call accepts an expression where its function has a parameter of integers, if
all its other arguments are accepted. -/
def AtIntegerParameter (e : Expr) (accepted : Bool) : Prop :=
  ∀ (functions : FunctionTable) (name : String) (d : FunctionDefinition)
    (types types' : List ArgumentType) (before after : List Expr),
    functions.find? name = some d → d.parameters = types ++ .integer :: types' →
    List.Forall₂ (fun type a => type.accepts a = true) types before →
    List.Forall₂ (fun type a => type.accepts a = true) types' after →
    functions.resolve name (before ++ e :: after) =
      if accepted then .ok d else .error (.argumentType d.name before.length .integer .expression)

/-- What an operation with a parameter of integers makes of an expression that was captured for
it: the term that it issues, or nothing if it refuses the argument. -/
def AtIntegerOperand (e : Expr) (issued : Option Term) : Prop :=
  ∀ (functions : FunctionTable) (operation : String) (arguments : Arguments) (index : ℕ),
    arguments.get? index = some (.expression e) →
    match issued with
    | some t => Issues (parameter functions operation arguments index .integer) t
    | none => ∀ table, parameter functions operation arguments index .integer table =
        .error (.dispatch (.argumentType operation index .integer .expression)) table

/-- A slot takes an expression as the integer that is its value, and operations then compute
with this number. -/
structure CapturedAs (e : Expr) (n : ℤ) : Prop where
  slot : e.AtIntegerSlot (.ok (.integer n))
  issued : ∀ (functions : FunctionTable) (operation : String) (arguments : Arguments) (index : ℕ),
    arguments.get? index = some (.integer n) →
      Issues (parameter functions operation arguments index .integer) (.number n)
  value : ∀ (M : Interpretation) (σ : String → ℚ), e.value M σ = n

/-- All three places take an expression, and all three lead to the number that is its value. -/
structure TakenAs (e : Expr) (n : ℤ) : Prop extends CapturedAs e n where
  parameter : e.AtIntegerParameter true
  argument : ∀ functions : FunctionTable, Issues (compile functions e) (.number n)
  operand : e.AtIntegerOperand (some (.number n))

/-- What a slot of integers makes of an expression that is no integer.  A bare word is captured
as text, as by every slot. -/
def slotRefusal (e : Expr) : Except MatchError Value :=
  match e.word? with
  | some w => .ok (.text w)
  | none => .error (.notInteger e.render e.position)

/-- None of the three places takes an expression as an integer. -/
structure TakenNowhere (e : Expr) : Prop where
  slot : e.AtIntegerSlot e.slotRefusal
  parameter : e.AtIntegerParameter false
  operand : e.AtIntegerOperand none

/-! ### Slots -/

variable {e : Expr}

theorem atIntegerSlot_of_integer? {n : ℤ} (h : e.integer? = some n) :
    e.AtIntegerSlot (.ok (.integer n)) := by
  intro t node declared captured hslot htype _
  have hword : e.word? = none := by
    cases e with
    | symbol name => simp [integer?] at h
    | number _ | binary _ _ _ | call _ _ => rfl
  rw [Trie.follow, hword, hslot]
  dsimp only
  rw [htype, capture, h]
  rfl

theorem atIntegerSlot_of_integer?_eq_none (h : e.integer? = none) :
    e.AtIntegerSlot e.slotRefusal := by
  intro t node declared captured hslot htype hedge
  rw [Trie.follow, slotRefusal]
  cases hword : e.word? with
  | some w =>
    dsimp only
    rw [hedge w hword, hslot]
    rfl
  | none =>
    rw [hslot]
    dsimp only
    rw [htype, capture, h]
    rfl

/-! ### Parameters of functions -/

/-- The first argument that is not accepted is reported with its place. -/
theorem mismatch?_append {types types' : List ArgumentType} {type : ArgumentType}
    {before after : List Expr} (index : ℕ)
    (h : List.Forall₂ (fun type a => type.accepts a = true) types before)
    (he : type.accepts e = false) :
    FunctionTable.mismatch? index (types ++ type :: types') (before ++ e :: after) =
      some (index + before.length, type) := by
  induction h generalizing index with
  | nil =>
    rw [List.nil_append, List.nil_append, FunctionTable.mismatch?, he]
    rfl
  | @cons _ _ _ before haccepts _ ih =>
    rw [List.cons_append, List.cons_append, FunctionTable.mismatch?, if_pos haccepts, ih,
      List.length_cons, Nat.add_right_comm, Nat.add_assoc]

theorem atIntegerParameter_accepts (e : Expr) :
    e.AtIntegerParameter (ArgumentType.integer.accepts e) := by
  intro functions name d types types' before after hfind hparameters hbefore hafter
  cases haccepts : ArgumentType.integer.accepts e with
  | true =>
    rw [if_pos rfl, FunctionTable.resolve_eq_ok_iff, hparameters]
    exact ⟨hfind, List.rel_append hbefore (.cons haccepts hafter)⟩
  | false =>
    have hlength : d.parameters.length = (before ++ e :: after).length := by
      simp [hparameters, hbefore.length_eq, hafter.length_eq]
    rw [FunctionTable.resolve, hfind]
    dsimp only
    rw [if_neg (not_not.mpr hlength), hparameters, mismatch?_append 0 hbefore haccepts,
      Nat.zero_add]
    rfl

/-! ### Parameters of operations -/

theorem atIntegerOperand_of_accepts {t : Term} (haccepts : ArgumentType.integer.accepts e = true)
    (h : ∀ functions : FunctionTable, Issues (compile functions e) t) :
    e.AtIntegerOperand (some t) := by
  intro functions operation arguments index hget table
  rw [parameter_integer hget, integer, if_pos haccepts]
  exact h functions table

theorem atIntegerOperand_of_refuses (hrefuses : ArgumentType.integer.accepts e = false) :
    e.AtIntegerOperand none := by
  intro functions operation arguments index hget table
  rw [parameter_integer hget, integer, hrefuses]
  rfl

/-! ## Which expressions are taken -/

/-- An expression that is no integer for slots and none for parameters is taken nowhere. -/
theorem takenNowhere (h : e.integer? = none) (hrefuses : ArgumentType.integer.accepts e = false) :
    e.TakenNowhere := by
  have hparameter := atIntegerParameter_accepts e
  rw [hrefuses] at hparameter
  exact ⟨atIntegerSlot_of_integer?_eq_none h, hparameter, atIntegerOperand_of_refuses hrefuses⟩

/-- A literal without a point is taken everywhere, as the number for which it stands. -/
theorem takenAs_number {literal : Spelling} {n : ℤ} (h : int? literal.text = some n)
    (hvalue : rational? literal.text = some (n : ℚ)) (hpoint : '.' ∉ literal.text.toList) :
    (number literal).TakenAs n := by
  have haccepts : ArgumentType.integer.accepts (number literal) = true := by
    simpa [ArgumentType.accepts] using hpoint
  have hissues (functions : FunctionTable) :
      Issues (compile functions (number literal)) (.number n) := by
    intro table
    rw [compile]
    exact number_of_rational? hvalue table
  have hparameter := atIntegerParameter_accepts (number literal)
  rw [haccepts] at hparameter
  refine ⟨⟨atIntegerSlot_of_integer? h, ?_, ?_⟩, hparameter, hissues,
    atIntegerOperand_of_accepts haccepts hissues⟩
  · exact fun _ _ _ _ hget => issues_parameter_integer hget
  · intro M σ
    rw [value, hvalue, Option.getD_some]

theorem takenAs_digits {literal : Spelling} (hne : literal.text.toList ≠ [])
    (hdigits : IsDigits literal.text.toList) :
    (number literal).TakenAs (positional literal.text.toList : ℤ) := by
  refine takenAs_number (int?_of_digits hne hdigits) ?_ fun hpoint => ?_
  · rw [Int.cast_natCast]
    exact (Decimal.whole hne hdigits).rational?_eq
  · have hdigit := hdigits '.' hpoint
    contradiction

/-- Also the sign in front of a negative operand is a literal, the integer minus one. -/
theorem takenAs_sign (p : Position) : (number ⟨"-1", p⟩).TakenAs (-1) := by
  have hinteger : int? "-1" = some (-1) := by decide +kernel
  have hvalue : rational? "-1" = some ((-1 : ℤ) : ℚ) := by decide +kernel
  have hpoint : '.' ∉ "-1".toList := by decide +kernel
  exact takenAs_number hinteger hvalue hpoint

/-- A number without a point. -/
def IsUnsigned (e : Expr) : Prop :=
  ∃ literal : Spelling, e = .number literal ∧ '.' ∉ literal.text.toList

/-- A sign in front of a number without a point. -/
def IsSigned (e : Expr) : Prop :=
  ∃ sign literal : Spelling, e = .binary .mul (.number sign) (.number literal) ∧
    sign.text = "-1" ∧ '.' ∉ literal.text.toList

/-- Of a signed number the slot captures the negative of the number behind the sign. -/
theorem capturedAs_signed {sign literal : Spelling} {n : ℤ} (hsign : sign.text = "-1")
    (h : (number literal).CapturedAs n) (hn : int? literal.text = some n) :
    (binary .mul (number sign) (number literal)).CapturedAs (-n) := by
  have hinteger : (binary .mul (number sign) (number literal)).integer? = some (-n) := by
    rw [integer?, if_pos hsign, hn, Option.map_some]
  refine ⟨atIntegerSlot_of_integer? hinteger, ?_, fun M σ => ?_⟩
  · exact fun _ _ _ _ hget => issues_parameter_integer hget
  · have hminus : rational? sign.text = some (-1 : ℚ) := by
      rw [hsign]
      decide +kernel
    rw [value, value, hminus, h.value, Option.getD_some, Interpretation.operation, Int.cast_neg,
      neg_one_mul]

/-- A number with a point is taken nowhere, whatever its value. -/
theorem takenNowhere_number {literal : Spelling} (h : ¬ (number literal).IsUnsigned) :
    (number literal).TakenNowhere := by
  have hpoint : '.' ∈ literal.text.toList := by
    by_contra hwhole
    exact h ⟨literal, rfl, hwhole⟩
  refine takenNowhere ?_ ?_
  · rw [integer?]
    exact int?_of_point hpoint
  · simpa [ArgumentType.accepts] using hpoint

/-- An operation is taken nowhere, unless it is a sign in front of a number without a point. -/
theorem takenNowhere_binary {op : BinaryOp} {left right : Expr}
    (h : ¬ (binary op left right).IsSigned) : (binary op left right).TakenNowhere := by
  refine takenNowhere ?_ rfl
  rw [integer?.eq_def]
  split
  · contradiction
  · next sign literal heq =>
    obtain ⟨rfl, rfl, rfl⟩ := Expr.binary.inj heq
    split
    · next hsign =>
      have hpoint : '.' ∈ literal.text.toList := by
        by_contra hwhole
        exact h ⟨sign, literal, rfl, hsign, hwhole⟩
      rw [int?_of_point hpoint, Option.map_none]
    · rfl
  · rfl

/-- Apart from numbers with or without a sign nothing is an integer. -/
theorem takenNowhere_of_not {e : Expr} (hunsigned : ¬ e.IsUnsigned) (hsigned : ¬ e.IsSigned) :
    e.TakenNowhere := by
  cases e with
  | number _ => exact takenNowhere_number hunsigned
  | binary _ _ _ => exact takenNowhere_binary hsigned
  | symbol _ | call _ _ => exact takenNowhere rfl rfl

/-! ## Parts of queries -/

/-- A part of what is read is itself of the kind that is read, or it is a sign. -/
theorem Legible.of_isPartOf {e f : Expr} (h : e.IsPartOf f) (hf : f.Legible) :
    e.Legible ∨ ∃ p, e = .number ⟨"-1", p⟩ := by
  induction h with
  | refl => exact .inl hf
  | left hpart ih =>
    cases hf with
    | negative sign _ =>
      cases hpart with
      | refl => exact .inr ⟨sign, rfl⟩
    | binary _ hl _ => exact ih hl
  | right _ ih =>
    cases hf with
    | negative _ h => exact ih h
    | binary _ _ hr => exact ih hr
  | argument ha _ ih =>
    cases hf with
    | call _ h => exact ih (h _ ha)

theorem LegibleEquation.of_isPartOf {e f : Expr} (h : e.IsPartOf f) (hf : f.LegibleEquation) :
    e.LegibleEquation ∨ ∃ p, e = .number ⟨"-1", p⟩ := by
  cases hf with
  | term hf => exact (Legible.of_isPartOf h hf).imp_left .term
  | equal hl hr =>
    cases h with
    | refl => exact .inl (.equal hl hr)
    | left h => exact (Legible.of_isPartOf h hl).imp_left .term
    | right h => exact (Legible.of_isPartOf h hr).imp_left .term

/-- A number without a point is digits, so it is taken everywhere. -/
theorem LegibleEquation.taken {e : Expr} (h : e.LegibleEquation) (hunsigned : e.IsUnsigned) :
    ∃ n, e.TakenAs n := by
  obtain ⟨literal, rfl, hpoint⟩ := hunsigned
  cases h with
  | term h =>
    cases h with
    | number h => exact ⟨_, takenAs_digits h.ne_nil (h.isDigits_iff.mpr hpoint)⟩

/-- A signed number is captured by slots, but no parameter takes it. -/
theorem LegibleEquation.captured {e : Expr} (h : e.LegibleEquation) (hsigned : e.IsSigned) :
    (∃ n, e.CapturedAs n) ∧ e.AtIntegerParameter false ∧ e.AtIntegerOperand none := by
  obtain ⟨sign, literal, rfl, hsign, hpoint⟩ := hsigned
  refine ⟨?_, atIntegerParameter_accepts _, atIntegerOperand_of_refuses rfl⟩
  have hnumeral : IsNumeral literal.text.toList := by
    cases h with
    | term h =>
      cases h with
      | negative _ h | binary _ _ h =>
        cases h with
        | number h => exact h
  have hdigits := hnumeral.isDigits_iff.mpr hpoint
  have htaken := takenAs_digits hnumeral.ne_nil hdigits
  exact ⟨_, capturedAs_signed hsign htaken.toCapturedAs (int?_of_digits hnumeral.ne_nil hdigits)⟩

/-- Which parts of a query are taken as integers.  A number without a point is taken by slots, by
parameters of functions and by parameters of operations, and all three lead to the number that
is its value.  Apart from signed numbers, everything else is taken by none of them.  A signed
number is taken by slots only, which lead to its value. -/
theorem integer_places {source : String} {program : Program} (hparse : parse source = .ok program)
    {term : Expr} (hterm : term ∈ program.terms) {e : Expr} (he : e.IsPartOf term) :
    (e.IsUnsigned → ∃ n, e.TakenAs n) ∧
      (¬ e.IsUnsigned → ¬ e.IsSigned → e.TakenNowhere) ∧
      (e.IsSigned → (∃ n, e.CapturedAs n) ∧ e.AtIntegerParameter false ∧
        e.AtIntegerOperand none) := by
  refine ⟨fun hunsigned => ?_, takenNowhere_of_not, fun hsigned => ?_⟩
  · rcases (legible_of_parse hparse hterm).of_isPartOf he with hlegible | ⟨p, rfl⟩
    · exact hlegible.taken hunsigned
    · exact ⟨-1, takenAs_sign p⟩
  · rcases (legible_of_parse hparse hterm).of_isPartOf he with hlegible | ⟨p, rfl⟩
    · exact hlegible.captured hsigned
    · -- the sign alone is no product
      obtain ⟨_, _, heq, -⟩ := hsigned
      injection heq

/-- Of the arguments in `log(007, 2.0, -3)`, the first is an integer in all three places, the
second in none, and the third for slots only. -/
theorem integer_places_of_arguments :
    let seven := Expr.number ⟨"007", ⟨1, 5⟩⟩
    let two := Expr.number ⟨"2.0", ⟨1, 10⟩⟩
    let three := Expr.binary .mul (.number ⟨"-1", ⟨1, 15⟩⟩) (.number ⟨"3", ⟨1, 16⟩⟩)
    let call := Expr.call ⟨"log", ⟨1, 1⟩⟩ [seven, two, three]
    parse "log(007, 2.0, -3)" = .ok ⟨[[[call]]]⟩ ∧
      (∃ n, seven.TakenAs n) ∧ two.TakenNowhere ∧
      (∃ n, three.CapturedAs n) ∧ three.AtIntegerParameter false := by
  intro seven two three call
  have hunsigned : seven.IsUnsigned := ⟨_, rfl, by decide +kernel⟩
  have hpoint : ¬ two.IsUnsigned := by
    rintro ⟨literal, heq, hwhole⟩
    obtain rfl := Expr.number.inj heq
    exact hwhole (by decide +kernel)
  have hproduct : ¬ two.IsSigned := by
    rintro ⟨_, _, heq, -⟩
    injection heq
  have hsigned : three.IsSigned := ⟨_, _, rfl, rfl, by decide +kernel⟩
  have hparse : parse "log(007, 2.0, -3)" = .ok ⟨[[[call]]]⟩ := by decide +kernel
  have hpart {e : Expr} (he : e ∈ [seven, two, three]) : e.IsPartOf call := .argument he .refl
  have hcaptured := (integer_places hparse List.mem_cons_self (hpart (e := three) (by simp))).2.2
  refine ⟨hparse, ?_, ?_, (hcaptured hsigned).1, (hcaptured hsigned).2.1⟩
  · exact (integer_places hparse List.mem_cons_self (hpart (by simp))).1 hunsigned
  · exact (integer_places hparse List.mem_cons_self (hpart (by simp))).2.1 hpoint hproduct

/-- In `root(x, -2)` the second argument is the integer minus two for every slot, but the
function refuses it, and so do operations. -/
theorem integer_places_differ :
    let x := Expr.symbol ⟨"x", ⟨1, 6⟩⟩
    let two := Expr.binary .mul (.number ⟨"-1", ⟨1, 9⟩⟩) (.number ⟨"2", ⟨1, 10⟩⟩)
    let root := Expr.call ⟨"root", ⟨1, 1⟩⟩ [x, two]
    parse "root(x, -2)" = .ok ⟨[[[root]]]⟩ ∧ two.IsPartOf root ∧
      two.AtIntegerSlot (.ok (.integer (-2))) ∧
      FunctionTable.standard.resolve "root" [x, two] =
        .error (.argumentType "root" 1 .integer .expression) ∧
      two.AtIntegerOperand none := by
  intro x two root
  have hinteger : two.integer? = some (-2) := by decide +kernel
  refine ⟨by decide +kernel, .argument (by simp) .refl, atIntegerSlot_of_integer? hinteger,
    by decide +kernel, atIntegerOperand_of_refuses rfl⟩

end Expr

end MathQuery
