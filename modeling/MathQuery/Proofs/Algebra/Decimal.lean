import Mathlib.Data.Nat.Digits.Defs
import MathQuery.Compile
import MathQuery.Proofs.Algebra.Numeral
import MathQuery.Proofs.Query.Spelling

/-!
# Decimal literals

A literal is read as the number that its digits stand for by their places, whatever their
number and wherever the point is.  Nothing else is read as a number.  The scanner of queries
finds numbers of this form only, and an integer is written in it.

* `positional` – the value of digits by their places;
* `Decimal`, `Literal` – the texts of numbers with their values;
* `rational?_eq_some_iff` – these are the texts that are read, with these values;
* `Compiler.value_integer` – a captured integer is issued as the number that it is.
-/

namespace MathQuery

/-! ## Digits -/

/-- The value of digits by their places: the last one counts ones, the one in front of it
tens, and so on. -/
def positional (ds : List Char) : ℕ := Nat.ofDigits 10 (ds.reverse.map digitValue)

theorem positional_cons (d : Char) (ds : List Char) :
    positional (d :: ds) = digitValue d * 10 ^ ds.length + positional ds := by
  rw [positional, List.reverse_cons, List.map_append, Nat.ofDigits_append]
  simp [positional]
  ring

/-- Reading digits one after the other gives their value by places. -/
theorem natOfDigitsFrom_eq_positional (value : ℕ) (ds : List Char) :
    natOfDigitsFrom value ds = value * 10 ^ ds.length + positional ds := by
  fun_induction natOfDigitsFrom value ds with
  | case1 value => simp [positional]
  | case2 value d ds ih =>
    rw [ih, positional_cons, List.length_cons]
    ring

theorem natOfDigits_eq_positional (ds : List Char) : natOfDigits ds = positional ds := by
  rw [natOfDigits, natOfDigitsFrom_eq_positional, Nat.zero_mul, Nat.zero_add]

/-! ## Literals -/

/-- Nothing but digits. -/
def IsDigits (ds : List Char) : Prop := ∀ d ∈ ds, d.isDigit = true

/-- The texts of numbers without a sign, with the numbers that they stand for: digits, and
optionally a point with digits behind it.  There is a digit in front of the point or
behind it. -/
inductive Decimal : List Char → ℚ → Prop
  | whole {ds : List Char} (hne : ds ≠ []) (hds : IsDigits ds) : Decimal ds (positional ds)
  | pointed {ds fs : List Char} (hne : ds ++ fs ≠ []) (hds : IsDigits ds) (hfs : IsDigits fs) :
    Decimal (ds ++ '.' :: fs) (positional (ds ++ fs) / 10 ^ fs.length)

/-- The texts of numbers with at most one minus in front. -/
inductive Literal : List Char → ℚ → Prop
  | unsigned {cs : List Char} {q : ℚ} (h : Decimal cs q) : Literal cs q
  | negative {cs : List Char} {q : ℚ} (h : Decimal cs q) : Literal ('-' :: cs) (-q)

theorem IsDigits.ne_point {ds : List Char} (h : IsDigits ds) : ∀ d ∈ ds, (d != '.') = true := by
  intro d hd
  have hdigit := h d hd
  rw [bne_iff_ne]
  rintro rfl
  contradiction

theorem isDigits_append {ds fs : List Char} (h : IsDigits (ds ++ fs)) :
    IsDigits ds ∧ IsDigits fs :=
  List.forall_mem_append.mp h

/-- What stands in front of the first point and behind it, if the digits are all that count. -/
theorem unsignedRational?_eq_some {cs whole fraction : List Char} {q : ℚ}
    (hwhole : cs.takeWhile (· != '.') = whole)
    (hfraction : (cs.dropWhile (· != '.')).drop 1 = fraction) :
    unsignedRational? cs = some q ↔ whole ++ fraction ≠ [] ∧ IsDigits (whole ++ fraction) ∧
      q = positional (whole ++ fraction) / 10 ^ fraction.length := by
  have hvalue : mkRat (natOfDigits (whole ++ fraction)) (Nat.pow 10 fraction.length) =
      positional (whole ++ fraction) / 10 ^ fraction.length := by
    rw [Rat.mkRat_eq_div, natOfDigits_eq_positional, Nat.pow_eq]
    push_cast
    rfl
  rw [unsignedRational?, hwhole, hfraction, hvalue]
  split
  · next hnot =>
    simp only [Bool.or_eq_true, List.isEmpty_iff, Bool.not_eq_true', List.all_eq_false] at hnot
    refine iff_of_false (by simp) ?_
    rintro ⟨hne, hdigits, -⟩
    obtain hempty | ⟨d, hd, hnondigit⟩ := hnot
    · exact hne hempty
    · exact hnondigit (hdigits d hd)
  · next hok =>
    simp only [Bool.or_eq_true, List.isEmpty_iff, Bool.not_eq_true', not_or,
      Bool.not_eq_false, List.all_eq_true] at hok
    rw [Option.some_inj, eq_comm]
    exact ⟨fun hq => ⟨hok.1, hok.2, hq⟩, fun h => h.2.2⟩

/-- What a number is read from is digits with at most one point. -/
theorem decimal_of_unsignedRational? {cs : List Char} {q : ℚ}
    (h : unsignedRational? cs = some q) : Decimal cs q := by
  have hsplit := List.takeWhile_append_dropWhile (p := (· != '.')) (l := cs)
  obtain ⟨hne, hdigits, rfl⟩ := (unsignedRational?_eq_some rfl rfl).mp h
  cases hdrop : cs.dropWhile (· != '.') with
  | nil =>
    -- without a point all digits are in front
    rw [hdrop, List.append_nil] at hsplit
    simp only [hdrop, List.drop_nil, List.append_nil, hsplit] at hne hdigits ⊢
    simpa using Decimal.whole hne hdigits
  | cons point fraction =>
    have hpoint : point = '.' := by
      have hnot := List.head?_dropWhile_not (· != '.') cs
      rw [hdrop] at hnot
      simpa using hnot
    subst hpoint
    rw [hdrop] at hsplit
    simp only [hdrop, List.drop_succ_cons, List.drop_zero] at hne hdigits ⊢
    obtain ⟨hds, hfs⟩ := isDigits_append hdigits
    have hdecimal := Decimal.pointed hne hds hfs
    rwa [hsplit] at hdecimal

/-- From digits with at most one point their value is read. -/
theorem Decimal.unsignedRational?_eq {cs : List Char} {q : ℚ} (h : Decimal cs q) :
    unsignedRational? cs = some q := by
  cases h with
  | whole hne hds =>
    have htake : cs.takeWhile (· != '.') = cs := List.takeWhile_eq_self_iff.mpr hds.ne_point
    have hdrop : (cs.dropWhile (· != '.')).drop 1 = [] := by
      rw [List.dropWhile_eq_nil_iff.mpr hds.ne_point, List.drop_nil]
    rw [unsignedRational?_eq_some htake hdrop, List.append_nil]
    exact ⟨hne, hds, by simp⟩
  | @pointed ds fs hne hds hfs =>
    have hhead : ∀ c, ('.' :: fs).head? = some c → (c != '.') = false := by
      rintro _ ⟨⟩
      rfl
    have htake := takeWhile_append_of_head hds.ne_point hhead
    have hdrop : ((ds ++ '.' :: fs).dropWhile (· != '.')).drop 1 = fs := by
      rw [dropWhile_append_of_head hds.ne_point hhead]
      rfl
    rw [unsignedRational?_eq_some htake hdrop]
    exact ⟨hne, List.forall_mem_append.mpr ⟨hds, hfs⟩, rfl⟩

/-- Digits with at most one point are what a number without a sign is read from. -/
theorem unsignedRational?_eq_some_iff {cs : List Char} {q : ℚ} :
    unsignedRational? cs = some q ↔ Decimal cs q :=
  ⟨decimal_of_unsignedRational?, Decimal.unsignedRational?_eq⟩

/-- A number without a sign does not begin with a minus. -/
theorem Decimal.head_ne {cs : List Char} {q : ℚ} (h : Decimal ('-' :: cs) q) : False := by
  have hminus : ¬ ('-' : Char).isDigit = true := by decide
  generalize hcs : '-' :: cs = text at h
  cases h with
  | whole _ hds =>
    rw [← hcs] at hds
    exact hminus (hds '-' List.mem_cons_self)
  | @pointed ds fs _ hds _ =>
    cases ds with
    | nil => simp at hcs
    | cons d ds =>
      obtain ⟨rfl, -⟩ := List.cons.inj hcs
      exact hminus (hds '-' List.mem_cons_self)

/-- The literals are the texts that are read as numbers. -/
theorem rational?_eq_some_iff {literal : String} {q : ℚ} :
    rational? literal = some q ↔ Literal literal.toList q := by
  rw [rational?]
  split
  · next cs hcs =>
    rw [hcs, Option.map_eq_some_iff]
    constructor
    · rintro ⟨p, hp, rfl⟩
      exact .negative (unsignedRational?_eq_some_iff.mp hp)
    · intro h
      generalize htext : '-' :: cs = text at h
      cases h with
      | unsigned h => exact (Decimal.head_ne (htext ▸ h)).elim
      | @negative cs' p h =>
        obtain ⟨-, rfl⟩ := List.cons.inj htext
        exact ⟨p, unsignedRational?_eq_some_iff.mpr h, rfl⟩
  · next hnot =>
    rw [unsignedRational?_eq_some_iff]
    constructor
    · exact .unsigned
    · intro h
      generalize htext : literal.toList = text at h
      cases h with
      | unsigned h => exact h
      | negative _ => exact absurd htext (hnot _)

/-! ## Where literals come from -/

/-- The numbers of queries are literals without a sign. -/
theorem IsNumeral.exists_decimal {cs : List Char} (h : IsNumeral cs) : ∃ q, Decimal cs q := by
  cases h with
  | whole hne hds => exact ⟨_, .whole hne hds⟩
  | decimal hne hds hfs => exact ⟨_, .pointed (List.append_ne_nil_of_left_ne_nil hne _) hds hfs⟩

theorem Decimal.rational?_eq {literal : String} {q : ℚ} (h : Decimal literal.toList q) :
    rational? literal = some q :=
  rational?_eq_some_iff.mpr (.unsigned h)

theorem decimal_toString (n : ℕ) : Decimal (toString n).toList n := by
  have hdecimal := Decimal.whole (toString_ne_nil n) (isDigit_of_mem_toString n)
  rwa [← natOfDigits_eq_positional, natOfDigits_toString] at hdecimal

/-- An integer is written as a literal that stands for it. -/
theorem rational?_toString_int (n : ℤ) : rational? (toString n) = some (n : ℚ) := by
  rw [rational?_eq_some_iff]
  cases n with
  | ofNat n => exact .unsigned (decimal_toString n)
  | negSucc n =>
    have hliteral := Literal.negative (decimal_toString (n + 1))
    have htext : (toString (Int.negSucc n)).toList = '-' :: (toString (n + 1)).toList := by
      show ("-" ++ toString (n + 1)).toList = _
      rw [String.toList_append]
      rfl
    rwa [htext, Int.cast_negSucc]

namespace Compiler

/-- Text of a number is issued as the number. -/
theorem number_of_rational? {literal : String} {q : ℚ} (h : rational? literal = some q)
    (table : TermTable) :
    ofBuilder (.number literal) table = .ok table.size ⟨table.terms.push (.number q)⟩ := by
  rw [ofBuilder, Builder.number.eq_def, h]
  rfl

/-- A captured integer is issued as the number that it is, where an expression is asked for
and where an integer is. -/
theorem value_integer (functions : FunctionTable) (n : ℤ) (table : TermTable) :
    value functions (.integer n) table = .ok table.size ⟨table.terms.push (.number n)⟩ ∧
      ∀ operation index, integer functions operation index (.integer n) table =
        .ok table.size ⟨table.terms.push (.number n)⟩ := by
  have hnumber := number_of_rational? (rational?_toString_int n) table
  exact ⟨hnumber, fun _ _ => hnumber⟩

end Compiler

/-- The texts that are read as numbers are the literals, with the values of their digits.  Of
this form are the numbers that the scanner of queries finds, wherever it stands, and the texts
of integers, so that a captured integer is issued as the number that it is. -/
theorem rational?_reads_literals :
    (∀ literal q, rational? literal = some q ↔ Literal literal.toList q) ∧
      (∀ c l after, Lexeme.scan c = (.ok l, after) → l.kind = .number →
        ∃ q, Decimal l.text.toList q ∧ rational? l.text = some q) ∧
      (∀ n : ℤ, rational? (toString n) = some (n : ℚ)) ∧
      ∀ functions n table,
        Compiler.value functions (.integer n) table =
            .ok table.size ⟨table.terms.push (.number n)⟩ ∧
          ∀ operation index, Compiler.integer functions operation index (.integer n) table =
            .ok table.size ⟨table.terms.push (.number n)⟩ := by
  refine ⟨fun _ _ => rational?_eq_some_iff, fun c l after hscan hkind => ?_,
    rational?_toString_int, Compiler.value_integer⟩
  obtain ⟨q, hq⟩ := ((Lexeme.scan_eq_ok_iff.mp hscan).isNumeral hkind).exists_decimal
  exact ⟨q, hq, hq.rational?_eq⟩

/-- A literal with a sign, zeros in front and zeros at the end; and a number of a query that
ends with its point. -/
theorem rational?_reads_literals_of_zeros :
    Literal "-003.250".toList (-13 / 4) ∧
      let l : Lexeme := ⟨⟨⟨"07.", ⟨1, 2⟩⟩, .number⟩, true⟩
      Lexeme.scan (.ofString " 07.x") = (.ok l, ⟨['x'], ⟨1, 5⟩⟩) ∧ l.kind = .number ∧
        ∃ q, Decimal l.text.toList q ∧ rational? l.text = some q := by
  have hvalue : rational? "-003.250" = some (-13 / 4) := by decide +kernel
  have hscan : Lexeme.scan (.ofString " 07.x") =
      (.ok ⟨⟨⟨"07.", ⟨1, 2⟩⟩, .number⟩, true⟩, ⟨['x'], ⟨1, 5⟩⟩) := rfl
  exact ⟨(rational?_reads_literals.1 _ _).mp hvalue, hscan, rfl,
    rational?_reads_literals.2.1 _ _ _ hscan rfl⟩

end MathQuery
