import Mathlib.Data.List.TakeWhile
import Mathlib.Data.Rat.Lemmas
import MathQuery.Algebra.Numeral

/-!
# Numbers written in digits

A natural number is written in decimal digits, and its digits are a literal that stands
for it.
-/

namespace MathQuery

/-- What digits are read as, one after the other. -/
theorem natOfDigitsFrom_eq (value : ℕ) (ds : List Char) :
    natOfDigitsFrom value ds = Nat.ofDigitChars 10 ds value := by
  fun_induction natOfDigitsFrom value ds with
  | case1 value => rw [Nat.ofDigitChars_nil]
  | case2 value d ds ih => rw [ih, Nat.ofDigitChars_cons, digitValue]

theorem natOfDigits_toString (n : ℕ) : natOfDigits (toString n).toList = n := by
  rw [natOfDigits, natOfDigitsFrom_eq, Nat.toString_eq_repr, Nat.toList_repr,
    Nat.ofDigitChars_ten_toDigits]

theorem isDigit_of_mem_toString (n : ℕ) : ∀ d ∈ (toString n).toList, d.isDigit = true := by
  intro d hd
  rw [Nat.toString_eq_repr, Nat.toList_repr] at hd
  exact Nat.isDigit_of_mem_toDigits (by decide) (by decide) hd

theorem toString_ne_nil (n : ℕ) : (toString n).toList ≠ [] := by
  rw [Nat.toString_eq_repr, Nat.toList_repr]
  exact Nat.toDigits_ne_nil

theorem num_of_isWhole {q : ℚ} (h : isWhole q = true) : (q.num : ℚ) = q :=
  (Rat.den_eq_one_iff q).mp (by simpa [isWhole] using h)

theorem isWhole_natCast (n : ℕ) : isWhole (n : ℚ) = true := by
  rw [isWhole, Rat.den_natCast]
  rfl

/-- Digits without a point stand for a whole number. -/
theorem unsignedRational?_of_digits {ds : List Char} (hne : ds ≠ [])
    (hds : ∀ d ∈ ds, d.isDigit = true) : unsignedRational? ds = some (natOfDigits ds : ℚ) := by
  have hpoint : ∀ d ∈ ds, (d != '.') = true := by
    intro d hd
    by_contra hnot
    have hdigit := hds d hd
    have heq : d = '.' := by simpa using hnot
    rw [heq] at hdigit
    contradiction
  have hwhole : ds.takeWhile (· != '.') = ds := List.takeWhile_eq_self_iff.mpr hpoint
  have hfraction : ds.dropWhile (· != '.') = [] := List.dropWhile_eq_nil_iff.mpr hpoint
  have hall : ds.all Char.isDigit = true := List.all_eq_true.mpr hds
  rw [unsignedRational?, hwhole, hfraction, List.drop_nil, List.append_nil, hall,
    List.isEmpty_eq_false_iff.mpr hne]
  show some (mkRat (natOfDigits ds) 1) = some (natOfDigits ds : ℚ)
  rw [Rat.mkRat_eq_div, Nat.cast_one, div_one, Int.cast_natCast]

/-- The digits of a natural number are a literal that stands for it. -/
theorem rational?_toString (n : ℕ) : rational? (toString n) = some (n : ℚ) := by
  have hdigits := unsignedRational?_of_digits (toString_ne_nil n) (isDigit_of_mem_toString n)
  rw [natOfDigits_toString] at hdigits
  rw [rational?]
  split
  · next cs hcs =>
    -- the first character would be a minus, which is no digit
    have hminus := isDigit_of_mem_toString n '-' (by rw [hcs]; exact List.mem_cons_self)
    contradiction
  · exact hdigits

end MathQuery
