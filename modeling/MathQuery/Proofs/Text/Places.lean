import Mathlib.Data.List.Induction
import Mathlib.Tactic.Common
import MathQuery.Text.Cursor

/-!
# Places in a text

A place is in a text if it is that of one of its characters or of its end, counted in lines and
columns.  Whoever reads on stays in the text, and what stands later in it has a later place.

* `Position.behind` – the place behind some characters, by counting line breaks and columns;
* `Position.IsIn` – the places in a text;
* `Failure.PointsInto` – the failures that name one;
* `Position.Before` – the order of places, by line and then by column;
* `Cursor.Within` – cursors into a text, which stay in it.
-/

namespace MathQuery

namespace Position

/-- The place behind some characters: one more than the line breaks among them, and one more
than the characters since the last line break. -/
def behind (before : List Char) : Position :=
  ⟨1 + before.count '\n', 1 + (before.reverse.takeWhile (· ≠ '\n')).length⟩

theorem advanceAll_start (before : List Char) : start.advanceAll before = behind before := by
  induction before using List.reverseRecOn with
  | nil => rfl
  | append_singleton before c ih =>
    rw [advanceAll_append, ih, advanceAll_cons, advanceAll_nil, advance]
    split
    · next hbreak =>
      subst hbreak
      simp [behind, List.count_append]
      omega
    · next hbreak =>
      simp [behind, List.count_append, hbreak]
      omega

/-- The place behind more characters. -/
theorem advanceAll_behind (before run : List Char) :
    (behind before).advanceAll run = behind (before ++ run) := by
  rw [← advanceAll_start, ← advanceAll_start, advanceAll_append]

/-- A place in a text is that of one of its characters or of its end. -/
def IsIn (p : Position) (source : String) : Prop :=
  ∃ before after, source.toList = before ++ after ∧ p = behind before

theorem start_isIn (source : String) : start.IsIn source :=
  ⟨[], source.toList, rfl, rfl⟩

end Position

/-- A failure names a place in a text. -/
def Failure.PointsInto (e : Failure) (source : String) : Prop :=
  ∃ p, e.position? = some p ∧ p.IsIn source

namespace Position

/-! ## The order of places -/

/-- One place is before another: on an earlier line, or in an earlier column of the line. -/
def Before (p q : Position) : Prop := p.line < q.line ∨ p.line = q.line ∧ p.column < q.column

variable {p q r : Position}

theorem Before.trans (h : p.Before q) (h' : q.Before r) : p.Before r := by
  unfold Before at *
  omega

theorem before_advance (p : Position) (c : Char) : p.Before (p.advance c) := by
  rw [advance]
  split
  · exact .inl (Nat.lt_succ_self _)
  · exact .inr ⟨rfl, Nat.lt_succ_self _⟩

/-- Behind one or more characters the place is a later one. -/
theorem before_advanceAll {run : List Char} (hne : run ≠ []) (p : Position) :
    p.Before (p.advanceAll run) := by
  induction run generalizing p with
  | nil => contradiction
  | cons c run ih =>
    rw [advanceAll_cons]
    have hfirst := p.before_advance c
    cases run with
    | nil => exact hfirst
    | cons d run => exact hfirst.trans (ih (List.cons_ne_nil d run) (p.advance c))

end Position

/-! ## Cursors into a text -/

/-- What is left behind a cursor is the rest of a text, and its place says how much is in
front. -/
def Cursor.Within (source : String) (c : Cursor) : Prop :=
  ∃ before, source.toList = before ++ c.rest ∧ c.position = .behind before

namespace Cursor

variable {source : String} {c : Cursor}

theorem within_ofString (source : String) : (ofString source).Within source :=
  ⟨[], rfl, rfl⟩

theorem Within.isIn (h : c.Within source) : c.position.IsIn source := by
  obtain ⟨before, hsource, hposition⟩ := h
  exact ⟨before, c.rest, hsource, hposition⟩

/-- A cursor further on is in the text as well. -/
theorem Within.drop (h : c.Within source) (n : ℕ) : (c.drop n).Within source := by
  obtain ⟨before, hsource, hposition⟩ := h
  refine ⟨before ++ c.rest.take n, ?_, ?_⟩
  · rw [hsource, List.append_assoc, Cursor.drop, List.take_append_drop]
  · rw [Cursor.drop, hposition, Position.advanceAll_behind]

theorem Within.skipBlanks (h : c.Within source) : c.skipBlanks.Within source := h.drop _

end Cursor

end MathQuery
