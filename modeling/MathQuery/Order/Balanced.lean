/-!
# Balanced combination

A list is combined by joining neighbours, then neighbours of the joined values,
and so on until one value is left.  Joining `n` values takes about `log n` rounds,
so an operation whose cost grows with its operands is never applied to one large
operand again and again.

* `combine_hom` – for an associative meaning of the operation, the result is that
  of combining one after the other;
* `combine_closed` – a property that the operation keeps holds for the result.
-/

namespace MathQuery

namespace Balanced

variable {α β : Type}

/-- Join neighbours. -/
def joinPairs (op : α → α → α) : List α → List α
  | a :: b :: later => op a b :: joinPairs op later
  | rest => rest

/-- Combine in at most `fuel` rounds, and what is left one after the other. -/
def combineUpTo (op : α → α → α) (unit : α) : Nat → List α → α
  | 0, values => values.foldr op unit
  | _ + 1, [] => unit
  | _ + 1, [a] => a
  | fuel + 1, a :: b :: later => combineUpTo op unit fuel (joinPairs op (a :: b :: later))

/-- Combine a list.  Every round makes it shorter, so its length bounds the
rounds. -/
def combine (op : α → α → α) (unit : α) (values : List α) : α :=
  combineUpTo op unit values.length values

/-- Joining neighbours does not change what the list amounts to. -/
theorem joinPairs_hom (op : α → α → α) (f : α → β) (g : β → β → β) (z : β)
    (hop : ∀ a b, f (op a b) = g (f a) (f b))
    (hassoc : ∀ x y w, g (g x y) w = g x (g y w)) (values : List α) :
    ((joinPairs op values).map f).foldr g z = (values.map f).foldr g z := by
  induction values using joinPairs.induct with
  | case1 a b later ih => simp [joinPairs, hop, hassoc, ih]
  | case2 rest hrest =>
    rw [joinPairs]
    exact hrest

/-- If `f` turns the operation into an associative one that has the image of the
unit on its right, the image of the result is found by combining the images one
after the other. -/
theorem combineUpTo_hom (op : α → α → α) (unit : α) (f : α → β) (g : β → β → β)
    (hop : ∀ a b, f (op a b) = g (f a) (f b))
    (hassoc : ∀ x y w, g (g x y) w = g x (g y w))
    (hunit : ∀ a, g (f a) (f unit) = f a) (fuel : Nat) (values : List α) :
    f (combineUpTo op unit fuel values) = (values.map f).foldr g (f unit) := by
  induction fuel generalizing values with
  | zero =>
    induction values with
    | nil => rfl
    | cons a later ih =>
      simp only [combineUpTo, List.foldr_cons, List.map_cons, hop] at ih ⊢
      rw [ih]
  | succ fuel ih =>
    rcases values with _ | ⟨a, _ | ⟨b, later⟩⟩
    · rfl
    · simp [combineUpTo, hunit]
    · rw [combineUpTo, ih, joinPairs_hom op f g (f unit) hop hassoc]

/-- The image of a combined list under a map that turns the operation into an
associative one. -/
theorem combine_hom (op : α → α → α) (unit : α) (f : α → β) (g : β → β → β)
    (hop : ∀ a b, f (op a b) = g (f a) (f b))
    (hassoc : ∀ x y w, g (g x y) w = g x (g y w))
    (hunit : ∀ a, g (f a) (f unit) = f a) (values : List α) :
    f (combine op unit values) = (values.map f).foldr g (f unit) :=
  combineUpTo_hom op unit f g hop hassoc hunit values.length values

/-- Joining neighbours keeps a property that the operation keeps. -/
theorem joinPairs_closed (op : α → α → α) (P : α → Prop)
    (hop : ∀ a b, P a → P b → P (op a b)) (values : List α) (hvalues : ∀ a ∈ values, P a) :
    ∀ a ∈ joinPairs op values, P a := by
  induction values using joinPairs.induct with
  | case1 a b later ih =>
    intro c hc
    rw [joinPairs, List.mem_cons] at hc
    rcases hc with rfl | hc
    · exact hop a b (hvalues a (by simp)) (hvalues b (by simp))
    · exact ih (fun d hd => hvalues d (by simp [hd])) c hc
  | case2 rest hrest =>
    rw [joinPairs]
    · exact hvalues
    · exact hrest

/-- A property of the unit and of all values that the operation keeps holds for
the result. -/
theorem combine_closed (op : α → α → α) (unit : α) (P : α → Prop)
    (hop : ∀ a b, P a → P b → P (op a b)) (hunit : P unit) (values : List α)
    (hvalues : ∀ a ∈ values, P a) : P (combine op unit values) := by
  suffices h : ∀ fuel, ∀ l : List α, (∀ a ∈ l, P a) → P (combineUpTo op unit fuel l) from
    h values.length values hvalues
  intro fuel
  induction fuel with
  | zero =>
    intro l hl
    induction l with
    | nil => exact hunit
    | cons a later ih =>
      exact hop a _ (hl a (by simp)) (ih fun b hb => hl b (by simp [hb]))
  | succ fuel ih =>
    intro l hl
    rcases l with _ | ⟨a, _ | ⟨b, later⟩⟩
    · exact hunit
    · exact hl a (by simp)
    · exact ih _ (joinPairs_closed op P hop _ hl)

end Balanced

end MathQuery
