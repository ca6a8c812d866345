import MathQuery.Order.Balanced

/-!
# Sorting

A list is sorted by merging sorted runs, starting from runs of one element each.
The result has the same elements (`sortBy_perm`), and it is in order whenever the
comparison is transitive and total (`sortBy_pairwise`).
-/

namespace MathQuery

variable {α : Type}

/-- Merge one element in front of further elements, whose own merge is `later`,
with a sorted list. -/
def mergeOne (le : α → α → Bool) (a : α) (later : List α → List α) : List α → List α
  | [] => a :: later []
  | b :: bs => if le a b then a :: later (b :: bs) else b :: mergeOne le a later bs

/-- Merge two sorted lists; of equal elements those of the first list come first. -/
def mergeRuns (le : α → α → Bool) : List α → List α → List α
  | [] => id
  | a :: as => mergeOne le a (mergeRuns le as)

/-- Sort a list. -/
def sortBy (le : α → α → Bool) (l : List α) : List α :=
  Balanced.combine (mergeRuns le) [] (l.map ([·]))

/-- Merging two runs is the merge of the standard library. -/
theorem mergeRuns_eq_merge (le : α → α → Bool) (as bs : List α) :
    mergeRuns le as bs = as.merge bs le := by
  induction as generalizing bs with
  | nil => simp [mergeRuns]
  | cons a as ih =>
    rw [mergeRuns]
    induction bs with
    | nil => simp [mergeOne, ih]
    | cons b bs ihb =>
      rw [mergeOne, List.cons_merge_cons, ih, ihb]

/-- Sorting keeps the elements. -/
theorem sortBy_perm (le : α → α → Bool) (l : List α) : (sortBy le l).Perm l := by
  have hmerge (as bs : List α) : (mergeRuns le as bs).Perm (as ++ bs) := by
    rw [mergeRuns_eq_merge]
    exact List.merge_perm_append le
  have hpairs (runs : List (List α)) :
      (Balanced.joinPairs (mergeRuns le) runs).flatten.Perm runs.flatten := by
    induction runs using Balanced.joinPairs.induct with
    | case1 r s later ih =>
      rw [Balanced.joinPairs, List.flatten_cons, List.flatten_cons, List.flatten_cons,
        ← List.append_assoc]
      exact (hmerge r s).append ih
    | case2 rest hrest =>
      rw [Balanced.joinPairs]
      exact hrest
  have hall (fuel : Nat) (runs : List (List α)) :
      (Balanced.combineUpTo (mergeRuns le) [] fuel runs).Perm runs.flatten := by
    induction fuel generalizing runs with
    | zero =>
      induction runs with
      | nil => exact .refl _
      | cons r later ih => exact (hmerge r _).trans (ih.append_left r)
    | succ fuel ih =>
      rcases runs with _ | ⟨r, _ | ⟨s, later⟩⟩
      · exact .refl _
      · simp [Balanced.combineUpTo]
      · exact (ih _).trans (hpairs _)
  have hflat : (l.map ([·])).flatten = l := by
    induction l with
    | nil => rfl
    | cons a l ih => simp [ih]
  have h := hall (l.map ([·])).length (l.map ([·]))
  rwa [hflat] at h

/-- A sorted list is in order. -/
theorem sortBy_pairwise (le : α → α → Bool)
    (htrans : ∀ a b c, le a b → le b c → le a c) (htotal : ∀ a b, le a b || le b a)
    (l : List α) : (sortBy le l).Pairwise fun a b => le a b := by
  refine Balanced.combine_closed (mergeRuns le) [] (·.Pairwise fun a b => le a b) ?_ .nil _ ?_
  · intro as bs has hbs
    rw [mergeRuns_eq_merge]
    exact List.pairwise_merge htrans htotal as bs has hbs
  · intro run hrun
    obtain ⟨a, -, rfl⟩ := List.mem_map.mp hrun
    exact List.pairwise_singleton _ a

@[simp] theorem mem_sortBy (le : α → α → Bool) (l : List α) (a : α) :
    a ∈ sortBy le l ↔ a ∈ l :=
  (sortBy_perm le l).mem_iff

@[simp] theorem length_sortBy (le : α → α → Bool) (l : List α) :
    (sortBy le l).length = l.length :=
  (sortBy_perm le l).length_eq

end MathQuery
