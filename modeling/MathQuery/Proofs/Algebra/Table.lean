import MathQuery.Algebra.Builder

/-!
# Computations that issue terms

A computation on a table of terms only ever adds to it, apart from clearing it.  What it
yields can be said without the table, once it is said which terms stand under the
handles it yields.

* `TermTable.Extends` – a later table has all terms of an earlier one;
* `TermTable.Gives` – a computation ends as a result says, in every table from some one on;
* `TermTable.Gives.bind` – computations in succession give results in succession.
-/

namespace MathQuery

/-- All terms of an earlier table are in a later one, with their handles. -/
def TermTable.Extends (later earlier : TermTable) : Prop :=
  earlier.terms.toList <+: later.terms.toList

namespace TermTable

theorem Extends.refl (table : TermTable) : table.Extends table := List.prefix_rfl

theorem Extends.trans {first second third : TermTable} (h : second.Extends first)
    (h' : third.Extends second) : third.Extends first :=
  List.IsPrefix.trans h h'

theorem term_eq_ok_iff {table : TermTable} {handle : Handle} {t : Term} :
    table.term handle = .ok t ↔ table.terms.toList[handle]? = some t := by
  rw [term, Array.getElem?_toList]
  cases table.terms[handle]? <;> simp

theorem Extends.term {earlier later : TermTable} (h : later.Extends earlier) {handle : Handle}
    {t : Term} (ht : earlier.term handle = .ok t) : later.term handle = .ok t := by
  rw [term_eq_ok_iff] at ht ⊢
  obtain ⟨added, hadded⟩ := h
  rw [← hadded, List.getElem?_append_left (List.getElem?_eq_some_iff.mp ht).1, ht]

variable {ε α β γ δ : Type}

theorem bind_of_ok {σ : Type} {builder : EStateM ε σ α} {next : α → EStateM ε σ β}
    {state later : σ} {a : α} (h : builder state = .ok a later) :
    (builder >>= next) state = next a later := by
  change EStateM.bind builder next state = next a later
  simp [EStateM.bind, h]

theorem bind_of_error {σ : Type} {builder : EStateM ε σ α} {next : α → EStateM ε σ β}
    {state later : σ} {e : ε} (h : builder state = .error e later) :
    (builder >>= next) state = .error e later := by
  change EStateM.bind builder next state = .error e later
  simp [EStateM.bind, h]

/-- A run from `table` ends as `result` says, in a larger table; a value is related by
`R` to the one that `result` names. -/
inductive Agrees (R : TermTable → α → β → Prop) (table : TermTable) :
    EStateM.Result ε TermTable α → Except ε β → Prop
  | ok {a : α} {b : β} {later : TermTable} (hextends : later.Extends table)
      (hR : R later a b) : Agrees R table (.ok a later) (.ok b)
  | error {e : ε} {later : TermTable} (hextends : later.Extends table) :
      Agrees R table (.error e later) (.error e)

theorem Agrees.mono {R : TermTable → α → β → Prop} {first second : TermTable}
    {run : EStateM.Result ε TermTable α} {result : Except ε β}
    (h : Agrees R second run result) (hextends : second.Extends first) :
    Agrees R first run result := by
  cases h with
  | ok hextends' hR => exact .ok (hextends.trans hextends') hR
  | error hextends' => exact .error (hextends.trans hextends')

/-- From every table that extends `base` a computation ends as `result` says. -/
def Gives (base : TermTable) (R : TermTable → α → β → Prop) (builder : EStateM ε TermTable α)
    (result : Except ε β) : Prop :=
  ∀ table, table.Extends base → Agrees R table (builder table) result

variable {base : TermTable} {R : TermTable → α → β → Prop} {S : TermTable → γ → δ → Prop}
  {builder : EStateM ε TermTable α} {next : α → EStateM ε TermTable γ}

theorem gives_pure {a : α} {b : β} (h : ∀ table, table.Extends base → R table a b) :
    Gives base R (pure a : EStateM ε TermTable α) (.ok b) :=
  fun table hbase => .ok (.refl table) (h table hbase)

theorem gives_throw (e : ε) : Gives base R (throw e : EStateM ε TermTable α) (.error e) :=
  fun table _ => .error (.refl table)

/-- Computations in succession give what their results give in succession. -/
theorem Gives.bind {result : Except ε β} {nextResult : β → Except ε δ}
    (h : Gives base R builder result)
    (hnext : ∀ table a b, result = .ok b → table.Extends base → R table a b →
      Gives table S (next a) (nextResult b)) :
    Gives base S (builder >>= next) (result >>= nextResult) := by
  intro table hbase
  have hfirst := h table hbase
  cases hrun : builder table with
  | ok a later =>
    rw [hrun] at hfirst
    rw [bind_of_ok hrun]
    cases hfirst with
    | ok hextends hR =>
      exact (hnext later a _ rfl (hbase.trans hextends) hR later (.refl later)).mono hextends
  | error e later =>
    rw [hrun] at hfirst
    rw [bind_of_error hrun]
    cases hfirst with
    | error hextends => exact .error hextends

/-- The same where the first computation does not fail. -/
theorem Gives.bind_ok {b : β} {result : Except ε δ} (h : Gives base R builder (.ok b))
    (hnext : ∀ table a, table.Extends base → R table a b → Gives table S (next a) result) :
    Gives base S (builder >>= next) result := by
  show Gives base S (builder >>= next) (Except.ok b >>= fun _ => result)
  refine Gives.bind h fun table a b' hb hbase hR => ?_
  obtain rfl : b = b' := by simpa using hb
  exact hnext table a hbase hR

/-- What a computation that gives a value ends in. -/
theorem Gives.exists_run {b : β} (h : Gives base R builder (.ok b)) {table : TermTable}
    (hbase : table.Extends base) :
    ∃ a later, builder table = .ok a later ∧ later.Extends table ∧ R later a b := by
  have hrun := h table hbase
  generalize builder table = run at hrun
  cases hrun with
  | ok hextends hR => exact ⟨_, _, rfl, hextends, hR⟩

/-- A computation that gives an error ends in it. -/
theorem Gives.exists_error {e : ε} (h : Gives base R builder (.error e)) {table : TermTable}
    (hbase : table.Extends base) :
    ∃ later, builder table = .error e later ∧ later.Extends table := by
  have hrun := h table hbase
  generalize builder table = run at hrun
  cases hrun with
  | error hextends => exact ⟨_, rfl, hextends⟩

/-- A computation that ends in a value gives one. -/
theorem Gives.of_run {result : Except ε β} (h : Gives base R builder result)
    {table later : TermTable} {a : α} (hbase : table.Extends base)
    (hrun : builder table = .ok a later) :
    ∃ b, result = .ok b ∧ later.Extends table ∧ R later a b := by
  have hagrees := h table hbase
  rw [hrun] at hagrees
  cases hagrees with
  | ok hextends hR => exact ⟨_, rfl, hextends, hR⟩

end TermTable

end MathQuery
