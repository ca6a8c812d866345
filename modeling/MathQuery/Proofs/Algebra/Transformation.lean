import MathQuery.Proofs.Algebra.NormalForm

/-!
# What transformations give

A named transformation of issued terms issues a term that these determine, whatever else
is in the table, or it fails as they say.

* `Term.transformed` – what the named transformations make of terms;
* `TermTable.Stands` – a term stands in the table under a handle;
* `Builder.gives_transform` – a transformation issues what it makes of the terms under its
  handles, and only adds to the table.
-/

namespace MathQuery

namespace Term

/-- The derivative of a term by a symbol, as a sum of products. -/
def derivative? (t x : Term) : Except AlgebraError Term :=
  match x with
  | .symbol name =>
    match t.polynomial? with
    | .error e => .error e
    | .ok (some p) => .ok (p.derivative name).toTerm
    | .ok none => .error (.unsupported "derivative of a non-polynomial expression")
  | _ => .error (.invalidArgument "derivative variable must be a symbol")

/-- What a named transformation makes of terms. -/
def transformed (name : String) (arguments : List Term) : Except AlgebraError Term :=
  if name ∈ ["reduce", "expand", "simplify"] then
    match arguments with
    | [t] => t.normalForm?
    | _ => .error (Builder.arity name 1 arguments.length)
  else if name ∈ ["derivative", "diff"] then
    match arguments with
    | [t, x] => t.derivative? x
    | _ => .error (Builder.arity name 2 arguments.length)
  else
    match Builder.elementary.lookup name with
    | some expected =>
      if arguments.length = expected then .ok (.application name arguments)
      else .error (Builder.arity name expected arguments.length)
    | none => .error (.unsupported name)

end Term

namespace TermTable

/-- A term stands in the table under a handle. -/
def Stands (table : TermTable) (handle : Handle) (t : Term) : Prop := table.term handle = .ok t

theorem Stands.mono {earlier later : TermTable} {handle : Handle} {t : Term}
    (h : Stands earlier handle t) (hextends : later.Extends earlier) : Stands later handle t :=
  hextends.term h

/-- Several terms stand in the table under their handles. -/
def StandEach (table : TermTable) (handles : List Handle) (ts : List Term) : Prop :=
  List.Forall₂ (Stands table) handles ts

theorem StandEach.mono {earlier later : TermTable} {handles : List Handle} {ts : List Term}
    (h : StandEach earlier handles ts) (hextends : later.Extends earlier) :
    StandEach later handles ts :=
  List.Forall₂.imp (fun _ _ hone => hone.mono hextends) h

end TermTable

open TermTable

namespace Builder

variable {base : TermTable}

theorem issued_of_term {table : TermTable} {t : Handle} {a : Term} (h : table.term t = .ok a) :
    issued t table = .ok ⟨t, a⟩ table := by
  rw [issued, h]

theorem gives_issued {t : Handle} {a : Term} (h : Stands base t a) :
    Gives base Holds (issued t) (.ok a) := by
  intro table hbase
  rw [issued_of_term (hbase.term h)]
  exact .ok (.refl table) ⟨rfl, hbase.term h⟩

/-- The derivative of a term is that of its polynomial. -/
theorem gives_derivative (t x : Term) : Gives base Holds (derivative t x) (t.derivative? x) := by
  rw [derivative.eq_def, Term.derivative?.eq_def]
  cases x with
  | symbol name =>
    dsimp only
    cases t.polynomial? with
    | error e => exact gives_throw e
    | ok result =>
      cases result with
      | some p => exact gives_polynomial _
      | none => exact gives_throw _
  | number _ | operation _ _ _ | application _ _ => exact gives_throw _

/-- A transformation yields its result or its error, and the cases of its name are those
of `Term.transformed`. -/
theorem gives_transformTerms (name : String) (arguments : List Term) :
    Gives base Holds (transformTerms name arguments) (Term.transformed name arguments) := by
  unfold transformTerms Term.transformed
  by_cases hreduce : name ∈ ["reduce", "expand", "simplify"]
  · rw [if_pos hreduce, if_pos hreduce]
    rcases arguments with _ | ⟨t, _ | ⟨_, _⟩⟩
    · exact gives_throw _
    · exact gives_reduce t
    · exact gives_throw _
  rw [if_neg hreduce, if_neg hreduce]
  by_cases hderivative : name ∈ ["derivative", "diff"]
  · rw [if_pos hderivative, if_pos hderivative]
    rcases arguments with _ | ⟨t, _ | ⟨x, _ | ⟨_, _⟩⟩⟩
    · exact gives_throw _
    · exact gives_throw _
    · exact gives_derivative t x
    · exact gives_throw _
  rw [if_neg hderivative, if_neg hderivative]
  cases elementary.lookup name with
  | none => exact gives_throw _
  | some expected =>
    dsimp only
    split
    · exact gives_issue _
    · exact gives_throw _

/-- Of an issued term the handle alone is kept. -/
theorem gives_handle {builder : Builder Issued} {result : Except AlgebraError Term}
    (h : Gives base Holds builder result) :
    Gives base Stands (do return (← builder).handle) result := by
  rw [← bind_pure result]
  exact h.bind fun _ _ _ _ _ hissued => gives_pure fun _ hextends => (hissued.mono hextends).2

theorem gives_apply (op : BinaryOp) {left right : Handle} {l r : Term}
    (hl : Stands base left l) (hr : Stands base right r) :
    Gives base Stands (apply op left right) (.ok (.operation op l r)) := by
  refine (gives_issued hl).bind_ok fun table l' htable hl' => ?_
  refine (gives_issued (hr.mono htable)).bind_ok fun table' r' htable' hr' => ?_
  exact gives_handle (gives_operation op (hl'.mono htable') hr')

theorem gives_issuedEach {handles : List Handle} {ts : List Term} (h : StandEach base handles ts) :
    Gives base HoldsAll (handles.mapM issued) (.ok ts) := by
  induction h with
  | nil => exact gives_pure fun _ _ => .nil
  | cons hfirst _ ih =>
    rw [List.mapM_cons]
    refine (gives_issued hfirst).bind_ok fun table first hbase hholds => ?_
    -- the handles stand in the first table, and every later one extends it
    refine Gives.bind_ok (fun table' hbase' => ih table' (hbase.trans hbase'))
      fun table' later htable hlater => ?_
    exact gives_pure fun table'' htable' =>
      .cons ((hholds.mono htable).mono htable') (hlater.mono htable')

/-- A transformation of issued terms issues what it makes of them. -/
theorem gives_transform (name : String) {handles : List Handle} {ts : List Term}
    (h : StandEach base handles ts) :
    Gives base Stands (transform name handles) (Term.transformed name ts) := by
  refine (gives_issuedEach h).bind_ok fun table args _ hargs => ?_
  rw [hargs.map_term]
  exact gives_handle (gives_transformTerms name ts)

end Builder

end MathQuery
