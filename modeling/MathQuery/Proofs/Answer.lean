import MathQuery.Answer
import MathQuery.Proofs.Algebra.Table

/-!
# How answers fail

Compiling and rendering what a query captured fails in ways of its own, but never because
an argument is missing.  A template misses an argument only if it refers to one that was
not captured.

* `Compiler.Avoids` – a computation that does not end in a certain failure, with a rule for
  each way to put computations together;
* `Compiler.avoids_compile` – compiling an expression misses no argument;
* `Answer.avoids_format` – nor does an answer whose template refers to what was captured.
-/

namespace MathQuery

namespace Compiler

variable {α β : Type} {e : Failure}

/-- From no table the computation ends in the failure `e`. -/
def Avoids (e : Failure) (c : Compiler α) : Prop := ∀ table later, c table ≠ .error e later

theorem avoids_pure (a : α) : Avoids e (pure a) := nofun

theorem avoids_throw {thrown : Failure} (h : thrown ≠ e) : Avoids e (throw thrown : Compiler α) := by
  intro table later hrun
  injection hrun with heq
  exact h heq

theorem Avoids.bind {c : Compiler α} {next : α → Compiler β} (h : Avoids e c)
    (hnext : ∀ a, Avoids e (next a)) : Avoids e (c >>= next) := by
  intro table later hrun
  cases hc : c table with
  | ok a middle =>
    rw [TermTable.bind_of_ok hc] at hrun
    exact hnext a middle later hrun
  | error thrown middle =>
    rw [TermTable.bind_of_error hc] at hrun
    injection hrun with heq
    exact h table middle (heq ▸ hc)

/-- A computation of the algebra fails in ways of the algebra. -/
theorem avoids_ofBuilder {lacking : DispatchError} (builder : Builder α) :
    Avoids (.dispatch lacking) (ofBuilder builder) := by
  intro table later hrun
  rw [ofBuilder] at hrun
  cases hbuilder : builder table with
  | ok a middle => simp [hbuilder] at hrun
  | error thrown middle => simp [hbuilder] at hrun

end Compiler

/-- The call of a function is refused for its name or its arguments as they are written. -/
theorem FunctionTable.resolve_ne_missingArgument (functions : FunctionTable) (called : String)
    (arguments : List Expr) (name : String) (index : Nat) :
    functions.resolve called arguments ≠ .error (.missingArgument name index) := by
  intro h
  rw [resolve] at h
  split at h
  · simp at h
  · split at h
    · simp at h
    · split at h <;> simp at h

section MissingArgument

variable (functions : FunctionTable) (style : Style) {name : String} {index : Nat}

namespace Compiler

mutual

/-- Compiling an expression misses no argument. -/
theorem avoids_compile :
    (e : Expr) → Avoids (.dispatch (.missingArgument name index)) (compile functions e)
  | .number literal => by
    rw [compile]
    exact avoids_ofBuilder _
  | .symbol _ => by
    rw [compile]
    exact avoids_ofBuilder _
  | .binary op left right => by
    rw [compile]
    refine (avoids_compile left).bind fun l => ?_
    exact (avoids_compile right).bind fun r => avoids_ofBuilder _
  | .call called arguments => by
    rw [compile]
    refine Avoids.bind ?_ fun definition => ?_
    · cases hresolve : functions.resolve called.text arguments with
      | ok definition => exact avoids_pure definition
      | error thrown =>
        refine avoids_throw fun heq => ?_
        obtain rfl := Failure.dispatch.inj heq
        exact functions.resolve_ne_missingArgument called.text arguments name index hresolve
    · exact (avoids_compileEach arguments).bind fun handles => avoids_ofBuilder _

/-- Nor does compiling several expressions. -/
theorem avoids_compileEach :
    (es : List Expr) → Avoids (.dispatch (.missingArgument name index)) (compileEach functions es)
  | [] => by
    rw [compileEach]
    exact avoids_pure _
  | e :: es => by
    rw [compileEach]
    refine (avoids_compile e).bind fun first => ?_
    exact (avoids_compileEach es).bind fun later => avoids_pure _

end

theorem avoids_render (handle : Handle) :
    Avoids (.dispatch (.missingArgument name index)) (render style handle) :=
  (avoids_ofBuilder _).bind fun _ => avoids_pure _

end Compiler

namespace Answer

open Compiler

theorem avoids_value (captured : Value) :
    Avoids (.dispatch (.missingArgument name index)) (value functions style captured) := by
  cases captured with
  | expression e => exact (avoids_compile functions e).bind fun handle => avoids_render style handle
  | text text => exact avoids_pure _
  | integer n => exact avoids_pure _

variable (operation : String) {arguments : Arguments} (result : Handle)

theorem avoids_piece {piece : PatternTerm}
    (h : piece.reference? = some index → arguments.get? index ≠ none) :
    Avoids (.dispatch (.missingArgument name index))
      (Answer.piece functions style operation arguments result piece) := by
  cases piece with
  | literal text => exact avoids_pure _
  | slot declared => exact avoids_pure _
  | output => exact (avoids_render style result).bind fun _ => avoids_pure _
  | argument reference =>
    refine Avoids.bind ?_ fun captured => (avoids_value functions style captured).bind
      fun _ => avoids_pure _
    rw [argument]
    cases hget : arguments.get? reference with
    | some captured => exact avoids_pure captured
    | none =>
      refine avoids_throw fun heq => ?_
      obtain ⟨-, rfl⟩ : operation = name ∧ reference = index := by simpa using heq
      exact h rfl hget

theorem avoids_pieces {terms : List PatternTerm}
    (h : index ∈ terms.filterMap PatternTerm.reference? → arguments.get? index ≠ none) :
    Avoids (.dispatch (.missingArgument name index))
      (pieces functions style operation arguments result terms) := by
  induction terms with
  | nil => exact avoids_pure _
  | cons piece terms ih =>
    have hfirst : piece.reference? = some index → arguments.get? index ≠ none := fun hpiece =>
      h (List.mem_filterMap.mpr ⟨piece, List.mem_cons_self, hpiece⟩)
    have hlater : index ∈ terms.filterMap PatternTerm.reference? → arguments.get? index ≠ none := by
      intro hmem
      obtain ⟨term, hterm, hreference⟩ := List.mem_filterMap.mp hmem
      exact h (List.mem_filterMap.mpr ⟨term, List.mem_cons_of_mem piece hterm, hreference⟩)
    refine (avoids_piece functions style operation result hfirst).bind fun first => ?_
    exact (ih hlater).bind fun later => avoids_pure _

/-- An answer misses no argument that was captured or that its template does not refer to. -/
theorem avoids_format {template : Pattern}
    (h : index ∈ template.references → arguments.get? index ≠ none) :
    Avoids (.dispatch (.missingArgument name index))
      (format functions style operation template arguments result) :=
  (avoids_pieces functions style operation result h).bind fun _ => avoids_pure _

end Answer

end MissingArgument

end MathQuery
