import MathQuery.Proofs.Query.Blame
import MathQuery.Proofs.Query.Completeness

/-!
# The tokens of terms

A term keeps some of the tokens that it is read from, and the number `-1` at the place of each
sign: these are its leaves.  In the order in which they are in the term they are in the order of
the text.  So the place of a term, which is that of its first leaf, is before all its other
leaves and before all terms behind it, and the same goes for the parts of a term.

* `Expr.leaves` – the leaves of an expression, from left to right;
* `Expr.IsPartOf` – the parts of an expression, whose leaves are among its own;
* `Grammar.InOrder` – leaves at places of lexemes, in the same order;
* `Grammar.isProgram_inOrder` – this is where the leaves of a derived program are;
* `Lexeme.Scans.pairwise_before` – the lexemes of a text are one behind the other;
* `exists_isProgram_of_parse` – what is read is derived from lexemes, also if the text behind
  them cannot be read;
* `Program.leaves_pairwise` – all leaves of a query are one behind the other;
* `Program.isLeftmost_of_isPartOf`, `Program.terms_pairwise` – so the place of a term is the
  first one in it, and terms are one behind the other.
-/

namespace MathQuery

namespace Expr

mutual

/-- The tokens that an expression keeps, from left to right. -/
def leaves : Expr → List Spelling
  | number literal => [literal]
  | symbol name => [name]
  | binary _ left right => left.leaves ++ right.leaves
  | call name arguments => name :: leavesOfEach arguments

/-- The tokens that several expressions keep. -/
def leavesOfEach : List Expr → List Spelling
  | [] => []
  | e :: es => e.leaves ++ leavesOfEach es

end

theorem leavesOfEach_eq_flatMap (es : List Expr) : leavesOfEach es = es.flatMap leaves := by
  induction es with
  | nil => rfl
  | cons e es ih => rw [leavesOfEach, ih, List.flatMap_cons]

theorem leavesOfEach_append (ds es : List Expr) :
    leavesOfEach (ds ++ es) = leavesOfEach ds ++ leavesOfEach es := by
  simp only [leavesOfEach_eq_flatMap, List.flatMap_append]

/-- The place of an expression is that of its first leaf. -/
theorem exists_leaves_eq_cons (e : Expr) :
    ∃ first later, e.leaves = first :: later ∧ first.position = e.position := by
  cases e with
  | number literal => exact ⟨literal, [], rfl, rfl⟩
  | symbol name => exact ⟨name, [], rfl, rfl⟩
  | binary op left right =>
    obtain ⟨first, later, hleaves, hposition⟩ := exists_leaves_eq_cons left
    exact ⟨first, later ++ right.leaves, by rw [leaves, hleaves]; rfl, hposition⟩
  | call name arguments => exact ⟨name, leavesOfEach arguments, rfl, rfl⟩

/-- An expression has the place of one of its leaves, and no other leaf is in front of it. -/
def IsLeftmost (e : Expr) : Prop :=
  (∃ s ∈ e.leaves, s.position = e.position) ∧
    ∀ s ∈ e.leaves, e.position = s.position ∨ e.position.Before s.position

/-- Where leaves are one behind the other, the first one is the leftmost. -/
theorem isLeftmost_of_pairwise {e : Expr}
    (h : e.leaves.Pairwise fun s t => s.position.Before t.position) : e.IsLeftmost := by
  obtain ⟨first, later, hleaves, hposition⟩ := exists_leaves_eq_cons e
  rw [hleaves] at h
  rw [IsLeftmost, hleaves, ← hposition]
  refine ⟨⟨first, List.mem_cons_self, rfl⟩, List.forall_mem_cons.mpr ⟨.inl rfl, fun s hs => ?_⟩⟩
  exact .inr (List.rel_of_pairwise_cons h hs)

/-- The parts of an expression: all of it and the parts of its operands or arguments. -/
inductive IsPartOf (e : Expr) : Expr → Prop
  | refl : IsPartOf e e
  | left {op : BinaryOp} {left right : Expr} (h : IsPartOf e left) :
    IsPartOf e (binary op left right)
  | right {op : BinaryOp} {left right : Expr} (h : IsPartOf e right) :
    IsPartOf e (binary op left right)
  | argument {name : Spelling} {arguments : List Expr} {a : Expr} (ha : a ∈ arguments)
    (h : IsPartOf e a) : IsPartOf e (call name arguments)

theorem IsPartOf.leaves_sublist {e f : Expr} (h : e.IsPartOf f) : e.leaves.Sublist f.leaves := by
  induction h with
  | refl => exact List.Sublist.refl _
  | left _ ih =>
    rw [leaves]
    exact ih.trans (List.sublist_append_left _ _)
  | right _ ih =>
    rw [leaves]
    exact ih.trans (List.sublist_append_right _ _)
  | argument ha _ ih =>
    rw [leaves, leavesOfEach_eq_flatMap, List.flatMap_def]
    exact (ih.trans (List.sublist_flatten_of_mem (List.mem_map_of_mem ha))).cons _

end Expr

/-! ## Leaves and lexemes -/

namespace Grammar

/-- Leaves stand at places of lexemes, in the order of these. -/
def InOrder (ls : List Lexeme) (leaves : List Spelling) : Prop :=
  (leaves.map fun s => s.position).Sublist (ls.map fun l => l.position)

variable {ls rs : List Lexeme} {ss ts : List Spelling}

theorem InOrder.append (h : InOrder ls ss) (h' : InOrder rs ts) :
    InOrder (ls ++ rs) (ss ++ ts) := by
  rw [InOrder, List.map_append, List.map_append]
  exact List.Sublist.append h h'

theorem InOrder.cons (h : InOrder ls ss) (l : Lexeme) : InOrder (l :: ls) ss :=
  List.Sublist.cons l.position h

/-- A leaf that is a lexeme, or stands where one stands. -/
theorem InOrder.cons_cons (h : InOrder ls ss) {l : Lexeme} {s : Spelling}
    (hs : s.position = l.position) : InOrder (l :: ls) (s :: ss) := by
  rw [InOrder, List.map_cons, List.map_cons, hs]
  exact List.Sublist.cons_cons l.position h

theorem inOrder_nil (ls : List Lexeme) : InOrder ls [] := List.nil_sublist _

theorem InOrder.concat (h : InOrder ls ss) (l : Lexeme) : InOrder (ls ++ [l]) ss := by
  have happend := h.append (inOrder_nil [l])
  rwa [List.append_nil] at happend

theorem inOrder_binary {op : BinaryOp} {a b : Expr} (hl : InOrder ls a.leaves)
    (hr : InOrder rs b.leaves) : InOrder (ls ++ rs) (Expr.binary op a b).leaves := by
  rw [Expr.leaves]
  exact hl.append hr

mutual

theorem isPrimary_inOrder {ls : List Lexeme} {a : Operand} :
    IsPrimary ls a → InOrder ls a.expr.leaves
  | .group _ h _ => ((isTerm_inOrder h).concat _).cons _
  | .number _ => (inOrder_nil []).cons_cons rfl
  | .symbol _ => (inOrder_nil []).cons_cons rfl
  | .call _ _ _ h _ => (((isArguments_inOrder h).concat _).cons _).cons_cons rfl

theorem isPower_inOrder {ls : List Lexeme} {a : Operand} :
    IsPower IsPrimary ls a → InOrder ls a.expr.leaves
  | .primary h => isPrimary_inOrder h
  | .pow hbase _ hexponent =>
    inOrder_binary (isPrimary_inOrder hbase) ((isPrimary_inOrder hexponent).cons _)

/-- The number `-1` stands at the place of the sign. -/
theorem isUnary_inOrder {ls : List Lexeme} {a : Operand} :
    IsUnary IsPrimary ls a → InOrder ls a.expr.leaves
  | .power h => isPower_inOrder h
  | .plus _ h => (isPower_inOrder h).cons _
  | .minus _ h => (isPower_inOrder h).cons_cons rfl

theorem isFactor_inOrder {ls : List Lexeme} {a : Operand} :
    IsFactor IsPrimary ls a → InOrder ls a.expr.leaves
  | .unary h => isUnary_inOrder h
  | .mul hleft _ hright => inOrder_binary (isFactor_inOrder hleft) ((isUnary_inOrder hright).cons _)
  | .div hleft _ hright => inOrder_binary (isFactor_inOrder hleft) ((isUnary_inOrder hright).cons _)
  | .adjacent hleft _ _ hright => inOrder_binary (isFactor_inOrder hleft) (isUnary_inOrder hright)

/-- The leaves of a term are in the order of its lexemes. -/
theorem isTerm_inOrder {ls : List Lexeme} {a : Operand} :
    IsTerm IsPrimary ls a → InOrder ls a.expr.leaves
  | .factor h => isFactor_inOrder h
  | .add hleft _ hright => inOrder_binary (isTerm_inOrder hleft) ((isFactor_inOrder hright).cons _)
  | .sub hleft _ hright => inOrder_binary (isTerm_inOrder hleft) ((isFactor_inOrder hright).cons _)

theorem isArgumentList_inOrder {ls : List Lexeme} {es : List Expr} :
    IsArgumentList IsPrimary ls es → InOrder ls (Expr.leavesOfEach es)
  | .one h => by
    rw [Expr.leavesOfEach, Expr.leavesOfEach, List.append_nil]
    exact isTerm_inOrder h
  | .more hfirst _ hlater => by
    rw [Expr.leavesOfEach]
    exact (isTerm_inOrder hfirst).append ((isArgumentList_inOrder hlater).cons _)

theorem isArguments_inOrder {ls : List Lexeme} {es : List Expr} :
    IsArguments IsPrimary ls es → InOrder ls (Expr.leavesOfEach es)
  | .none => inOrder_nil []
  | .some h => isArgumentList_inOrder h

end

theorem isEquation_inOrder {a : Operand} (h : IsEquation ls a) : InOrder ls a.expr.leaves := by
  cases h with
  | term h => exact isTerm_inOrder h
  | equal hleft _ hright =>
    exact inOrder_binary (isTerm_inOrder hleft) ((isTerm_inOrder hright).cons _)

theorem isPhrase_inOrder {p : Phrase} (h : IsPhrase ls p) : InOrder ls (Expr.leavesOfEach p) := by
  induction h with
  | one h =>
    rw [Expr.leavesOfEach, Expr.leavesOfEach, List.append_nil]
    exact isEquation_inOrder h
  | more hfirst _ _ ih =>
    rw [Expr.leavesOfEach]
    exact (isEquation_inOrder hfirst).append ih

theorem isStatement_inOrder {s : Statement} (h : IsStatement ls s) :
    InOrder ls (Expr.leavesOfEach s.terms) := by
  induction h with
  | one h =>
    rw [Statement.terms, List.flatten_cons, List.flatten_nil, List.append_nil]
    exact isPhrase_inOrder h
  | more hfirst _ _ ih =>
    rw [Statement.terms, List.flatten_cons, Expr.leavesOfEach_append]
    exact (isPhrase_inOrder hfirst).append (ih.cons _)

/-- The leaves of a program are in the order of its lexemes. -/
theorem isProgram_inOrder {ss : List Statement} (h : IsProgram ls ss) :
    InOrder ls (Expr.leavesOfEach (ss.flatMap Statement.terms)) := by
  induction h with
  | nil => exact inOrder_nil []
  | cons hfirst _ _ ih =>
    rw [List.flatMap_cons, Expr.leavesOfEach_append]
    exact (isStatement_inOrder hfirst).append ih

end Grammar

/-! ## The order of a text -/

namespace Lexeme

variable {c after : Cursor} {ls : List Lexeme}

/-- Scans in succession find lexemes one behind the other, none of them in front of where they
begin. -/
theorem Scans.pairwise_before (h : Scans c ls after) :
    (∀ l ∈ ls, ∃ run, l.position = c.position.advanceAll run) ∧
      ls.Pairwise fun l k => l.position.Before k.position := by
  induction h with
  | nil => exact ⟨List.forall_mem_nil _, .nil⟩
  | @cons c middle after l ls hfirst hkind _ ih =>
    obtain ⟨gap, -, -, -, hposition, hmiddle, hend⟩ := hfirst.exists_between
    have hne : l.text.toList ≠ [] := by
      rcases hend with ⟨hend, -⟩ | hwritten
      · exact absurd hend hkind
      · obtain ⟨first, later, htext, -⟩ := hwritten.exists_cons
        simp [htext]
    refine ⟨List.forall_mem_cons.mpr ⟨⟨gap, hposition⟩, fun k hk => ?_⟩,
      List.pairwise_cons.mpr ⟨fun k hk => ?_, ih.2⟩⟩
    all_goals obtain ⟨run, hrun⟩ := ih.1 k hk
    · exact ⟨gap ++ l.text.toList ++ run, by rw [hrun, hmiddle, ← Position.advanceAll_append]⟩
    · rw [hrun, hmiddle, Position.advanceAll_append, ← hposition, ← Position.advanceAll_append]
      exact Position.before_advanceAll (List.append_ne_nil_of_left_ne_nil hne run) _

end Lexeme

/-! ## What is read -/

/-- What is read of a text is derived from the lexemes up to its end or to its first error. -/
theorem exists_isProgram_of_parse {source : String} {p : Program} (h : parse source = .ok p) :
    ∃ middle, Lexeme.Scans (.ofString source) (Lexeme.reading source).tokens middle ∧
      Grammar.IsProgram (Lexeme.reading source).tokens p.statements := by
  cases hreading : Lexeme.reading source with
  | mk tokens ending =>
  cases ending with
  | ok last =>
    have hreads := Lexeme.reading_eq_iff.mp hreading
    obtain ⟨middle, after, hscans, -⟩ := id hreads
    exact ⟨middle, hscans, (parse_eq_ok_iff_isProgram hreads p).mp h⟩
  | error e =>
    obtain ⟨middle, hscans, -⟩ := Lexeme.exists_scans_of_error hreading
    obtain ⟨htokens, -, herror⟩ := Lexeme.isIn_of_reading source
    have hprogram (depth : ℕ) : QueryParser.BlamesIn source (.program depth) :=
      QueryParser.blamesIn_program depth
    have hending : (Lexeme.reading source).ending = .error e := by rw [hreading]
    -- nothing is read of the error, so some end may stand there instead
    obtain ⟨after, hrun⟩ := (hprogram _).exists_run_ofList htokens hending
      ⟨e.position, rfl, herror e hending⟩ h ⟨⟨⟨"", .start⟩, .endOfInput⟩, false⟩
    rw [hreading] at hrun
    exact ⟨middle, hscans, QueryParser.sound_program rfl hscans.proper hrun⟩

variable {source : String} {p : Program}

/-- The leaves of a query stand in its text. -/
theorem Program.isIn_of_mem_leaves (h : parse source = .ok p) {e : Expr} (he : e ∈ p.terms)
    {s : Spelling} (hs : s ∈ e.leaves) : s.position.IsIn source := by
  obtain ⟨middle, -, hprogram⟩ := exists_isProgram_of_parse h
  have hmem : s ∈ Expr.leavesOfEach p.terms := by
    rw [Expr.leavesOfEach_eq_flatMap]
    exact List.mem_flatMap.mpr ⟨e, he, hs⟩
  have hplace := (Grammar.isProgram_inOrder hprogram).subset (List.mem_map_of_mem hmem)
  obtain ⟨l, hl, hposition⟩ := List.mem_map.mp hplace
  rw [← hposition]
  exact (Lexeme.isIn_of_reading source).1 l hl

/-- The terms of a query stand in its text. -/
theorem Program.isIn_of_mem_terms (h : parse source = .ok p) {e : Expr} (he : e ∈ p.terms) :
    e.position.IsIn source := by
  obtain ⟨first, later, hleaves, hfirst⟩ := Expr.exists_leaves_eq_cons e
  rw [← hfirst]
  exact isIn_of_mem_leaves h he (by simp [hleaves])

/-- The leaves of a query are one behind the other. -/
theorem Program.leaves_pairwise (h : parse source = .ok p) :
    (p.terms.flatMap Expr.leaves).Pairwise fun s t => s.position.Before t.position := by
  obtain ⟨middle, hscans, hprogram⟩ := exists_isProgram_of_parse h
  have hplaces := List.pairwise_map.mpr hscans.pairwise_before.2
  rw [← Expr.leavesOfEach_eq_flatMap]
  exact List.pairwise_map.mp (hplaces.sublist (Grammar.isProgram_inOrder hprogram))

/-- The parts of the terms of a query have the place of what is leftmost in them. -/
theorem Program.isLeftmost_of_isPartOf (h : parse source = .ok p) {e part : Expr}
    (he : e ∈ p.terms) (hpart : part.IsPartOf e) : part.IsLeftmost := by
  obtain ⟨hwithin, -⟩ := List.pairwise_flatMap.mp (leaves_pairwise h)
  exact Expr.isLeftmost_of_pairwise ((hwithin e he).sublist hpart.leaves_sublist)

/-- The terms of a query are one behind the other. -/
theorem Program.terms_pairwise (h : parse source = .ok p) :
    p.terms.Pairwise fun a b => a.position.Before b.position := by
  obtain ⟨-, hbetween⟩ := List.pairwise_flatMap.mp (leaves_pairwise h)
  refine hbetween.imp fun {a b} hab => ?_
  obtain ⟨first, later, hleaves, hfirst⟩ := Expr.exists_leaves_eq_cons a
  obtain ⟨second, behind, hleaves', hsecond⟩ := Expr.exists_leaves_eq_cons b
  rw [← hfirst, ← hsecond]
  exact hab first (by simp [hleaves]) second (by simp [hleaves'])

end MathQuery
