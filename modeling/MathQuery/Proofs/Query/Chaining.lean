import MathQuery.Proofs.Query.Spelling

/-!
# Powers do not chain

An exponent is a single primary, and what stands behind it is not raised any further.  So
a text is never read if a primary stands between two carets in it, whatever is around.

What may stand behind a primary depends on what stands before it, which may be any number
of parentheses away.  This is followed here by a pass over the lexemes from left to right,
which goes through every derivation and is stopped by two such carets.

* `Pass` – the parentheses that are open, and where among the operands the pass is;
* `passes_isTerm` and its companions – a pass goes through every derivation;
* `not_isProgram_of_carets` – no program has a primary between two carets;
* `Lexeme.exists_reads` – a text of plain characters is made of lexemes;
* `Chained.parse_ne_ok` – it is not read if a primary stands between two carets in it.
-/

namespace MathQuery

namespace Grammar

/-! ## Passes -/

/-- Where among the operands a pass is: in front of one, in front of an exponent, or behind
one.  Behind an operand it is known whether this is an exponent and whether it is a word. -/
inductive Place
  | operand
  | exponent
  | behind (raised word : Bool)

namespace Place

/-- Whether an operand that begins here is an exponent. -/
def raises : Place → Bool
  | exponent => true
  | operand | behind _ _ => false

/-- Whether a parenthesis that opens here belongs to an exponent.  Where it touches a word
it opens the arguments of a call, and the call is an exponent if the word was one. -/
def opens (opening : Lexeme) : Place → Bool
  | behind raised word => raised && word && opening.isAdjacent
  | place => place.raises

/-- A parenthesis that comes first is not taken for one that opens the arguments of a call. -/
def Apart (place : Place) (ls : List Lexeme) : Prop :=
  ∀ first ∈ ls.head?, first.kind = .openParen → place.opens first = place.raises

theorem apart_operand (ls : List Lexeme) : operand.Apart ls := fun _ _ _ => rfl

theorem apart_exponent (ls : List Lexeme) : exponent.Apart ls := fun _ _ _ => rfl

theorem apart_behind (raised : Bool) (ls : List Lexeme) : (behind raised false).Apart ls := by
  intro first _ _
  rw [opens, Bool.and_false, Bool.false_and]
  rfl

theorem Apart.of_append {place : Place} {ls rs : List Lexeme} (h : place.Apart (ls ++ rs)) :
    place.Apart ls := by
  cases ls with
  | nil => exact nofun
  | cons l ls => exact h

end Place

/-- How far a pass over lexemes has come.  For each parenthesis that is open it is known
whether it belongs to an exponent. -/
structure Pass where
  groups : List Bool
  place : Place

namespace Pass

/-- Pass over a lexeme.  Behind an exponent there is no further caret. -/
def next (s : Pass) (l : Lexeme) : Option Pass :=
  match l.kind with
  | .caret =>
    match s.place with
    | .behind false _ => some ⟨s.groups, .exponent⟩
    | _ => none
  | .number => some ⟨s.groups, .behind s.place.raises false⟩
  | .identifier => some ⟨s.groups, .behind s.place.raises true⟩
  | .openParen => some ⟨s.place.opens l :: s.groups, .operand⟩
  | .closeParen =>
    match s.groups with
    | raised :: outer => some ⟨outer, .behind raised false⟩
    | [] => none
  | _ => some ⟨s.groups, .operand⟩

/-- Pass over several lexemes. -/
def run (s : Pass) (ls : List Lexeme) : Option Pass := ls.foldlM next s

variable {s t : Pass} {l : Lexeme} {ls rs : List Lexeme}

theorem run_append (s : Pass) (ls rs : List Lexeme) :
    s.run (ls ++ rs) = (s.run ls).bind fun t => t.run rs := by
  rw [run, List.foldlM_append]
  rfl

theorem run_cons (s : Pass) (l : Lexeme) (ls : List Lexeme) :
    s.run (l :: ls) = (s.next l).bind fun t => t.run ls := by
  rw [run, List.foldlM_cons]
  rfl

theorem run_append_of_eq (h : s.run ls = some t) : s.run (ls ++ rs) = t.run rs := by
  rw [run_append, h, Option.bind_some]

theorem run_cons_of_eq (h : s.next l = some t) : s.run (l :: ls) = t.run ls := by
  rw [run_cons, h, Option.bind_some]

variable (groups : List Bool) (place : Place)

theorem next_caret (h : l.kind = .caret) (word : Bool) :
    next ⟨groups, .behind false word⟩ l = some ⟨groups, .exponent⟩ := by
  rw [next, h]

theorem next_caret_of_raised (h : l.kind = .caret) (word : Bool) :
    next ⟨groups, .behind true word⟩ l = none := by
  rw [next, h]

/-- A caret is passed over only towards an exponent. -/
theorem place_of_next_caret (h : l.kind = .caret) (hnext : s.next l = some t) :
    t.place = .exponent := by
  rw [next, h] at hnext
  dsimp only at hnext
  split at hnext
  · obtain rfl := Option.some.inj hnext
    rfl
  · contradiction

theorem next_number (h : l.kind = .number) :
    next ⟨groups, place⟩ l = some ⟨groups, .behind place.raises false⟩ := by
  rw [next, h]

theorem next_identifier (h : l.kind = .identifier) :
    next ⟨groups, place⟩ l = some ⟨groups, .behind place.raises true⟩ := by
  rw [next, h]

theorem next_openParen (h : l.kind = .openParen) :
    next ⟨groups, place⟩ l = some ⟨place.opens l :: groups, .operand⟩ := by
  rw [next, h]

theorem next_closeParen (h : l.kind = .closeParen) (raised : Bool) :
    next ⟨raised :: groups, place⟩ l = some ⟨groups, .behind raised false⟩ := by
  rw [next, h]

/-- The lexemes behind which an operand comes that is no exponent. -/
theorem next_sign (h : l.kind ∈ [.plus, .minus, .star, .slash, .equal, .comma]) :
    next ⟨groups, place⟩ l = some ⟨groups, .operand⟩ := by
  simp only [List.mem_cons, List.not_mem_nil, or_false] at h
  rcases h with h | h | h | h | h | h <;> rw [next, h]

end Pass

/-! ## Passes over derivations -/

open Place Pass

/-- A pass that is not in front of an exponent goes through the lexemes of an operand, and is
behind an operand then, with the same parentheses open. -/
def Passes (ls : List Lexeme) (a : Operand) : Prop :=
  ∀ groups place, place.raises = false → place.Apart ls →
    ∃ raised, run ⟨groups, place⟩ ls = some ⟨groups, .behind raised (a.shape == .symbol)⟩

/-- A pass goes through arguments. -/
def PassesArguments (ls : List Lexeme) : Prop :=
  ∀ groups, ∃ place, run ⟨groups, .operand⟩ ls = some ⟨groups, place⟩

/-- Behind a sign an operand begins that is no exponent. -/
theorem Passes.of_sign {ls rs : List Lexeme} {sign : Lexeme} {a b : Operand} (hl : Passes ls a)
    (hsign : sign.kind ∈ [.plus, .minus, .star, .slash, .equal, .comma]) (hr : Passes rs b)
    (e : Expr) : Passes (ls ++ sign :: rs) ⟨e, b.shape⟩ := by
  intro groups place hplace hap
  obtain ⟨raised, hleft⟩ := hl groups place hplace hap.of_append
  rw [run_append_of_eq hleft, run_cons_of_eq (next_sign _ _ hsign)]
  exact hr groups .operand rfl (apart_operand rs)

section Passes

/-! A pass goes through a primary wherever the primary stands, and is behind an exponent
afterwards if it was in front of one.  One theorem for each production, each by recursion on
the derivation. -/

mutual

theorem passes_isPrimary {ls : List Lexeme} {a : Operand} : IsPrimary ls a →
    ∀ groups place, place.Apart ls →
      run ⟨groups, place⟩ ls = some ⟨groups, .behind place.raises (a.shape == .symbol)⟩
  | .group hopening h hclosing => by
    intro groups place hap
    have hopens := hap _ rfl hopening
    obtain ⟨raised, hinner⟩ := passes_isTerm h (place.raises :: groups) .operand rfl
      (apart_operand _)
    rw [run_cons_of_eq (next_openParen _ _ hopening), hopens, run_append_of_eq hinner,
      run_cons_of_eq (next_closeParen _ _ hclosing _)]
    rfl
  | .number h => fun groups place _ => run_cons_of_eq (next_number groups place h)
  | .symbol h => fun groups place _ => run_cons_of_eq (next_identifier groups place h)
  | @IsPrimary.call name opening closing ls es hname hopening hspaced h hclosing => by
    intro groups place _
    -- the parenthesis touches the name
    have hopens : (behind place.raises true).opens opening = place.raises := by
      rw [opens, Lexeme.isAdjacent, hspaced, Bool.not_false, Bool.and_true, Bool.and_true]
    obtain ⟨inner, harguments⟩ := passes_isArguments h (place.raises :: groups)
    rw [run_cons_of_eq (next_identifier _ _ hname), run_cons_of_eq (next_openParen _ _ hopening), hopens,
      run_append_of_eq harguments, run_cons_of_eq (next_closeParen _ _ hclosing _)]
    rfl

theorem passes_isPower {ls : List Lexeme} {a : Operand} : IsPower IsPrimary ls a → Passes ls a
  | .primary h => fun groups place _ hap => ⟨_, passes_isPrimary h groups place hap⟩
  | .pow hbase hcaret hexponent => by
    intro groups place hplace hap
    have hleft := passes_isPrimary hbase groups place hap.of_append
    rw [hplace] at hleft
    exact ⟨true, by rw [run_append_of_eq hleft, run_cons_of_eq (next_caret _ hcaret _),
      passes_isPrimary hexponent groups .exponent (apart_exponent _)]; rfl⟩

theorem passes_isUnary {ls : List Lexeme} {a : Operand} : IsUnary IsPrimary ls a → Passes ls a
  | .power h => passes_isPower h
  | .plus hsign h => by
    intro groups place _ _
    rw [run_cons_of_eq (next_sign _ _ (by simp [hsign]))]
    exact passes_isPower h groups .operand rfl (apart_operand _)
  | .minus hsign h => by
    intro groups place _ _
    rw [run_cons_of_eq (next_sign _ _ (by simp [hsign]))]
    exact passes_isPower h groups .operand rfl (apart_operand _)

theorem passes_isFactor {ls : List Lexeme} {a : Operand} : IsFactor IsPrimary ls a → Passes ls a
  | .unary h => passes_isUnary h
  | .mul hleft hsign hright =>
    (passes_isFactor hleft).of_sign (by simp [hsign]) (passes_isUnary hright) _
  | .div hleft hsign hright =>
    (passes_isFactor hleft).of_sign (by simp [hsign]) (passes_isUnary hright) _
  | .adjacent hleft _ hpair hright => by
    intro groups place hplace hap
    obtain ⟨raised, hrun⟩ := passes_isFactor hleft groups place hplace hap.of_append
    -- what a product is adjacent to is no word
    rw [beq_false_of_ne hpair.shape_ne] at hrun
    rw [run_append_of_eq hrun]
    exact passes_isUnary hright groups _ rfl (apart_behind raised _)

theorem passes_isTerm {ls : List Lexeme} {a : Operand} : IsTerm IsPrimary ls a → Passes ls a
  | .factor h => passes_isFactor h
  | .add hleft hsign hright =>
    (passes_isTerm hleft).of_sign (by simp [hsign]) (passes_isFactor hright) _
  | .sub hleft hsign hright =>
    (passes_isTerm hleft).of_sign (by simp [hsign]) (passes_isFactor hright) _

theorem passes_isArgumentList {ls : List Lexeme} {es : List Expr} :
    IsArgumentList IsPrimary ls es → PassesArguments ls
  | .one h => by
    intro groups
    obtain ⟨raised, hrun⟩ := passes_isTerm h groups .operand rfl (apart_operand _)
    exact ⟨_, hrun⟩
  | .more hfirst hcomma hlater => by
    intro groups
    obtain ⟨raised, hrun⟩ := passes_isTerm hfirst groups .operand rfl (apart_operand _)
    rw [run_append_of_eq hrun, run_cons_of_eq (next_sign _ _ (by simp [hcomma]))]
    exact passes_isArgumentList hlater groups

theorem passes_isArguments {ls : List Lexeme} {es : List Expr} :
    IsArguments IsPrimary ls es → PassesArguments ls
  | .none => fun _ => ⟨_, rfl⟩
  | .some h => passes_isArgumentList h

end

end Passes

theorem passes_isEquation {ls : List Lexeme} {a : Operand} (h : IsEquation ls a) :
    Passes ls a := by
  cases h with
  | term h => exact passes_isTerm h
  | equal hleft hsign hright =>
    exact (passes_isTerm hleft).of_sign (by simp [hsign]) (passes_isTerm hright) _

/-- In a phrase no parenthesis touches a word that it follows. -/
theorem apart_of_canFollow {shape : Shape} {first : Lexeme} (raised : Bool)
    (h : CanFollow shape first) (ls : List Lexeme) :
    (behind raised (shape == .symbol)).Apart (first :: ls) := by
  rintro _ ⟨⟩ hopening
  rw [opens, Lexeme.isAdjacent]
  cases hspaced : first.spaced with
  | true => exact Bool.and_false _
  | false =>
    have hne : shape ≠ .symbol := fun hsymbol => h.not_call hspaced hsymbol hopening
    rw [beq_false_of_ne hne, Bool.and_false, Bool.false_and]
    rfl

theorem passes_isPhrase {ls : List Lexeme} {p : Phrase} (h : IsPhrase ls p) (place : Place)
    (hplace : place.raises = false) (hap : place.Apart ls) :
    ∃ after, run ⟨[], place⟩ ls = some ⟨[], after⟩ := by
  induction h generalizing place with
  | one h =>
    obtain ⟨raised, hrun⟩ := passes_isEquation h [] place hplace hap
    exact ⟨_, hrun⟩
  | more hfirst hnext _ ih =>
    obtain ⟨raised, hrun⟩ := passes_isEquation hfirst [] place hplace hap.of_append
    rw [run_append_of_eq hrun]
    exact ih _ rfl (apart_of_canFollow raised hnext _)

/-- Statements are passed over. -/
theorem passes_isStatement {ls : List Lexeme} {st : Statement} (h : IsStatement ls st) :
    ∃ after, run ⟨[], .operand⟩ ls = some ⟨[], after⟩ := by
  induction h with
  | one h => exact passes_isPhrase h .operand rfl (apart_operand _)
  | more hfirst hcomma _ ih =>
    obtain ⟨after, hrun⟩ := passes_isPhrase hfirst .operand rfl (apart_operand _)
    rw [run_append_of_eq hrun, run_cons_of_eq (next_sign _ _ (by simp [hcomma]))]
    exact ih

theorem passes_isProgram {ls : List Lexeme} {ss : List Statement} (h : IsProgram ls ss) :
    ∃ after, run ⟨[], .operand⟩ ls = some ⟨[], after⟩ := by
  rcases QueryParser.eq_nil_or_isStatement h with ⟨rfl, -⟩ | ⟨s, -, hs⟩
  · exact ⟨_, rfl⟩
  · exact passes_isStatement hs

/-- No program has a primary between two carets.  A pass comes to the first of them in front
of an exponent and to the second one behind it. -/
theorem not_isProgram_of_carets {front ks back : List Lexeme} {caret caret' : Lexeme}
    {a : Operand} {ss : List Statement} (hcaret : caret.kind = .caret) (h : IsPrimary ks a)
    (hcaret' : caret'.kind = .caret) :
    ¬ IsProgram (front ++ caret :: (ks ++ caret' :: back)) ss := by
  intro hprogram
  obtain ⟨after, hrun⟩ := passes_isProgram hprogram
  rw [run_append] at hrun
  obtain ⟨s, -, hrun⟩ := Option.bind_eq_some_iff.mp hrun
  rw [run_cons] at hrun
  obtain ⟨⟨groups, place⟩, hnext, hrun⟩ := Option.bind_eq_some_iff.mp hrun
  obtain rfl : place = .exponent := place_of_next_caret hcaret hnext
  have hraised := passes_isPrimary h groups .exponent (apart_exponent ks)
  rw [run_append_of_eq hraised, run_cons, raises, next_caret_of_raised _ hcaret'] at hrun
  contradiction

end Grammar

/-! ## Lexemes around a caret -/

theorem IsNumeral.caret_not_mem {cs : List Char} (h : IsNumeral cs) : '^' ∉ cs := by
  intro hmem
  cases h with
  | whole _ hds => exact absurd (hds _ hmem) (by decide)
  | decimal _ hds hfs =>
    rcases List.mem_append.mp hmem with hmem | hmem
    · exact absurd (hds _ hmem) (by decide)
    · obtain hpoint | hmem := List.mem_cons.mp hmem
      · contradiction
      · exact absurd (hfs _ hmem) (by decide)

namespace Lexeme

variable {c after : Cursor} {l last : Lexeme}

/-- A scan takes the characters of its lexeme and the blanks before it.  A caret is taken
only as a lexeme of its own. -/
theorem Scanned.exists_taken (h : Scanned c l after) :
    ∃ taken, c.rest = taken ++ after.rest ∧
      ('^' ∉ taken ∨ l.kind = .caret ∧ ∃ blanks, '^' ∉ blanks ∧ taken = blanks ++ ['^']) := by
  have hblanks : '^' ∉ c.rest.takeWhile Char.isWhitespace := fun hmem => by
    have hblank := List.mem_takeWhile_imp hmem
    contradiction
  have hrest := c.takeWhile_append_skipBlanks.symm
  generalize c.rest.takeWhile Char.isWhitespace = blanks at hblanks hrest
  -- blanks and what is scanned behind them are taken
  have htaken {run : List Char} (hstarts : run <+: c.skipBlanks.rest) :
      c.rest = blanks ++ run ++ (c.skipBlanks.drop run.length).rest := by
    obtain ⟨later, hlater⟩ := hstarts
    rw [Cursor.rest_drop, ← hlater, List.drop_left, List.append_assoc, hlater, ← hrest]
  have hfree {run : List Char} (hcaret : '^' ∉ run) : '^' ∉ blanks ++ run := fun hmem =>
    (List.mem_append.mp hmem).elim hblanks hcaret
  cases h with
  | endOfInput _ => exact ⟨blanks, hrest, .inl hblanks⟩
  | @number first later hfirst hdigit _ =>
    have hstarts : decimalPrefix (first :: later) <+: c.skipBlanks.rest :=
      hfirst ▸ decimalPrefix_prefix _
    have hnumeral := isNumeral_decimalPrefix hdigit later
    exact ⟨_, htaken hstarts, .inl (hfree hnumeral.caret_not_mem)⟩
  | @punctuation first later kind hfirst _ hkind =>
    have hstarts : [first] <+: c.skipBlanks.rest := hfirst ▸ ⟨later, rfl⟩
    refine ⟨_, htaken hstarts, ?_⟩
    by_cases hcaret : first = '^'
    · subst hcaret
      exact .inr ⟨(Option.some.inj hkind).symm, blanks, hblanks, rfl⟩
    · exact .inl (hfree (by simpa using Ne.symm hcaret))
  | @word first later hfirst _ _ _ =>
    have hstarts : (first :: later).takeWhile isAlphanumeric <+: c.skipBlanks.rest :=
      hfirst ▸ List.takeWhile_prefix _
    refine ⟨_, htaken hstarts, .inl (hfree fun hmem => ?_)⟩
    exact absurd (List.mem_takeWhile_imp hmem) (by decide)

theorem Scanned.rest_of_endOfInput (h : Scanned c l after) (hkind : l.kind = .endOfInput) :
    after.rest = [] := by
  cases h with
  | endOfInput hend => exact hend
  | number _ _ _ | word _ _ _ _ => contradiction
  | punctuation _ _ hpunctuation => exact absurd hkind (TokenKind.ofPunctuation?_ne hpunctuation).1

/-- A caret in a text is a lexeme, and the text behind it is read on its own. -/
theorem Reads.exists_caret {cs rest : List Char} {p : Position} {ls : List Lexeme}
    (h : Reads ⟨cs ++ '^' :: rest, p⟩ ls last) :
    ∃ front caret back q, ls = front ++ caret :: back ∧ caret.kind = .caret ∧
      Reads ⟨rest, q⟩ back last := by
  induction ls generalizing cs p with
  | nil =>
    obtain ⟨after, hlast, hend⟩ := reads_nil_iff.mp h
    obtain ⟨taken, hrest, hfree | ⟨hcaret, -⟩⟩ := hlast.exists_taken
    · rw [hlast.rest_of_endOfInput hend, List.append_nil] at hrest
      exact absurd (hrest ▸ by simp) hfree
    · rw [hend] at hcaret
      contradiction
  | cons l ls ih =>
    obtain ⟨⟨later, q⟩, hfirst, -, hlater⟩ := reads_cons_iff.mp h
    obtain ⟨taken, hrest, htaken⟩ := hfirst.exists_taken
    -- the caret is still to come unless it is what the scan took
    rcases List.append_eq_append_iff.mp hrest with ⟨run, htext, hlaterText⟩ | ⟨cs', -, rfl⟩
    · cases run with
      | nil =>
        obtain rfl : '^' :: rest = later := hlaterText
        obtain ⟨front, caret, back, q, rfl, hback⟩ :=
          ih (show Reads ⟨[] ++ '^' :: rest, q⟩ ls last from hlater)
        exact ⟨l :: front, caret, back, q, rfl, hback⟩
      | cons first run =>
        obtain ⟨rfl, hrun⟩ := List.cons.inj hlaterText
        rcases htaken with hfree | ⟨hcaret, blanks, hblanks, htaken⟩
        · exact absurd (htext ▸ by simp) hfree
        rcases List.eq_nil_or_concat run with rfl | ⟨run, y, rfl⟩
        · obtain rfl : rest = later := hrun
          exact ⟨[], l, ls, q, rfl, hcaret, hlater⟩
        · -- only the last character that is taken is a caret
          have hends : (cs ++ '^' :: run) ++ [y] = blanks ++ ['^'] := by
            rw [← htaken, htext, List.append_assoc, List.cons_append, List.concat_eq_append]
          obtain ⟨rfl, -⟩ := List.append_inj' hends rfl
          exact absurd (by simp) hblanks
    · obtain ⟨front, caret, back, q, rfl, hback⟩ := ih hlater
      exact ⟨l :: front, caret, back, q, rfl, hback⟩

theorem Scanned.unique {l' : Lexeme} {after' : Cursor} (h : Scanned c l after)
    (h' : Scanned c l' after') : l = l' ∧ after = after' := by
  have hscan := (scan_eq_ok_iff.mpr h).symm.trans (scan_eq_ok_iff.mpr h')
  obtain ⟨hresult, hafter⟩ := Prod.mk.inj hscan
  exact ⟨Except.ok.inj hresult, hafter⟩

/-- What successive scans find is what is read first. -/
theorem Reads.of_scans {middle : Cursor} {ks ls : List Lexeme} (h : Scans c ks middle)
    (hreads : Reads c ls last) : ∃ back, ls = ks ++ back ∧ Reads middle back last := by
  induction h generalizing ls with
  | nil => exact ⟨ls, rfl, hreads⟩
  | cons hscan hkind _ ih =>
    cases ls with
    | nil =>
      obtain ⟨after, hlast, hend⟩ := reads_nil_iff.mp hreads
      obtain ⟨rfl, -⟩ := hscan.unique hlast
      contradiction
    | cons l ls =>
      obtain ⟨after, hfirst, -, hlater⟩ := reads_cons_iff.mp hreads
      obtain ⟨rfl, rfl⟩ := hscan.unique hfirst
      obtain ⟨back, rfl, hback⟩ := ih hlater
      exact ⟨back, rfl, hback⟩

/-! ### Plain characters -/

/-- A letter, a digit, a blank or a punctuation character other than the point. -/
def isPlain (c : Char) : Bool :=
  c != '.' && (isAlphanumeric c || c.isWhitespace || (TokenKind.ofPunctuation? c).isSome)

/-- Among plain characters a scan finds a lexeme. -/
theorem exists_scanned (h : ∀ d ∈ c.rest, isPlain d = true) : ∃ l after, Scanned c l after := by
  have hbehind : ∀ d ∈ c.skipBlanks.rest, d ∈ c.rest := fun d hd =>
    c.takeWhile_append_skipBlanks ▸ List.mem_append_right _ hd
  cases hskip : c.skipBlanks.rest with
  | nil => exact ⟨_, _, .endOfInput hskip⟩
  | cons first later =>
    rw [hskip] at hbehind
    have hfirst := h first (hbehind first List.mem_cons_self)
    by_cases hdigit : first.isDigit = true
    · refine ⟨_, _, .number hskip hdigit fun hpoint => ?_⟩
      -- there is no point, so there is no second one
      have hmem := hbehind '.' (List.mem_of_mem_drop (List.mem_of_mem_head? hpoint))
      exact absurd (h '.' hmem) (by decide)
    have hdigit : first.isDigit = false := Bool.eq_false_iff.mpr hdigit
    cases hkind : TokenKind.ofPunctuation? first with
    | some kind => exact ⟨_, _, .punctuation hskip hdigit hkind⟩
    | none =>
      have hblank : first.isWhitespace = false := by
        have hnot := List.head?_dropWhile_not Char.isWhitespace c.rest
        rw [← drop_length_takeWhile, ← Cursor.rest_drop, ← Cursor.skipBlanks, hskip] at hnot
        exact hnot
      have hletter : isAlphanumeric first = true := by
        simpa [isPlain, hkind, hblank] using (Bool.and_eq_true_iff.mp hfirst).2
      exact ⟨_, _, .word hskip hdigit hkind hletter⟩

/-- A text of plain characters is made of lexemes. -/
theorem exists_reads (c : Cursor) (h : ∀ d ∈ c.rest, isPlain d = true) :
    ∃ ls last, Reads c ls last := by
  induction hlength : c.rest.length using Nat.strong_induction_on generalizing c with
  | _ n ih =>
    obtain ⟨l, after, hscan⟩ := exists_scanned h
    by_cases hkind : l.kind = .endOfInput
    · exact ⟨[], l, reads_nil_iff.mpr ⟨after, hscan, hkind⟩⟩
    · obtain ⟨taken, hrest, -⟩ := hscan.exists_taken
      have hlater : ∀ d ∈ after.rest, isPlain d = true := fun d hd =>
        h d (hrest ▸ List.mem_append_right taken hd)
      obtain ⟨ls, last, hreads⟩ := ih _ (hlength ▸ hscan.length_lt hkind) after hlater rfl
      exact ⟨l :: ls, last, reads_cons_iff.mpr ⟨after, hscan, hkind, hreads⟩⟩

end Lexeme

/-! ## Texts with two carets -/

open Grammar Lexeme

/-- A text of plain characters. -/
def Plain (text : String) : Prop := text.toList.all isPlain = true

/-- A text in which a primary stands between two carets. -/
def Chained (text : String) : Prop :=
  ∃ base e, Spells IsPrimary base e ∧ ("^" ++ base ++ "^").toList <:+: text.toList

theorem Chained.mono {text text' : String} (h : Chained text)
    (hinside : text.toList <:+: text'.toList) : Chained text' := by
  obtain ⟨base, e, hbase, hcarets⟩ := h
  exact ⟨base, e, hbase, hcarets.trans hinside⟩

/-- Powers do not chain: a text of plain characters is not read if a primary stands between
two carets in it. -/
theorem Chained.parse_ne_ok {source : String} (h : Chained source) (hplain : Plain source)
    (p : Program) : parse source ≠ .ok p := by
  intro hparse
  obtain ⟨ls, last, hreads⟩ := exists_reads (.ofString source) (List.all_eq_true.mp hplain)
  have hprogram := (parse_eq_ok_iff_isProgram hreads p).mp hparse
  obtain ⟨base, e, hbase, front, back, hsource⟩ := h
  have htext : source.toList = front ++ '^' :: (base.toList ++ '^' :: back) := by
    rw [← hsource]
    simp
  rw [Cursor.ofString, htext] at hreads
  obtain ⟨fs, caret, bs, q, rfl, hcaret, hbehind⟩ := hreads.exists_caret
  -- behind the first caret the primary is read, and behind that the second caret
  obtain ⟨ks, a, after, hscans, hprimary, -⟩ :=
    hbase ('^' :: back) q (breaks_cons (by decide) (by decide) back)
  obtain ⟨bs, rfl, hlater⟩ := hbehind.of_scans hscans
  have hscan := scanned_punctuation after (c := '^') rfl back
  obtain ⟨bs, rfl, -⟩ := hlater.of_scans (.cons hscan (by simp) .nil)
  exact not_isProgram_of_carets hcaret hprimary rfl hprogram

end MathQuery
