import MathQuery.Proofs.Query.Grammar
import MathQuery.Proofs.Query.Lexing

/-!
# Places and blanks do not change what is read

The same characters further on in a text are read as the same lexemes with other
places, and the same lexemes at other places make up the same expressions.

* `Expr.relocate` – an expression whose leaves stand at other places;
* `Grammar.relocate_isTerm` – derivations of lexemes that stand at other places;
* `Grammar.respaced_isTerm`, `respaced_isPhrase` – blanks in front of the first lexeme do not
  matter;
* `Lexeme.Scans.relocate` – scanning from another place;
* `Lexeme.Scans.of_blank` – scanning from a blank further in front.
-/

namespace MathQuery

/-! ## Relocation -/

/-- The same piece of text at another place. -/
def Spelling.relocate (f : Position → Position) (s : Spelling) : Spelling :=
  ⟨s.text, f s.position⟩

/-- The same lexeme at another place. -/
def Lexeme.relocate (f : Position → Position) (l : Lexeme) : Lexeme :=
  { l with position := f l.position }

theorem Lexeme.kind_relocate (f : Position → Position) {l : Lexeme} {kind : TokenKind}
    (h : l.kind = kind) : (l.relocate f).kind = kind := h

namespace Expr

mutual

/-- An expression whose leaves stand at other places. -/
def relocate (f : Position → Position) : Expr → Expr
  | number literal => number (literal.relocate f)
  | symbol name => symbol (name.relocate f)
  | binary op left right => binary op (left.relocate f) (right.relocate f)
  | call name arguments => call (name.relocate f) (relocateEach f arguments)

/-- Several expressions whose leaves stand at other places. -/
def relocateEach (f : Position → Position) : List Expr → List Expr
  | [] => []
  | e :: es => e.relocate f :: relocateEach f es

end

/-- An expression up to the places of its leaves. -/
def unplaced (e : Expr) : Expr := e.relocate fun _ => .start

theorem unplaced_binary (op : BinaryOp) (left right : Expr) :
    (binary op left right).unplaced = .binary op left.unplaced right.unplaced := by
  rw [unplaced, relocate]
  rfl

end Expr

/-- An operand whose leaves stand at other places. -/
def Operand.relocate (f : Position → Position) (a : Operand) : Operand :=
  ⟨a.expr.relocate f, a.shape⟩

namespace Grammar

open Lexeme (kind_relocate)

variable (f : Position → Position)

section Relocation

/-! Every rule of the grammar looks at the kinds of lexemes and at blanks only, so it
applies at the other places as well.  One theorem for each production, each by recursion on
the derivation. -/

mutual

theorem relocate_isPrimary {ls : List Lexeme} {a : Operand} :
    IsPrimary ls a → IsPrimary (ls.map (Lexeme.relocate f)) (a.relocate f)
  | .group hopening h hclosing => by
    rw [List.map_cons, List.map_append]
    exact .group (kind_relocate f hopening) (relocate_isTerm h) (kind_relocate f hclosing)
  | .number h => .number h
  | .symbol h => .symbol h
  | .call hname hopening hspaced h hclosing => by
    rw [List.map_cons, List.map_cons, List.map_append]
    exact .call (kind_relocate f hname) (kind_relocate f hopening) hspaced
      (relocate_isArguments h) (kind_relocate f hclosing)

theorem relocate_isPower {ls : List Lexeme} {a : Operand} :
    IsPower IsPrimary ls a → IsPower IsPrimary (ls.map (Lexeme.relocate f)) (a.relocate f)
  | .primary h => .primary (relocate_isPrimary h)
  | .pow hbase hcaret hexponent => by
    rw [List.map_append, List.map_cons]
    exact .pow (relocate_isPrimary hbase) (kind_relocate f hcaret) (relocate_isPrimary hexponent)

theorem relocate_isUnary {ls : List Lexeme} {a : Operand} :
    IsUnary IsPrimary ls a → IsUnary IsPrimary (ls.map (Lexeme.relocate f)) (a.relocate f)
  | .power h => .power (relocate_isPower h)
  | .plus hsign h => .plus (kind_relocate f hsign) (relocate_isPower h)
  | .minus hsign h => .minus (kind_relocate f hsign) (relocate_isPower h)

theorem relocate_isFactor {ls : List Lexeme} {a : Operand} :
    IsFactor IsPrimary ls a → IsFactor IsPrimary (ls.map (Lexeme.relocate f)) (a.relocate f)
  | .unary h => .unary (relocate_isUnary h)
  | .mul hleft hsign hright => by
    rw [List.map_append, List.map_cons]
    exact .mul (relocate_isFactor hleft) (kind_relocate f hsign) (relocate_isUnary hright)
  | .div hleft hsign hright => by
    rw [List.map_append, List.map_cons]
    exact .div (relocate_isFactor hleft) (kind_relocate f hsign) (relocate_isUnary hright)
  | @IsFactor.adjacent _ _ rs first _ _ hleft hspaced hpair hright => by
    have hright : IsUnary IsPrimary (first.relocate f :: rs.map (Lexeme.relocate f)) _ :=
      relocate_isUnary hright
    rw [List.map_append, List.map_cons]
    -- a pair is adjacent by its kinds and by the blanks, and both stay
    refine .adjacent (relocate_isFactor hleft) ?_ ?_ hright
    · exact hspaced
    · exact hpair

/-- A term is made up of the same lexemes wherever they stand. -/
theorem relocate_isTerm {ls : List Lexeme} {a : Operand} :
    IsTerm IsPrimary ls a → IsTerm IsPrimary (ls.map (Lexeme.relocate f)) (a.relocate f)
  | .factor h => .factor (relocate_isFactor h)
  | .add hleft hsign hright => by
    rw [List.map_append, List.map_cons]
    exact .add (relocate_isTerm hleft) (kind_relocate f hsign) (relocate_isFactor hright)
  | .sub hleft hsign hright => by
    rw [List.map_append, List.map_cons]
    exact .sub (relocate_isTerm hleft) (kind_relocate f hsign) (relocate_isFactor hright)

theorem relocate_isArgumentList {ls : List Lexeme} {es : List Expr} :
    IsArgumentList IsPrimary ls es →
      IsArgumentList IsPrimary (ls.map (Lexeme.relocate f)) (Expr.relocateEach f es)
  | .one h => .one (relocate_isTerm h)
  | .more hfirst hcomma hlater => by
    rw [List.map_append, List.map_cons]
    exact .more (relocate_isTerm hfirst) (kind_relocate f hcomma) (relocate_isArgumentList hlater)

theorem relocate_isArguments {ls : List Lexeme} {es : List Expr} :
    IsArguments IsPrimary ls es →
      IsArguments IsPrimary (ls.map (Lexeme.relocate f)) (Expr.relocateEach f es)
  | .none => .none
  | .some h => .some (relocate_isArgumentList h)

end

end Relocation

/-! ## Blanks in front -/

/-- Lexemes with or without blanks in front of the first one. -/
def respaceFirst (spaced : Bool) : List Lexeme → List Lexeme
  | [] => []
  | l :: ls => { l with spaced } :: ls

theorem respaceFirst_append {ls : List Lexeme} (h : ls ≠ []) (spaced : Bool)
    (ks : List Lexeme) : respaceFirst spaced (ls ++ ks) = respaceFirst spaced ls ++ ks := by
  cases ls with
  | nil => contradiction
  | cons l ls => rfl

theorem Begins.ne_nil {α : Type} {P : List Lexeme → α → Prop} {Kinds : TokenKind → Prop}
    (h : Begins P Kinds) {ls : List Lexeme} {a : α} (ha : P ls a) : ls ≠ [] := by
  obtain ⟨l, ks, rfl, -⟩ := h ls a ha
  exact List.cons_ne_nil l ks

variable {spaced : Bool} {ls : List Lexeme} {a : Operand}

theorem respaced_isPrimary (h : IsPrimary ls a) : IsPrimary (respaceFirst spaced ls) a := by
  cases h with
  | @group opening closing ls a hopening h hclosing =>
    have hopening : ({ opening with spaced } : Lexeme).kind = .openParen := hopening
    exact .group hopening h hclosing
  | @number l h =>
    have h : ({ l with spaced } : Lexeme).kind = .number := h
    exact .number h
  | @symbol l h =>
    have h : ({ l with spaced } : Lexeme).kind = .identifier := h
    exact .symbol h
  | @call name opening closing ls es hname hopening hspaced h hclosing =>
    have hname : ({ name with spaced } : Lexeme).kind = .identifier := hname
    exact .call hname hopening hspaced h hclosing

theorem respaced_isPower (h : IsPower IsPrimary ls a) :
    IsPower IsPrimary (respaceFirst spaced ls) a := by
  cases h with
  | primary h => exact .primary (respaced_isPrimary h)
  | pow hbase hcaret hexponent =>
    rw [respaceFirst_append (isPrimary_begins.ne_nil hbase)]
    exact .pow (respaced_isPrimary hbase) hcaret hexponent

theorem respaced_isUnary (h : IsUnary IsPrimary ls a) :
    IsUnary IsPrimary (respaceFirst spaced ls) a := by
  cases h with
  | power h => exact .power (respaced_isPower h)
  | @plus sign ls a hsign h =>
    have hsign : ({ sign with spaced } : Lexeme).kind = .plus := hsign
    exact .plus hsign h
  | @minus sign ls a hsign h =>
    have hsign : ({ sign with spaced } : Lexeme).kind = .minus := hsign
    exact .minus hsign h

theorem respaced_isFactor (h : IsFactor IsPrimary ls a) :
    IsFactor IsPrimary (respaceFirst spaced ls) a := by
  have hne {ls : List Lexeme} {a : Operand} (h : IsFactor IsPrimary ls a) : ls ≠ [] :=
    (isFactor_begins isPrimary_begins).ne_nil h
  induction h with
  | unary h => exact .unary (respaced_isUnary h)
  | mul hleft hsign hright ih =>
    rw [respaceFirst_append (hne hleft)]
    exact .mul ih hsign hright
  | div hleft hsign hright ih =>
    rw [respaceFirst_append (hne hleft)]
    exact .div ih hsign hright
  | adjacent hleft hspaced hpair hright ih =>
    rw [respaceFirst_append (hne hleft)]
    exact .adjacent ih hspaced hpair hright

/-- Blanks in front of a term do not matter. -/
theorem respaced_isTerm (h : IsTerm IsPrimary ls a) :
    IsTerm IsPrimary (respaceFirst spaced ls) a := by
  have hne {ls : List Lexeme} {a : Operand} (h : IsTerm IsPrimary ls a) : ls ≠ [] :=
    (isTerm_begins isPrimary_begins).ne_nil h
  induction h with
  | factor h => exact .factor (respaced_isFactor h)
  | add hleft hsign hright ih =>
    rw [respaceFirst_append (hne hleft)]
    exact .add ih hsign hright
  | sub hleft hsign hright ih =>
    rw [respaceFirst_append (hne hleft)]
    exact .sub ih hsign hright

theorem respaced_isArgumentList {es : List Expr} (h : IsArgumentList IsPrimary ls es) :
    IsArgumentList IsPrimary (respaceFirst spaced ls) es := by
  cases h with
  | one h => exact .one (respaced_isTerm h)
  | more hfirst hcomma hlater =>
    rw [respaceFirst_append ((isTerm_begins isPrimary_begins).ne_nil hfirst)]
    exact .more (respaced_isTerm hfirst) hcomma hlater

theorem respaced_isEquation (h : IsEquation ls a) : IsEquation (respaceFirst spaced ls) a := by
  cases h with
  | term h => exact .term (respaced_isTerm h)
  | equal hleft hsign hright =>
    rw [respaceFirst_append ((isTerm_begins isPrimary_begins).ne_nil hleft)]
    exact .equal (respaced_isTerm hleft) hsign hright

theorem respaced_isPhrase {es : Phrase} (h : IsPhrase ls es) :
    IsPhrase (respaceFirst spaced ls) es := by
  cases h with
  | one h => exact .one (respaced_isEquation h)
  | more hfirst hnext hlater =>
    rw [respaceFirst_append (isEquation_begins.ne_nil hfirst)]
    exact .more (respaced_isEquation hfirst) hnext hlater

end Grammar

/-! ## Scanning -/

namespace Position

/-- Moving on by characters and relocating can be exchanged.  Lines count from one, and
there is no other place. -/
def Shifts (f : Position → Position) : Prop :=
  ∀ (p : Position) (c : Char), 0 < p.line → f (p.advance c) = (f p).advance c

theorem line_pos_advanceAll {p : Position} (h : 0 < p.line) (run : List Char) :
    0 < (p.advanceAll run).line := by
  induction run generalizing p with
  | nil => exact h
  | cons c run ih =>
    refine ih ?_
    rw [advance]
    split
    · exact Nat.succ_pos _
    · exact h

theorem Shifts.advanceAll {f : Position → Position} (hf : Shifts f) {p : Position}
    (h : 0 < p.line) (run : List Char) : f (p.advanceAll run) = (f p).advanceAll run := by
  induction run generalizing p with
  | nil => rfl
  | cons c run ih =>
    rw [advanceAll_cons, advanceAll_cons, ← hf p c h]
    exact ih (line_pos_advanceAll h [c])

/-- The same place of a text that stands `n` characters further on, on the first line. -/
def shift (n : ℕ) (p : Position) : Position :=
  if p.line = 1 then ⟨1, p.column + n⟩ else p

theorem shifts_shift (n : ℕ) : Shifts (shift n) := by
  intro p c hline
  by_cases hc : c = '\n'
  · -- the next line is not the first one, so its columns stay
    subst hc
    have hne : p.line + 1 ≠ 1 := by omega
    simp only [advance, if_true, shift, if_neg hne]
    split <;> simp_all
  · simp only [advance, if_neg hc, shift]
    split
    · simp [Nat.add_right_comm]
    · rfl

end Position

namespace Cursor

/-- The same characters at another place. -/
def relocate (f : Position → Position) (c : Cursor) : Cursor := ⟨c.rest, f c.position⟩

theorem line_pos_drop {c : Cursor} (h : 0 < c.position.line) (n : ℕ) :
    0 < (c.drop n).position.line :=
  Position.line_pos_advanceAll h _

theorem relocate_drop {f : Position → Position} (hf : Position.Shifts f) {c : Cursor}
    (h : 0 < c.position.line) (n : ℕ) : (c.relocate f).drop n = (c.drop n).relocate f := by
  rw [relocate, relocate, drop, drop, hf.advanceAll h]

theorem skipBlanks_cons {b : Char} (hb : b.isWhitespace = true) (cs : List Char)
    (p : Position) :
    (⟨b :: cs, p⟩ : Cursor).skipBlanks = (⟨cs, p.advance b⟩ : Cursor).skipBlanks := by
  simp [skipBlanks, drop, hb]

end Cursor

namespace Lexeme

variable {f : Position → Position} {c after : Cursor} {l : Lexeme} {ls : List Lexeme}

/-- A scan depends on what stands behind the blanks only, apart from places and from
whether there are blanks. -/
theorem Scanned.exists_drop (h : Scanned c l after) :
    ∃ n, after = c.skipBlanks.drop n ∧
      l = ⟨⟨⟨l.text, c.skipBlanks.position⟩, l.kind⟩, c.atBlank⟩ ∧
      ∀ c' : Cursor, c'.skipBlanks.rest = c.skipBlanks.rest →
        Scanned c' ⟨⟨⟨l.text, c'.skipBlanks.position⟩, l.kind⟩, c'.atBlank⟩
          (c'.skipBlanks.drop n) := by
  cases h with
  | endOfInput hrest => exact ⟨0, rfl, rfl, fun c' hc' => .endOfInput (hc'.trans hrest)⟩
  | number hrest hdigit hpoint =>
    exact ⟨_, rfl, rfl, fun c' hc' => .number (hc'.trans hrest) hdigit hpoint⟩
  | punctuation hrest hdigit hkind =>
    exact ⟨1, rfl, rfl, fun c' hc' => .punctuation (hc'.trans hrest) hdigit hkind⟩
  | word hrest hdigit hkind hletter =>
    exact ⟨_, rfl, rfl, fun c' hc' => .word (hc'.trans hrest) hdigit hkind hletter⟩

theorem Scanned.line_pos (h : Scanned c l after) (hline : 0 < c.position.line) :
    0 < after.position.line := by
  obtain ⟨n, rfl, -, -⟩ := h.exists_drop
  exact Cursor.line_pos_drop (Cursor.line_pos_drop hline _) n

theorem Scanned.relocate (hf : Position.Shifts f) (hline : 0 < c.position.line)
    (h : Scanned c l after) :
    Scanned (c.relocate f) (l.relocate f) (after.relocate f) := by
  -- blanks are skipped at both places, and the same characters are left
  have hskip : (c.relocate f).skipBlanks = c.skipBlanks.relocate f :=
    Cursor.relocate_drop hf hline _
  have hskipLine : 0 < c.skipBlanks.position.line := Cursor.line_pos_drop hline _
  obtain ⟨n, rfl, hl, hscan⟩ := h.exists_drop
  have hmoved := hscan (c.relocate f) (by rw [hskip]; rfl)
  rw [hskip, Cursor.relocate_drop hf hskipLine] at hmoved
  rw [hl]
  exact hmoved

/-- Scanning finds the same lexemes further on in a text. -/
theorem Scans.relocate (hf : Position.Shifts f) (hline : 0 < c.position.line)
    (h : Scans c ls after) :
    Scans (c.relocate f) (ls.map (Lexeme.relocate f)) (after.relocate f) := by
  induction h with
  | nil => exact .nil
  | cons hfirst hkind _ ih =>
    exact .cons (hfirst.relocate hf hline) hkind (ih (hfirst.line_pos hline))

theorem Scans.line_pos (h : Scans c ls after) (hline : 0 < c.position.line) :
    0 < after.position.line := by
  induction h with
  | nil => exact hline
  | cons hfirst _ _ ih => exact ih (hfirst.line_pos hline)

theorem Reads.relocate {last : Lexeme} (hf : Position.Shifts f) (hline : 0 < c.position.line)
    (h : Reads c ls last) :
    Reads (c.relocate f) (ls.map (Lexeme.relocate f)) (last.relocate f) := by
  obtain ⟨middle, after, hscans, hlast, hkind⟩ := h
  exact ⟨_, _, hscans.relocate hf hline, hlast.relocate hf (hscans.line_pos hline), hkind⟩

/-- A blank in front of a lexeme shows in the lexeme only. -/
theorem Scanned.of_blank {b : Char} (hb : b.isWhitespace = true) {cs : List Char} {p : Position}
    (h : Scanned ⟨cs, p.advance b⟩ l after) :
    Scanned ⟨b :: cs, p⟩ { l with spaced := true } after := by
  have hskip := Cursor.skipBlanks_cons hb cs p
  have hblank : (⟨b :: cs, p⟩ : Cursor).atBlank = true := by simp [Cursor.atBlank, hb]
  obtain ⟨n, rfl, hl, hscan⟩ := h.exists_drop
  have hfound := hscan ⟨b :: cs, p⟩ (by rw [hskip])
  rw [hskip, hblank] at hfound
  rw [hl]
  exact hfound

theorem Scans.of_blank {b : Char} (hb : b.isWhitespace = true) {cs : List Char} {p : Position}
    (hne : ls ≠ []) (h : Scans ⟨cs, p.advance b⟩ ls after) :
    Scans ⟨b :: cs, p⟩ (Grammar.respaceFirst true ls) after := by
  cases h with
  | nil => contradiction
  | cons hfirst hkind hlater => exact .cons (hfirst.of_blank hb) hkind hlater

end Lexeme

end MathQuery
