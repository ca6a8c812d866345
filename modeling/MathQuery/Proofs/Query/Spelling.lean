import Mathlib.Data.List.TakeWhile
import MathQuery.Proofs.Query.Completeness
import MathQuery.Proofs.Query.Relocation

/-!
# Texts that read as expressions

A text spells an expression if its characters are scanned as lexemes that make up this
expression, up to places, wherever the text stands and whatever breaks it off.  What
spells larger expressions is put together from what spells their parts.

* `Spells` – a text reads as an expression of a production;
* `spells_number`, `spells_symbol`, `Spells.group`, `call` – the primaries;
* `Spells.pow`, `mul`, `div`, `add`, `sub`, `equal`, `minus` – the operators;
* `Spells.parse_eq_ok` – the parser reads such a text as this one expression.
-/

namespace MathQuery

/-! ## Characters -/

theorem isAlphanumeric_of_isWhitespace {c : Char} (h : c.isWhitespace = true) :
    isAlphanumeric c = false := by
  simp only [Char.isWhitespace, Bool.or_eq_true, decide_eq_true_eq] at h
  rcases h with ((rfl | rfl) | rfl) | rfl <;> decide

theorem isWhitespace_of_isAlphanumeric {c : Char} (h : isAlphanumeric c = true) :
    c.isWhitespace = false := by
  by_contra hblank
  rw [isAlphanumeric_of_isWhitespace (by simpa using hblank)] at h
  contradiction

namespace TokenKind

/-- A character that is a token by itself belongs to no word and to no blank. -/
theorem isAlphanumeric_of_ofPunctuation? {c : Char} {kind : TokenKind}
    (h : ofPunctuation? c = some kind) :
    isAlphanumeric c = false ∧ c.isWhitespace = false := by
  unfold ofPunctuation? at h
  split at h
  case h_11 => contradiction
  all_goals decide

theorem ofPunctuation?_eq_none {c : Char} (h : isAlphanumeric c = true) :
    ofPunctuation? c = none := by
  cases hkind : ofPunctuation? c with
  | none => rfl
  | some kind =>
    rw [(isAlphanumeric_of_ofPunctuation? hkind).1] at h
    contradiction

end TokenKind

/-- An identifier: letters and digits, of which the first is no decimal digit. -/
inductive IsWord : List Char → Prop
  | mk {first : Char} {later : List Char} (hdigit : first.isDigit = false)
    (hletters : ∀ c ∈ first :: later, isAlphanumeric c = true) : IsWord (first :: later)

instance : DecidablePred IsWord
  | [] => isFalse nofun
  | first :: later =>
    decidable_of_iff (first.isDigit = false ∧ (first :: later).all isAlphanumeric = true)
      ⟨fun ⟨hdigit, hletters⟩ => .mk hdigit (List.all_eq_true.mp hletters),
        fun (.mk hdigit hletters) => ⟨hdigit, List.all_eq_true.mpr hletters⟩⟩

/-- The characters that may follow a number or a word without making it longer. -/
def Breaks (rest : List Char) : Prop :=
  ∀ c, rest.head? = some c → isAlphanumeric c = false ∧ c ≠ '.'

theorem breaks_nil : Breaks [] := nofun

theorem breaks_cons {c : Char} (h : isAlphanumeric c = false) (hpoint : c ≠ '.')
    (rest : List Char) : Breaks (c :: rest) := by
  rintro _ ⟨⟩
  exact ⟨h, hpoint⟩

theorem takeWhile_append_of_head {p : Char → Bool} {run rest : List Char}
    (hrun : ∀ c ∈ run, p c = true) (hrest : ∀ c, rest.head? = some c → p c = false) :
    (run ++ rest).takeWhile p = run := by
  rw [List.takeWhile_append_of_pos hrun]
  cases rest with
  | nil => simp
  | cons c rest => simp [hrest c rfl]

/-- What may follow a number without making it longer. -/
def NumeralEnds (rest : List Char) : Prop :=
  ∀ c, rest.head? = some c → c.isDigit = false ∧ c ≠ '.'

/-- What may follow a word without making it longer. -/
def WordEnds (rest : List Char) : Prop := ∀ c, rest.head? = some c → isAlphanumeric c = false

theorem isDigit_of_isAlphanumeric_eq_false {c : Char} (h : isAlphanumeric c = false) :
    c.isDigit = false := by
  by_contra hdigit
  rw [isAlphanumeric_of_isDigit (by simpa using hdigit)] at h
  contradiction

theorem Breaks.numeralEnds {rest : List Char} (h : Breaks rest) : NumeralEnds rest :=
  fun c hc => ⟨isDigit_of_isAlphanumeric_eq_false (h c hc).1, (h c hc).2⟩

theorem Breaks.wordEnds {rest : List Char} (h : Breaks rest) : WordEnds rest :=
  fun c hc => (h c hc).1

theorem dropWhile_append_of_head {p : Char → Bool} {run rest : List Char}
    (hrun : ∀ c ∈ run, p c = true) (hrest : ∀ c, rest.head? = some c → p c = false) :
    (run ++ rest).dropWhile p = rest := by
  have happend := List.takeWhile_append_dropWhile (p := p) (l := run ++ rest)
  rw [takeWhile_append_of_head hrun hrest] at happend
  exact List.append_cancel_left happend

/-- A number without a sign: digits, and optionally a point and further digits. -/
inductive IsNumeral : List Char → Prop
  | whole {ds : List Char} (hne : ds ≠ []) (hds : ∀ d ∈ ds, d.isDigit = true) : IsNumeral ds
  | decimal {ds fs : List Char} (hne : ds ≠ []) (hds : ∀ d ∈ ds, d.isDigit = true)
    (hfs : ∀ d ∈ fs, d.isDigit = true) : IsNumeral (ds ++ '.' :: fs)

theorem IsNumeral.exists_cons {cs : List Char} (h : IsNumeral cs) :
    ∃ first later, cs = first :: later ∧ first.isDigit = true := by
  cases h with
  | whole hne hds | decimal hne hds _ =>
    obtain ⟨first, later, rfl⟩ := List.exists_cons_of_ne_nil hne
    exact ⟨first, _, rfl, hds first List.mem_cons_self⟩

/-- Digits with a point are read as far as the digits go, also up to a second point. -/
theorem decimalPrefix_pointed_append {ds fs rest : List Char} (hds : ∀ d ∈ ds, d.isDigit = true)
    (hfs : ∀ d ∈ fs, d.isDigit = true) (hrest : ∀ c, rest.head? = some c → c.isDigit = false) :
    decimalPrefix (ds ++ '.' :: fs ++ rest) = ds ++ '.' :: fs := by
  have hpoint : ∀ c, ('.' :: (fs ++ rest)).head? = some c → c.isDigit = false := by
    rintro _ ⟨⟩
    decide
  rw [List.append_assoc, List.cons_append, decimalPrefix, takeWhile_append_of_head hds hpoint,
    dropWhile_append_of_head hds hpoint]
  show ds ++ '.' :: (fs ++ rest).takeWhile Char.isDigit = _
  rw [takeWhile_append_of_head hfs hrest]

/-- A numeral is read as far as it goes. -/
theorem IsNumeral.decimalPrefix_append {cs rest : List Char} (h : IsNumeral cs)
    (hrest : NumeralEnds rest) : decimalPrefix (cs ++ rest) = cs := by
  have hend : ∀ c, rest.head? = some c → c.isDigit = false := fun c hc => (hrest c hc).1
  cases h with
  | whole _ hds =>
    rw [decimalPrefix, takeWhile_append_of_head hds hend, dropWhile_append_of_head hds hend]
    split
    · exact absurd rfl (hrest '.' rfl).2
    · exact List.append_nil cs
  | decimal _ hds hfs => exact decimalPrefix_pointed_append hds hfs hend

/-- What the longest run of digits with at most one point is. -/
theorem isNumeral_decimalPrefix {first : Char} (h : first.isDigit = true) (later : List Char) :
    IsNumeral (decimalPrefix (first :: later)) := by
  have hne : (first :: later).takeWhile Char.isDigit ≠ [] := by
    rw [List.takeWhile_cons_of_pos h]
    exact List.cons_ne_nil _ _
  have hdigits (cs : List Char) : ∀ d ∈ cs.takeWhile Char.isDigit, d.isDigit = true :=
    fun _ => List.mem_takeWhile_imp
  unfold decimalPrefix
  split
  · exact .decimal hne (hdigits _) (hdigits _)
  · rw [List.append_nil]
    exact .whole hne (hdigits _)

/-! ## Lexemes -/

namespace Lexeme

variable {rest : List Char} {c : Char} (p : Position)

theorem skipBlanks_of_head (rest : List Char) (h : c.isWhitespace = false) :
    (⟨c :: rest, p⟩ : Cursor).skipBlanks = ⟨c :: rest, p⟩ ∧
      (⟨c :: rest, p⟩ : Cursor).atBlank = false := by
  have hblank : (⟨c :: rest, p⟩ : Cursor).atBlank = false := by simpa [Cursor.atBlank] using h
  exact ⟨Cursor.skipBlanks_of_atBlank_eq_false hblank, hblank⟩

theorem scanned_punctuation {kind : TokenKind} (h : TokenKind.ofPunctuation? c = some kind)
    (rest : List Char) :
    Scanned ⟨c :: rest, p⟩ ⟨⟨⟨c.toString, p⟩, kind⟩, false⟩ ⟨rest, p.advance c⟩ := by
  obtain ⟨hletter, hblank⟩ := TokenKind.isAlphanumeric_of_ofPunctuation? h
  obtain ⟨hskip, hat⟩ := skipBlanks_of_head p rest hblank
  have hdigit : c.isDigit = false := by
    by_contra hdigit
    rw [isAlphanumeric_of_isDigit (by simpa using hdigit)] at hletter
    contradiction
  have hscan := Scanned.punctuation (c := ⟨c :: rest, p⟩) (by rw [hskip]) hdigit h
  rwa [hskip, hat] at hscan

theorem drop_length_append (run rest : List Char) :
    (⟨run ++ rest, p⟩ : Cursor).drop run.length = ⟨rest, p.advanceAll run⟩ := by
  simp [Cursor.drop]

theorem scanned_number {ds : List Char} (h : IsNumeral ds) (hrest : NumeralEnds rest) :
    Scanned ⟨ds ++ rest, p⟩ ⟨⟨⟨String.ofList ds, p⟩, .number⟩, false⟩
      ⟨rest, p.advanceAll ds⟩ := by
  have hdigits := h.decimalPrefix_append hrest
  obtain ⟨first, later, rfl, hfirst⟩ := h.exists_cons
  obtain ⟨hskip, hat⟩ := skipBlanks_of_head p (later ++ rest)
    (isWhitespace_of_isAlphanumeric (isAlphanumeric_of_isDigit hfirst))
  rw [List.cons_append] at hdigits
  have hscan := Scanned.number (c := ⟨first :: (later ++ rest), p⟩) (by rw [hskip]) hfirst (by
    rw [hdigits, ← List.cons_append, List.drop_left]
    exact fun hpoint => (hrest '.' hpoint).2 rfl)
  rw [hskip, hat, hdigits, ← List.cons_append, drop_length_append] at hscan
  exact hscan

theorem scanned_word {w : List Char} (hw : IsWord w) (hrest : WordEnds rest) :
    Scanned ⟨w ++ rest, p⟩ ⟨⟨⟨String.ofList w, p⟩, .identifier⟩, false⟩
      ⟨rest, p.advanceAll w⟩ := by
  obtain @⟨first, later, hdigit, hletters⟩ := hw
  have hfirst := hletters first List.mem_cons_self
  obtain ⟨hskip, hat⟩ := skipBlanks_of_head p (later ++ rest)
    (isWhitespace_of_isAlphanumeric hfirst)
  have hrun := takeWhile_append_of_head hletters hrest
  rw [List.cons_append] at hrun
  have hscan := Scanned.word (c := ⟨first :: (later ++ rest), p⟩) (by rw [hskip]) hdigit
    (TokenKind.ofPunctuation?_eq_none hfirst) hfirst
  rw [hskip, hat, hrun, ← List.cons_append, drop_length_append] at hscan
  exact hscan

/-- What is scanned as an identifier is one. -/
theorem Scanned.isWord {c after : Cursor} {l : Lexeme} (h : Scanned c l after)
    (hkind : l.kind = .identifier) : IsWord l.text.toList := by
  cases h with
  | endOfInput _ | number _ _ _ => contradiction
  | punctuation _ _ hpunctuation =>
    exact absurd hkind (TokenKind.ofPunctuation?_ne hpunctuation).2.2
  | @word first later hrest hdigit hpunctuation hletter =>
    rw [String.toList_ofList, List.takeWhile_cons_of_pos hletter]
    refine .mk hdigit fun d hd => ?_
    rcases List.mem_cons.mp hd with rfl | hd
    · exact hletter
    · exact List.mem_takeWhile_imp hd

/-- What is scanned as a number is one. -/
theorem Scanned.isNumeral {c after : Cursor} {l : Lexeme} (h : Scanned c l after)
    (hkind : l.kind = .number) : IsNumeral l.text.toList := by
  cases h with
  | endOfInput _ | word _ _ _ _ => contradiction
  | punctuation _ _ hpunctuation =>
    exact absurd hkind (TokenKind.ofPunctuation?_ne hpunctuation).2.1
  | @number first later _ hdigit _ =>
    rw [String.toList_ofList]
    exact isNumeral_decimalPrefix hdigit later

theorem Scans.isWord {c after : Cursor} {ls : List Lexeme} (h : Scans c ls after) :
    ∀ l ∈ ls, l.kind = .identifier → IsWord l.text.toList := by
  induction h with
  | nil => exact nofun
  | cons hfirst _ _ ih => exact List.forall_mem_cons.mpr ⟨hfirst.isWord, ih⟩

end Lexeme

/-! ## Expressions -/

open Grammar Lexeme

/-- A text reads as an expression of a production, up to places, whatever breaks it off. -/
def Spells (D : Derivation) (text : String) (e : Expr) : Prop :=
  ∀ (rest : List Char) (p : Position), Breaks rest →
    ∃ ls a after, Scans ⟨text.toList ++ rest, p⟩ ls ⟨rest, after⟩ ∧ D ls a ∧ a.expr.unplaced = e

variable {D D' : Derivation} {text : String} {e : Expr}

theorem Spells.mono (h : Spells D text e) (hD : ∀ ls a, D ls a → D' ls a) :
    Spells D' text e := by
  intro rest p hrest
  obtain ⟨ls, a, after, hscans, ha, he⟩ := h rest p hrest
  exact ⟨ls, a, after, hscans, hD ls a ha, he⟩

/-! ### Primaries -/

theorem spells_number {ds : String} (h : IsNumeral ds.toList) :
    Spells IsPrimary ds (.number ⟨ds, .start⟩) := by
  intro rest p hrest
  have hscan := scanned_number p h hrest.numeralEnds
  rw [String.ofList_toList] at hscan
  exact ⟨_, _, _, .cons hscan nofun .nil, .number rfl, rfl⟩

theorem spells_symbol {w : String} (hw : IsWord w.toList) :
    Spells IsPrimary w (.symbol ⟨w, .start⟩) := by
  intro rest p hrest
  have hscan := scanned_word p hw hrest.wordEnds
  rw [String.ofList_toList] at hscan
  exact ⟨_, _, _, .cons hscan nofun .nil, .symbol rfl, rfl⟩

theorem Spells.group (h : Spells (IsTerm IsPrimary) text e) :
    Spells IsPrimary ("(" ++ text ++ ")") e := by
  intro rest p hrest
  have hbreaks : Breaks (')' :: rest) := breaks_cons (by decide) (by decide) rest
  obtain ⟨ls, a, after, hscans, ha, rfl⟩ := h (')' :: rest) (p.advance '(') hbreaks
  have htext : ("(" ++ text ++ ")").toList ++ rest = '(' :: (text.toList ++ ')' :: rest) := by simp
  have hopening := scanned_punctuation p (c := '(') rfl (text.toList ++ ')' :: rest)
  have hclosing := scanned_punctuation after (c := ')') rfl rest
  rw [htext]
  refine ⟨_, ⟨a.expr, .group⟩, _,
    .cons hopening nofun (hscans.append (.cons hclosing nofun .nil)), ?_, rfl⟩
  exact .group rfl ha rfl

/-- Arguments with commas between them, up to the closing parenthesis. -/
theorem scans_arguments {text : String} {texts : List String} {e : Expr} {es : List Expr}
    (hfirst : Spells (IsTerm IsPrimary) text e)
    (hlater : List.Forall₂ (Spells (IsTerm IsPrimary)) texts es) (rest : List Char)
    (p : Position) :
    ∃ ls as after, Scans ⟨(", ".intercalate (text :: texts)).toList ++ ')' :: rest, p⟩ ls
      ⟨')' :: rest, after⟩ ∧ IsArgumentList IsPrimary ls as ∧
        Expr.relocateEach (fun _ => .start) as = e :: es := by
  have hclosing : Breaks (')' :: rest) := breaks_cons (by decide) (by decide) rest
  induction hlater generalizing text e p with
  | nil =>
    obtain ⟨ls, a, after, hscans, ha, rfl⟩ := hfirst _ p hclosing
    rw [String.intercalate_singleton]
    exact ⟨ls, [a.expr], after, hscans, .one ha, rfl⟩
  | @cons text' e' texts es hnext _ ih =>
    have htext : (", ".intercalate (text :: text' :: texts)).toList ++ ')' :: rest =
        text.toList ++
          ',' :: ' ' :: ((", ".intercalate (text' :: texts)).toList ++ ')' :: rest) := by
      rw [String.intercalate_cons_of_ne_nil (List.cons_ne_nil _ _)]
      simp
    obtain ⟨ls, a, middle, hscans, ha, rfl⟩ := hfirst _ p
      (breaks_cons (by decide) (by decide) (' ' :: ((", ".intercalate (text' :: texts)).toList ++
        ')' :: rest)) : Breaks (',' :: _))
    -- the blank behind the comma stands in front of the next argument
    obtain ⟨ks, as, after, hlater, has, hes⟩ := ih hnext ((middle.advance ',').advance ' ')
    have hcomma := scanned_punctuation middle (c := ',') rfl
      (' ' :: ((", ".intercalate (text' :: texts)).toList ++ ')' :: rest))
    have hne : ks ≠ [] := (isArgumentList_begins isPrimary_begins).ne_nil has
    rw [htext]
    refine ⟨_, a.expr :: as, after,
      hscans.append (.cons hcomma nofun (hlater.of_blank rfl hne)), ?_, ?_⟩
    · exact .more ha rfl (respaced_isArgumentList has)
    · rw [Expr.relocateEach, hes]
      rfl

/-- The call of a function. -/
theorem Spells.call {name : String} {texts : List String} {es : List Expr}
    (hname : IsWord name.toList) (h : List.Forall₂ (Spells (IsTerm IsPrimary)) texts es) :
    Spells IsPrimary (name ++ "(" ++ ", ".intercalate texts ++ ")")
      (.call ⟨name, .start⟩ es) := by
  intro rest p hrest
  have htext : (name ++ "(" ++ ", ".intercalate texts ++ ")").toList ++ rest =
      name.toList ++ '(' :: ((", ".intercalate texts).toList ++ ')' :: rest) := by simp
  have hbreaks : Breaks ('(' :: ((", ".intercalate texts).toList ++ ')' :: rest)) :=
    breaks_cons (by decide) (by decide) _
  have hword := scanned_word p hname hbreaks.wordEnds
  rw [String.ofList_toList] at hword
  have hopening := scanned_punctuation (p.advanceAll name.toList) (c := '(') rfl
    ((", ".intercalate texts).toList ++ ')' :: rest)
  rw [htext]
  have harguments : ∃ ls as after,
      Scans ⟨(", ".intercalate texts).toList ++ ')' :: rest,
        (p.advanceAll name.toList).advance '('⟩ ls ⟨')' :: rest, after⟩ ∧
          IsArguments IsPrimary ls as ∧ Expr.relocateEach (fun _ => .start) as = es := by
    cases h with
    | nil => exact ⟨[], [], _, .nil, .none, rfl⟩
    | cons hfirst hlater =>
      obtain ⟨ls, as, after, hscans, has, hes⟩ := scans_arguments hfirst hlater rest _
      exact ⟨ls, as, after, hscans, .some has, hes⟩
  obtain ⟨ls, as, after, hscans, has, rfl⟩ := harguments
  have hclosing := scanned_punctuation after (c := ')') rfl rest
  refine ⟨_, ⟨.call ⟨name, p⟩ as, .call⟩, _,
    .cons hword nofun (.cons hopening nofun (hscans.append (.cons hclosing nofun .nil))), ?_, rfl⟩
  exact .call rfl rfl rfl has rfl

/-! ### Operators -/

namespace BinaryOp

/-- The sign of an operator as a character. -/
def sign : BinaryOp → Char
  | add => '+'
  | sub => '-'
  | mul => '*'
  | div => '/'
  | pow => '^'
  | equal => '='

/-- The kind of the token that stands for an operator. -/
def tokenKind : BinaryOp → TokenKind
  | add => .plus
  | sub => .minus
  | mul => .star
  | div => .slash
  | pow => .caret
  | equal => .equal

/-- Whether an operator is set apart by blanks. -/
def isSpaced (op : BinaryOp) : Bool := op.precedence < 2

theorem toList_between (op : BinaryOp) :
    op.between.toList = if op.isSpaced then [' ', op.sign, ' '] else [op.sign] := by
  cases op <;> rfl

theorem ofPunctuation?_sign (op : BinaryOp) :
    TokenKind.ofPunctuation? op.sign = some op.tokenKind := by
  cases op <;> rfl

theorem tokenKind_ne (op : BinaryOp) : op.tokenKind ≠ .endOfInput := by
  cases op <;> exact nofun

theorem sign_ne (op : BinaryOp) : op.sign ≠ '.' := by
  cases op <;> decide

theorem breaks_between (op : BinaryOp) (rest : List Char) :
    Breaks (op.between.toList ++ rest) := by
  have hsign := (TokenKind.isAlphanumeric_of_ofPunctuation? op.ofPunctuation?_sign).1
  rw [toList_between]
  split
  · exact breaks_cons (by decide) (by decide) _
  · exact breaks_cons hsign op.sign_ne _

/-- What stands between two operands is scanned as the sign of the operator. -/
theorem scans_between (op : BinaryOp) (rest : List Char) (p : Position) :
    ∃ l after, l.kind = op.tokenKind ∧ Scans ⟨op.between.toList ++ rest, p⟩ [l]
      ⟨if op.isSpaced then ' ' :: rest else rest, after⟩ := by
  rw [toList_between]
  split
  · have hscan := scanned_punctuation (p.advance ' ') op.ofPunctuation?_sign (' ' :: rest)
    exact ⟨_, _, rfl, .cons (hscan.of_blank rfl) op.tokenKind_ne .nil⟩
  · have hscan := scanned_punctuation p op.ofPunctuation?_sign rest
    exact ⟨_, _, rfl, .cons hscan op.tokenKind_ne .nil⟩

end BinaryOp

/-- Blanks in front of such derivations do not matter, and none of them is empty. -/
structure Respaceable (D : Derivation) : Prop where
  ne_nil : ∀ ls a, D ls a → ls ≠ []
  respaced : ∀ ls a, D ls a → D (respaceFirst true ls) a

theorem respaceable_isPrimary : Respaceable IsPrimary :=
  ⟨fun _ _ => isPrimary_begins.ne_nil, fun _ _ => respaced_isPrimary⟩

theorem respaceable_isUnary : Respaceable (IsUnary IsPrimary) :=
  ⟨fun _ _ => (isUnary_begins isPrimary_begins).ne_nil, fun _ _ => respaced_isUnary⟩

theorem respaceable_isFactor : Respaceable (IsFactor IsPrimary) :=
  ⟨fun _ _ => (isFactor_begins isPrimary_begins).ne_nil, fun _ _ => respaced_isFactor⟩

theorem respaceable_isTerm : Respaceable (IsTerm IsPrimary) :=
  ⟨fun _ _ => (isTerm_begins isPrimary_begins).ne_nil, fun _ _ => respaced_isTerm⟩

namespace Spells

variable {left right : String} {l r : Expr}

/-- Two operands and what stands between them. -/
theorem joined (op : BinaryOp) (hD' : Respaceable D') (hl : Spells D left l)
    (hr : Spells D' right r) {rest : List Char} (p : Position) (hrest : Breaks rest) :
    ∃ ls sign rs a b after,
      Scans ⟨(left ++ op.between ++ right).toList ++ rest, p⟩ (ls ++ sign :: rs) ⟨rest, after⟩ ∧
        sign.kind = op.tokenKind ∧ D ls a ∧ D' rs b ∧ a.expr.unplaced = l ∧
          b.expr.unplaced = r := by
  obtain ⟨ls, a, middle, hleft, ha, hal⟩ := hl _ p (op.breaks_between (right.toList ++ rest))
  obtain ⟨sign, behind, hkind, hsign⟩ := op.scans_between (right.toList ++ rest) middle
  have hright : ∃ rs b after,
      Scans ⟨if op.isSpaced then ' ' :: (right.toList ++ rest) else right.toList ++ rest, behind⟩ rs
        ⟨rest, after⟩ ∧ D' rs b ∧ b.expr.unplaced = r := by
    split
    · -- the blank behind the sign stands in front of the first lexeme
      obtain ⟨rs, b, after, hscans, hb, hbr⟩ := hr rest (behind.advance ' ') hrest
      exact ⟨_, b, after, hscans.of_blank rfl (hD'.ne_nil rs b hb), hD'.respaced rs b hb, hbr⟩
    · exact hr rest behind hrest
  obtain ⟨rs, b, after, hscans, hb, hbr⟩ := hright
  refine ⟨ls, sign, rs, a, b, after, ?_, hkind, ha, hb, hal, hbr⟩
  rw [String.toList_append, String.toList_append, List.append_assoc, List.append_assoc]
  exact hleft.append (hsign.append hscans)

/-- What a rule of the grammar makes of two operands is spelled with the operator between
what spells these. -/
theorem binary {E : Derivation} (op : BinaryOp) (hD' : Respaceable D')
    (hrule : ∀ {ls rs : List Lexeme} {sign : Lexeme} {a b : Operand}, D ls a →
      sign.kind = op.tokenKind → D' rs b →
        E (ls ++ sign :: rs) ⟨.binary op a.expr b.expr, b.shape⟩)
    (hl : Spells D left l) (hr : Spells D' right r) :
    Spells E (left ++ op.between ++ right) (.binary op l r) := by
  intro rest p hrest
  obtain ⟨ls, sign, rs, a, b, after, hscans, hkind, ha, hb, rfl, rfl⟩ :=
    joined op hD' hl hr p hrest
  exact ⟨_, _, after, hscans, hrule ha hkind hb, rfl⟩

theorem pow (hl : Spells IsPrimary left l) (hr : Spells IsPrimary right r) :
    Spells (IsPower IsPrimary) (left ++ BinaryOp.between .pow ++ right) (.binary .pow l r) :=
  binary .pow respaceable_isPrimary .pow hl hr

theorem mul (hl : Spells (IsFactor IsPrimary) left l) (hr : Spells (IsUnary IsPrimary) right r) :
    Spells (IsFactor IsPrimary) (left ++ BinaryOp.between .mul ++ right) (.binary .mul l r) :=
  binary .mul respaceable_isUnary .mul hl hr

theorem div (hl : Spells (IsFactor IsPrimary) left l) (hr : Spells (IsUnary IsPrimary) right r) :
    Spells (IsFactor IsPrimary) (left ++ BinaryOp.between .div ++ right) (.binary .div l r) :=
  binary .div respaceable_isUnary .div hl hr

theorem add (hl : Spells (IsTerm IsPrimary) left l) (hr : Spells (IsFactor IsPrimary) right r) :
    Spells (IsTerm IsPrimary) (left ++ BinaryOp.between .add ++ right) (.binary .add l r) :=
  binary .add respaceable_isFactor .add hl hr

theorem sub (hl : Spells (IsTerm IsPrimary) left l) (hr : Spells (IsFactor IsPrimary) right r) :
    Spells (IsTerm IsPrimary) (left ++ BinaryOp.between .sub ++ right) (.binary .sub l r) :=
  binary .sub respaceable_isFactor .sub hl hr

theorem equal (hl : Spells (IsTerm IsPrimary) left l) (hr : Spells (IsTerm IsPrimary) right r) :
    Spells IsEquation (left ++ BinaryOp.between .equal ++ right) (.binary .equal l r) :=
  binary .equal respaceable_isTerm .equal hl hr

end Spells

/-- The negative of an expression as it is read. -/
def Expr.negated (e : Expr) : Expr := .binary .mul (.number ⟨"-1", .start⟩) e

theorem Spells.minus (h : Spells (IsPower IsPrimary) text e) :
    Spells (IsUnary IsPrimary) ("-" ++ text) e.negated := by
  intro rest p hrest
  obtain ⟨ls, a, after, hscans, ha, rfl⟩ := h rest (p.advance '-') hrest
  have hsign := scanned_punctuation p (c := '-') rfl (text.toList ++ rest)
  rw [String.toList_append, List.append_assoc]
  exact ⟨_, _, after, .cons hsign nofun hscans, .minus rfl ha, rfl⟩

/-! ## Programs of a single term -/

theorem isPhrase_ne_nil {ls : List Lexeme} {p : Phrase} (h : IsPhrase ls p) : p ≠ [] := by
  cases h <;> exact List.cons_ne_nil _ _

/-- Lexemes that make up a single expression make up one equation. -/
theorem isEquation_of_terms {ls : List Lexeme} {ss : List Statement}
    (hprogram : IsProgram ls ss) (hterms : ss.flatMap Statement.terms = [e]) :
    ∃ a, IsEquation ls a ∧ a.expr = e := by
  have hphrase {ls : List Lexeme} {p : Phrase} (h : IsPhrase ls p) (hp : p = [e]) :
      ∃ a, IsEquation ls a ∧ a.expr = e := by
    cases h with
    | one h => exact ⟨_, h, List.singleton_inj.mp hp⟩
    | more _ _ hlater => exact absurd (List.cons.inj hp).2 (isPhrase_ne_nil hlater)
  rcases QueryParser.eq_nil_or_isStatement hprogram with ⟨-, rfl⟩ | ⟨s, rfl, hs⟩
  · contradiction
  have hflat : s.flatten = [e] := by simpa [Statement.terms] using hterms
  cases hs with
  | one h =>
    rw [List.flatten_singleton] at hflat
    exact hphrase h hflat
  | @more ls rs comma p ps hfirst hcomma hlater =>
    -- the phrases before and behind a comma have an expression each
    have hlength := congrArg List.length hflat
    have hfirst := List.length_pos_of_ne_nil (isPhrase_ne_nil hfirst)
    have hsecond : 0 < ps.flatten.length := by
      cases hlater with
      | one h | more h _ _ =>
        have hp := List.length_pos_of_ne_nil (isPhrase_ne_nil h)
        simp only [List.flatten_cons, List.length_append]
        omega
    simp only [List.flatten_cons, List.length_append, List.length_singleton] at hlength
    omega

/-- The lexemes of a single equation are read as this equation alone. -/
theorem parse_eq_of_isEquation {source : String} {ls : List Lexeme} {last : Lexeme} {a : Operand}
    (hreads : Reads (.ofString source) ls last) (h : IsEquation ls a) :
    parse source = .ok ⟨[[[a.expr]]]⟩ := by
  have hstatement : IsStatement ls [[a.expr]] := .one (.one h)
  rw [parse_eq_ok_iff_isProgram hreads, ← List.append_nil ls]
  exact .cons hstatement nofun .nil

/-- What is scanned up to the end of a text is what the text is read as. -/
theorem exists_reads_of_scans {source : String} {ls : List Lexeme} {after : Position}
    (h : Scans ⟨source.toList, .start⟩ ls ⟨[], after⟩) :
    ∃ last, Reads (.ofString source) ls last :=
  ⟨_, ⟨[], after⟩, _, h, .endOfInput rfl, rfl⟩

/-- A text is read as the equation that it spells. -/
theorem Spells.parse_eq_ok_of_equation (h : Spells IsEquation text e) :
    ∃ e', parse text = .ok ⟨[[[e']]]⟩ ∧ e'.unplaced = e := by
  obtain ⟨ls, a, after, hscans, ha, he⟩ := h [] .start breaks_nil
  rw [List.append_nil] at hscans
  obtain ⟨last, hreads⟩ := exists_reads_of_scans hscans
  exact ⟨a.expr, parse_eq_of_isEquation hreads ha, he⟩

/-- A text is read as the term that it spells. -/
theorem Spells.parse_eq_ok (h : Spells (IsTerm IsPrimary) text e) :
    ∃ e', parse text = .ok ⟨[[[e']]]⟩ ∧ e'.unplaced = e :=
  (h.mono fun _ _ => .term).parse_eq_ok_of_equation

/-! ## A word in front -/

theorem Position.advanceAll_of_ne {p : Position} {run : List Char} (h : ∀ c ∈ run, c ≠ '\n') :
    p.advanceAll run = ⟨p.line, p.column + run.length⟩ := by
  induction run generalizing p with
  | nil => rfl
  | cons c run ih =>
    rw [advanceAll_cons, ih fun d hd => h d (List.mem_cons_of_mem c hd), advance,
      if_neg (h c List.mem_cons_self), List.length_cons, Nat.add_assoc, Nat.add_comm 1]

theorem IsWord.ne_newline {w : List Char} (hw : IsWord w) : ∀ c ∈ w, c ≠ '\n' := by
  obtain ⟨-, hletters⟩ := hw
  rintro c hc rfl
  have hletter := hletters _ hc
  rw [isAlphanumeric_of_isWhitespace (by decide)] at hletter
  contradiction

/-- A blank sets a primary apart from what stands before it. -/
theorem canFollow_of_spaced {shape : Shape} {next : Lexeme} (hspaced : next.spaced = true)
    (hkind : BeginsPrimary next.kind) : CanFollow shape next := by
  refine ⟨⟨fun hsign => ?_, fun hsign => ?_⟩, fun hunspaced => ?_, fun hunspaced => ?_⟩
  · exact absurd (hsign ▸ hkind) (by decide)
  · exact absurd (hsign ▸ hkind) (by decide)
  · exact absurd (hspaced.symm.trans hunspaced) (by decide)
  · exact absurd (hspaced.symm.trans hunspaced) (by decide)

/-- A word, a blank and a text that begins a term are read as the word and that term, which
is the one that the text alone is read as, further on. -/
theorem parse_word_append {w source : String} (hw : IsWord w.toList) {first last : Lexeme}
    {ls : List Lexeme} {a : Operand} (hreads : Reads (.ofString source) (first :: ls) last)
    (h : IsTerm IsPrimary (first :: ls) a) (hfirst : BeginsPrimary first.kind) :
    ∃ f, parse (w ++ " " ++ source) = .ok ⟨[[[.symbol ⟨w, .start⟩, a.expr.relocate f]]]⟩ := by
  have hbreaks : Breaks (' ' :: source.toList) := breaks_cons (by decide) (by decide) _
  have hword := scanned_word .start hw hbreaks.wordEnds
  rw [String.ofList_toList, Position.advanceAll_of_ne hw.ne_newline] at hword
  -- the text starts behind the word and the blank
  let f := Position.shift (w.toList.length + 1)
  have hplace : (Cursor.ofString source).relocate f =
      ⟨source.toList, (⟨1, 1 + w.toList.length⟩ : Position).advance ' '⟩ := rfl
  have hmoved := hreads.relocate (Position.shifts_shift (w.toList.length + 1)) Nat.one_pos
  rw [hplace] at hmoved
  obtain ⟨middle, after, hscans, hlast, hend⟩ := hmoved
  have hspaced := hscans.of_blank (b := ' ') rfl (List.cons_ne_nil _ _)
  let head : Lexeme := ⟨⟨⟨w, .start⟩, .identifier⟩, false⟩
  let next : Lexeme := { first.relocate f with spaced := true }
  have htext : (w ++ " " ++ source).toList = w.toList ++ ' ' :: source.toList := by simp
  have hall : Reads (.ofString (w ++ " " ++ source)) (head :: next :: ls.map (Lexeme.relocate f))
      (last.relocate f) := by
    rw [Cursor.ofString, htext]
    exact ⟨middle, after, .cons hword nofun hspaced, hlast, hend⟩
  have hfollow : CanFollow .symbol next := canFollow_of_spaced rfl hfirst
  have hhead : IsPrimary [head] ⟨.symbol ⟨w, .start⟩, .symbol⟩ := .symbol rfl
  have hterm : IsTerm IsPrimary (next :: ls.map (Lexeme.relocate f)) (a.relocate f) :=
    respaced_isTerm (relocate_isTerm f h)
  have hphrase : IsPhrase (head :: next :: ls.map (Lexeme.relocate f))
      [.symbol ⟨w, .start⟩, a.expr.relocate f] :=
    .more (.term (isTerm_of_isPrimary hhead)) hfollow (.one (.term hterm))
  refine ⟨f, (parse_eq_ok_iff_isProgram hall _).mpr ?_⟩
  rw [← List.append_nil (head :: _)]
  exact .cons (.one hphrase) nofun .nil

end MathQuery
