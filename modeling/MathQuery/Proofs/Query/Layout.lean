import MathQuery.Proofs.Query.Mirroring
import MathQuery.Proofs.Query.Spelling

/-!
# Texts laid out in gaps and tokens

A text with a reading is a succession of gaps, which are runs of blanks, and the texts of its
tokens.  Conversely, gaps and tokens that are put one behind the other are read as these
tokens, if no token is made longer by what follows it.  So a text can be written anew, with
other gaps or with a sign in every product, and it is known how the new text is read.

* `Lexeme.Written` – the characters of a token and what may stand behind them;
* `Lexeme.Laid` – the characters of a text as the lexemes they are read as, places aside;
* `laid_of_tokenize`, `Laid.exists_tokenize` – how this agrees with the scanner;
* `parseUnplaced_withSigns` – the signs of adjacent products can be written;
* `parseUnplaced_of_respaced` – blanks matter in front of a primary and behind one only.
-/

namespace MathQuery

/-- Nothing but blanks. -/
def IsBlank (gap : List Char) : Prop := ∀ c ∈ gap, c.isWhitespace = true

-- one character of the gap after the other, and not all characters there are
instance : DecidablePred IsBlank := fun gap => List.decidableBAll _ gap

theorem Cursor.atBlank_eq (c : Cursor) :
    c.atBlank = !(c.rest.takeWhile Char.isWhitespace).isEmpty := by
  rw [atBlank]
  cases c.rest with
  | nil => rfl
  | cons first later => cases hfirst : first.isWhitespace <;> simp [hfirst]

theorem isDigit_of_head_dropWhile {cs : List Char} {c : Char}
    (h : (cs.dropWhile Char.isDigit).head? = some c) : c.isDigit = false := by
  have hnot := List.head?_dropWhile_not Char.isDigit cs
  rwa [h] at hnot

/-- Behind the longest number in front of a text stands no digit. -/
theorem isDigit_of_head_drop_decimalPrefix {cs : List Char} {c : Char}
    (h : (cs.drop (decimalPrefix cs).length).head? = some c) : c.isDigit = false := by
  obtain ⟨rest, hrest, hend⟩ :
      ∃ rest, decimalPrefix cs ++ rest = cs ∧ (rest.head? = some c → c.isDigit = false) := by
    have hcs := List.takeWhile_append_dropWhile (p := Char.isDigit) (l := cs)
    unfold decimalPrefix
    split
    · next fraction hfraction =>
      refine ⟨fraction.dropWhile Char.isDigit, ?_, isDigit_of_head_dropWhile⟩
      rw [List.append_assoc, List.cons_append, List.takeWhile_append_dropWhile, ← hfraction, hcs]
    · exact ⟨cs.dropWhile Char.isDigit, by rw [List.append_nil, hcs], isDigit_of_head_dropWhile⟩
  have hprefix := decimalPrefix_prefix cs
  have hsplit := List.prefix_iff_eq_append.mp hprefix
  rw [List.append_cancel_left (hsplit.trans hrest.symm)] at h
  exact hend h

namespace Lexeme

/-! ## Tokens and what stands behind them -/

/-- The characters of a token of some kind in front of others, which do not make it longer. -/
inductive Written : TokenKind → List Char → List Char → Prop
  | number {cs rest : List Char} (h : IsNumeral cs) (hrest : NumeralEnds rest) :
    Written .number cs rest
  | word {cs rest : List Char} (h : IsWord cs) (hrest : WordEnds rest) :
    Written .identifier cs rest
  | punctuation {c : Char} {kind : TokenKind} {rest : List Char}
    (h : TokenKind.ofPunctuation? c = some kind) : Written kind [c] rest

namespace Written

variable {kind : TokenKind} {cs rest rest' : List Char}

theorem exists_cons (h : Written kind cs rest) :
    ∃ first later, cs = first :: later ∧ first.isWhitespace = false := by
  cases h with
  | number h _ =>
    obtain ⟨first, later, rfl, hfirst⟩ := h.exists_cons
    exact ⟨first, later, rfl, isWhitespace_of_isAlphanumeric (isAlphanumeric_of_isDigit hfirst)⟩
  | word h _ =>
    obtain @⟨first, later, _, hletters⟩ := h
    exact ⟨first, later, rfl, isWhitespace_of_isAlphanumeric (hletters first List.mem_cons_self)⟩
  | @punctuation c _ _ h => exact ⟨c, [], rfl, (TokenKind.isAlphanumeric_of_ofPunctuation? h).2⟩

theorem kind_ne (h : Written kind cs rest) : kind ≠ .endOfInput := by
  cases h with
  | number _ _ | word _ _ => decide
  | punctuation h => exact (TokenKind.ofPunctuation?_ne h).1

/-- Of what stands behind a token only the first character counts. -/
theorem of_head (h : Written kind cs rest) (hhead : rest'.head? = rest.head?) :
    Written kind cs rest' := by
  cases h with
  | number h hrest => exact .number h fun c hc => hrest c (hhead ▸ hc)
  | word h hrest => exact .word h fun c hc => hrest c (hhead ▸ hc)
  | punctuation h => exact .punctuation h

theorem of_breaks (h : Written kind cs rest) (hbreaks : Breaks rest') : Written kind cs rest' := by
  cases h with
  | number h _ => exact .number h hbreaks.numeralEnds
  | word h _ => exact .word h hbreaks.wordEnds
  | punctuation h => exact .punctuation h

/-- The scanner finds the token. -/
theorem scanned (h : Written kind cs rest) (p : Position) :
    Scanned ⟨cs ++ rest, p⟩ ⟨⟨⟨String.ofList cs, p⟩, kind⟩, false⟩ ⟨rest, p.advanceAll cs⟩ := by
  cases h with
  | number h hrest => exact scanned_number p h hrest
  | word h hrest => exact scanned_word p h hrest
  | punctuation h => exact scanned_punctuation p h rest

end Written

/-- A gap in front of a token shows in the lexeme only. -/
theorem Scanned.of_gap {gap cs : List Char} (hgap : IsBlank gap) {p : Position} {l : Lexeme}
    {after : Cursor} (h : Scanned ⟨cs, p.advanceAll gap⟩ l after) :
    Scanned ⟨gap ++ cs, p⟩ { l with spaced := l.spaced || !gap.isEmpty } after := by
  induction gap generalizing p with
  | nil => simpa using h
  | cons b gap ih =>
    obtain ⟨hb, hgap⟩ := List.forall_mem_cons.mp hgap
    have hblank := (ih hgap h).of_blank hb
    simpa using hblank

/-- What one scan takes off a text: a gap and the characters of a token. -/
theorem Scanned.exists_gap {c after : Cursor} {l : Lexeme} (h : Scanned c l after)
    (hkind : l.kind ≠ .endOfInput) :
    ∃ gap, IsBlank gap ∧ l.spaced = (!gap.isEmpty) ∧ c.rest = gap ++ (l.text.toList ++ after.rest) ∧
      Written l.kind l.text.toList after.rest := by
  have hgap : IsBlank (c.rest.takeWhile Char.isWhitespace) := fun _ => List.mem_takeWhile_imp
  refine ⟨_, hgap, ?_⟩
  have hrest := c.takeWhile_append_skipBlanks.symm
  have hword := h.isWord
  cases h with
  | endOfInput _ => exact absurd rfl hkind
  | @number first later h hdigit hpoint =>
    have hprefix := decimalPrefix_prefix (first :: later)
    have hsplit := List.prefix_iff_eq_append.mp hprefix
    rw [String.toList_ofList, Cursor.rest_drop, h, hsplit]
    rw [h] at hrest
    refine ⟨c.atBlank_eq, hrest, .number (isNumeral_decimalPrefix hdigit later) fun d hd => ?_⟩
    exact ⟨isDigit_of_head_drop_decimalPrefix hd, fun heq => hpoint (heq ▸ hd)⟩
  | @punctuation first later kind h _ hpunctuation =>
    rw [h] at hrest
    rw [Char.toString, String.toList_singleton, Cursor.rest_drop, h]
    exact ⟨c.atBlank_eq, hrest, .punctuation hpunctuation⟩
  | @word first later h hdigit _ hletter =>
    rw [String.toList_ofList, Cursor.rest_drop, h, drop_length_takeWhile,
      List.takeWhile_append_dropWhile]
    rw [h] at hrest
    refine ⟨c.atBlank_eq, hrest, .word ?_ fun d hd => ?_⟩
    · rw [← String.toList_ofList (l := (first :: later).takeWhile isAlphanumeric)]
      exact hword rfl
    · have hnot := List.head?_dropWhile_not isAlphanumeric (first :: later)
      rwa [hd] at hnot

/-! ## Laid out texts -/

/-- A lexeme without its place. -/
def unplaced (l : Lexeme) : Lexeme := l.relocate fun _ => .start

theorem unplaced_eq_iff {l l' : Lexeme} :
    l.unplaced = l'.unplaced ↔ l.SameToken l' ∧ l.spaced = l'.spaced := by
  obtain ⟨⟨⟨text, p⟩, kind⟩, spaced⟩ := l
  obtain ⟨⟨⟨text', p'⟩, kind'⟩, spaced'⟩ := l'
  constructor
  · intro h
    exact ⟨⟨congrArg (·.kind) h, congrArg (·.text) h⟩, congrArg (·.spaced) h⟩
  · rintro ⟨⟨hkind, htext⟩, hspaced⟩
    simp_all [unplaced, relocate]

/-- The characters of a text as the lexemes that they are read as, the end included.  The
places of the lexemes do not count. -/
inductive Laid : List Char → List Lexeme → Prop
  | endOfInput {gap : List Char} {l : Lexeme} (hgap : IsBlank gap) (hkind : l.kind = .endOfInput)
    (htext : l.text = "") (hspaced : l.spaced = !gap.isEmpty) : Laid gap [l]
  | cons {gap rest : List Char} {l : Lexeme} {ls : List Lexeme} (hgap : IsBlank gap)
    (hspaced : l.spaced = !gap.isEmpty) (hwritten : Written l.kind l.text.toList rest)
    (hlater : Laid rest ls) : Laid (gap ++ (l.text.toList ++ rest)) (l :: ls)

/-- A text is laid out as the lexemes that it is read as. -/
theorem laid_of_reads {c : Cursor} {ls : List Lexeme} {last : Lexeme} (h : Reads c ls last) :
    Laid c.rest (ls ++ [last]) := by
  induction ls generalizing c with
  | nil =>
    obtain ⟨after, hlast, hend⟩ := reads_nil_iff.mp h
    cases hlast with
    | endOfInput hrest =>
      have hgap := c.takeWhile_append_skipBlanks
      rw [hrest, List.append_nil] at hgap
      have hblank : IsBlank c.rest := fun b hb => List.mem_takeWhile_imp (hgap ▸ hb)
      exact .endOfInput hblank rfl rfl (hgap ▸ c.atBlank_eq)
    | number _ _ _ | word _ _ _ _ => contradiction
    | punctuation _ _ hkind => exact absurd hend (TokenKind.ofPunctuation?_ne hkind).1
  | cons l ls ih =>
    obtain ⟨middle, hfirst, hkind, hlater⟩ := reads_cons_iff.mp h
    obtain ⟨gap, hgap, hspaced, hrest, hwritten⟩ := hfirst.exists_gap hkind
    rw [hrest]
    exact .cons hgap hspaced hwritten (ih hlater)

/-- A text is read as the lexemes that it is laid out as. -/
theorem Laid.exists_reads {cs : List Char} {ks : List Lexeme} (h : Laid cs ks) (p : Position) :
    ∃ ls last, Reads ⟨cs, p⟩ ls last ∧ (ls ++ [last]).map unplaced = ks.map unplaced := by
  induction h generalizing p with
  | @endOfInput gap l hgap hkind htext hspaced =>
    have hend : Scanned ⟨[], p.advanceAll gap⟩ ⟨⟨⟨"", p.advanceAll gap⟩, .endOfInput⟩, false⟩
        ⟨[], p.advanceAll gap⟩ := .endOfInput rfl
    have hscan := hend.of_gap hgap
    rw [List.append_nil] at hscan
    refine ⟨[], _, reads_nil_iff.mpr ⟨_, hscan, rfl⟩, ?_⟩
    refine congrArg (fun l => [l]) (unplaced_eq_iff.mpr ⟨⟨hkind.symm, htext.symm⟩, ?_⟩)
    exact hspaced.symm
  | @cons gap rest l ls hgap hspaced hwritten _ ih =>
    have hscan := (hwritten.scanned (p.advanceAll gap)).of_gap hgap
    obtain ⟨ls', last, hlater, heq⟩ := ih ((p.advanceAll gap).advanceAll l.text.toList)
    refine ⟨_ :: ls', last, reads_cons_iff.mpr ⟨_, hscan, hwritten.kind_ne, hlater⟩, ?_⟩
    rw [List.cons_append, List.map_cons, List.map_cons, heq]
    refine congrArg (· :: ls.map unplaced) (unplaced_eq_iff.mpr ⟨⟨rfl, ?_⟩, hspaced.symm⟩)
    exact String.ofList_toList

end Lexeme

open Lexeme Grammar

theorem laid_of_tokenize {source : String} {ks : List Lexeme} (h : tokenize source = .ok ks) :
    Laid source.toList ks := by
  obtain ⟨ls, last, rfl, hreads⟩ := tokenize_eq_ok_iff.mp h
  exact laid_of_reads hreads

theorem Lexeme.Laid.exists_tokenize {cs : List Char} {ks : List Lexeme} (h : Laid cs ks) :
    ∃ ks', tokenize (String.ofList cs) = .ok ks' ∧ ks'.map unplaced = ks.map unplaced := by
  obtain ⟨ls, last, hreads, heq⟩ := h.exists_reads .start
  refine ⟨_, tokenize_eq_ok_iff.mpr ⟨ls, last, rfl, ?_⟩, heq⟩
  rwa [Cursor.ofString, String.toList_ofList]

/-- Whether lexemes mirror others does not depend on places. -/
theorem Grammar.Mirrored.of_unplaced {k : TokenKind} {ks ms ms' : List Lexeme}
    (h : Mirrored k ks ms) (heq : ms'.map unplaced = ms.map unplaced) : Mirrored k ks ms' := by
  induction h generalizing ms' with
  | nil =>
    rw [List.map_eq_nil_iff.mp heq]
    exact .nil
  | cons htoken hspaced _ ih =>
    obtain ⟨m, ms', rfl, hm, htail⟩ := List.map_eq_cons_iff.mp heq
    obtain ⟨hsame, hblank⟩ := unplaced_eq_iff.mp hm.symm
    exact .cons (htoken.trans hsame) (fun hk hl => (hspaced hk hl).trans hblank) (ih htail)
  | sign hspaced hpair hstar htoken _ ih =>
    obtain ⟨s, ms', rfl, hs, htail⟩ := List.map_eq_cons_iff.mp heq
    obtain ⟨m, ms', rfl, hm, htail⟩ := List.map_eq_cons_iff.mp htail
    obtain ⟨hsame, -⟩ := unplaced_eq_iff.mp hm.symm
    have hstar' := (unplaced_eq_iff.mp hs).1.kind.trans hstar
    exact .sign hspaced hpair hstar' (htoken.trans hsame) (ih htail)

/-- A text that is laid out as lexemes mirroring those of another text reads like that one. -/
theorem parseUnplaced_of_laid {source : String} {ks ms : List Lexeme} {cs : List Char}
    (h : tokenize source = .ok ks) (hlaid : Laid cs ms) (hmirrored : Mirrored .endOfInput ks ms) :
    parseUnplaced (String.ofList cs) = parseUnplaced source := by
  obtain ⟨ms', hms', heq⟩ := hlaid.exists_tokenize
  exact (parseUnplaced_eq_of_mirrored h hms' (by decide) (hmirrored.of_unplaced heq)).symm

/-! ## Signs of adjacent products -/

/-- Whether a lexeme touches the one in front of it, of kind `k`, and is multiplied with it. -/
def Lexeme.Multiplied (k : TokenKind) (l : Lexeme) : Prop :=
  l.spaced = false ∧ ProductPair k l.kind

instance {k : TokenKind} : DecidablePred (Multiplied k) := fun l =>
  inferInstanceAs (Decidable (l.spaced = false ∧ ProductPair k l.kind))

/-- The characters `cs` of lexemes that follow one of kind `k`, and a star between every two
of them that touch and are a product. -/
def signed (k : TokenKind) : List Lexeme → List Char → List Char
  | [], cs => cs
  | l :: ls, cs =>
    let n := (cs.takeWhile Char.isWhitespace).length + l.text.length
    (if l.Multiplied k then ['*'] else []) ++ (cs.take n ++ signed l.kind ls (cs.drop n))

/-- The text of the given lexemes with a star in every product that has no sign.  Nothing
stands in front of the first lexeme, so there is no star either. -/
def withSigns (source : String) (ks : List Lexeme) : String :=
  String.ofList (signed .endOfInput ks source.toList)

/-- The sign of a product, touching what is in front of it. -/
def Lexeme.star : Lexeme := ⟨⟨⟨"*", .start⟩, .star⟩, false⟩

/-- The lexemes with the signs of all products. -/
def starred (k : TokenKind) : List Lexeme → List Lexeme
  | [] => []
  | l :: ls => (if l.Multiplied k then [star] else []) ++ l :: starred l.kind ls

theorem mirrored_starred (k : TokenKind) (ks : List Lexeme) : Mirrored k ks (starred k ks) := by
  induction ks generalizing k with
  | nil => exact .nil
  | cons l ls ih =>
    rw [starred]
    split
    · next hpair => exact .sign hpair.1 hpair.2 rfl ⟨rfl, rfl⟩ (ih l.kind)
    · exact .cons ⟨rfl, rfl⟩ (fun _ _ => rfl) (ih l.kind)

theorem signed_cons {k : TokenKind} {l : Lexeme} {ls : List Lexeme} {gap rest : List Char}
    (hgap : IsBlank gap) (hwritten : Written l.kind l.text.toList rest) :
    signed k (l :: ls) (gap ++ (l.text.toList ++ rest)) =
      (if l.Multiplied k then ['*'] else []) ++
        (gap ++ (l.text.toList ++ signed l.kind ls rest)) := by
  have hblanks : (gap ++ (l.text.toList ++ rest)).takeWhile Char.isWhitespace = gap := by
    refine takeWhile_append_of_head hgap fun c hc => ?_
    obtain ⟨first, later, heq, hfirst⟩ := hwritten.exists_cons
    rw [heq] at hc
    exact Option.some.inj hc ▸ hfirst
  have hlength : gap.length + l.text.length = (gap ++ l.text.toList).length := by
    rw [List.length_append, String.length_toList]
  rw [signed, hblanks, hlength, ← List.append_assoc gap, List.take_left, List.drop_left,
    List.append_assoc gap]

theorem not_multiplied_of_endOfInput {k : TokenKind} {l : Lexeme} (hkind : l.kind = .endOfInput) :
    ¬ l.Multiplied k :=
  fun hpair => absurd (hkind ▸ hpair.2.begins) (by decide)

theorem signed_endOfInput {k : TokenKind} {l : Lexeme} {gap : List Char} (hgap : IsBlank gap)
    (hkind : l.kind = .endOfInput) (htext : l.text = "") : signed k [l] gap = gap := by
  have hblanks : gap.takeWhile Char.isWhitespace = gap := List.takeWhile_eq_self_iff.mpr hgap
  rw [signed, if_neg (not_multiplied_of_endOfInput hkind), hblanks, htext, signed]
  exact List.take_append_drop _ gap

/-- Apart from a star nothing new comes to stand in front. -/
theorem head_signed {k : TokenKind} {cs : List Char} {ks : List Lexeme} (h : Laid cs ks) :
    (signed k ks cs).head? = some '*' ∨ (signed k ks cs).head? = cs.head? := by
  cases h with
  | endOfInput hgap hkind htext _ => exact .inr (by rw [signed_endOfInput hgap hkind htext])
  | @cons gap rest l ls hgap _ hwritten _ =>
    rw [signed_cons hgap hwritten]
    split
    · exact .inl rfl
    · right
      obtain ⟨first, later, heq, -⟩ := hwritten.exists_cons
      rw [heq]
      cases gap <;> rfl

/-- The text with signs is laid out as the lexemes with signs. -/
theorem laid_signed {k : TokenKind} {cs : List Char} {ks : List Lexeme} (h : Laid cs ks) :
    Laid (signed k ks cs) (starred k ks) := by
  induction h generalizing k with
  | @endOfInput gap l hgap hkind htext hspaced =>
    rw [signed_endOfInput hgap hkind htext, starred, if_neg (not_multiplied_of_endOfInput hkind)]
    exact .endOfInput hgap hkind htext hspaced
  | @cons gap rest l ls hgap hspaced hwritten hlater ih =>
    have hbehind : Written l.kind l.text.toList (signed l.kind ls rest) := by
      rcases head_signed (k := l.kind) hlater with hstar | hhead
      · refine hwritten.of_breaks fun c hc => ?_
        obtain rfl := Option.some.inj (hstar.symm.trans hc)
        decide
      · exact hwritten.of_head hhead
    have hlaid := Laid.cons hgap hspaced hbehind ih
    rw [signed_cons hgap hwritten, starred]
    split
    · exact @Laid.cons [] _ star _ (List.forall_mem_nil _) rfl (.punctuation rfl) hlaid
    · exact hlaid

/-- Every adjacent product reads like the product with its sign. -/
theorem parseUnplaced_withSigns {source : String} {ks : List Lexeme}
    (h : tokenize source = .ok ks) : parseUnplaced (withSigns source ks) = parseUnplaced source :=
  parseUnplaced_of_laid h (laid_signed (laid_of_tokenize h)) (mirrored_starred .endOfInput ks)

/-- Implicit products in front of groups and words, nested in a call and behind a power. -/
theorem parseUnplaced_withSigns_of_nested :
    ∃ ks, tokenize "f(2x, y)3^2z (a)(b)" = .ok ks ∧
      withSigns "f(2x, y)3^2z (a)(b)" ks = "f(2*x, y)*3^2*z (a)*(b)" ∧
      parseUnplaced "f(2*x, y)*3^2*z (a)*(b)" = parseUnplaced "f(2x, y)3^2z (a)(b)" := by
  have hsigns := @parseUnplaced_withSigns "f(2x, y)3^2z (a)(b)" _ rfl
  exact ⟨_, rfl, rfl, hsigns⟩

/-! ## Other gaps -/

/-- Lexemes of the same kinds and texts, which agree on the blanks in front of every lexeme
that begins a primary and follows one that ends a primary. -/
structure Respaced (ks ks' : List Lexeme) : Prop where
  same : List.Forall₂ SameToken ks ks'
  spaced : ∀ i < ks.length, ∀ before ∈ ks[i]?, ∀ l ∈ ks[i + 1]?, ∀ l' ∈ ks'[i + 1]?,
    EndsPrimary before.kind → BeginsPrimary l.kind → l.spaced = l'.spaced

instance {ks ks' : List Lexeme} : Decidable (Respaced ks ks') :=
  decidable_of_iff
    (List.Forall₂ SameToken ks ks' ∧ ∀ i < ks.length, ∀ before ∈ ks[i]?, ∀ l ∈ ks[i + 1]?,
      ∀ l' ∈ ks'[i + 1]?, EndsPrimary before.kind → BeginsPrimary l.kind → l.spaced = l'.spaced)
    ⟨fun ⟨hsame, hspaced⟩ => ⟨hsame, hspaced⟩, fun h => ⟨h.same, h.spaced⟩⟩

/-- The pairs of kinds between which it matters whether there is a blank.  Two primaries may
be a product or a call where they touch, and a number takes a point that touches it. -/
def KeptApart (k kind : TokenKind) : Prop :=
  EndsPrimary k ∧ BeginsPrimary kind ∨ k = .number ∧ kind = .point

instance {k kind : TokenKind} : Decidable (KeptApart k kind) :=
  inferInstanceAs (Decidable (EndsPrimary k ∧ BeginsPrimary kind ∨ k = .number ∧ kind = .point))

/-- Gaps in front of lexemes, one for each of them, which are empty where the lexeme touched
the one before it, if that matters, and are not empty where it did not. -/
structure Gaps (gaps : List (List Char)) (ks : List Lexeme) : Prop where
  length_eq : gaps.length = ks.length
  blank : ∀ gap ∈ gaps, IsBlank gap
  spaced : ∀ i < ks.length, ∀ before ∈ ks[i]?, ∀ l ∈ ks[i + 1]?, ∀ gap ∈ gaps[i + 1]?,
    KeptApart before.kind l.kind → l.spaced = !gap.isEmpty

instance {gaps : List (List Char)} {ks : List Lexeme} : Decidable (Gaps gaps ks) :=
  decidable_of_iff
    (gaps.length = ks.length ∧ (∀ gap ∈ gaps, IsBlank gap) ∧
      ∀ i < ks.length, ∀ before ∈ ks[i]?, ∀ l ∈ ks[i + 1]?, ∀ gap ∈ gaps[i + 1]?,
        KeptApart before.kind l.kind → l.spaced = !gap.isEmpty)
    ⟨fun ⟨hlength, hblank, hspaced⟩ => ⟨hlength, hblank, hspaced⟩,
      fun h => ⟨h.length_eq, h.blank, h.spaced⟩⟩

/-- The texts of lexemes with gaps in front of them. -/
def spread : List (List Char) → List Lexeme → List Char
  | gap :: gaps, l :: ls => gap ++ (l.text.toList ++ spread gaps ls)
  | _, _ => []

/-- The lexemes as they are read behind such gaps. -/
def respace (gaps : List (List Char)) (ks : List Lexeme) : List Lexeme :=
  List.zipWith (fun gap l => { l with spaced := !gap.isEmpty }) gaps ks

theorem Respaced.tail {l l' : Lexeme} {ks ks' : List Lexeme} (h : Respaced (l :: ks) (l' :: ks')) :
    Respaced ks ks' where
  same := (List.forall₂_cons.mp h.same).2
  spaced i hi := h.spaced (i + 1) (Nat.succ_lt_succ hi)

/-- Respaced lexemes mirror each other. -/
theorem Respaced.mirrored {ks ks' : List Lexeme} (h : Respaced ks ks') {k : TokenKind}
    (hfirst : ∀ l ∈ ks.head?, ∀ l' ∈ ks'.head?, EndsPrimary k → BeginsPrimary l.kind →
      l.spaced = l'.spaced) : Mirrored k ks ks' := by
  induction ks generalizing ks' k with
  | nil =>
    rw [List.forall₂_nil_left_iff.mp h.same]
    exact .nil
  | cons l ls ih =>
    obtain ⟨l', ls', htoken, -, rfl⟩ := List.forall₂_cons_left_iff.mp h.same
    refine .cons htoken (hfirst l rfl l' rfl) (ih h.tail fun next hnext next' hnext' => ?_)
    exact h.spaced 0 (Nat.succ_pos _) l rfl next (List.head?_eq_getElem? ▸ hnext) next'
      (List.head?_eq_getElem? ▸ hnext')

theorem Gaps.tail {gap : List Char} {gaps : List (List Char)} {l : Lexeme} {ks : List Lexeme}
    (h : Gaps (gap :: gaps) (l :: ks)) : Gaps gaps ks where
  length_eq := Nat.succ.inj h.length_eq
  blank := (List.forall_mem_cons.mp h.blank).2
  spaced i hi := h.spaced (i + 1) (Nat.succ_lt_succ hi)

theorem Gaps.respaced {gaps : List (List Char)} {ks : List Lexeme} (h : Gaps gaps ks) :
    Respaced ks (respace gaps ks) where
  same := by
    induction ks generalizing gaps with
    | nil =>
      rw [respace, List.zipWith_nil_right]
      exact .nil
    | cons l ks ih =>
      cases gaps with
      | nil => exact absurd h.length_eq (by simp)
      | cons gap gaps => exact .cons ⟨rfl, rfl⟩ (ih h.tail)
  spaced i hi before hbefore l hl l' hl' hends hbegins := by
    rw [Option.mem_def, respace, List.getElem?_zipWith_eq_some] at hl'
    obtain ⟨gap, l₀, hgap, hl₀, rfl⟩ := hl'
    obtain rfl := Option.some.inj (hl.symm.trans hl₀)
    exact h.spaced i hi before hbefore l hl gap hgap (.inl ⟨hends, hbegins⟩)

/-- A token that could not be made longer by the next one is not. -/
theorem written_append {k kind : TokenKind} {cs cs' rest rest' : List Char}
    (h : Written k cs rest) (hnext : Written kind cs' rest') (hapart : ¬ KeptApart k kind)
    (behind : List Char) : Written k cs (cs' ++ behind) := by
  cases h with
  | punctuation h => exact .punctuation h
  | number h _ =>
    have hbegins : ¬ BeginsPrimary kind := fun hbegins => hapart (.inl ⟨.number, hbegins⟩)
    cases hnext with
    | number _ _ => exact absurd .number hbegins
    | word _ _ => exact absurd .identifier hbegins
    | @punctuation c _ _ hkind =>
      refine .number h ?_
      rintro _ ⟨⟩
      have hletter := (TokenKind.isAlphanumeric_of_ofPunctuation? hkind).1
      refine ⟨isDigit_of_isAlphanumeric_eq_false hletter, ?_⟩
      rintro rfl
      exact hapart (.inr ⟨rfl, (Option.some.inj hkind).symm⟩)
  | word h _ =>
    have hbegins : ¬ BeginsPrimary kind := fun hbegins => hapart (.inl ⟨.identifier, hbegins⟩)
    cases hnext with
    | number _ _ => exact absurd .number hbegins
    | word _ _ => exact absurd .identifier hbegins
    | punctuation hkind =>
      refine .word h ?_
      rintro _ ⟨⟩
      exact (TokenKind.isAlphanumeric_of_ofPunctuation? hkind).1

/-- Other gaps do not make a token longer. -/
theorem written_spread {l : Lexeme} {gap rest : List Char} {gaps : List (List Char)}
    {ls : List Lexeme} (hwritten : Written l.kind l.text.toList rest) (hlater : Laid rest ls)
    (hgaps : Gaps (gap :: gaps) (l :: ls)) : Written l.kind l.text.toList (spread gaps ls) := by
  obtain ⟨next, ls, rfl⟩ : ∃ next ls', ls = next :: ls' := by
    cases hlater <;> exact ⟨_, _, rfl⟩
  rcases gaps with _ | ⟨_ | ⟨b, gap⟩, gaps⟩
  · exact absurd hgaps.tail.length_eq (by simp)
  · -- where the gap is empty now, it was empty before or did not matter
    rw [spread, List.nil_append]
    cases hlater with
    | endOfInput _ _ htext _ =>
      obtain rfl := List.eq_nil_of_length_eq_zero hgaps.tail.tail.length_eq
      rw [htext, spread]
      · exact hwritten.of_breaks breaks_nil
      · exact nofun
    | @cons gap₀ rest _ _ _ hspaced hnext _ =>
      by_cases hapart : KeptApart l.kind next.kind
      · have htouches := hgaps.spaced 0 (Nat.succ_pos _) l rfl next rfl [] rfl hapart
        obtain rfl : gap₀ = [] := by simpa [htouches] using hspaced
        obtain ⟨first, later, heq, -⟩ := hnext.exists_cons
        refine hwritten.of_head ?_
        rw [heq]
        rfl
      · exact written_append hwritten hnext hapart _
  · have hb := hgaps.tail.blank (b :: gap) List.mem_cons_self b List.mem_cons_self
    refine hwritten.of_breaks (breaks_cons (isAlphanumeric_of_isWhitespace hb) ?_ _)
    rintro rfl
    contradiction

theorem laid_spread {cs : List Char} {ks : List Lexeme} (h : Laid cs ks) {gaps : List (List Char)}
    (hgaps : Gaps gaps ks) : Laid (spread gaps ks) (respace gaps ks) := by
  induction h generalizing gaps with
  | @endOfInput gap₀ l _ hkind htext hspaced =>
    obtain ⟨gap, rfl⟩ := List.length_eq_one_iff.mp hgaps.length_eq
    have hgap := hgaps.blank gap List.mem_cons_self
    have hspread : spread [gap] [l] = gap := by simp [spread, htext]
    rw [hspread]
    exact .endOfInput hgap hkind htext rfl
  | @cons gap₀ rest l ls _ _ hwritten hlater ih =>
    cases gaps with
    | nil => exact absurd hgaps.length_eq (by simp)
    | cons gap gaps =>
      have hgap := hgaps.blank gap List.mem_cons_self
      have hbehind := written_spread hwritten hlater hgaps
      exact @Laid.cons gap _ { l with spaced := !gap.isEmpty } _ hgap rfl hbehind (ih hgaps.tail)

/-- Blanks matter in front of a lexeme that begins a primary and behind one that ends a
primary, and nowhere else.  There only their presence counts. -/
theorem parseUnplaced_of_respaced {source : String} {ks : List Lexeme}
    (h : tokenize source = .ok ks) :
    (∀ source' ks', tokenize source' = .ok ks' → Respaced ks ks' →
        parseUnplaced source' = parseUnplaced source) ∧
      ∀ gaps, Gaps gaps ks →
        parseUnplaced (String.ofList (spread gaps ks)) = parseUnplaced source := by
  refine ⟨fun source' ks' h' hks => ?_, fun gaps hgaps => ?_⟩
  · have hmirrored : Mirrored .endOfInput ks ks' :=
      hks.mirrored fun _ _ _ _ hends => absurd hends (by decide)
    exact (parseUnplaced_eq_of_mirrored h h' (by decide) hmirrored).symm
  · have hmirrored : Mirrored .endOfInput ks (respace gaps ks) :=
      hgaps.respaced.mirrored fun _ _ _ _ hends => absurd hends (by decide)
    exact parseUnplaced_of_laid h (laid_spread (laid_of_tokenize h) hgaps) hmirrored

/-- Blanks around operators and commas, inside parentheses, in front of the text and behind
it, and a line break between two terms; in the second text also gaps of other lengths. -/
theorem parseUnplaced_of_respaced_of_operators :
    ∃ ks ks', tokenize "f(2x, y)^2 3" = .ok ks ∧
      tokenize " f( 2x ,y )\t^ 2\n3 " = .ok ks' ∧ Respaced ks ks' ∧
      parseUnplaced " f( 2x ,y )\t^ 2\n3 " = parseUnplaced "f(2x, y)^2 3" ∧
      parseUnplaced "  f( 2x,y)^ 2 \n 3" = parseUnplaced "f(2x, y)^2 3" := by
  obtain ⟨hrespaced, hspread⟩ := @parseUnplaced_of_respaced "f(2x, y)^2 3" _ rfl
  have hfirst := hrespaced " f( 2x ,y )\t^ 2\n3 " _ rfl (by decide)
  have hsecond := hspread
    [[' ', ' '], [], [' '], [], [], [], [], [], [' '], [' ', '\n', ' '], []] (by decide)
  exact ⟨_, _, rfl, rfl, by decide, hfirst, hsecond⟩

end MathQuery
