import Mathlib.Data.List.Chain
import MathQuery.Proofs.Except
import MathQuery.Proofs.Text.Scanning
import MathQuery.Query.Token

/-!
# The lexemes of a query

Reading a query is a succession of scans.  A scan finds the end of the text, a number,
a punctuation character or a word, and each of them is described by what stands in front
of the cursor.

* `Lexeme.Scanned` – the four things that one scan can find, as `Lexeme.scan` finds them;
* `Lexeme.Scans` – a succession of scans;
* `tokenize_eq_ok_iff` – the lexemes of a text are those of a succession up to its end;
* `Scans.isChain_separated` – a number that touches a word never follows it.
-/

namespace MathQuery

/-! ## Characters -/

theorem isAlphanumeric_of_isDigit {c : Char} (h : c.isDigit = true) : isAlphanumeric c = true := by
  have hlt : c.toNat < 0x80 := by
    simp only [Char.isDigit, Bool.and_eq_true, decide_eq_true_eq] at h
    have hle : c.val.toNat ≤ '9'.val.toNat := h.2
    exact Nat.lt_of_le_of_lt hle (by decide)
  rw [isAlphanumeric, if_pos hlt, Char.isAlphanum, h, Bool.or_true]

namespace TokenKind

theorem ofPunctuation?_ne {c : Char} {kind : TokenKind} (h : ofPunctuation? c = some kind) :
    kind ≠ .endOfInput ∧ kind ≠ .number ∧ kind ≠ .identifier := by
  unfold ofPunctuation? at h
  split at h <;> simp_all <;> subst h <;> simp

end TokenKind

namespace Cursor

theorem rest_drop (c : Cursor) (n : ℕ) : (c.drop n).rest = c.rest.drop n := rfl

theorem length_rest_skipBlanks_le (c : Cursor) : c.skipBlanks.rest.length ≤ c.rest.length := by
  rw [skipBlanks, length_rest_drop]
  exact Nat.sub_le _ _

theorem skipBlanks_of_atBlank_eq_false {c : Cursor} (h : c.atBlank = false) :
    c.skipBlanks = c := by
  obtain ⟨rest, position⟩ := c
  cases rest with
  | nil => rfl
  | cons first later =>
    have hblank : first.isWhitespace = false := by simpa [atBlank] using h
    simp [skipBlanks, drop, hblank]

end Cursor

theorem drop_length_takeWhile {α : Type} (p : α → Bool) (l : List α) :
    l.drop (l.takeWhile p).length = l.dropWhile p := by
  have h := @List.drop_left _ (l.takeWhile p) (l.dropWhile p)
  rwa [List.takeWhile_append_dropWhile] at h

theorem Cursor.takeWhile_append_skipBlanks (c : Cursor) :
    c.rest.takeWhile Char.isWhitespace ++ c.skipBlanks.rest = c.rest := by
  rw [skipBlanks, rest_drop, drop_length_takeWhile, List.takeWhile_append_dropWhile]

/-- Behind the blanks stands no blank. -/
theorem Cursor.isWhitespace_of_skipBlanks {c : Cursor} {first : Char} {later : List Char}
    (h : c.skipBlanks.rest = first :: later) : first.isWhitespace = false := by
  have hhead := List.head?_dropWhile_not Char.isWhitespace c.rest
  rw [← drop_length_takeWhile, ← rest_drop, ← skipBlanks, h] at hhead
  exact hhead

theorem decimalPrefix_prefix (cs : List Char) : decimalPrefix cs <+: cs := by
  have hcs := List.takeWhile_append_dropWhile (p := Char.isDigit) (l := cs)
  unfold decimalPrefix
  split
  · next fraction hfraction =>
    rw [hfraction] at hcs
    have hdigits := List.takeWhile_prefix Char.isDigit (l := fraction)
    have hpoint := (List.prefix_cons_inj '.').mpr hdigits
    have hall := (List.prefix_append_right_inj (cs.takeWhile Char.isDigit)).mpr hpoint
    rwa [hcs] at hall
  · rw [List.append_nil]
    exact List.takeWhile_prefix _

theorem decimalPrefix_cons_of_isDigit {first : Char} (h : first.isDigit = true)
    (later : List Char) :
    decimalPrefix (first :: later) = first :: decimalPrefix later := by
  simp [decimalPrefix, h]

/-! ## One scan -/

namespace Lexeme

/-- What one scan finds behind the blanks, and the cursor that it leaves. -/
inductive Scanned (c : Cursor) : Lexeme → Cursor → Prop
  | endOfInput (h : c.skipBlanks.rest = []) :
    Scanned c ⟨⟨⟨"", c.skipBlanks.position⟩, .endOfInput⟩, c.atBlank⟩ c.skipBlanks
  | number {first : Char} {later : List Char} (h : c.skipBlanks.rest = first :: later)
    (hdigit : first.isDigit = true)
    (hpoint : ((first :: later).drop (decimalPrefix (first :: later)).length).head? ≠ some '.') :
    Scanned c
      ⟨⟨⟨String.ofList (decimalPrefix (first :: later)), c.skipBlanks.position⟩, .number⟩,
        c.atBlank⟩
      (c.skipBlanks.drop (decimalPrefix (first :: later)).length)
  | punctuation {first : Char} {later : List Char} {kind : TokenKind}
    (h : c.skipBlanks.rest = first :: later) (hdigit : first.isDigit = false)
    (hkind : TokenKind.ofPunctuation? first = some kind) :
    Scanned c ⟨⟨⟨first.toString, c.skipBlanks.position⟩, kind⟩, c.atBlank⟩ (c.skipBlanks.drop 1)
  | word {first : Char} {later : List Char} (h : c.skipBlanks.rest = first :: later)
    (hdigit : first.isDigit = false) (hkind : TokenKind.ofPunctuation? first = none)
    (hletter : isAlphanumeric first = true) :
    Scanned c
      ⟨⟨⟨String.ofList ((first :: later).takeWhile isAlphanumeric), c.skipBlanks.position⟩,
        .identifier⟩, c.atBlank⟩
      (c.skipBlanks.drop ((first :: later).takeWhile isAlphanumeric).length)

/-- The scanner finds these four things and no others. -/
theorem scan_eq_ok_iff {c after : Cursor} {l : Lexeme} :
    scan c = (.ok l, after) ↔ Scanned c l after := by
  constructor
  · intro h
    unfold scan at h
    cases hrest : c.skipBlanks.rest with
    | nil =>
      obtain ⟨rfl, rfl⟩ : _ ∧ c.skipBlanks = after := by simpa [hrest] using h
      exact .endOfInput hrest
    | cons first later =>
      simp only [hrest] at h
      split at h
      · next hdigit =>
        simp only [Cursor.number, hrest, Cursor.rest_drop] at h
        split at h
        · simp [Except.map] at h
        · next hpoint =>
          obtain ⟨rfl, rfl⟩ : _ ∧ c.skipBlanks.drop _ = after := by simpa [Except.map] using h
          exact .number hrest hdigit hpoint
      · next hdigit =>
        have hdigit : first.isDigit = false := by simpa using hdigit
        cases hkind : TokenKind.ofPunctuation? first with
        | some kind =>
          obtain ⟨rfl, rfl⟩ : _ ∧ c.skipBlanks.drop 1 = after := by simpa [hkind] using h
          exact .punctuation hrest hdigit hkind
        | none =>
          simp only [hkind] at h
          split at h
          · simp at h
          · next hword =>
            have hletter : isAlphanumeric first = true := by
              by_contra hnot
              simp [hnot] at hword
            obtain ⟨rfl, rfl⟩ : _ ∧ c.skipBlanks.drop _ = after := by simpa using h
            exact .word hrest hdigit hkind hletter
  · intro h
    unfold scan
    cases h with
    | endOfInput hrest => simp [hrest]
    | number hrest hdigit hpoint =>
      simp only [hrest, hdigit, if_true, Cursor.number, Cursor.rest_drop, if_neg hpoint, Except.map]
    | punctuation hrest hdigit hkind => simp [hrest, hdigit, hkind]
    | word hrest hdigit hkind hletter => simp [hrest, hdigit, hkind, hletter]

variable {c after : Cursor} {l : Lexeme}

/-- A scan that does not find the end takes a character. -/
theorem Scanned.length_lt (h : Scanned c l after) (hkind : l.kind ≠ .endOfInput) :
    after.rest.length < c.rest.length := by
  have hle := c.length_rest_skipBlanks_le
  cases h with
  | endOfInput hrest => exact absurd rfl hkind
  | number hrest hdigit hpoint =>
    rw [Cursor.length_rest_drop, decimalPrefix_cons_of_isDigit hdigit]
    rw [hrest] at hle ⊢
    simp only [List.length_cons] at hle ⊢
    omega
  | punctuation hrest hdigit hpunctuation =>
    rw [Cursor.length_rest_drop]
    rw [hrest] at hle ⊢
    simp only [List.length_cons] at hle ⊢
    omega
  | word hrest hdigit hpunctuation hletter =>
    rw [Cursor.length_rest_drop]
    rw [hrest] at hle ⊢
    simp only [List.takeWhile_cons, hletter, if_true, List.length_cons] at hle ⊢
    omega

/-- What stands behind a word is not alphanumeric. -/
theorem Scanned.head_rest_of_word (h : Scanned c l after) (hkind : l.kind = .identifier)
    (first : Char) (hfirst : after.rest.head? = some first) : isAlphanumeric first = false := by
  cases h with
  | endOfInput hrest => contradiction
  | number hrest hdigit hpoint => contradiction
  | punctuation hrest hdigit hpunctuation =>
    exact absurd hkind (TokenKind.ofPunctuation?_ne hpunctuation).2.2
  | word hrest hdigit hpunctuation hletter =>
    have hnot := List.head?_dropWhile_not isAlphanumeric c.skipBlanks.rest
    rw [Cursor.rest_drop, ← hrest, drop_length_takeWhile] at hfirst
    rwa [hfirst] at hnot

/-- A number that touches what stands before it begins with a digit. -/
theorem Scanned.head_rest_of_number (h : Scanned c l after) (hkind : l.kind = .number)
    (hspaced : l.spaced = false) : ∃ first, c.rest.head? = some first ∧ first.isDigit = true := by
  cases h with
  | endOfInput hrest => contradiction
  | number hrest hdigit hpoint =>
    rw [Cursor.skipBlanks_of_atBlank_eq_false hspaced] at hrest
    exact ⟨_, by rw [hrest]; rfl, hdigit⟩
  | punctuation hrest hdigit hpunctuation =>
    exact absurd hkind (TokenKind.ofPunctuation?_ne hpunctuation).2.1
  | word hrest hdigit hpunctuation hletter => contradiction

/-! ## Successions of scans -/

/-- Scans in succession find these lexemes, none of them the end, and leave a cursor. -/
inductive Scans : Cursor → List Lexeme → Cursor → Prop
  | nil {c : Cursor} : Scans c [] c
  | cons {c middle after : Cursor} {l : Lexeme} {ls : List Lexeme} (h : Scanned c l middle)
    (hkind : l.kind ≠ .endOfInput) (hlater : Scans middle ls after) : Scans c (l :: ls) after

theorem Scans.append {c middle after : Cursor} {ls ks : List Lexeme} (h : Scans c ls middle)
    (h' : Scans middle ks after) : Scans c (ls ++ ks) after := by
  induction h with
  | nil => exact h'
  | cons hfirst hkind _ ih => exact .cons hfirst hkind (ih h')

/-- Behind a word no number follows that touches it. -/
def Separated (first second : Lexeme) : Prop :=
  first.kind = .identifier → second.kind = .number → second.spaced = true

theorem Scans.isChain_separated {ls : List Lexeme} (h : Scans c ls after) :
    ls.IsChain Separated := by
  induction h with
  | nil => exact .nil
  | cons hfirst hkind hlater ih =>
    refine ih.cons fun second hsecond hword hnumber => ?_
    cases hlater with
    | nil => contradiction
    | cons hscan _ _ =>
      obtain rfl := Option.some.inj hsecond
      by_contra hspaced
      -- a number that touches a word would begin with a digit, which the word had taken
      obtain ⟨digit, hhead, hdigit⟩ :=
        hscan.head_rest_of_number hnumber (Bool.eq_false_iff.mpr hspaced)
      have hletter := hfirst.head_rest_of_word hword digit hhead
      rw [isAlphanumeric_of_isDigit hdigit] at hletter
      contradiction

theorem Scans.kind_ne {ls : List Lexeme} (h : Scans c ls after) :
    ∀ l ∈ ls, l.kind ≠ .endOfInput := by
  induction h with
  | nil => simp
  | cons _ hkind _ ih => exact List.forall_mem_cons.mpr ⟨hkind, ih⟩

/-- Lexemes as they are read from a text, the end not included. -/
structure Proper (ls : List Lexeme) : Prop where
  isChain : ls.IsChain Separated
  kind_ne : ∀ l ∈ ls, l.kind ≠ .endOfInput

theorem Proper.right_of_append {ls ks : List Lexeme} (h : Proper (ls ++ ks)) : Proper ks :=
  ⟨h.isChain.right_of_append, fun l hl => h.kind_ne l (List.mem_append_right ls hl)⟩

theorem Proper.tail {ls : List Lexeme} (h : Proper (l :: ls)) : Proper ls :=
  right_of_append (show Proper ([l] ++ ls) from h)

theorem Scans.proper {ls : List Lexeme} (h : Scans c ls after) : Proper ls :=
  ⟨h.isChain_separated, h.kind_ne⟩

/-- The lexemes from a cursor to the end of the text, and the one that marks the end. -/
def Reads (c : Cursor) (ls : List Lexeme) (last : Lexeme) : Prop :=
  ∃ middle after, Scans c ls middle ∧ Scanned middle last after ∧ last.kind = .endOfInput

theorem reads_nil_iff {last : Lexeme} :
    Reads c [] last ↔ ∃ after, Scanned c last after ∧ last.kind = .endOfInput := by
  constructor
  · rintro ⟨middle, after, hscans, hlast⟩
    cases hscans
    exact ⟨after, hlast⟩
  · rintro ⟨after, hlast⟩
    exact ⟨c, after, .nil, hlast⟩

theorem reads_cons_iff {ls : List Lexeme} {last : Lexeme} :
    Reads c (l :: ls) last ↔
      ∃ middle, Scanned c l middle ∧ l.kind ≠ .endOfInput ∧ Reads middle ls last := by
  constructor
  · rintro ⟨middle, after, hscans, hlast⟩
    cases hscans with
    | cons hfirst hkind hlater => exact ⟨_, hfirst, hkind, middle, after, hlater, hlast⟩
  · rintro ⟨middle, hfirst, hkind, last', after, hlater, hlast⟩
    exact ⟨last', after, .cons hfirst hkind hlater, hlast⟩

theorem is_eq_true_iff {kind : TokenKind} : l.is kind = true ↔ l.kind = kind := beq_iff_eq

theorem Scans.finds {ls : List Lexeme} (h : Scans c ls after) :
    Scanner.Finds scan (·.is .endOfInput) c ls after := by
  induction h with
  | nil => exact .nil
  | cons hfirst hkind _ ih =>
    exact .cons (scan_eq_ok_iff.mpr hfirst) (beq_false_of_ne hkind) ih

/-- With as many scans as there are characters the end of the text is reached. -/
theorem Reads.scanUpTo_eq {fuel : ℕ} (hfuel : c.rest.length ≤ fuel) {ls : List Lexeme}
    {last : Lexeme} (h : Reads c ls last) :
    Reading.scanUpTo scan (·.is .endOfInput) fuel c = ⟨ls, .ok last⟩ := by
  obtain ⟨middle, after, hscans, hlast, hend⟩ := h
  refine hscans.finds.scanUpTo_eq (fun c l after hscan hnot => ?_) (scan_eq_ok_iff.mpr hlast)
    (fun l hl => ?_) hfuel
  · exact (scan_eq_ok_iff.mp hscan).length_lt (ne_of_beq_false hnot)
  · rw [← Except.ok.inj hl]
    exact is_eq_true_iff.mpr hend

theorem reads_of_scanUpTo_eq {fuel : ℕ} (hfuel : c.rest.length ≤ fuel) {ls : List Lexeme}
    {last : Lexeme}
    (h : Reading.scanUpTo scan (·.is .endOfInput) fuel c = ⟨ls, .ok last⟩) :
    Reads c ls last := by
  induction fuel generalizing c ls with
  | zero =>
    rw [Reading.scanUpTo] at h
    obtain ⟨rfl, hlast⟩ := Reading.mk.inj h
    -- no character is left, so the scan finds the end
    have hscan : Scanned c last (scan c).2 := scan_eq_ok_iff.mp (Prod.ext hlast rfl)
    refine reads_nil_iff.mpr ⟨_, hscan, ?_⟩
    by_contra hkind
    have hlt := hscan.length_lt hkind
    omega
  | succ fuel ih =>
    rw [Reading.scanUpTo] at h
    cases hrun : scan c with
    | mk result after =>
    cases result with
    | error e =>
      rw [hrun] at h
      cases (Reading.mk.inj h).2
    | ok l =>
      have hscan := scan_eq_ok_iff.mp hrun
      simp only [hrun] at h
      split at h
      · next hend =>
        obtain ⟨rfl, hlast⟩ := Reading.mk.inj h
        obtain rfl := Except.ok.inj hlast
        exact reads_nil_iff.mpr ⟨after, hscan, is_eq_true_iff.mp hend⟩
      · next hend =>
        have hkind : l.kind ≠ .endOfInput := fun hkind => hend (is_eq_true_iff.mpr hkind)
        have hlt := hscan.length_lt hkind
        generalize hlater : Reading.scanUpTo scan (·.is .endOfInput) fuel after = later at h
        obtain ⟨tokens, ending⟩ := later
        obtain ⟨rfl, rfl⟩ := Reading.mk.inj h
        exact reads_cons_iff.mpr ⟨after, hscan, hkind, ih (by omega) hlater⟩

/-- What is read of a text without an error. -/
theorem reading_eq_iff {source : String} {ls : List Lexeme} {last : Lexeme} :
    reading source = ⟨ls, .ok last⟩ ↔ Reads (.ofString source) ls last :=
  ⟨reads_of_scanUpTo_eq (Nat.le_refl _), Reads.scanUpTo_eq (Nat.le_refl _)⟩

end Lexeme

/-- The lexemes of a text are those of a succession of scans, followed by the lexeme that
marks its end. -/
theorem tokenize_eq_ok_iff {source : String} {ks : List Lexeme} :
    tokenize source = .ok ks ↔
      ∃ ls last, ks = ls ++ [last] ∧ Lexeme.Reads (.ofString source) ls last := by
  cases hr : Lexeme.reading source with
  | mk tokens ending =>
  rw [tokenize, hr, Reading.toList, Except.map_eq_ok]
  constructor
  · rintro ⟨last, rfl, rfl⟩
    exact ⟨tokens, last, rfl, Lexeme.reading_eq_iff.mp hr⟩
  · rintro ⟨ls, last, rfl, hreads⟩
    rw [Lexeme.reading_eq_iff.mpr hreads] at hr
    obtain ⟨rfl, rfl⟩ := Reading.mk.inj hr
    exact ⟨last, rfl, rfl⟩

end MathQuery
