import MathQuery.Proofs.Query.Layout
import MathQuery.Proofs.Text.Places

/-!
# Reading loses nothing but blanks

The texts of the lexemes of a text, one behind the other, are the text without its blanks, and
every lexeme tells where it stands.  Tokens go as far as they can.  A text that cannot be read
is read up to the place that is reported, and there stands what forms no token.

* `TokenKind.HasText` – the texts that tokens of a kind can have;
* `Lexeme.Lossless` – what the lexemes of a text say about it;
* `Offends` – the characters that form no token;
* `tokenize_lossless` – reading gives the one or the other.
-/

namespace MathQuery

/-! ## Cursors -/

namespace Cursor

theorem drop_length {c : Cursor} {run rest : List Char} (h : c.rest = run ++ rest) :
    c.drop run.length = ⟨rest, c.position.advanceAll run⟩ := by
  simp [drop, h]

theorem skipBlanks_eq {c : Cursor} {gap rest : List Char} (hgap : IsBlank gap)
    (hrest : ∀ d, rest.head? = some d → d.isWhitespace = false) (h : c.rest = gap ++ rest) :
    c.skipBlanks = ⟨rest, c.position.advanceAll gap⟩ := by
  rw [skipBlanks, h, takeWhile_append_of_head hgap hrest]
  exact drop_length h

end Cursor

/-! ## Texts of tokens -/

/-- The texts that tokens of a kind can have. -/
inductive TokenKind.HasText : TokenKind → List Char → Prop
  | number {cs : List Char} (h : IsNumeral cs) : HasText .number cs
  | word {cs : List Char} (h : IsWord cs) : HasText .identifier cs
  | punctuation {c : Char} {kind : TokenKind} (h : ofPunctuation? c = some kind) : HasText kind [c]

/-- What begins with a character that is in no number or in no word has another kind. -/
theorem TokenKind.HasText.kind_ne {kind : TokenKind} {first : Char} {later : List Char}
    (h : kind.HasText (first :: later)) :
    (first.isDigit = false → first ≠ '.' → kind ≠ .number ∧ kind ≠ .point) ∧
      (isAlphanumeric first = false → kind ≠ .identifier ∧ kind ≠ .number) := by
  cases h with
  | number h =>
    obtain ⟨_, _, heq, hdigit⟩ := h.exists_cons
    obtain ⟨rfl, -⟩ := List.cons.inj heq
    have hletter := isAlphanumeric_of_isDigit hdigit
    simp [hdigit, hletter]
  | word h =>
    cases h with
    | mk hdigit hletters => simp [hletters first List.mem_cons_self]
  | punctuation h =>
    obtain ⟨-, hnumber, hword⟩ := ofPunctuation?_ne h
    refine ⟨fun _ hpoint => ⟨hnumber, ?_⟩, fun _ => ⟨hword, hnumber⟩⟩
    rintro rfl
    unfold ofPunctuation? at h
    split at h <;> simp_all

namespace Lexeme

variable {kind : TokenKind} {cs front rest : List Char}

theorem Written.hasText (h : Written kind cs rest) : kind.HasText cs := by
  cases h with
  | number h _ => exact .number h
  | word h _ => exact .word h
  | punctuation h => exact .punctuation h

/-- No blank is in a token. -/
theorem Written.isWhitespace (h : Written kind cs rest) : ∀ c ∈ cs, c.isWhitespace = false := by
  have hdigits {ds : List Char} (hds : ∀ d ∈ ds, d.isDigit = true) :
      ∀ d ∈ ds, d.isWhitespace = false := fun d hd =>
    isWhitespace_of_isAlphanumeric (isAlphanumeric_of_isDigit (hds d hd))
  cases h with
  | number h _ =>
    cases h with
    | whole _ hds => exact hdigits hds
    | decimal _ hds hfs =>
      rw [List.forall_mem_append, List.forall_mem_cons]
      exact ⟨hdigits hds, by decide, hdigits hfs⟩
  | word h _ =>
    cases h with
    | mk _ hletters => exact fun c hc => isWhitespace_of_isAlphanumeric (hletters c hc)
  | punctuation h =>
    rw [List.forall_mem_singleton]
    exact (TokenKind.isAlphanumeric_of_ofPunctuation? h).2

/-- A text may be broken off behind a token. -/
theorem Written.of_append (h : Written kind cs (front ++ rest)) : Written kind cs front := by
  cases front with
  | nil => exact h.of_breaks breaks_nil
  | cons c front => exact h.of_head rfl

/-! ## What lexemes say about a text -/

/-- The texts of lexemes, one behind the other. -/
def texts (ls : List Lexeme) : List Char := ls.flatMap fun l => l.text.toList

/-- The characters of a text that are no blanks. -/
def inked (cs : List Char) : List Char := cs.filter fun c => !c.isWhitespace

/-- A lexeme tells where in a text it stands and whether directly behind a blank, and what is
behind it would not make its token longer. -/
structure StandsBetween (l : Lexeme) (before after : List Char) : Prop where
  position : l.position = .behind before
  spaced : l.spaced = before.getLast?.any Char.isWhitespace
  number : l.kind = .number → NumeralEnds after
  word : l.kind = .identifier → WordEnds after

/-- Directly behind a number stands neither a number nor a point, and directly behind an
identifier stands neither an identifier nor a number. -/
structure Apart (first second : Lexeme) : Prop where
  number : first.kind = .number → second.spaced = false →
    second.kind ≠ .number ∧ second.kind ≠ .point
  word : first.kind = .identifier → second.spaced = false →
    second.kind ≠ .identifier ∧ second.kind ≠ .number

/-- The lexemes of a text: together they have its characters apart from the blanks; all but
the last have a text of their kind, and the last is the end; each of them stands between the
texts of those before it and those behind it; and none could have been longer. -/
structure Lossless (source : String) (ks : List Lexeme) : Prop where
  texts_eq : texts ks = inked source.toList
  tokens : ∃ ls last, ks = ls ++ [last] ∧ (∀ l ∈ ls, l.kind.HasText l.text.toList) ∧
    last.kind = .endOfInput ∧ last.text = ""
  places : ∀ front l back, ks = front ++ l :: back → ∃ before after,
    source.toList = before ++ (l.text.toList ++ after) ∧ inked before = texts front ∧
      inked after = texts back ∧ (back = [] → after = []) ∧ l.StandsBetween before after
  isChain : ks.IsChain Apart

theorem inked_append (cs ds : List Char) : inked (cs ++ ds) = inked cs ++ inked ds := by
  rw [inked, List.filter_append]
  rfl

theorem inked_of_isBlank {gap : List Char} (h : IsBlank gap) : inked gap = [] :=
  List.filter_eq_nil_iff.mpr fun c hc => by simp [h c hc]

theorem Written.inked_eq (h : Written kind cs rest) : inked cs = cs :=
  List.filter_eq_self.mpr fun c hc => by simp [h.isWhitespace c hc]

/-- Behind a number and behind a word nothing stands that would make it longer. -/
theorem Written.ends (h : Written kind cs rest) :
    (kind = .number → NumeralEnds rest) ∧ (kind = .identifier → WordEnds rest) := by
  cases h with
  | number _ hrest => exact ⟨fun _ => hrest, nofun⟩
  | word _ hrest => exact ⟨nofun, fun _ => hrest⟩
  | punctuation hkind =>
    obtain ⟨-, hnumber, hword⟩ := TokenKind.ofPunctuation?_ne hkind
    exact ⟨fun h => absurd h hnumber, fun h => absurd h hword⟩

/-! ## The lexemes of a laid out text -/

/-- The texts of the lexemes of a text are its characters without the blanks. -/
theorem Laid.texts_eq {ks : List Lexeme} (h : Laid cs ks) : texts ks = inked cs := by
  induction h with
  | endOfInput hgap _ htext _ => simp [texts, htext, inked_of_isBlank hgap]
  | cons hgap _ hwritten _ ih =>
    rw [inked_append, inked_append, inked_of_isBlank hgap, hwritten.inked_eq, ← ih]
    rfl

theorem Laid.tokens {ks : List Lexeme} (h : Laid cs ks) :
    ∃ ls last, ks = ls ++ [last] ∧ (∀ l ∈ ls, l.kind.HasText l.text.toList) ∧
      last.kind = .endOfInput ∧ last.text = "" := by
  induction h with
  | @endOfInput gap l _ hkind htext _ => exact ⟨[], l, rfl, List.forall_mem_nil _, hkind, htext⟩
  | cons _ _ hwritten _ ih =>
    obtain ⟨ls, last, rfl, htexts, hlast⟩ := ih
    exact ⟨_ :: ls, last, rfl, List.forall_mem_cons.mpr ⟨hwritten.hasText, htexts⟩, hlast⟩

/-- A lexeme that touches a number or a word is not what would have made that longer. -/
theorem Laid.isChain_apart {ks : List Lexeme} (h : Laid cs ks) : ks.IsChain Apart := by
  induction h with
  | endOfInput _ _ _ _ => exact .singleton _
  | @cons gap rest l ls _ _ hwritten hlater ih =>
    apply ih.cons
    intro next hnext
    cases hlater with
    | endOfInput _ hkind _ _ =>
      obtain rfl := Option.some.inj hnext
      constructor <;> simp [hkind]
    | @cons gap' rest' next' ls' _ hgap' hwritten' _ =>
      obtain rfl := Option.some.inj hnext
      obtain ⟨first, later, htext, -⟩ := hwritten'.exists_cons
      have hnot := TokenKind.HasText.kind_ne (htext ▸ hwritten'.hasText)
      -- what touches the first lexeme is at the front of the rest
      have hhead (hspaced : next'.spaced = false) :
          (gap' ++ (next'.text.toList ++ rest')).head? = some first := by
        obtain rfl : gap' = [] := by simpa [hspaced] using hgap'
        rw [htext]
        rfl
      constructor
      · intro hkind hspaced
        obtain ⟨hdigit, hpoint⟩ := hwritten.ends.1 hkind first (hhead hspaced)
        exact hnot.1 hdigit hpoint
      · intro hkind hspaced
        exact hnot.2 (hwritten.ends.2 hkind first (hhead hspaced))

/-! ## Where lexemes stand -/

variable {c after : Cursor} {l : Lexeme} {ls : List Lexeme}

theorem Scanned.position_eq (h : Scanned c l after) : l.position = c.skipBlanks.position := by
  cases h <;> rfl

theorem Scanned.after_eq (h : Scanned c l after) :
    after = c.skipBlanks.drop l.text.toList.length := by
  cases h with
  | endOfInput _ => simp [Cursor.drop]
  | number _ _ _ | punctuation _ _ _ | word _ _ _ _ => simp

/-- What one scan takes off a text, and where. -/
theorem Scanned.exists_between (h : Scanned c l after) :
    ∃ gap, IsBlank gap ∧ l.spaced = (!gap.isEmpty) ∧ c.rest = gap ++ (l.text.toList ++ after.rest) ∧
      l.position = c.position.advanceAll gap ∧
      after.position = c.position.advanceAll (gap ++ l.text.toList) ∧
      (l.kind = .endOfInput ∧ after.rest = [] ∨ Written l.kind l.text.toList after.rest) := by
  by_cases hkind : l.kind = .endOfInput
  · cases h with
    | endOfInput hrest =>
      have hgap : IsBlank (c.rest.takeWhile Char.isWhitespace) := fun _ => List.mem_takeWhile_imp
      have hall := c.takeWhile_append_skipBlanks
      rw [hrest, List.append_nil] at hall
      rw [hall] at hgap
      have hskip := Cursor.skipBlanks_eq hgap (by simp) (List.append_nil c.rest).symm
      refine ⟨c.rest, hgap, hall ▸ c.atBlank_eq, ?_⟩
      simp [hskip]
    | number _ _ _ | word _ _ _ _ => contradiction
    | punctuation _ _ hpunctuation =>
      exact absurd hkind (TokenKind.ofPunctuation?_ne hpunctuation).1
  · obtain ⟨gap, hgap, hspaced, hrest, hwritten⟩ := h.exists_gap hkind
    have hhead : ∀ d, (l.text.toList ++ after.rest).head? = some d → d.isWhitespace = false := by
      obtain ⟨first, later, htext, hfirst⟩ := hwritten.exists_cons
      rw [htext]
      rintro _ ⟨⟩
      exact hfirst
    have hskip := Cursor.skipBlanks_eq hgap hhead hrest
    have hposition := h.position_eq
    have hafter := h.after_eq
    rw [hskip] at hposition hafter
    rw [Cursor.drop_length rfl] at hafter
    refine ⟨gap, hgap, hspaced, hrest, hposition, ?_, .inr hwritten⟩
    rw [hafter, Position.advanceAll_append]

/-- The characters that scans in succession take off a text. -/
structure Took (run : List Char) (c : Cursor) (ls : List Lexeme) (after : Cursor) : Prop where
  rest : c.rest = run ++ after.rest
  position : after.position = c.position.advanceAll run
  texts_eq : texts ls = inked run
  last : ∀ d, run.getLast? = some d → d.isWhitespace = false
  laid : ∀ gap, IsBlank gap → gap <+: after.rest → ∃ ks, Laid (run ++ gap) ks

theorem Scans.exists_took (h : Scans c ls after) : ∃ run, Took run c ls after := by
  induction h with
  | @nil c =>
    refine ⟨[], rfl, rfl, rfl, nofun, fun gap hgap _ => ?_⟩
    exact ⟨[⟨⟨⟨"", .start⟩, .endOfInput⟩, !gap.isEmpty⟩], .endOfInput hgap rfl rfl rfl⟩
  | @cons c middle after l ls hfirst hkind _ ih =>
    obtain ⟨run, hrun⟩ := ih
    obtain ⟨gap, hgap, hspaced, hrest, -, hposition, hend⟩ := hfirst.exists_between
    have hwritten : Written l.kind l.text.toList (run ++ after.rest) := by
      rcases hend with ⟨hend, -⟩ | hwritten
      · exact absurd hend hkind
      · exact hrun.rest ▸ hwritten
    refine ⟨gap ++ (l.text.toList ++ run), ?_, ?_, ?_, ?_, ?_⟩
    · rw [hrest, hrun.rest]
      simp
    · rw [hrun.position, hposition, ← Position.advanceAll_append, List.append_assoc]
    · rw [inked_append, inked_append, inked_of_isBlank hgap, hwritten.inked_eq, ← hrun.texts_eq]
      rfl
    · intro d hd
      rcases List.eq_nil_or_concat run with rfl | ⟨front, last, rfl⟩
      · obtain ⟨first, later, htext, -⟩ := hwritten.exists_cons
        rw [List.append_nil, List.getLast?_append_of_ne_nil _ (by simp [htext])] at hd
        exact hwritten.isWhitespace d (List.mem_of_getLast? hd)
      · apply hrun.last
        rw [← hd]
        simp [← List.append_assoc]
    · intro gap' hgap' hprefix
      obtain ⟨ks, hks⟩ := hrun.laid gap' hgap' hprefix
      obtain ⟨behind, hbehind⟩ := hprefix
      have hfront : Written l.kind l.text.toList (run ++ gap') := by
        rw [← hbehind, ← List.append_assoc] at hwritten
        exact hwritten.of_append
      refine ⟨l :: ks, ?_⟩
      have hlaid := Laid.cons hgap hspaced hfront hks
      simpa using hlaid

/-- The scan that finds a lexeme, and the scans before it. -/
theorem Reads.exists_scanned {last : Lexeme} {front back : List Lexeme} (h : Reads c ls last)
    (heq : ls ++ [last] = front ++ l :: back) : ∃ middle after, Scans c front middle ∧
      Scanned middle l after ∧ texts back = inked after.rest ∧ (back = [] → after.rest = []) := by
  induction front generalizing c ls with
  | nil =>
    cases ls with
    | nil =>
      obtain ⟨rfl, rfl⟩ := List.cons.inj heq
      obtain ⟨after, hlast, hend⟩ := reads_nil_iff.mp h
      obtain ⟨_, -, -, -, -, -, ⟨-, hrest⟩ | hwritten⟩ := hlast.exists_between
      · exact ⟨c, after, .nil, hlast, by rw [hrest]; rfl, fun _ => hrest⟩
      · exact absurd hend hwritten.kind_ne
    | cons k ls =>
      obtain ⟨rfl, rfl⟩ := List.cons.inj heq
      obtain ⟨middle, hfirst, -, hlater⟩ := reads_cons_iff.mp h
      exact ⟨c, middle, .nil, hfirst, (laid_of_reads hlater).texts_eq, by simp⟩
  | cons k front ih =>
    cases ls with
    | nil => simp at heq
    | cons k' ls =>
      obtain ⟨rfl, htail⟩ := List.cons.inj heq
      obtain ⟨middle, hfirst, hkind, hlater⟩ := reads_cons_iff.mp h
      obtain ⟨middle', after, hscans, hrest⟩ := ih hlater htail
      exact ⟨middle', after, .cons hfirst hkind hscans, hrest⟩

theorem getLast?_any_of_gap {run gap : List Char} (hgap : IsBlank gap)
    (hrun : ∀ d, run.getLast? = some d → d.isWhitespace = false) :
    (run ++ gap).getLast?.any Char.isWhitespace = !gap.isEmpty := by
  rcases List.eq_nil_or_concat gap with rfl | ⟨front, last, rfl⟩
  · rw [List.append_nil]
    cases hlast : run.getLast? with
    | none => rfl
    | some d => simpa using hrun d hlast
  · have hlast : last.isWhitespace = true := hgap last (by simp)
    simp [← List.append_assoc, hlast]

end Lexeme

open Lexeme

theorem lossless_of_tokenize {source : String} {ks : List Lexeme} (h : tokenize source = .ok ks) :
    Lossless source ks := by
  have hlaid := laid_of_tokenize h
  refine ⟨hlaid.texts_eq, hlaid.tokens, fun front l back heq => ?_, hlaid.isChain_apart⟩
  obtain ⟨ls, last, rfl, hreads⟩ := tokenize_eq_ok_iff.mp h
  obtain ⟨middle, after, hscans, hscan, htexts, hend⟩ := hreads.exists_scanned heq
  obtain ⟨run, hrun⟩ := hscans.exists_took
  obtain ⟨gap, hgap, hspaced, hrest, hposition, -, hwritten⟩ := hscan.exists_between
  refine ⟨run ++ gap, after.rest, ?_, ?_, htexts.symm, hend, ?_⟩
  · have hsource : source.toList = run ++ middle.rest := hrun.rest
    rw [hsource, hrest, List.append_assoc]
  · rw [inked_append, inked_of_isBlank hgap, List.append_nil, hrun.texts_eq]
  · constructor
    · rw [hposition, hrun.position, ← Position.advanceAll_append]
      exact Position.advanceAll_start _
    · rw [hspaced, getLast?_any_of_gap hgap hrun.last]
    · intro hkind
      rcases hwritten with ⟨hend, -⟩ | hwritten
      · rw [hkind] at hend
        contradiction
      · exact hwritten.ends.1 hkind
    · intro hkind
      rcases hwritten with ⟨hend, -⟩ | hwritten
      · rw [hkind] at hend
        contradiction
      · exact hwritten.ends.2 hkind

/-! ## Texts that cannot be read -/

/-- What stands at the place of an error: a character of no class, or digits with two points
and all digits and points behind them. -/
inductive Offends : List Char → LexicalError → Prop
  | unexpectedCharacter {c : Char} {later : List Char} {p : Position}
    (hblank : c.isWhitespace = false) (hdigit : c.isDigit = false)
    (hpunctuation : TokenKind.ofPunctuation? c = none) (hletter : isAlphanumeric c = false) :
    Offends (c :: later) (.unexpectedCharacter c p)
  | malformedNumber {ds fs more behind : List Char} {p : Position} (hne : ds ≠ [])
    (hds : ∀ d ∈ ds, d.isDigit = true) (hfs : ∀ d ∈ fs, d.isDigit = true)
    (hmore : ∀ d ∈ more, isDigitOrPoint d = true)
    (hbehind : ∀ d, behind.head? = some d → isDigitOrPoint d = false) :
    Offends (ds ++ '.' :: fs ++ '.' :: more ++ behind)
      (.malformedNumber (String.ofList (ds ++ '.' :: fs ++ '.' :: more)) p)

/-- A number from the front that is followed by a point has a point already. -/
theorem decimalPrefix_of_head_drop {cs : List Char}
    (h : (cs.drop (decimalPrefix cs).length).head? = some '.') :
    ∃ fs, (∀ d ∈ fs, d.isDigit = true) ∧
      decimalPrefix cs = cs.takeWhile Char.isDigit ++ '.' :: fs := by
  unfold decimalPrefix at h ⊢
  split at h
  · next fraction hfraction =>
    exact ⟨fraction.takeWhile Char.isDigit, fun d hd => List.mem_takeWhile_imp hd, rfl⟩
  · next hnot =>
    rw [List.append_nil, drop_length_takeWhile] at h
    obtain ⟨fraction, hfraction⟩ := List.head?_eq_some_iff.mp h
    exact absurd hfraction (hnot fraction)

namespace Lexeme

/-- What begins with a digit and is no number begins with digits and two points. -/
theorem offends_of_second_point {first : Char} {later : List Char} (hdigit : first.isDigit = true)
    (hpoint : ((first :: later).drop (decimalPrefix (first :: later)).length).head? = some '.')
    (p : Position) :
    Offends (first :: later) (.malformedNumber
      (String.ofList (decimalPrefix (first :: later) ++
        ((first :: later).drop (decimalPrefix (first :: later)).length).takeWhile isDigitOrPoint))
      p) := by
  obtain ⟨fs, hfs, hliteral⟩ := decimalPrefix_of_head_drop hpoint
  have hprefix := decimalPrefix_prefix (first :: later)
  have hsplit := List.prefix_iff_eq_append.mp hprefix
  obtain ⟨more, hmore⟩ := List.head?_eq_some_iff.mp hpoint
  have hds : ∀ d ∈ (first :: later).takeWhile Char.isDigit, d.isDigit = true := fun d hd =>
    List.mem_takeWhile_imp hd
  have hne : (first :: later).takeWhile Char.isDigit ≠ [] := by simp [hdigit]
  -- the second point belongs to the run of digits and points that is reported
  have hpointRun : isDigitOrPoint '.' = true := by decide
  have hexcess := List.takeWhile_append_dropWhile (p := isDigitOrPoint) (l := more)
  rw [hmore] at hsplit ⊢
  rw [List.takeWhile_cons, if_pos hpointRun]
  have hbehind : ∀ d, (more.dropWhile isDigitOrPoint).head? = some d →
      isDigitOrPoint d = false := by
    intro d hd
    have hnot := List.head?_dropWhile_not isDigitOrPoint more
    rwa [hd] at hnot
  have hoffends := Offends.malformedNumber (p := p) hne hds hfs
    (fun d hd => List.mem_takeWhile_imp (l := more) hd) hbehind
  rw [List.append_assoc _ _ (more.dropWhile isDigitOrPoint), List.cons_append, hexcess, ← hliteral,
    hsplit] at hoffends
  exact hoffends

/-- Where a scan fails, what stands behind the blanks forms no token. -/
theorem offends_of_scan {c : Cursor} {e : LexicalError} (h : (scan c).1 = .error e) :
    Offends c.skipBlanks.rest e ∧ e.position = c.skipBlanks.position := by
  have hblank := @Cursor.isWhitespace_of_skipBlanks c
  unfold scan at h
  cases hrest : c.skipBlanks.rest with
  | nil => simp [hrest] at h
  | cons first later =>
    simp only [hrest] at h
    split at h
    · next hdigit =>
      simp only [Cursor.number, hrest, Cursor.rest_drop] at h
      split at h
      · next hpoint =>
        cases h
        exact ⟨offends_of_second_point hdigit hpoint _, rfl⟩
      · simp [Except.map] at h
    · next hdigit =>
      have hdigit : first.isDigit = false := by simpa using hdigit
      cases hkind : TokenKind.ofPunctuation? first with
      | some kind => simp [hkind] at h
      | none =>
        simp only [hkind] at h
        split at h
        · next hword =>
          obtain rfl : _ = e := by simpa using h
          have hletter : isAlphanumeric first = false := by
            by_contra hnot
            simp [hnot] at hword
          exact ⟨.unexpectedCharacter (hblank hrest) hdigit hkind hletter, rfl⟩
        · simp at h

/-- A reading ends with an error where a scan fails. -/
theorem exists_scans_of_error {fuel : ℕ} {c : Cursor} {ls : List Lexeme} {e : LexicalError}
    (h : Reading.scanUpTo scan (·.is .endOfInput) fuel c = ⟨ls, .error e⟩) :
    ∃ middle, Scans c ls middle ∧ (scan middle).1 = .error e := by
  induction fuel generalizing c ls with
  | zero =>
    obtain ⟨rfl, herror⟩ := Reading.mk.inj h
    exact ⟨c, .nil, herror⟩
  | succ fuel ih =>
    rw [Reading.scanUpTo] at h
    cases hrun : scan c with
    | mk result after =>
    cases result with
    | error e' =>
      rw [hrun] at h
      obtain ⟨rfl, herror⟩ := Reading.mk.inj h
      exact ⟨c, .nil, by rw [hrun]; exact herror⟩
    | ok l =>
      simp only [hrun] at h
      split at h
      · cases (Reading.mk.inj h).2
      · next hend =>
        have hkind : l.kind ≠ .endOfInput := fun hkind => hend (is_eq_true_iff.mpr hkind)
        generalize hlater : Reading.scanUpTo scan (·.is .endOfInput) fuel after = later at h
        obtain ⟨tokens, ending⟩ := later
        obtain ⟨rfl, rfl⟩ := Reading.mk.inj h
        obtain ⟨middle, hscans, herror⟩ := ih hlater
        exact ⟨middle, .cons (scan_eq_ok_iff.mp hrun) hkind hscans, herror⟩

end Lexeme

/-- A text that cannot be read is read up to the place of the error. -/
theorem offends_of_tokenize {source : String} {e : LexicalError} (h : tokenize source = .error e) :
    ∃ before rest ks, source.toList = before ++ rest ∧ e.position = .behind before ∧
      Offends rest e ∧ tokenize (String.ofList before) = .ok ks := by
  obtain ⟨ls, hreading⟩ : ∃ ls, reading source = ⟨ls, .error e⟩ := by
    cases hr : reading source with
    | mk tokens ending =>
      rw [tokenize, hr, Reading.toList] at h
      cases ending with
      | error e' => exact ⟨tokens, by rw [Except.error.inj h]⟩
      | ok last => contradiction
  obtain ⟨middle, hscans, herror⟩ := exists_scans_of_error hreading
  obtain ⟨run, hrun⟩ := hscans.exists_took
  obtain ⟨hoffends, hposition⟩ := offends_of_scan herror
  have hgap : IsBlank (middle.rest.takeWhile Char.isWhitespace) := fun _ => List.mem_takeWhile_imp
  have hsplit := middle.takeWhile_append_skipBlanks
  obtain ⟨ks, hks⟩ := hrun.laid _ hgap (List.takeWhile_prefix _)
  obtain ⟨ks', hks', -⟩ := hks.exists_tokenize
  refine ⟨_, middle.skipBlanks.rest, ks', ?_, ?_, hoffends, hks'⟩
  · have hsource : source.toList = run ++ middle.rest := hrun.rest
    rw [hsource, List.append_assoc, hsplit]
  · rw [hposition, ← Position.advanceAll_start, Position.advanceAll_append]
    have hskip : middle.skipBlanks.position =
        middle.position.advanceAll (middle.rest.takeWhile Char.isWhitespace) := by
      rw [Cursor.skipBlanks, Cursor.drop_length hsplit.symm]
    rw [hskip, hrun.position]
    rfl

/-- Reading a text loses nothing but blanks and takes the longest tokens, and it fails only
where no token is. -/
theorem tokenize_lossless (source : String) :
    (∀ ks, tokenize source = .ok ks → Lossless source ks) ∧
      ∀ e, tokenize source = .error e →
        ∃ before rest ks, source.toList = before ++ rest ∧ e.position = .behind before ∧
          Offends rest e ∧ tokenize (String.ofList before) = .ok ks :=
  ⟨fun _ h => lossless_of_tokenize h, fun _ h => offends_of_tokenize h⟩

/-- A text of two lines, and one whose second line has a number with two points. -/
theorem tokenize_lossless_of_lines :
    (∃ ks, tokenize "2x\t+ 3.\n(y" = .ok ks ∧ Lossless "2x\t+ 3.\n(y" ks) ∧
      let e : LexicalError := .malformedNumber "1.2.3" ⟨2, 3⟩
      tokenize "2x\n+ 1.2.3 y" = .error e ∧
        ∃ before rest ks, "2x\n+ 1.2.3 y".toList = before ++ rest ∧
          e.position = .behind before ∧ Offends rest e ∧
          tokenize (String.ofList before) = .ok ks := by
  have hread : ∃ ks, tokenize "2x\t+ 3.\n(y" = .ok ks := ⟨_, rfl⟩
  have herror : tokenize "2x\n+ 1.2.3 y" = .error (.malformedNumber "1.2.3" ⟨2, 3⟩) := rfl
  obtain ⟨ks, hks⟩ := hread
  exact ⟨⟨ks, hks, (tokenize_lossless _).1 ks hks⟩, herror, (tokenize_lossless _).2 _ herror⟩

end MathQuery
