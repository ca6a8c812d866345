import MathQuery.Pattern.Token
import MathQuery.Proofs.Query.Spelling
import MathQuery.Proofs.Text.Scanning

/-!
# The tokens of a pattern

A token of a pattern is a word, a number, a run of punctuation or a mark, and a text of
such a kind is scanned as that token, unless what follows makes it longer.  A blank or a
mark never does.

* `PatternToken.Spelled` – the texts of the kinds of tokens;
* `PatternToken.scanned_of_scan` – the scanner finds such texts;
* `PatternToken.scan_of_spelled` – and every such text is found;
* `PatternToken.Scans.reading_eq` – the tokens of a text are those of a succession of scans.
-/

namespace MathQuery

/-! ## Characters -/

/-- A mark belongs to no word, no number and no blank. -/
theorem PatternTokenKind.of_ofMark? {c : Char} {kind : PatternTokenKind}
    (h : ofMark? c = some kind) :
    isAlphanumeric c = false ∧ c.isWhitespace = false ∧ c.isDigit = false := by
  unfold ofMark? at h
  split at h
  case h_4 => contradiction
  all_goals decide

theorem isPunctuation_of_ofMark? {c : Char} {kind : PatternTokenKind}
    (h : PatternTokenKind.ofMark? c = some kind) : isPunctuation c = false := by
  simp [isPunctuation, h]

theorem isPunctuation_of_isWhitespace {c : Char} (h : c.isWhitespace = true) :
    isPunctuation c = false := by
  simp [isPunctuation, h]

theorem isPunctuation_iff {c : Char} :
    isPunctuation c = true ↔
      isAlphanumeric c = false ∧ c.isWhitespace = false ∧ PatternTokenKind.ofMark? c = none := by
  simp [isPunctuation, and_assoc]

theorem ofMark?_of_isAlphanumeric {c : Char} (h : isAlphanumeric c = true) :
    PatternTokenKind.ofMark? c = none := by
  cases hmark : PatternTokenKind.ofMark? c with
  | none => rfl
  | some kind =>
    rw [(PatternTokenKind.of_ofMark? hmark).1] at h
    contradiction

/-- Punctuation: one or more characters that belong to nothing else. -/
structure IsPunctuation (cs : List Char) : Prop where
  ne_nil : cs ≠ []
  forall_mem : ∀ c ∈ cs, isPunctuation c = true

/-- What may follow punctuation without making it longer. -/
def PunctuationEnds (rest : List Char) : Prop :=
  ∀ c, rest.head? = some c → isPunctuation c = false

/-- What may follow a word, a number or punctuation without making it longer: a blank, a mark
or the end. -/
def Separates (rest : List Char) : Prop :=
  ∀ c, rest.head? = some c → isAlphanumeric c = false ∧ isPunctuation c = false

theorem separates_nil : Separates [] := nofun

theorem separates_blank {c : Char} (h : c.isWhitespace = true) (rest : List Char) :
    Separates (c :: rest) := by
  rintro _ ⟨⟩
  exact ⟨isAlphanumeric_of_isWhitespace h, isPunctuation_of_isWhitespace h⟩

theorem separates_mark {c : Char} {kind : PatternTokenKind}
    (h : PatternTokenKind.ofMark? c = some kind) (rest : List Char) : Separates (c :: rest) := by
  rintro _ ⟨⟩
  exact ⟨(PatternTokenKind.of_ofMark? h).1, isPunctuation_of_ofMark? h⟩

theorem Separates.breaks {rest : List Char} (h : Separates rest) : Breaks rest := by
  refine fun c hc => ⟨(h c hc).1, ?_⟩
  rintro rfl
  have hpoint : isPunctuation '.' = true := by decide
  rw [(h '.' hc).2] at hpoint
  contradiction

namespace PatternToken

/-! ## What the scanner finds -/

/-- The texts of the tokens of a kind. -/
inductive Spelled : PatternTokenKind → List Char → Prop
  | identifier {w : List Char} (h : IsWord w) : Spelled .identifier w
  | number {ds : List Char} (h : IsNumeral ds) : Spelled .number ds
  | punctuation {cs : List Char} (h : IsPunctuation cs) : Spelled .punctuation cs
  | mark {c : Char} {kind : PatternTokenKind} (h : PatternTokenKind.ofMark? c = some kind) :
    Spelled kind [c]

variable {c after : Cursor} {token : PatternToken}

theorem Spelled.ne_nil {kind : PatternTokenKind} {cs : List Char} (h : Spelled kind cs) :
    cs ≠ [] := by
  cases h with
  | identifier h =>
    obtain ⟨-, -⟩ := h
    exact List.cons_ne_nil _ _
  | number h =>
    obtain ⟨first, later, rfl, -⟩ := h.exists_cons
    exact List.cons_ne_nil _ _
  | punctuation h => exact h.ne_nil
  | mark _ => exact List.cons_ne_nil _ _

/-- The kinds of marks are no others. -/
theorem kind_of_ofMark? {c : Char} {kind : PatternTokenKind}
    (h : PatternTokenKind.ofMark? c = some kind) :
    kind = .openBrace ∨ kind = .closeBrace ∨ kind = .colon := by
  unfold PatternTokenKind.ofMark? at h
  split at h <;> simp_all

/-- What the kind of a token says about its text. -/
theorem spelled_iff {kind : PatternTokenKind} {cs : List Char} :
    Spelled kind cs ↔
      match kind with
      | .endOfPattern => False
      | .identifier => IsWord cs
      | .number => IsNumeral cs
      | .punctuation => IsPunctuation cs
      | mark => ∃ c, PatternTokenKind.ofMark? c = some mark ∧ cs = [c] := by
  constructor
  · intro h
    cases h with
    | identifier h | number h | punctuation h => exact h
    | @mark c _ h =>
      obtain rfl | rfl | rfl := kind_of_ofMark? h
      all_goals exact ⟨c, h, rfl⟩
  · intro h
    cases kind with
    | endOfPattern => contradiction
    | identifier => exact .identifier h
    | number => exact .number h
    | punctuation => exact .punctuation h
    | openBrace | closeBrace | colon =>
      obtain ⟨c, hc, rfl⟩ := h
      exact .mark hc

/-- What one scan finds behind the blanks, and the cursor that it leaves. -/
inductive Scanned (c : Cursor) : PatternToken → Cursor → Prop
  | endOfPattern (h : c.skipBlanks.rest = []) :
    Scanned c ⟨⟨"", c.skipBlanks.position⟩, .endOfPattern⟩ c.skipBlanks
  | text {kind : PatternTokenKind} {run rest : List Char} (h : Spelled kind run)
    (hrest : c.skipBlanks.rest = run ++ rest) :
    Scanned c ⟨⟨String.ofList run, c.skipBlanks.position⟩, kind⟩ (c.skipBlanks.drop run.length)

/-- A number that is scanned is the longest one in front. -/
theorem number_eq_ok {literal : String} (h : number c = (.ok literal, after)) :
    literal = String.ofList (decimalPrefix c.rest) ∧
      after = c.drop (decimalPrefix c.rest).length := by
  unfold number Cursor.number at h
  dsimp only at h
  split at h
  · next heq =>
    split at heq
    all_goals cases (Prod.mk.inj h).1
  · next literal' middle heq =>
    split at heq
    · cases (Prod.mk.inj heq).1
    · obtain ⟨hliteral, rfl⟩ := Prod.mk.inj heq
      obtain rfl := Except.ok.inj hliteral
      split at h
      · cases (Prod.mk.inj h).1
      · obtain ⟨hliteral, rfl⟩ := Prod.mk.inj h
        exact ⟨(Except.ok.inj hliteral).symm, rfl⟩

/-- A run at the front is what it is taken from, up to the rest. -/
theorem Scanned.takeWhile {kind : PatternTokenKind} {p : Char → Bool}
    (h : Spelled kind (c.skipBlanks.rest.takeWhile p)) :
    Scanned c ⟨⟨String.ofList (c.skipBlanks.rest.takeWhile p), c.skipBlanks.position⟩, kind⟩
      (c.skipBlanks.drop (c.skipBlanks.rest.takeWhile p).length) :=
  .text h List.takeWhile_append_dropWhile.symm

theorem scanned_of_scan (h : scan c = (.ok token, after)) : Scanned c token after := by
  unfold scan at h
  dsimp only at h
  split at h
  · next hrest =>
    obtain ⟨htoken, rfl⟩ := Prod.mk.inj h
    obtain rfl := Except.ok.inj htoken
    exact .endOfPattern hrest
  · next first later hrest =>
    split at h
    · next hdigit =>
      obtain ⟨htoken, hafter⟩ := Prod.mk.inj h
      obtain ⟨literal, hliteral, rfl⟩ := Except.map_eq_ok.mp htoken
      obtain ⟨rfl, rfl⟩ := number_eq_ok (Prod.ext hliteral hafter)
      obtain ⟨rest, hprefix⟩ := decimalPrefix_prefix c.skipBlanks.rest
      refine .text (.number ?_) hprefix.symm
      rw [hrest]
      exact isNumeral_decimalPrefix hdigit later
    · next hdigit =>
      split at h
      · next kind hmark =>
        obtain ⟨htoken, rfl⟩ := Prod.mk.inj h
        obtain rfl := Except.ok.inj htoken
        exact .text (.mark hmark) hrest
      · next hmark =>
        split at h
        · next hletter =>
          obtain ⟨htoken, rfl⟩ := Prod.mk.inj h
          obtain rfl := Except.ok.inj htoken
          refine .takeWhile (.identifier ?_)
          rw [hrest, List.takeWhile_cons_of_pos hletter]
          refine .mk (by simpa using hdigit) (List.forall_mem_cons.mpr ⟨hletter, fun d hd => ?_⟩)
          exact List.mem_takeWhile_imp hd
        · next hletter =>
          obtain ⟨htoken, rfl⟩ := Prod.mk.inj h
          obtain rfl := Except.ok.inj htoken
          refine .takeWhile (.punctuation ⟨?_, fun d hd => List.mem_takeWhile_imp hd⟩)
          have hfirst : isPunctuation first = true := isPunctuation_iff.mpr
            ⟨by simpa using hletter, Cursor.isWhitespace_of_skipBlanks hrest, hmark⟩
          rw [hrest, List.takeWhile_cons_of_pos hfirst]
          exact List.cons_ne_nil _ _

theorem Scanned.spelled (h : Scanned c token after) (hkind : token.kind ≠ .endOfPattern) :
    Spelled token.kind token.text.toList := by
  cases h with
  | endOfPattern _ => exact absurd rfl hkind
  | text hspelled _ => rwa [String.toList_ofList]

/-- A scan that does not find the end takes a character. -/
theorem Scanned.length_lt (h : Scanned c token after) (hkind : token.kind ≠ .endOfPattern) :
    after.rest.length < c.rest.length := by
  have hle := c.length_rest_skipBlanks_le
  cases h with
  | endOfPattern _ => exact absurd rfl hkind
  | text hspelled hrest =>
    have hpos := List.length_pos_iff.mpr hspelled.ne_nil
    rw [Cursor.length_rest_drop]
    rw [hrest, List.length_append] at hle ⊢
    omega

/-! ## Texts that are found -/

section Found

variable {rest : List Char} (p : Position)

/-- A blank in front does not matter to a scan. -/
theorem scan_blank {b : Char} (hb : b.isWhitespace = true) (rest : List Char) :
    scan ⟨b :: rest, p⟩ = scan ⟨rest, p.advance b⟩ := by
  rw [scan, scan, Cursor.skipBlanks_cons hb]

theorem number_append {ds : List Char} (h : IsNumeral ds) (hrest : Breaks rest) :
    number ⟨ds ++ rest, p⟩ = (.ok (String.ofList ds), ⟨rest, p.advanceAll ds⟩) := by
  have hpoint : rest.head? ≠ some '.' := fun hhead => (hrest '.' hhead).2 rfl
  have hletter : rest.head?.any isAlphanumeric = false := by
    cases hhead : rest.head? with
    | none => rfl
    | some c => exact (hrest c hhead).1
  rw [number, Cursor.number, h.decimalPrefix_append hrest.numeralEnds, Lexeme.drop_length_append]
  simp [hpoint, hletter]

/-- A mark is found whatever follows it. -/
theorem scan_mark {c : Char} {kind : PatternTokenKind} (h : PatternTokenKind.ofMark? c = some kind)
    (rest : List Char) :
    scan ⟨c :: rest, p⟩ = (.ok ⟨⟨c.toString, p⟩, kind⟩, ⟨rest, p.advance c⟩) := by
  obtain ⟨-, hblank, hdigit⟩ := PatternTokenKind.of_ofMark? h
  rw [scan, (Lexeme.skipBlanks_of_head p rest hblank).1]
  simp [hdigit, h, Cursor.drop]

theorem scan_number {ds : List Char} (h : IsNumeral ds) (hrest : Breaks rest) :
    scan ⟨ds ++ rest, p⟩ =
      (.ok ⟨⟨String.ofList ds, p⟩, .number⟩, ⟨rest, p.advanceAll ds⟩) := by
  have hnumber := number_append p h hrest
  obtain ⟨first, later, rfl, hfirst⟩ := h.exists_cons
  have hblank := isWhitespace_of_isAlphanumeric (isAlphanumeric_of_isDigit hfirst)
  rw [List.cons_append] at hnumber ⊢
  rw [scan, (Lexeme.skipBlanks_of_head p (later ++ rest) hblank).1]
  simp [hfirst, hnumber, Except.map]

theorem scan_word {w : List Char} (h : IsWord w) (hrest : WordEnds rest) :
    scan ⟨w ++ rest, p⟩ =
      (.ok ⟨⟨String.ofList w, p⟩, .identifier⟩, ⟨rest, p.advanceAll w⟩) := by
  obtain @⟨first, later, hdigit, hletters⟩ := h
  have hfirst := hletters first List.mem_cons_self
  have hrun := takeWhile_append_of_head hletters hrest
  have hdrop := Lexeme.drop_length_append p (first :: later) rest
  rw [List.cons_append] at hrun hdrop ⊢
  have hblanks := isWhitespace_of_isAlphanumeric hfirst
  rw [scan, (Lexeme.skipBlanks_of_head p (later ++ rest) hblanks).1]
  simp only [hdigit, Bool.false_eq_true, if_false, ofMark?_of_isAlphanumeric hfirst, hfirst, if_true,
    hrun, hdrop]

theorem scan_punctuation {cs : List Char} (h : IsPunctuation cs)
    (hrest : PunctuationEnds rest) :
    scan ⟨cs ++ rest, p⟩ =
      (.ok ⟨⟨String.ofList cs, p⟩, .punctuation⟩, ⟨rest, p.advanceAll cs⟩) := by
  obtain ⟨first, later, rfl⟩ := List.exists_cons_of_ne_nil h.ne_nil
  obtain ⟨hletter, hblank, hmark⟩ :=
    isPunctuation_iff.mp (h.forall_mem first List.mem_cons_self)
  have hdigit := isDigit_of_isAlphanumeric_eq_false hletter
  have hrun := takeWhile_append_of_head h.forall_mem hrest
  have hdrop := Lexeme.drop_length_append p (first :: later) rest
  rw [List.cons_append] at hrun hdrop ⊢
  rw [scan, (Lexeme.skipBlanks_of_head p (later ++ rest) hblank).1]
  simp only [hdigit, Bool.false_eq_true, if_false, hmark, hletter, hrun, hdrop]

/-- A text of some kind is found as the token of that kind if nothing makes it longer. -/
theorem scan_of_spelled {kind : PatternTokenKind} {run : List Char} (h : Spelled kind run)
    (hrest : Separates rest) :
    scan ⟨run ++ rest, p⟩ =
      (.ok ⟨⟨String.ofList run, p⟩, kind⟩, ⟨rest, p.advanceAll run⟩) := by
  cases h with
  | identifier h => exact scan_word p h hrest.breaks.wordEnds
  | number h => exact scan_number p h hrest.breaks
  | punctuation h => exact scan_punctuation p h fun c hc => (hrest c hc).2
  | mark h => exact scan_mark p h rest

end Found

/-! ## Successions of scans -/

theorem is_eq_true_iff {kind : PatternTokenKind} : token.is kind = true ↔ token.kind = kind :=
  beq_iff_eq

theorem is_eq_false_iff {kind : PatternTokenKind} : token.is kind = false ↔ token.kind ≠ kind :=
  beq_eq_false_iff_ne

/-- Scans in succession before the end of a pattern. -/
abbrev Scans : Cursor → List PatternToken → Cursor → Prop :=
  Scanner.Finds scan (·.is .endOfPattern)

theorem scans_cons {c middle after : Cursor} {tokens : List PatternToken}
    (h : scan c = (.ok token, middle)) (hkind : token.kind ≠ .endOfPattern)
    (hlater : Scans middle tokens after) : Scans c (token :: tokens) after :=
  .cons h (is_eq_false_iff.mpr hkind) hlater

/-- A blank in front of scans does not matter to them. -/
theorem Scans.of_blank {b : Char} (hb : b.isWhitespace = true) {rest : List Char} {p : Position}
    {tokens : List PatternToken} (h : Scans ⟨rest, p.advance b⟩ tokens after)
    (hne : tokens ≠ []) : Scans ⟨b :: rest, p⟩ tokens after := by
  cases h with
  | nil => contradiction
  | cons hscan hend hlater => exact .cons ((scan_blank p hb rest).trans hscan) hend hlater

/-- Scans up to the end of a text or to its first error find its reading. -/
theorem Scans.reading_eq_of_scan {source : String} {tokens : List PatternToken} {middle : Cursor}
    (h : Scans (.ofString source) tokens middle) {ending : Except LexicalError PatternToken}
    (hending : scan middle = (ending, after))
    (hend : ∀ last, ending = .ok last → last.kind = .endOfPattern) :
    reading source = ⟨tokens, ending⟩ := by
  refine h.scanUpTo_eq (fun c token after hscan hnot => ?_) hending (fun last hlast => ?_)
    (Nat.le_refl _)
  · exact (scanned_of_scan hscan).length_lt (is_eq_false_iff.mp hnot)
  · exact is_eq_true_iff.mpr (hend last hlast)

/-- Scans that leave nothing find all tokens of a text. -/
theorem Scans.reading_eq {source : String} {tokens : List PatternToken} {p : Position}
    (h : Scans (.ofString source) tokens ⟨[], p⟩) :
    ∃ last, last.kind = .endOfPattern ∧ reading source = ⟨tokens, .ok last⟩ := by
  have hlast : scan ⟨[], p⟩ = (.ok ⟨⟨"", p⟩, .endOfPattern⟩, ⟨[], p⟩) := rfl
  refine ⟨⟨⟨"", p⟩, .endOfPattern⟩, rfl, h.reading_eq_of_scan hlast fun last h => ?_⟩
  rw [← Except.ok.inj h]

/-- A token before the end is spelled as its kind says. -/
def Legible (token : PatternToken) : Prop :=
  token.kind ≠ .endOfPattern → Spelled token.kind token.text.toList

/-- What is read before the end or the first error is legible. -/
theorem legible_of_reading (source : String) :
    (∀ token ∈ (reading source).tokens, token.Legible) ∧
      ∀ last, (reading source).ending = .ok last → last.Legible :=
  Reading.forall_scanUpTo (fun _ _ _ hscan => (scanned_of_scan hscan).spelled) _ _

end PatternToken

end MathQuery
