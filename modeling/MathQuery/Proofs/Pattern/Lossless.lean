import MathQuery.Proofs.Pattern.Lexing
import MathQuery.Proofs.Query.Lossless

/-!
# Reading a pattern loses nothing but blanks

A text is a succession of tokens, each as long as it can be and with blanks between them, up to
its end or up to a place where a number is spoiled: by a letter that touches it, or by a second
point.  Reading a pattern finds these tokens with their places, and it fails exactly if the text
goes on to such a place.

* `PatternToken.Written` – the texts of tokens, as long as what follows lets them be;
* `PatternToken.Laid`, `exists_laid` – a text as tokens and blanks;
* `PatternToken.Offends` – the numbers that are spoiled;
* `PatternToken.Lossless` – what the tokens of a pattern say about its text;
* `PatternToken.reading_lossless` – reading gives such tokens, or reports a spoiled number.
-/

namespace MathQuery

/-- What may follow a text of some kind without making it longer.  A mark is never longer. -/
def PatternTokenKind.Ends : PatternTokenKind → List Char → Prop
  | identifier, rest => WordEnds rest
  | number, rest => Breaks rest
  | punctuation, rest => PunctuationEnds rest
  | _, _ => True

namespace PatternToken

open Lexeme (inked inked_append inked_of_isBlank)

/-! ## Tokens in a text -/

/-- A text of a kind, and a rest in front of which it cannot be longer. -/
structure Written (kind : PatternTokenKind) (run rest : List Char) : Prop where
  spelled : Spelled kind run
  ends : kind.Ends rest

/-- What is no token although it begins with a digit: digits with at most one point that a
letter touches, and digits with a point and a second one. -/
inductive Offends : List Char → Prop
  | letter {ds later : List Char} {c : Char} (h : IsNumeral ds) (hc : isAlphanumeric c = true)
    (hdigit : c.isDigit = false) : Offends (ds ++ c :: later)
  | point {ds fs later : List Char} (hne : ds ≠ []) (hds : ∀ d ∈ ds, d.isDigit = true)
    (hfs : ∀ d ∈ fs, d.isDigit = true) : Offends (ds ++ '.' :: fs ++ '.' :: later)

/-- A run of characters behind others and in front of a rest is made of tokens, which tell where
they stand and are as long as they can be, and of blanks before them. -/
inductive Laid (rest : List Char) : List Char → List Char → List PatternToken → Prop
  | nil (before : List Char) : Laid rest before [] []
  | cons {before gap run later : List Char} {kind : PatternTokenKind} {tokens : List PatternToken}
    (hgap : IsBlank gap) (hwritten : Written kind run (later ++ rest))
    (h : Laid rest (before ++ (gap ++ run)) later tokens) :
    Laid rest before (gap ++ (run ++ later))
      (⟨⟨String.ofList run, .behind (before ++ gap)⟩, kind⟩ :: tokens)

/-- A token starts behind some characters of a text, or the text is over: they are tokens and
blanks, and what follows begins with no blank. -/
structure Starts (source : String) (before rest : List Char) : Prop where
  eq : source.toList = before ++ rest
  laid : ∃ run gap tokens, before = run ++ gap ∧ IsBlank gap ∧ Laid (gap ++ rest) [] run tokens
  head : ∀ c, rest.head? = some c → c.isWhitespace = false

variable {kind : PatternTokenKind} {run rest : List Char}

theorem written_mark {c : Char} (h : PatternTokenKind.ofMark? c = some kind) (rest : List Char) :
    Written kind [c] rest := by
  refine ⟨.mark h, ?_⟩
  obtain rfl | rfl | rfl := kind_of_ofMark? h
  all_goals trivial

/-- No blank is in a token. -/
theorem Written.isWhitespace (h : Written kind run rest) : ∀ c ∈ run, c.isWhitespace = false := by
  cases h.spelled with
  | identifier h =>
    obtain ⟨-, hletters⟩ := h
    exact fun c hc => isWhitespace_of_isAlphanumeric (hletters c hc)
  | number h =>
    have halone : Lexeme.Written .number run [] := .number h nofun
    exact halone.isWhitespace
  | punctuation h => exact fun c hc => (isPunctuation_iff.mp (h.forall_mem c hc)).2.1
  | mark hmark => exact List.forall_mem_singleton.mpr (PatternTokenKind.of_ofMark? hmark).2.1

theorem Written.inked_eq (h : Written kind run rest) : inked run = run :=
  List.filter_eq_self.mpr fun c hc => by simp [h.isWhitespace c hc]

theorem Written.length_pos (h : Written kind run rest) : 0 < run.length :=
  List.length_pos_iff.mpr h.spelled.ne_nil

theorem Offends.exists_cons {cs : List Char} (h : Offends cs) :
    ∃ first later, cs = first :: later ∧ first.isDigit = true := by
  cases h with
  | letter h _ _ =>
    obtain ⟨first, later, rfl, hfirst⟩ := h.exists_cons
    exact ⟨first, _, rfl, hfirst⟩
  | point hne hds _ =>
    obtain ⟨first, later, rfl⟩ := List.exists_cons_of_ne_nil hne
    exact ⟨first, _, rfl, hds first List.mem_cons_self⟩

/-! ## Every text is made of tokens -/

/-- Digits begin a number, unless it is spoiled. -/
theorem exists_number_or_offends {first : Char} {later : List Char}
    (hdigit : first.isDigit = true) :
    (∃ run rest, first :: later = run ++ rest ∧ Written .number run rest) ∨
      Offends (first :: later) := by
  have hnumeral := isNumeral_decimalPrefix hdigit later
  have hprefix := decimalPrefix_prefix (first :: later)
  have hsplit := List.prefix_iff_eq_append.mp hprefix
  have hpointed := @decimalPrefix_of_head_drop (first :: later)
  have hhead (c : Char) := @isDigit_of_head_drop_decimalPrefix (first :: later) c
  generalize decimalPrefix (first :: later) = ds at *
  generalize (first :: later).drop ds.length = rest at *
  cases rest with
  | nil => exact .inl ⟨ds, [], hsplit.symm, ⟨.number hnumeral, breaks_nil⟩⟩
  | cons c rest =>
    by_cases hpoint : c = '.'
    · obtain ⟨fs, hfs, hds⟩ := hpointed (congrArg some hpoint)
      right
      rw [← hsplit, hds, hpoint]
      exact .point (by simp [hdigit]) (fun _ => List.mem_takeWhile_imp) hfs
    by_cases hletter : isAlphanumeric c = true
    · right
      rw [← hsplit]
      exact .letter hnumeral hletter (hhead c rfl)
    · have hbreaks := breaks_cons (by simpa using hletter) hpoint rest
      exact .inl ⟨ds, c :: rest, hsplit.symm, ⟨.number hnumeral, hbreaks⟩⟩

/-- What begins with no blank begins with a token, unless it is a spoiled number. -/
theorem exists_written_or_offends {first : Char} {later : List Char}
    (hblank : first.isWhitespace = false) :
    (∃ kind run rest, first :: later = run ++ rest ∧ Written kind run rest) ∨
      Offends (first :: later) := by
  have htake (p : Char → Bool) :=
    (List.takeWhile_append_dropWhile (p := p) (l := first :: later)).symm
  have hends (p : Char → Bool) :
      ∀ c, ((first :: later).dropWhile p).head? = some c → p c = false := by
    intro c hc
    have hnot := List.head?_dropWhile_not p (first :: later)
    rwa [hc] at hnot
  by_cases hdigit : first.isDigit = true
  · rcases exists_number_or_offends hdigit with ⟨run, rest, hsplit, hwritten⟩ | hoffends
    · exact .inl ⟨_, run, rest, hsplit, hwritten⟩
    · exact .inr hoffends
  left
  cases hmark : PatternTokenKind.ofMark? first with
  | some kind => exact ⟨kind, [first], later, rfl, written_mark hmark later⟩
  | none =>
    by_cases hletter : isAlphanumeric first = true
    · refine ⟨_, _, _, htake isAlphanumeric, .identifier ?_, hends isAlphanumeric⟩
      rw [List.takeWhile_cons_of_pos hletter]
      refine .mk (by simpa using hdigit) (List.forall_mem_cons.mpr ⟨hletter, fun d hd => ?_⟩)
      exact List.mem_takeWhile_imp hd
    · refine ⟨_, _, _, htake isPunctuation, .punctuation ⟨?_, fun d hd => ?_⟩, hends isPunctuation⟩
      · have hfirst : isPunctuation first = true :=
          isPunctuation_iff.mpr ⟨by simpa using hletter, hblank, hmark⟩
        rw [List.takeWhile_cons_of_pos hfirst]
        exact List.cons_ne_nil _ _
      · exact List.mem_takeWhile_imp hd

/-- A text is made of tokens and blanks up to its end or to a spoiled number. -/
theorem exists_laid (before cs : List Char) : ∃ run gap rest tokens, cs = run ++ (gap ++ rest) ∧
    IsBlank gap ∧ Laid (gap ++ rest) before run tokens ∧ (rest = [] ∨ Offends rest) := by
  -- by induction on the number of characters, since every token has some
  induction hlength : cs.length using Nat.strong_induction_on generalizing before cs with
  | _ n ih =>
    subst hlength
    have hgap : IsBlank (cs.takeWhile Char.isWhitespace) := fun _ => List.mem_takeWhile_imp
    have hsplit := List.takeWhile_append_dropWhile (p := Char.isWhitespace) (l := cs)
    have hhead := List.head?_dropWhile_not Char.isWhitespace cs
    generalize cs.takeWhile Char.isWhitespace = gap at *
    generalize cs.dropWhile Char.isWhitespace = rest at *
    subst hsplit
    cases rest with
    | nil => exact ⟨[], gap, [], [], rfl, hgap, .nil before, .inl rfl⟩
    | cons first later =>
      rcases exists_written_or_offends hhead with ⟨kind, run, rest, hrest, hwritten⟩ | hoffends
      · have hpos := hwritten.length_pos
        have hlt : rest.length < (gap ++ first :: later).length := by
          rw [hrest, List.length_append, List.length_append]
          omega
        obtain ⟨run', gap', rest', tokens, rfl, hgap', hlaid, hend⟩ :=
          ih rest.length hlt (before ++ (gap ++ run)) rest rfl
        refine ⟨gap ++ (run ++ run'), gap', rest', _, ?_, hgap', .cons hgap hwritten hlaid, hend⟩
        rw [hrest]
        simp
      · exact ⟨[], gap, first :: later, [], rfl, hgap, .nil before, .inr hoffends⟩

/-! ## Reading -/

theorem scan_gap {gap : List Char} (hgap : IsBlank gap) (cs : List Char) (p : Position) :
    scan ⟨gap ++ cs, p⟩ = scan ⟨cs, p.advanceAll gap⟩ := by
  induction gap generalizing p with
  | nil => rfl
  | cons c gap ih =>
    obtain ⟨hc, hlater⟩ := List.forall_mem_cons.mp hgap
    rw [List.cons_append, scan_blank p hc, ih hlater, Position.advanceAll_cons]

/-- A text that cannot be longer is found as the token of its kind. -/
theorem scan_of_written (h : Written kind run rest) (p : Position) :
    scan ⟨run ++ rest, p⟩ =
      (.ok ⟨⟨String.ofList run, p⟩, kind⟩, ⟨rest, p.advanceAll run⟩) := by
  have hends := h.ends
  cases h.spelled with
  | identifier h => exact scan_word p h hends
  | number h => exact scan_number p h hends
  | punctuation h => exact scan_punctuation p h hends
  | mark hmark => exact scan_mark p hmark rest

theorem number_of_offends {cs : List Char} (h : Offends cs) (p : Position) :
    ∃ literal : String, (number ⟨cs, p⟩).1 = .error (.malformedNumber literal p) ∧
      literal.toList <+: cs := by
  cases h with
  | @letter ds later c h hc hdigit =>
    have hpoint : c ≠ '.' := by
      rintro rfl
      contradiction
    have hends : NumeralEnds (c :: later) := by
      rintro _ ⟨⟩
      exact ⟨hdigit, hpoint⟩
    have hnumber : Cursor.number ⟨ds ++ c :: later, p⟩ =
        (.ok (String.ofList ds), ⟨c :: later, p.advanceAll ds⟩) := by
      rw [Cursor.number, h.decimalPrefix_append hends, Lexeme.drop_length_append]
      simp [hpoint]
    refine ⟨String.ofList ds ++ String.ofList ((c :: later).takeWhile isWordOrPoint), ?_, ?_⟩
    · simp only [number, hnumber, List.head?_cons, Option.any_some, hc, if_true]
    · rw [String.toList_append, String.toList_ofList, String.toList_ofList]
      exact (List.prefix_append_right_inj ds).mpr (List.takeWhile_prefix _)
  | @point ds fs later hne hds hfs =>
    have hpoint : ∀ c, ('.' :: later).head? = some c → c.isDigit = false := by
      rintro _ ⟨⟩
      decide
    have hprefix := decimalPrefix_pointed_append hds hfs hpoint
    refine ⟨String.ofList (ds ++ '.' :: fs ++ ('.' :: later).takeWhile isDigitOrPoint), ?_, ?_⟩
    · simp only [number, Cursor.number, hprefix, Lexeme.drop_length_append, List.head?_cons,
        if_true]
    · rw [String.toList_ofList]
      exact (List.prefix_append_right_inj _).mpr (List.takeWhile_prefix _)

/-- A spoiled number is reported where it starts. -/
theorem scan_of_offends {cs : List Char} (h : Offends cs) (p : Position) :
    ∃ literal : String, (scan ⟨cs, p⟩).1 = .error (.malformedNumber literal p) ∧
      literal.toList <+: cs := by
  obtain ⟨literal, hnumber, hprefix⟩ := number_of_offends h p
  obtain ⟨first, later, rfl, hfirst⟩ := h.exists_cons
  have hblank := isWhitespace_of_isAlphanumeric (isAlphanumeric_of_isDigit hfirst)
  refine ⟨literal, ?_, hprefix⟩
  rw [scan, (Lexeme.skipBlanks_of_head p later hblank).1]
  simp [hfirst, hnumber, Except.map]

/-- The tokens of a run are found in it. -/
theorem Laid.scans {before : List Char} {tokens : List PatternToken}
    (h : Laid rest before run tokens) :
    Scans ⟨run ++ rest, .behind before⟩ tokens ⟨rest, .behind (before ++ run)⟩ := by
  induction h with
  | nil before =>
    rw [List.append_nil]
    exact .nil
  | @cons before gap run later kind tokens hgap hwritten _ ih =>
    have hscan : scan ⟨gap ++ (run ++ later) ++ rest, .behind before⟩ =
        (.ok ⟨⟨String.ofList run, .behind (before ++ gap)⟩, kind⟩,
          ⟨later ++ rest, .behind (before ++ (gap ++ run))⟩) := by
      rw [List.append_assoc, List.append_assoc, scan_gap hgap, Position.advanceAll_behind,
        scan_of_written hwritten, Position.advanceAll_behind, List.append_assoc]
    rw [← List.append_assoc gap run later, ← List.append_assoc before (gap ++ run) later]
    rw [List.append_assoc gap run later]
    refine scans_cons hscan ?_ ih
    rintro rfl
    exact spelled_iff.mp hwritten.spelled

section Reading

variable {source : String} {gap : List Char} {tokens : List PatternToken}

/-- A text of tokens and blanks is read as these tokens. -/
theorem Laid.reading_eq (h : Laid gap [] run tokens) (hgap : IsBlank gap)
    (hsource : source.toList = run ++ gap) :
    reading source = ⟨tokens, .ok ⟨⟨"", .behind (run ++ gap)⟩, .endOfPattern⟩⟩ := by
  have hscans := h.scans
  rw [← hsource] at hscans
  have hlast : scan ⟨gap, .behind run⟩ =
      (.ok ⟨⟨"", .behind (run ++ gap)⟩, .endOfPattern⟩, ⟨[], .behind (run ++ gap)⟩) := by
    have hscan := scan_gap hgap [] (.behind run)
    rw [List.append_nil, Position.advanceAll_behind] at hscan
    rw [hscan]
    rfl
  refine Scans.reading_eq_of_scan hscans hlast fun last h => ?_
  rw [← Except.ok.inj h]

/-- A text of tokens and blanks before a spoiled number is read up to this. -/
theorem Laid.exists_reading_eq (h : Laid (gap ++ rest) [] run tokens) (hgap : IsBlank gap)
    (hrest : Offends rest) (hsource : source.toList = run ++ (gap ++ rest)) :
    ∃ literal : String, literal.toList <+: rest ∧
      reading source = ⟨tokens, .error (.malformedNumber literal (.behind (run ++ gap)))⟩ := by
  have hscans := h.scans
  rw [← hsource] at hscans
  obtain ⟨literal, herror, hprefix⟩ := scan_of_offends hrest (.behind (run ++ gap))
  rw [← Position.advanceAll_behind, ← scan_gap hgap] at herror
  rw [← Position.advanceAll_behind]
  exact ⟨literal, hprefix, Scans.reading_eq_of_scan hscans (Prod.ext herror rfl) nofun⟩

end Reading

/-! ## What tokens say about a text -/

/-- The texts of tokens, one behind the other. -/
def texts (tokens : List PatternToken) : List Char := tokens.flatMap fun t => t.text.toList

/-- Kinds of tokens that do not touch: they would be one word, or no number, or one run of
punctuation. -/
inductive Merges : PatternTokenKind → PatternTokenKind → Prop
  | words : Merges .identifier .identifier
  | digits : Merges .identifier .number
  | letters : Merges .number .identifier
  | numbers : Merges .number .number
  | punctuation : Merges .punctuation .punctuation

/-- A token tells where in a text it stands, and no letter, no digit and no point is behind a
number.  Behind the end is nothing. -/
structure StandsBetween (t : PatternToken) (before after : List Char) : Prop where
  position : t.position = .behind before
  number : t.kind = .number → Breaks after
  last : t.kind = .endOfPattern → after = []

/-- The tokens of a text: together they have its characters apart from the blanks; all but the
last have a text of their kind, and the last is the end; each of them stands where it says; and
between two that would be one is a blank. -/
structure Lossless (source : String) (ts : List PatternToken) : Prop where
  texts_eq : texts ts = inked source.toList
  tokens : ∃ front last, ts = front ++ [last] ∧
    (∀ t ∈ front, Spelled t.kind t.text.toList ∧ t.text.toList ≠ []) ∧
    last.kind = .endOfPattern ∧ last.text = ""
  places : ∀ front t back, ts = front ++ t :: back → ∃ before after,
    source.toList = before ++ (t.text.toList ++ after) ∧ inked before = texts front ∧
      t.StandsBetween before after
  apart : ∀ front t t' back, ts = front ++ t :: t' :: back → Merges t.kind t'.kind →
    ∃ before gap after,
      source.toList = before ++ (t.text.toList ++ (gap ++ (t'.text.toList ++ after))) ∧
      t.position = .behind before ∧ t'.position = .behind (before ++ (t.text.toList ++ gap)) ∧
      IsBlank gap ∧ gap ≠ []

variable {source : String} {before gap : List Char} {tokens front back : List PatternToken}
  {t t' : PatternToken}

/-- A number or a word begins with a letter or a digit. -/
theorem Spelled.head_isAlphanumeric {cs : List Char}
    (h : Spelled .number cs ∨ Spelled .identifier cs) (rest : List Char) :
    ∃ c, (cs ++ rest).head? = some c ∧ isAlphanumeric c = true := by
  rcases h with hnumber | hword
  · obtain ⟨first, later, rfl, hfirst⟩ := (spelled_iff.mp hnumber).exists_cons
    exact ⟨first, rfl, isAlphanumeric_of_isDigit hfirst⟩
  · obtain @⟨first, later, -, hletters⟩ := spelled_iff.mp hword
    exact ⟨first, rfl, hletters first List.mem_cons_self⟩

/-- What touches a token would not have been one with it. -/
theorem Written.not_merges {kind' : PatternTokenKind} {run' : List Char}
    (h : Written kind run (run' ++ rest)) (h' : Spelled kind' run') : ¬ Merges kind kind' := by
  have hends := h.ends
  have hletter (hkind : Spelled .number run' ∨ Spelled .identifier run')
      (hnot : WordEnds (run' ++ rest)) : False := by
    obtain ⟨c, hc, hletter⟩ := Spelled.head_isAlphanumeric hkind rest
    rw [hnot c hc] at hletter
    contradiction
  intro hmerges
  cases hmerges with
  | words => exact hletter (.inr h') hends
  | digits => exact hletter (.inl h') hends
  | letters => exact hletter (.inr h') (Breaks.wordEnds hends)
  | numbers => exact hletter (.inl h') (Breaks.wordEnds hends)
  | punctuation =>
    have hpunctuation : IsPunctuation run' := spelled_iff.mp h'
    obtain ⟨first, later, rfl⟩ := List.exists_cons_of_ne_nil hpunctuation.ne_nil
    have hfirst := hpunctuation.forall_mem first List.mem_cons_self
    rw [hends first rfl] at hfirst
    contradiction

theorem Laid.texts_eq (h : Laid rest before run tokens) : texts tokens = inked run := by
  induction h with
  | nil before => rfl
  | cons hgap hwritten _ ih =>
    rw [inked_append, inked_append, inked_of_isBlank hgap, hwritten.inked_eq, ← ih, texts,
      List.flatMap_cons, String.toList_ofList]
    rfl

/-- A token of a run stands between the tokens before it and those behind it. -/
theorem Laid.exists_between (h : Laid rest before run (front ++ t :: back)) :
    ∃ run₁ gap run₂, run = run₁ ++ (gap ++ (t.text.toList ++ run₂)) ∧ texts front = inked run₁ ∧
      IsBlank gap ∧ t.position = .behind (before ++ (run₁ ++ gap)) ∧
      Written t.kind t.text.toList (run₂ ++ rest) ∧
      Laid rest (before ++ (run₁ ++ (gap ++ t.text.toList))) run₂ back := by
  induction front generalizing before run with
  | nil =>
    cases h with
    | @cons _ gap run later kind _ hgap hwritten hlaid =>
      refine ⟨[], gap, later, ?_, rfl, hgap, rfl, ?_, ?_⟩
      all_goals rw [String.toList_ofList]
      · rfl
      · exact hwritten
      · exact hlaid
  | cons first front ih =>
    cases h with
    | @cons _ gap run later kind _ hgap hwritten hlaid =>
      obtain ⟨run₁, gap', run₂, rfl, htexts, hgap', hposition, hwritten', hback⟩ := ih hlaid
      refine ⟨gap ++ (run ++ run₁), gap', run₂, ?_, ?_, hgap', ?_, hwritten', ?_⟩
      · simp only [List.append_assoc]
      · rw [inked_append, inked_append, inked_of_isBlank hgap, hwritten.inked_eq, ← htexts, texts,
          List.flatMap_cons, String.toList_ofList]
        rfl
      · rw [hposition]
        simp only [List.append_assoc]
      · simpa only [List.append_assoc] using hback

/-- Tokens of a run that would be one token if they touched have blanks between them. -/
theorem Laid.exists_gap (h : Laid rest before run (front ++ t :: t' :: back))
    (hmerges : Merges t.kind t'.kind) :
    ∃ run₁ gap run₂, run = run₁ ++ (t.text.toList ++ (gap ++ (t'.text.toList ++ run₂))) ∧
      t.position = .behind (before ++ run₁) ∧
      t'.position = .behind (before ++ (run₁ ++ (t.text.toList ++ gap))) ∧
      IsBlank gap ∧ gap ≠ [] := by
  obtain ⟨run₁, gap₁, run₂, rfl, -, -, hposition, hwritten, hlaid⟩ := h.exists_between
  cases hlaid with
  | @cons _ gap run' later kind' _ hgap hwritten' _ =>
    refine ⟨run₁ ++ gap₁, gap, later, ?_, hposition, ?_, hgap, ?_⟩
    · rw [String.toList_ofList]
      simp only [List.append_assoc]
    · simp only [List.append_assoc]
    · rintro rfl
      rw [List.nil_append, List.append_assoc] at hwritten
      exact hwritten.not_merges hwritten'.spelled hmerges

/-- The last token of a list with a token at the end is that one, or it is behind the others. -/
theorem eq_or_exists_of_concat {α : Type} {ts front back : List α} {t last : α}
    (h : ts ++ [last] = front ++ t :: back) :
    back = [] ∧ ts = front ∧ last = t ∨
      ∃ behind, back = behind ++ [last] ∧ ts = front ++ t :: behind := by
  rcases List.eq_nil_or_concat back with rfl | ⟨behind, last', rfl⟩
  · obtain ⟨hts, hlast⟩ := List.append_inj' h rfl
    exact .inl ⟨rfl, hts, (List.cons.inj hlast).1⟩
  · have hconcat : ts ++ [last] = (front ++ t :: behind) ++ [last'] := by simpa using h
    obtain ⟨hts, hlast⟩ := List.append_inj' hconcat rfl
    obtain rfl := (List.cons.inj hlast).1
    exact .inr ⟨behind, List.concat_eq_append, hts⟩

/-- A text of tokens and blanks is told by the tokens and the end. -/
theorem Laid.lossless (h : Laid gap [] run tokens) (hgap : IsBlank gap)
    (hsource : source.toList = run ++ gap) :
    Lossless source (tokens ++ [⟨⟨"", .behind (run ++ gap)⟩, .endOfPattern⟩]) := by
  constructor
  case texts_eq =>
    rw [hsource, inked_append, inked_of_isBlank hgap, ← h.texts_eq]
    simp [texts]
  case tokens =>
    refine ⟨tokens, _, rfl, fun t ht => ?_, rfl, rfl⟩
    obtain ⟨front, back, rfl⟩ := List.append_of_mem ht
    obtain ⟨_, _, _, -, -, -, -, hwritten, -⟩ := h.exists_between
    exact ⟨hwritten.spelled, hwritten.spelled.ne_nil⟩
  case places =>
    intro front t back heq
    rcases eq_or_exists_of_concat heq with ⟨rfl, rfl, rfl⟩ | ⟨behind, rfl, rfl⟩
    · refine ⟨run ++ gap, [], by simp [hsource], ?_, rfl, nofun, fun _ => rfl⟩
      rw [inked_append, inked_of_isBlank hgap, List.append_nil, h.texts_eq]
    · obtain ⟨run₁, gap', run₂, rfl, htexts, hgap', hposition, hwritten, -⟩ := h.exists_between
      refine ⟨run₁ ++ gap', run₂ ++ gap, by simp [hsource], ?_, hposition, fun hkind => ?_,
        fun hkind => ?_⟩
      · rw [inked_append, inked_of_isBlank hgap', List.append_nil, htexts]
      · have hends := hwritten.ends
        rwa [hkind] at hends
      · exact absurd hwritten.spelled (hkind ▸ spelled_iff.mp)
  case apart =>
    intro front t t' back heq hmerges
    obtain ⟨behind, hback, rfl⟩ :
        ∃ behind, t' :: back = behind ++ _ ∧ tokens = front ++ t :: behind :=
      (eq_or_exists_of_concat heq).resolve_left fun hnil => List.cons_ne_nil _ _ hnil.1
    cases behind with
    | nil =>
      -- the end is one with no token
      obtain rfl := (List.cons.inj hback).1
      generalize t.kind = kind at hmerges
      cases hmerges
    | cons second behind =>
      obtain rfl := (List.cons.inj hback).1
      obtain ⟨run₁, gap', run₂, rfl, hposition, hposition', hgap', hne⟩ := h.exists_gap hmerges
      exact ⟨run₁, gap', run₂ ++ gap, by simp [hsource], hposition, hposition', hgap', hne⟩

/-- Reading a pattern ends in one of two ways.  Either it gives the tokens of the text up to the
end, which lose nothing but blanks and are as long as they can be; or it reports a malformed
number, and where it is reported a token starts that is spoiled.  The latter happens for all
texts with such a place. -/
theorem reading_lossless (source : String) :
    (∀ ts, (reading source).toList = .ok ts → Lossless source ts) ∧
      (∀ e, (reading source).toList = .error e → ∃ (before rest : List Char) (literal : String),
        Starts source before rest ∧ Offends rest ∧
          e = .malformedNumber literal (.behind before) ∧ literal.toList <+: rest) ∧
      ∀ before rest, Starts source before rest → Offends rest →
        ∃ e, (reading source).toList = .error e := by
  obtain ⟨run, gap, rest, tokens, hsource, hgap, hlaid, hend⟩ := exists_laid [] source.toList
  refine ⟨fun ts hts => ?_, fun e he => ?_, fun before' rest' hstarts hoffends => ?_⟩
  · rcases hend with rfl | hoffends
    · rw [List.append_nil] at hlaid hsource
      rw [hlaid.reading_eq hgap hsource] at hts
      obtain rfl := Except.ok.inj hts
      exact hlaid.lossless hgap hsource
    · obtain ⟨literal, -, hreading⟩ := hlaid.exists_reading_eq hgap hoffends hsource
      rw [hreading] at hts
      contradiction
  · rcases hend with rfl | hoffends
    · rw [List.append_nil] at hlaid hsource
      rw [hlaid.reading_eq hgap hsource] at he
      contradiction
    · obtain ⟨literal, hprefix, hreading⟩ := hlaid.exists_reading_eq hgap hoffends hsource
      rw [hreading] at he
      obtain rfl := Except.error.inj he
      refine ⟨run ++ gap, rest, literal, ⟨?_, ⟨run, gap, tokens, rfl, hgap, hlaid⟩, ?_⟩, hoffends,
        rfl, hprefix⟩
      · rw [hsource, List.append_assoc]
      · obtain ⟨first, later, rfl, hfirst⟩ := hoffends.exists_cons
        rintro _ ⟨⟩
        exact isWhitespace_of_isAlphanumeric (isAlphanumeric_of_isDigit hfirst)
  · obtain ⟨run', gap', tokens', rfl, hgap', hlaid'⟩ := hstarts.laid
    obtain ⟨literal, -, hreading⟩ := hlaid'.exists_reading_eq hgap' hoffends
      (hstarts.eq.trans (List.append_assoc _ _ _))
    exact ⟨_, by rw [hreading]; rfl⟩

/-- A pattern of two lines with points in a number and in punctuation, and one whose second line
has a number that a letter touches. -/
theorem reading_lossless_of_lines :
    let source := "d/d{x}\n3. ..5"
    (∃ ts, (reading source).toList = .ok ts ∧ Lossless source ts) ∧
      let e : LexicalError := .malformedNumber "2.5x.y" ⟨2, 4⟩
      (reading "a =>\n b 2.5x.y").toList = .error e ∧
        ∃ (before rest : List Char) (literal : String),
          Starts "a =>\n b 2.5x.y" before rest ∧ Offends rest ∧
            e = .malformedNumber literal (.behind before) ∧ literal.toList <+: rest := by
  have hread : ∃ ts, (reading "d/d\x7bx\x7d\n3. ..5").toList = .ok ts := ⟨_, rfl⟩
  have herror : (reading "a =>\n b 2.5x.y").toList =
      .error (.malformedNumber "2.5x.y" ⟨2, 4⟩) := rfl
  obtain ⟨ts, hts⟩ := hread
  exact ⟨⟨ts, hts, (reading_lossless _).1 ts hts⟩, herror,
    (reading_lossless _).2.1 _ herror⟩

end PatternToken

end MathQuery
