import MathQuery.Proofs.Pattern.Notation
import MathQuery.Proofs.Query.Legibility
import MathQuery.Proofs.Schema.Captures

/-!
# Queries that go along a pattern

Every query pattern suggests a query: its literals as they are, and a number in parentheses
in the place of each slot.  It is read as one term for each piece.  Where the pattern is the
only one that is registered, this query follows it, unless a literal of the pattern is a
number.  A number of a query is never taken for a word, so a pattern with a number is followed
by no query at all.

* `Pattern.probe`, `Pattern.probeTerms` – the query of a pattern, and the terms it has;
* `parse_probe` – the query is read as these terms;
* `Trie.follow_word`, `follow_slot` – a step along the only pattern of a trie;
* `Trie.matchFrom_probeTerms` – the query goes along all pieces before the first number;
* `Trie.exists_word_of_matchFrom` – a match has a word for every literal;
* `Trie.followed_of_register_empty` – which registered patterns are followed by a query.
-/

namespace MathQuery

/-! ## The query of a pattern -/

namespace PatternTerm

/-- Whether a piece is a number. -/
def isNumber : PatternTerm → Bool
  | literal text => text.toList.head?.any Char.isDigit
  | _ => false

/-- What a query has in the place of a piece: a number in parentheses in the place of a slot,
and a literal as it is. -/
def probe : PatternTerm → String
  | slot _ => "(1)"
  | piece => piece.render

/-- The term that a piece of a query pattern is probed by, where the probe starts. -/
def probeTerm (p : Position) : PatternTerm → Expr
  | literal text => if (literal text).isNumber then .number ⟨text, p⟩ else .symbol ⟨text, p⟩
  | _ => .number ⟨"1", p.advance '('⟩

/-- The place behind the probe of a piece and a blank. -/
def placeBehind (p : Position) (piece : PatternTerm) : Position :=
  (p.advanceAll piece.probe.toList).advance ' '

/-- The terms that pieces are probed by, from a place on. -/
def probeTerms : Position → List PatternTerm → Phrase
  | _, [] => []
  | p, piece :: pieces => piece.probeTerm p :: probeTerms (placeBehind p piece) pieces

theorem probeTerm_of_word {text : String} (h : (literal text).isNumber = false) (p : Position) :
    (literal text).probeTerm p = .symbol ⟨text, p⟩ := if_neg (by simp [h])

theorem probeTerm_of_number {text : String} (h : (literal text).isNumber = true) (p : Position) :
    (literal text).probeTerm p = .number ⟨text, p⟩ := if_pos h

theorem probeTerm_slot (declared : Slot) (p : Position) :
    (slot declared).probeTerm p = .number ⟨"1", p.advance '('⟩ := rfl

theorem probeTerms_append (p : Position) (front back : List PatternTerm) :
    probeTerms p (front ++ back) =
      probeTerms p front ++ probeTerms (front.foldl placeBehind p) back := by
  induction front generalizing p with
  | nil => rfl
  | cons piece front ih => exact congrArg (piece.probeTerm p :: ·) (ih (placeBehind p piece))

theorem isNumber_of_isWord {text : String} (h : IsWord text.toList) :
    (literal text).isNumber = false := by
  generalize hcs : text.toList = cs at h
  obtain ⟨hdigit, -⟩ := h
  simp [isNumber, hcs, hdigit]

theorem isNumber_of_isNumeral {text : String} (h : IsNumeral text.toList) :
    (literal text).isNumber = true := by
  obtain ⟨first, later, hcs, hdigit⟩ := h.exists_cons
  simp [isNumber, hcs, hdigit]

end PatternTerm

namespace Pattern

/-- The query of a pattern, one blank between the probes of its pieces. -/
def probe (p : Pattern) : String := " ".intercalate (p.terms.map PatternTerm.probe)

/-- The terms of the query of a pattern. -/
def probeTerms (p : Pattern) : Phrase := PatternTerm.probeTerms .start p.terms

end Pattern

/-! ## Reading the query -/

section Reading

open Grammar Lexeme

variable {t : PatternTerm} {ts : List PatternTerm}

/-- The probe of a piece is scanned as a primary. -/
theorem scans_probe (h : t.Fits .query) {rest : List Char} (hrest : Breaks rest) (p : Position) :
    ∃ ls shape, Scans ⟨t.probe.toList ++ rest, p⟩ ls ⟨rest, p.advanceAll t.probe.toList⟩ ∧
      IsPrimary ls ⟨t.probeTerm p, shape⟩ := by
  cases t with
  | literal text =>
    obtain hword | hnumeral | ⟨hrole, -⟩ := h
    · have hscan := scanned_word p hword hrest.wordEnds
      rw [String.ofList_toList] at hscan
      rw [PatternTerm.probeTerm_of_word (PatternTerm.isNumber_of_isWord hword)]
      exact ⟨_, _, .cons hscan nofun .nil, .symbol rfl⟩
    · have hscan := scanned_number p hnumeral hrest.numeralEnds
      rw [String.ofList_toList] at hscan
      rw [PatternTerm.probeTerm_of_number (PatternTerm.isNumber_of_isNumeral hnumeral)]
      exact ⟨_, _, .cons hscan nofun .nil, .number rfl⟩
    · contradiction
  | slot declared =>
    have htext : (PatternTerm.slot declared).probe.toList = ['(', '1', ')'] := by
      simp [PatternTerm.probe]
    have hone : IsNumeral ['1'] := .whole (by simp) (by simp)
    have hclosing : Breaks (')' :: rest) := breaks_cons (by decide) (by decide) rest
    have hnumber := scanned_number (p.advance '(') hone hclosing.numeralEnds
    have hopens := scanned_punctuation p (c := '(') rfl ('1' :: ')' :: rest)
    have hcloses := scanned_punctuation ((p.advance '(').advance '1') (c := ')') rfl rest
    rw [htext]
    refine ⟨_, .group, .cons hopens nofun (.cons hnumber nofun (.cons hcloses nofun .nil)), ?_⟩
    exact .group rfl (isTerm_of_isPrimary (.number rfl)) rfl
  | argument index => exact absurd h.1 (by decide)
  | output =>
    have hrole : PatternRole.query = .template := h
    contradiction

/-- The probes of pieces, with blanks between them, are scanned as one phrase. -/
theorem scans_probes (h : ∀ piece ∈ t :: ts, piece.Fits .query) (p : Position) :
    ∃ first later after,
      Scans ⟨(" ".intercalate ((t :: ts).map PatternTerm.probe)).toList, p⟩ (first :: later)
        ⟨[], after⟩ ∧
        BeginsPrimary first.kind ∧
          IsPhrase (first :: later) (PatternTerm.probeTerms p (t :: ts)) := by
  obtain ⟨hfirst, hlater⟩ := List.forall_mem_cons.mp h
  induction ts generalizing t p with
  | nil =>
    obtain ⟨ls, shape, hscans, hprimary⟩ := scans_probe hfirst breaks_nil p
    obtain ⟨first, later, rfl, hkind⟩ := isPrimary_begins _ _ hprimary
    rw [List.append_nil] at hscans
    refine ⟨first, later, _, by simpa using hscans, hkind, ?_⟩
    exact .one (.term (isTerm_of_isPrimary hprimary))
  | cons second ts ih =>
    have htext : (" ".intercalate ((t :: second :: ts).map PatternTerm.probe)).toList =
        t.probe.toList ++
          ' ' :: (" ".intercalate ((second :: ts).map PatternTerm.probe)).toList := by
      rw [List.map_cons, String.intercalate_cons_of_ne_nil (by simp)]
      simp
    obtain ⟨ls, shape, hscans, hprimary⟩ := scans_probe hfirst
      (breaks_cons (by decide) (by decide) _ : Breaks (' ' :: _)) p
    obtain ⟨hsecond, hthird⟩ := List.forall_mem_cons.mp hlater
    obtain ⟨next, rest, after, hrest, hnext, hphrase⟩ := ih hlater (t.placeBehind p) hsecond hthird
    obtain ⟨first, later, rfl, hkind⟩ := isPrimary_begins _ _ hprimary
    -- the blank behind the probe stands in front of the next one
    have hspaced := hrest.of_blank (b := ' ') rfl (List.cons_ne_nil _ _)
    refine ⟨first, later ++ { next with spaced := true } :: rest, after, ?_, hkind, ?_⟩
    · rw [htext]
      exact hscans.append hspaced
    · exact .more (.term (isTerm_of_isPrimary hprimary)) (canFollow_of_spaced rfl hnext)
        (respaced_isPhrase hphrase)

end Reading

/-- The query of a pattern is read as one phrase, with a term for every piece. -/
theorem parse_probe {p : Pattern} (h : p.Fits .query) :
    parse p.probe = .ok ⟨[[p.probeTerms]]⟩ := by
  obtain ⟨terms⟩ := p
  obtain ⟨t, ts, rfl⟩ := List.exists_cons_of_ne_nil h.ne_nil
  obtain ⟨first, later, after, hscans, -, hphrase⟩ := scans_probes h.forall_mem .start
  obtain ⟨last, hreads⟩ := exists_reads_of_scans hscans
  refine (parse_eq_ok_iff_isProgram hreads _).mpr ?_
  rw [← List.append_nil (first :: later)]
  exact .cons (.one hphrase) nofun .nil

/-! ## Matching along a single pattern -/

/-- What a slot takes of a term: a word as text, and other terms as their type asks. -/
def Expr.taken (term : Expr) (type : ArgumentType) : Except MatchError Value :=
  match term.word? with
  | some w => .ok (.text w)
  | none => term.capture type

namespace Trie

variable {path : List Step} {entry : Entry} {captured : Arguments} {term : Expr}

/-- Where the only pattern goes on with a word, the next term has to be this word. -/
theorem follow_word (w : String) :
    (empty.insert (.word w :: path) entry).follow captured term =
      if term.word? = some w then .ok (empty.insert path entry, captured)
      else .error (.noEdge term.render term.position) := by
  have hword (v : String) : (empty.insert (.word w :: path) entry).word? v =
      if v = w then some (empty.insert path entry) else none := by
    rw [insert, empty, Edges.insert_word_none]
    rfl
  have hslot : (empty.insert (.word w :: path) entry).slot? = none := by
    rw [insert, empty, Edges.insert_word_none]
    rfl
  rw [follow, hslot]
  cases term with
  | symbol name =>
    by_cases hname : name.text = w
    · simp [Expr.word?, hword, hname]
    · simp [Expr.word?, Expr.render, hword, hname]
  | number _ | binary _ _ _ | call _ _ => rfl

/-- Where the only pattern goes on with a slot, the slot takes the next term. -/
theorem follow_slot (declared : Slot) :
    (empty.insert (.slot declared :: path) entry).follow captured term =
      (term.taken declared.type).map fun value =>
        (empty.insert path entry, captured.insert declared.index value) := by
  have hword (w : String) : (empty.insert (.slot declared :: path) entry).word? w = none := by
    rw [insert, empty, Edges.insert_slot_none]
    rfl
  have hslot : (empty.insert (.slot declared :: path) entry).slot? =
      some (declared, empty.insert path entry) := by
    rw [insert, empty, Edges.insert_slot_none]
    rfl
  rw [follow, hslot, Expr.taken]
  cases term.word? with
  | some w => simp [hword, Except.map]
  | none =>
    dsimp only
    cases term.capture declared.type <;> rfl

/-- A step along the only pattern leads to what is left of it, and behind a literal the term
was this word. -/
theorem eq_of_follow {step : Step} {node : Trie} {longer : Arguments}
    (h : (empty.insert (step :: path) entry).follow captured term = .ok (node, longer)) :
    node = empty.insert path entry ∧ ∀ w, step = .word w → term.word? = some w := by
  cases step with
  | word w =>
    rw [follow_word] at h
    split at h
    · next hword =>
      obtain ⟨rfl, -⟩ := Prod.mk.inj (Except.ok.inj h)
      refine ⟨rfl, ?_⟩
      rintro _ ⟨⟩
      exact hword
    · contradiction
  | slot declared =>
    rw [follow_slot] at h
    obtain ⟨value, -, hvalue⟩ := Except.map_eq_ok.mp h
    exact ⟨(Prod.mk.inj hvalue).1.symm, nofun⟩

/-- The number one is taken by a slot of any type. -/
theorem exists_taken_one (type : ArgumentType) (p : Position) :
    ∃ value, (Expr.number ⟨"1", p⟩).taken type = .ok value := by
  cases type with
  | expression | text => exact ⟨_, rfl⟩
  | integer =>
    have htext : int? "1" = some 1 := by decide +kernel
    have hone : (Expr.number ⟨"1", p⟩).integer? = some 1 := by
      rw [Expr.integer?]
      exact htext
    refine ⟨.integer 1, ?_⟩
    show (Expr.number ⟨"1", p⟩).capture .integer = _
    rw [Expr.capture, hone]

/-- The probe of a piece that is no number goes along the step of this piece, and captures at
its index if it is a slot. -/
theorem follow_probeTerm {piece : PatternTerm} (hfits : piece.Fits .query)
    (hnumber : piece.isNumber = false) (captured : Arguments) (p : Position) :
    ∃ step longer, piece.step? = some step ∧
      (∀ i, i ∈ longer.indices ↔
        i ∈ captured.indices ∨ piece.slot?.map Slot.index = some i) ∧
      ∀ path entry, (empty.insert (step :: path) entry).follow captured (piece.probeTerm p) =
        .ok (empty.insert path entry, longer) := by
  cases piece with
  | literal text =>
    refine ⟨.word text, captured, rfl, by simp [PatternTerm.slot?], fun path entry => ?_⟩
    rw [PatternTerm.probeTerm_of_word hnumber, follow_word]
    exact if_pos rfl
  | slot declared =>
    obtain ⟨value, hvalue⟩ := exists_taken_one declared.type (p.advance '(')
    refine ⟨.slot declared, captured.insert declared.index value, rfl, fun i => ?_,
      fun path entry => ?_⟩
    · simp [Arguments.mem_indices_insert_iff, PatternTerm.slot?, or_comm, eq_comm]
    · rw [PatternTerm.probeTerm_slot, follow_slot, hvalue]
      rfl
  | argument index => exact absurd hfits.1 (by decide)
  | output => exact absurd hfits (by simp [PatternTerm.Fits])

/-- The query of a pattern goes along all pieces before the first number, and captures at the
indices of their slots. -/
theorem matchFrom_probeTerms {front : List PatternTerm} (hfits : ∀ piece ∈ front, piece.Fits .query)
    (hnumber : ∀ piece ∈ front, piece.isNumber = false) (back : List PatternTerm) (entry : Entry)
    (captured : Arguments) (last p : Position) :
    ∃ longer last',
      (∀ i, i ∈ longer.indices ↔
        i ∈ captured.indices ∨ i ∈ (front.filterMap PatternTerm.slot?).map Slot.index) ∧
      ∀ terms, (empty.insert ((front ++ back).filterMap PatternTerm.step?) entry).matchFrom captured
          last (PatternTerm.probeTerms p front ++ terms) =
        (empty.insert (back.filterMap PatternTerm.step?) entry).matchFrom longer last' terms := by
  induction front generalizing captured last p with
  | nil => exact ⟨captured, last, by simp, fun _ => rfl⟩
  | cons piece front ih =>
    obtain ⟨hpiece, hfits⟩ := List.forall_mem_cons.mp hfits
    obtain ⟨hfirst, hnumber⟩ := List.forall_mem_cons.mp hnumber
    obtain ⟨step, middle, hstep, hmiddle, hfollow⟩ := follow_probeTerm hpiece hfirst captured p
    obtain ⟨longer, last', hlonger, hmatch⟩ :=
      ih hfits hnumber middle (piece.probeTerm p).position (piece.placeBehind p)
    refine ⟨longer, last', fun i => ?_, fun terms => ?_⟩
    · rw [hlonger, hmiddle, or_assoc]
      cases hslot : piece.slot? <;> simp [hslot, eq_comm]
    · rw [List.cons_append, List.filterMap_cons_some hstep, PatternTerm.probeTerms,
        List.cons_append, matchFrom, hfollow]
      exact hmatch terms

/-- A query that follows the only pattern has a word for every literal of it. -/
theorem exists_word_of_matchFrom {path : List Step} {entry : Entry} {captured : Arguments}
    {last : Position} {terms : List Expr} {m : Match}
    (h : (empty.insert path entry).matchFrom captured last terms = .ok m) {w : String}
    (hw : .word w ∈ path) : ∃ term ∈ terms, term.word? = some w := by
  induction terms generalizing path captured last with
  | nil =>
    have hentry : (empty.insert path entry).entry = none := by
      rw [entry_insert, if_neg (List.ne_nil_of_mem hw)]
      rfl
    rw [matchFrom, hentry] at h
    contradiction
  | cons term terms ih =>
    obtain ⟨step, path, rfl⟩ := List.exists_cons_of_ne_nil (List.ne_nil_of_mem hw)
    rw [matchFrom] at h
    split at h
    · next node longer hfollow =>
      obtain ⟨rfl, hword⟩ := eq_of_follow hfollow
      rcases List.mem_cons.mp hw with hstep | hw
      · exact ⟨term, List.mem_cons_self, hword w hstep.symm⟩
      · obtain ⟨later, hlater, hlaterWord⟩ := ih h hw
        exact ⟨later, List.mem_cons_of_mem term hlater, hlaterWord⟩
    · contradiction

end Trie

/-! ## Registered patterns -/

/-- A word of a query is no number. -/
theorem isWord_of_word? {source : String} {program : Program} (h : parse source = .ok program)
    {term : Expr} (hterm : term ∈ program.terms) {w : String} (hw : term.word? = some w) :
    IsWord w.toList := by
  have hlegible := legible_of_parse h hterm
  cases term with
  | symbol name =>
    obtain rfl : name.text = w := Option.some.inj hw
    cases hlegible with
    | term hlegible =>
      cases hlegible with
      | symbol h => exact h
  | number _ | binary _ _ _ | call _ _ => contradiction

namespace Trie

theorem matchProgram_phrase (t : Trie) (es : Phrase) :
    t.matchProgram ⟨[[es]]⟩ = (t.matchFrom .empty .start es).map some := by
  simp [matchProgram, matchStatement, Statement.terms]

variable {e : Entry} (hfits : e.pattern.Fits .query)

include hfits in
/-- A pattern without numbers is followed by its query, and all its slots capture. -/
theorem matchProgram_probeTerms (hnumber : ∀ piece ∈ e.pattern.terms, piece.isNumber = false) :
    ∃ captured, (empty.insert e.pattern.steps e).matchProgram ⟨[[e.pattern.probeTerms]]⟩ =
        .ok (some ⟨e, captured⟩) ∧
      ∀ i, i ∈ captured.indices ↔ i ∈ e.pattern.slots.map Slot.index := by
  obtain ⟨captured, last, hindices, hmatch⟩ :=
    matchFrom_probeTerms hfits.forall_mem hnumber [] e .empty .start .start
  have hmatch := hmatch []
  rw [List.append_nil, List.append_nil] at hmatch
  refine ⟨captured, ?_, fun i => ?_⟩
  · rw [matchProgram_phrase]
    exact congrArg (Except.map some) hmatch
  · rw [hindices]
    simp [Arguments.empty, Arguments.indices, Pattern.slots]

include hfits in
/-- The query of a pattern is refused at the first number of the pattern. -/
theorem matchProgram_probeTerms_of_number {front back : List PatternTerm} {number : String}
    (hterms : e.pattern.terms = front ++ .literal number :: back)
    (hfront : ∀ piece ∈ front, piece.isNumber = false)
    (hnumber : (PatternTerm.literal number).isNumber) :
    (empty.insert e.pattern.steps e).matchProgram ⟨[[e.pattern.probeTerms]]⟩ =
      .error (.noEdge number (front.foldl PatternTerm.placeBehind .start)) := by
  have hforall := hfits.forall_mem
  rw [hterms, List.forall_mem_append] at hforall
  obtain ⟨captured, last, -, hmatch⟩ :=
    matchFrom_probeTerms hforall.1 hfront (.literal number :: back) e .empty .start .start
  have hmatch := hmatch (PatternTerm.probeTerms (front.foldl PatternTerm.placeBehind .start)
    (.literal number :: back))
  have hstep : (PatternTerm.literal number :: back).filterMap PatternTerm.step? =
      .word number :: back.filterMap PatternTerm.step? := rfl
  rw [← PatternTerm.probeTerms_append, ← hterms, PatternTerm.probeTerms,
    PatternTerm.probeTerm_of_number hnumber, hstep, matchFrom, follow_word] at hmatch
  rw [matchProgram_phrase]
  exact congrArg (Except.map some) hmatch

/-- A pattern that some query follows has no numbers. -/
theorem isNumber_of_matchProgram {source : String} {program : Program}
    (hparse : parse source = .ok program) {m : Match}
    (hmatch : (empty.insert e.pattern.steps e).matchProgram program = .ok (some m)) :
    ∀ piece ∈ e.pattern.terms, piece.isNumber = false := by
  intro piece hpiece
  cases piece with
  | slot _ | argument _ | output => rfl
  | literal text =>
    have hstep : Step.word text ∈ e.pattern.steps := List.mem_filterMap.mpr ⟨_, hpiece, rfl⟩
    unfold matchProgram at hmatch
    split at hmatch
    · next s ss hstatements =>
      obtain ⟨_, hmatch, -⟩ := Except.map_eq_ok.mp hmatch
      obtain ⟨term, hterm, hword⟩ := exists_word_of_matchFrom hmatch hstep
      have hterm : term ∈ program.terms := by
        rw [Program.terms, hstatements]
        exact List.mem_append_left _ hterm
      exact PatternTerm.isNumber_of_isWord (isWord_of_word? hparse hterm hword)
    · simp at hmatch

/-- Where a single pattern is registered, its query is read as a term for every piece.  If no
literal of the pattern is a number, then this query follows the pattern, and every slot that it
declares captures.  Otherwise the query is refused at the first number, and no other query
follows the pattern either. -/
theorem followed_of_register_empty {r : Registration} {t : Trie} (h : empty.register r = .ok t) :
    ∃ e, r.entry = .ok e ∧ Pattern.parse .query r.pattern = .ok e.pattern ∧
      parse e.pattern.probe = .ok ⟨[[e.pattern.probeTerms]]⟩ ∧
      ((∀ piece ∈ e.pattern.terms, piece.isNumber = false) →
        ∃ captured, t.matchProgram ⟨[[e.pattern.probeTerms]]⟩ = .ok (some ⟨e, captured⟩) ∧
          ∀ i, i ∈ captured.indices ↔ i ∈ e.pattern.slots.map Slot.index) ∧
      (∀ front number back, e.pattern.terms = front ++ .literal number :: back →
        (∀ piece ∈ front, piece.isNumber = false) → (PatternTerm.literal number).isNumber →
          t.matchProgram ⟨[[e.pattern.probeTerms]]⟩ =
            .error (.noEdge number (front.foldl PatternTerm.placeBehind .start))) ∧
      ((∃ source program m, parse source = .ok program ∧ t.matchProgram program = .ok (some m)) ↔
        ∀ piece ∈ e.pattern.terms, piece.isNumber = false) := by
  obtain ⟨e, he, ht⟩ := Except.bind_eq_ok.mp h
  obtain rfl : empty.insert e.pattern.steps e = t := Except.ok.inj ht
  obtain ⟨hpattern, -, -⟩ := Registration.entry_eq_ok he
  have hfits := Pattern.fits_of_parse hpattern
  have hprobe := parse_probe hfits
  refine ⟨e, he, hpattern, hprobe, matchProgram_probeTerms hfits, ?_, ?_, fun hnumber => ?_⟩
  · intro front number back hterms hfront hnumber
    exact matchProgram_probeTerms_of_number hfits hterms hfront hnumber
  · rintro ⟨source, program, m, hparse, hmatch⟩
    exact isNumber_of_matchProgram hparse hmatch
  · obtain ⟨captured, hmatch, -⟩ := matchProgram_probeTerms hfits hnumber
    exact ⟨_, _, _, hprobe, hmatch⟩

/-- A pattern whose pieces touch each other, with a digit in one of its words: its query
follows it, and both slots capture. -/
theorem followed_of_register_empty_of_words :
    let r : Registration :=
      ⟨"sum of\x7b1:integer\x7dand x2\x7b0:string\x7d", "\x7boutput\x7d", "expand", "", ""⟩
    let e : Entry :=
      ⟨"expand", "", "", ⟨[.literal "sum", .literal "of", .slot ⟨1, .integer⟩, .literal "and",
        .literal "x2", .slot ⟨0, .text⟩]⟩, ⟨[.output]⟩⟩
    ∃ t captured, empty.register r = .ok t ∧ e.pattern.probe = "sum of (1) and x2 (1)" ∧
      parse e.pattern.probe = .ok ⟨[[e.pattern.probeTerms]]⟩ ∧
        t.matchProgram ⟨[[e.pattern.probeTerms]]⟩ = .ok (some ⟨e, captured⟩) ∧
          ∀ i, i ∈ captured.indices ↔ i ∈ [1, 0] := by
  intro r e
  have hentry : r.entry = .ok e := by decide +kernel
  have h : empty.register r = .ok (empty.insert e.pattern.steps e) := by
    rw [register, hentry]
    rfl
  obtain ⟨e', he', -, hprobe, hfollowed, -⟩ := followed_of_register_empty h
  obtain rfl : e = e' := Except.ok.inj (hentry.symm.trans he')
  obtain ⟨captured, hmatch, hindices⟩ := hfollowed (by decide +kernel)
  exact ⟨_, captured, h, by decide +kernel, hprobe, hmatch, hindices⟩

/-- A pattern with a number is registered, and its query does not follow it. -/
theorem not_followed_of_number :
    let r : Registration :=
      ⟨"root 2 of \x7b0:expression\x7d", "\x7boutput\x7d", "root", "", ""⟩
    let p : Pattern := ⟨[.literal "root", .literal "2", .literal "of", .slot ⟨0, .expression⟩]⟩
    ∃ t s, empty.register r = .ok t ∧ Pattern.parse .query r.pattern = .ok p ∧
      p.probe = "root 2 of (1)" ∧ parse p.probe = .ok ⟨[s]⟩ ∧
        t.matchProgram ⟨[s]⟩ = .error (.noEdge "2" ⟨1, 6⟩) := by
  intro r p
  let e : Entry := ⟨"root", "", "", p, ⟨[.output]⟩⟩
  exact ⟨empty.insert p.steps e, [p.probeTerms], by decide +kernel, by decide +kernel,
    by decide +kernel, by decide +kernel, by decide +kernel⟩

end Trie

end MathQuery
