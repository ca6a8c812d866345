import MathQuery.Pattern.Parser
import MathQuery.Proofs.Algebra.Numeral
import MathQuery.Proofs.Pattern.Lexing
import MathQuery.Proofs.Text.Yield

/-!
# Patterns in their own notation

What is read as a pattern fits its role: queries have words, numbers and declarations of
slots, templates have punctuation and references besides words and numbers.  A pattern that
fits its role is what its own notation is read as.

* `Pattern.Fits` – the patterns of a role;
* `PatternParser.yields_pattern` – only such patterns are read;
* `PatternParser.IsPiece` – the tokens of a piece;
* `PatternParser.scans_intercalate` – the tokens of a pattern in its notation;
* `Pattern.fits_of_parse_and_parse_of_fits` – reading and writing patterns.
-/

namespace MathQuery

/-! ## Patterns of a role -/

/-- A piece that a pattern of the role can have. -/
def PatternTerm.Fits (role : PatternRole) : PatternTerm → Prop
  | literal text =>
    IsWord text.toList ∨ IsNumeral text.toList ∨ (role = .template ∧ IsPunctuation text.toList)
  | slot declared => role = .query ∧ declared.index < slotIndexLimit
  | argument index => role = .template ∧ index < slotIndexLimit
  | output => role = .template

/-- A pattern of a role: one or more pieces that fit it. -/
structure Pattern.Fits (role : PatternRole) (p : Pattern) : Prop where
  ne_nil : p.terms ≠ []
  forall_mem : ∀ piece ∈ p.terms, piece.Fits role

theorem slotIndex?_eq_some_lt {literal : String} {index : Nat}
    (h : slotIndex? literal = some index) : index < slotIndexLimit := by
  rw [slotIndex?, Option.filter_eq_some_iff] at h
  simpa using h.2

theorem slotIndex?_toString {index : Nat} (h : index < slotIndexLimit) :
    slotIndex? (toString index) = some index := by
  have hdigits : (toString index).toList.all Char.isDigit = true :=
    List.all_eq_true.mpr (isDigit_of_mem_toString index)
  have hempty : (toString index).toList.isEmpty = false :=
    List.isEmpty_eq_false_iff.mpr (toString_ne_nil index)
  rw [slotIndex?, nat?, hempty, hdigits, natOfDigits_toString]
  exact (Option.filter_eq_some_iff).mpr ⟨rfl, decide_eq_true h⟩

namespace PatternParser

open MathQuery.Parser PatternToken

/-! ## What is read -/

/-- A parser of something that the tokens say nothing about. -/
abbrev YieldsAny {α : Type} (p : PatternParser α) : Prop := Yields Legible p fun _ => True

theorem yields_unexpected {α : Type} {P : α → Prop} (expected : String) :
    Yields Legible (unexpected expected) P :=
  yields_current.bind fun _ _ => yields_fail _

theorem yields_type (opening : PatternToken) : YieldsAny (type opening) := by
  unfold type
  refine yields_current.bind fun token _ => ?_
  split
  · refine yields_next.bind fun _ _ => ?_
    split
    · exact yields_pure trivial
    · exact yields_fail _
  · exact yields_fail _
  · exact yields_fail _

/-- What stands between braces: no literal, and an index in range if it has one. -/
theorem yields_inner (opening : PatternToken) : Yields Legible (inner opening) fun piece =>
    piece = .output ∨ ∃ index < slotIndexLimit,
      piece = .argument index ∨ ∃ type, piece = .slot ⟨index, type⟩ := by
  unfold inner
  refine yields_current.bind fun token _ => ?_
  split
  · refine yields_next.bind fun _ _ => ?_
    split
    · exact yields_pure (.inl rfl)
    · exact yields_fail _
  · refine yields_next.bind fun _ _ => ?_
    split
    · exact yields_fail _
    · next index hindex =>
      have hlt := slotIndex?_eq_some_lt hindex
      refine yields_current.bind fun following _ => ?_
      split
      · refine yields_next.bind fun _ _ => ?_
        refine (yields_type opening).bind fun type _ => ?_
        exact yields_pure (.inr ⟨index, hlt, .inr ⟨type, rfl⟩⟩)
      · exact yields_pure (.inr ⟨index, hlt, .inl rfl⟩)
  · exact yields_fail _
  · exact yields_fail _

theorem yields_close (opening : PatternToken) : YieldsAny (close opening) := by
  unfold close
  refine yields_current.bind fun token _ => ?_
  split
  · exact yields_next.bind fun _ _ => yields_pure trivial
  · exact yields_fail _
  · exact yields_unexpected _

/-- An argument that is not refused fits the role. -/
theorem fits_of_misplaced?_eq_none {role : PatternRole} {piece : PatternTerm}
    (h : misplaced? role piece = none)
    (hpiece : piece = .output ∨ ∃ index < slotIndexLimit,
      piece = .argument index ∨ ∃ type, piece = .slot ⟨index, type⟩) : piece.Fits role := by
  obtain rfl | ⟨index, hindex, rfl | ⟨type, rfl⟩⟩ := hpiece
  all_goals cases role
  all_goals simp_all [misplaced?, PatternTerm.Fits]

variable (role : PatternRole)

theorem yields_argument : Yields Legible (argument role) (PatternTerm.Fits role) := by
  unfold argument
  refine yields_next.bind fun opening _ => ?_
  refine (yields_inner opening).bind fun piece hpiece => ?_
  refine (yields_close opening).bind fun _ _ => ?_
  split
  · exact yields_fail _
  · next hnone => exact yields_pure (fits_of_misplaced?_eq_none hnone hpiece)

theorem yields_piece : Yields Legible (piece role) (PatternTerm.Fits role) := by
  unfold piece
  refine yields_current.bind fun token htoken => ?_
  -- a token that is taken as a literal is spelled as its kind says
  have hspelled : token.kind ≠ .endOfPattern → Spelled token.kind token.text.toList := htoken
  split
  · exact yields_argument _
  · next hkind =>
    have hword := spelled_iff.mp (hkind ▸ hspelled (by simp [hkind]))
    exact yields_next.bind fun _ _ => yields_pure (.inl hword)
  · next hkind =>
    have hnumeral := spelled_iff.mp (hkind ▸ hspelled (by simp [hkind]))
    exact yields_next.bind fun _ _ => yields_pure (.inr (.inl hnumeral))
  · next hkind =>
    have hpunctuation := spelled_iff.mp (hkind ▸ hspelled (by simp [hkind]))
    exact yields_next.bind fun _ _ => yields_pure (.inr (.inr ⟨rfl, hpunctuation⟩))
  · exact yields_unexpected _

theorem yields_morePieces : YieldsMore Legible (morePieces role) (PatternTerm.Fits role) := by
  unfold morePieces
  refine yields_current.bind fun token _ => ?_
  split
  · exact yieldsMore_none
  · exact (yields_piece role).some fun _ hpiece => hpiece

theorem yields_pattern : Yields Legible (pattern role) (Pattern.Fits role) := by
  refine (yields_piece role).bind fun first hfirst => ?_
  refine (yields_morePieces role).many.bind fun later hlater => ?_
  exact yields_pure ⟨List.cons_ne_nil _ _, List.forall_mem_cons.mpr ⟨hfirst, hlater⟩⟩

end PatternParser

/-- What is read as a pattern fits the role. -/
theorem Pattern.fits_of_parse {role : PatternRole} {source : String} {p : Pattern}
    (h : parse role source = .ok p) : p.Fits role := by
  rw [parse, Parser.run] at h
  split at h
  · contradiction
  · next feed hfeed =>
    obtain ⟨⟨p, after⟩, hrun, rfl⟩ := Except.map_eq_ok.mp h
    obtain ⟨htokens, hending⟩ := PatternToken.legible_of_reading source
    have hall := Feed.all_ofReading htokens hending hfeed
    exact (PatternParser.yields_pattern role feed p after hall hrun).1

namespace PatternParser

open MathQuery.Parser PatternToken

/-! ## The tokens of a pattern -/

/-- The tokens that a piece is read from. -/
inductive IsPiece : PatternRole → List PatternToken → PatternTerm → Prop
  | literal {role : PatternRole} {token : PatternToken}
    (h : token.kind = .identifier ∨ token.kind = .number ∨
      (role = .template ∧ token.kind = .punctuation)) :
    IsPiece role [token] (.literal token.text)
  | slot {opening number colon name closing : PatternToken} {index : Nat} {type : ArgumentType}
    (hopening : opening.kind = .openBrace) (hnumber : number.kind = .number)
    (hindex : slotIndex? number.text = some index) (hcolon : colon.kind = .colon)
    (hname : name.kind = .identifier) (htype : name.text = type.name)
    (hclosing : closing.kind = .closeBrace) :
    IsPiece .query [opening, number, colon, name, closing] (.slot ⟨index, type⟩)
  | argument {opening number closing : PatternToken} {index : Nat}
    (hopening : opening.kind = .openBrace) (hnumber : number.kind = .number)
    (hindex : slotIndex? number.text = some index) (hclosing : closing.kind = .closeBrace) :
    IsPiece .template [opening, number, closing] (.argument index)
  | output {opening name closing : PatternToken} (hopening : opening.kind = .openBrace)
    (hname : name.kind = .identifier) (htext : name.text = "output")
    (hclosing : closing.kind = .closeBrace) :
    IsPiece .template [opening, name, closing] .output

variable {role : PatternRole} {last : PatternToken} {tokens : List PatternToken}
  {t : PatternTerm}

/-- A piece begins with a token that does not mark the end. -/
theorem IsPiece.exists_cons (h : IsPiece role tokens t) :
    ∃ first later, tokens = first :: later ∧ first.kind ≠ .endOfPattern := by
  cases h with
  | literal h =>
    refine ⟨_, _, rfl, fun hkind => ?_⟩
    simp [hkind] at h
  | slot hopening | argument hopening | output hopening =>
    exact ⟨_, _, rfl, by simp [hopening]⟩

theorem close_ofList {opening closing : PatternToken} (h : closing.kind = .closeBrace)
    (more : List PatternToken) :
    close opening (Feed.ofList last (closing :: more)) = .ok ((), Feed.ofList last more) := by
  simp only [close, current_bind, Feed.current_ofList_cons, h, next_bind_ofList]
  rfl

theorem inner_of_output {opening name : PatternToken} (h : name.kind = .identifier)
    (htext : name.text = "output") (more : List PatternToken) :
    inner opening (Feed.ofList last (name :: more)) = .ok (.output, Feed.ofList last more) := by
  rw [inner, current_bind, Feed.current_ofList_cons, h]
  dsimp only
  rw [next_bind_ofList, if_pos htext]
  rfl

theorem inner_of_argument {opening number following : PatternToken} (h : number.kind = .number)
    {index : Nat} (hindex : slotIndex? number.text = some index)
    (hfollowing : following.kind ≠ .colon) (more : List PatternToken) :
    inner opening (Feed.ofList last (number :: following :: more)) =
      .ok (.argument index, Feed.ofList last (following :: more)) := by
  have hcolon : following.is .colon = false := is_eq_false_iff.mpr hfollowing
  simp only [inner, current_bind, Feed.current_ofList_cons, h, next_bind_ofList, hindex, hcolon]
  rfl

theorem type_ofList {opening name : PatternToken} (h : name.kind = .identifier)
    {type : ArgumentType} (htype : name.text = type.name) (more : List PatternToken) :
    PatternParser.type opening (Feed.ofList last (name :: more)) =
      .ok (type, Feed.ofList last more) := by
  simp only [PatternParser.type, current_bind, Feed.current_ofList_cons, h, next_bind_ofList,
    (ArgumentType.ofName?_eq_some_iff _ _).mpr htype]
  rfl

theorem inner_of_slot {opening number colon name : PatternToken} (h : number.kind = .number)
    {index : Nat} (hindex : slotIndex? number.text = some index) (hcolon : colon.kind = .colon)
    (hname : name.kind = .identifier) {type : ArgumentType} (htype : name.text = type.name)
    (more : List PatternToken) :
    inner opening (Feed.ofList last (number :: colon :: name :: more)) =
      .ok (.slot ⟨index, type⟩, Feed.ofList last more) := by
  have hcolon : colon.is .colon = true := is_eq_true_iff.mpr hcolon
  simp only [inner, current_bind, Feed.current_ofList_cons, h, next_bind_ofList, hindex, hcolon,
    if_true]
  exact bind_of_ok (type_ofList hname htype more)

/-- An argument is read if the text between its braces is and it is not misplaced. -/
theorem piece_of_inner (inside : List PatternToken) {opening closing : PatternToken}
    {more : List PatternToken}
    (hopening : opening.kind = .openBrace)
    (h : inner opening (Feed.ofList last (inside ++ closing :: more)) =
      .ok (t, Feed.ofList last (closing :: more)))
    (hclosing : closing.kind = .closeBrace) (hplaced : misplaced? role t = none) :
    piece role (Feed.ofList last (opening :: inside ++ closing :: more)) =
      .ok (t, Feed.ofList last more) := by
  rw [piece, List.cons_append, current_bind, Feed.current_ofList_cons, hopening]
  show argument role _ = _
  rw [argument, next_bind_ofList, bind_of_ok h, bind_of_ok (close_ofList hclosing more), hplaced]
  rfl

/-- A piece is read from its tokens. -/
theorem piece_of_isPiece (h : IsPiece role tokens t) (more : List PatternToken) :
    piece role (Feed.ofList last (tokens ++ more)) = .ok (t, Feed.ofList last more) := by
  cases h with
  | literal h =>
    rw [piece, List.singleton_append, current_bind, Feed.current_ofList_cons]
    obtain h | h | ⟨rfl, h⟩ := h
    all_goals
      simp only [h, next_bind_ofList]
      rfl
  | slot hopening hnumber hindex hcolon hname htype hclosing =>
    exact piece_of_inner [_, _, _] hopening
      (inner_of_slot hnumber hindex hcolon hname htype _) hclosing rfl
  | argument hopening hnumber hindex hclosing =>
    exact piece_of_inner [_] hopening
      (inner_of_argument hnumber hindex (by simp [hclosing]) _) hclosing rfl
  | output hopening hname htext hclosing =>
    exact piece_of_inner [_] hopening (inner_of_output hname htext _) hclosing rfl

theorem morePieces_nil (role : PatternRole) (hlast : last.kind = .endOfPattern) :
    morePieces role (Feed.ofList last []) = .ok (none, Feed.ofList last []) := by
  rw [morePieces, current_bind, Feed.current_ofList_nil, if_pos (is_eq_true_iff.mpr hlast)]
  rfl

theorem morePieces_of_isPiece (h : IsPiece role tokens t) (more : List PatternToken) :
    morePieces role (Feed.ofList last (tokens ++ more)) = .ok (some t, Feed.ofList last more) := by
  have hpiece : piece role (Feed.ofList last (tokens ++ more)) = _ := piece_of_isPiece h more
  obtain ⟨first, later, rfl, hkind⟩ := h.exists_cons
  have hnot : ¬ first.is .endOfPattern = true := fun his => hkind (is_eq_true_iff.mp his)
  rw [List.cons_append] at hpiece ⊢
  rw [morePieces, current_bind, Feed.current_ofList_cons, if_neg hnot, bind_of_ok hpiece]
  rfl

variable {runs : List (List PatternToken)} {ts : List PatternTerm}

/-- Pieces are read one after the other up to the end of the text. -/
theorem manyUpTo_of_forall₂ (hlast : last.kind = .endOfPattern)
    (h : List.Forall₂ (IsPiece role) runs ts) {fuel : Nat} (hfuel : ts.length ≤ fuel) :
    manyUpTo (morePieces role) fuel (Feed.ofList last runs.flatten) =
      .ok (ts, Feed.ofList last []) := by
  induction h generalizing fuel with
  | nil =>
    cases fuel with
    | zero => rfl
    | succ fuel =>
      rw [manyUpTo, List.flatten_nil, bind_of_ok (morePieces_nil role hlast)]
      rfl
  | cons hfirst _ ih =>
    cases fuel with
    | zero => simp at hfuel
    | succ fuel =>
      rw [manyUpTo, List.flatten_cons, bind_of_ok (morePieces_of_isPiece hfirst _)]
      exact bind_of_ok (ih (Nat.le_of_succ_le_succ hfuel))

/-- There are at least as many tokens as pieces. -/
theorem length_le_of_forall₂ (h : List.Forall₂ (IsPiece role) runs ts) :
    ts.length ≤ runs.flatten.length := by
  induction h with
  | nil => exact Nat.le_refl _
  | cons hfirst _ ih =>
    obtain ⟨first, later, rfl, -⟩ := hfirst.exists_cons
    simp only [List.length_cons, List.flatten_cons, List.length_append]
    omega

theorem many_of_forall₂ (hlast : last.kind = .endOfPattern)
    (h : List.Forall₂ (IsPiece role) runs ts) :
    many (morePieces role) (Feed.ofList last runs.flatten) = .ok (ts, Feed.ofList last []) := by
  cases h with
  | nil =>
    rw [many, List.flatten_nil, bind_of_ok (morePieces_nil role hlast)]
    rfl
  | @cons tokens t runs ts hfirst hlater =>
    -- what is left bounds the number of pieces in it
    have hfuel := (length_le_of_forall₂ hlater).trans (Feed.length_le_size_ofList last _)
    rw [many, List.flatten_cons, bind_of_ok (morePieces_of_isPiece hfirst _)]
    exact bind_of_ok (manyUpTo_of_forall₂ hlast hlater hfuel)

/-- A pattern is read from the tokens of its pieces. -/
theorem pattern_of_forall₂ (hlast : last.kind = .endOfPattern)
    (h : List.Forall₂ (IsPiece role) runs ts) (hne : ts ≠ []) :
    pattern role (Feed.ofList last runs.flatten) = .ok (⟨ts⟩, Feed.ofList last []) := by
  cases h with
  | nil => contradiction
  | cons hfirst hlater =>
    rw [pattern, List.flatten_cons, bind_of_ok (piece_of_isPiece hfirst _),
      bind_of_ok (many_of_forall₂ hlast hlater)]
    rfl

/-! ## Scanning the notation -/

/-- What stands between braces is scanned between the tokens of the braces. -/
theorem scans_braced {inside rest : List Char} {p middle : Position}
    (h : Scans ⟨inside ++ '}' :: rest, p.advance '{'⟩ tokens ⟨'}' :: rest, middle⟩) :
    ∃ opening closing after, opening.kind = .openBrace ∧ closing.kind = .closeBrace ∧
      Scans ⟨'{' :: (inside ++ '}' :: rest), p⟩ (opening :: (tokens ++ [closing]))
        ⟨rest, after⟩ := by
  have hopening := scan_mark p (rfl : PatternTokenKind.ofMark? '{' = some .openBrace)
    (inside ++ '}' :: rest)
  have hclosing := scan_mark middle (rfl : PatternTokenKind.ofMark? '}' = some .closeBrace) rest
  exact ⟨_, _, _, rfl, rfl,
    scans_cons hopening nofun (h.append (scans_cons hclosing nofun .nil))⟩

/-- The digits of an index are scanned as a number that stands for it. -/
theorem scans_index {index : Nat} (h : index < slotIndexLimit) {rest : List Char}
    (hrest : Separates rest) (p : Position) :
    ∃ number after, number.kind = .number ∧ slotIndex? number.text = some index ∧
      Scans ⟨(toString index).toList ++ rest, p⟩ [number] ⟨rest, after⟩ := by
  have hnumeral : IsNumeral (toString index).toList :=
    .whole (toString_ne_nil index) (isDigit_of_mem_toString index)
  have hscan := scan_number p hnumeral hrest.breaks
  rw [String.ofList_toList] at hscan
  exact ⟨⟨⟨toString index, p⟩, .number⟩, _, rfl, slotIndex?_toString h,
    scans_cons hscan nofun .nil⟩

/-- A word is scanned as an identifier. -/
theorem scans_identifier {w : String} (h : IsWord w.toList) {rest : List Char}
    (hrest : Separates rest) (p : Position) :
    ∃ name after, name.kind = .identifier ∧ name.text = w ∧
      Scans ⟨w.toList ++ rest, p⟩ [name] ⟨rest, after⟩ := by
  have hscan := scan_word p h hrest.breaks.wordEnds
  rw [String.ofList_toList] at hscan
  exact ⟨_, _, rfl, rfl, scans_cons hscan nofun .nil⟩

theorem separates_close (rest : List Char) : Separates ('}' :: rest) := separates_mark rfl rest

theorem isWord_name (type : ArgumentType) : IsWord type.name.toList := by
  cases type <;> decide

/-! Each piece in its notation is scanned as its tokens. -/

section Pieces

variable {rest : List Char}

theorem scans_literal {text : String} (h : (PatternTerm.literal text).Fits role)
    (hrest : Separates rest) (p : Position) :
    ∃ tokens after, Scans ⟨text.toList ++ rest, p⟩ tokens ⟨rest, after⟩ ∧
      IsPiece role tokens (.literal text) := by
  have hspelled : ∃ kind, Spelled kind text.toList ∧ (kind = .identifier ∨ kind = .number ∨
      (role = .template ∧ kind = .punctuation)) := by
    obtain h | h | ⟨hrole, h⟩ := h
    · exact ⟨_, .identifier h, .inl rfl⟩
    · exact ⟨_, .number h, .inr (.inl rfl)⟩
    · exact ⟨_, .punctuation h, .inr (.inr ⟨hrole, rfl⟩)⟩
  obtain ⟨kind, hspelled, hkind⟩ := hspelled
  have hscan := scan_of_spelled p hspelled hrest
  rw [String.ofList_toList] at hscan
  refine ⟨_, _, scans_cons hscan ?_ .nil, .literal hkind⟩
  rintro rfl
  simp at hkind

theorem scans_slot {declared : Slot} (hindex : declared.index < slotIndexLimit)
    (rest : List Char) (p : Position) :
    ∃ tokens after, Scans ⟨(PatternTerm.slot declared).render.toList ++ rest, p⟩ tokens
      ⟨rest, after⟩ ∧ IsPiece .query tokens (.slot declared) := by
  have htext : (PatternTerm.slot declared).render.toList ++ rest =
      '{' :: ((toString declared.index).toList ++ ':' :: declared.type.name.toList ++
        '}' :: rest) := by
    simp [PatternTerm.render]
  obtain ⟨number, middle, hnumber, hvalue, hdigits⟩ := scans_index hindex
    (separates_mark rfl (declared.type.name.toList ++ '}' :: rest) : Separates (':' :: _))
    (p.advance '{')
  have hcolon := scan_mark middle (rfl : PatternTokenKind.ofMark? ':' = some .colon)
    (declared.type.name.toList ++ '}' :: rest)
  obtain ⟨name, behind, hname, htype, hword⟩ :=
    scans_identifier (isWord_name declared.type) (separates_close rest) (middle.advance ':')
  have hinside := hdigits.append (scans_cons hcolon nofun hword)
  rw [← List.cons_append, ← List.append_assoc] at hinside
  obtain ⟨opening, closing, after, hopening, hclosing, hscans⟩ := scans_braced hinside
  rw [htext]
  exact ⟨_, after, hscans, .slot hopening hnumber hvalue rfl hname htype hclosing⟩

theorem scans_argument {index : Nat} (hindex : index < slotIndexLimit) (rest : List Char)
    (p : Position) :
    ∃ tokens after, Scans ⟨(PatternTerm.argument index).render.toList ++ rest, p⟩ tokens
      ⟨rest, after⟩ ∧ IsPiece .template tokens (.argument index) := by
  have htext : (PatternTerm.argument index).render.toList ++ rest =
      '{' :: ((toString index).toList ++ '}' :: rest) := by
    simp [PatternTerm.render]
  obtain ⟨number, middle, hnumber, hvalue, hdigits⟩ :=
    scans_index hindex (separates_close rest) (p.advance '{')
  obtain ⟨opening, closing, after, hopening, hclosing, hscans⟩ := scans_braced hdigits
  rw [htext]
  exact ⟨_, after, hscans, .argument hopening hnumber hvalue hclosing⟩

theorem scans_output (rest : List Char) (p : Position) :
    ∃ tokens after, Scans ⟨PatternTerm.output.render.toList ++ rest, p⟩ tokens ⟨rest, after⟩ ∧
      IsPiece .template tokens .output := by
  have htext : PatternTerm.output.render.toList ++ rest =
      '{' :: ("output".toList ++ '}' :: rest) := by
    simp [PatternTerm.render]
  obtain ⟨name, middle, hname, houtput, hword⟩ :=
    scans_identifier (w := "output") (by decide) (separates_close rest) (p.advance '{')
  obtain ⟨opening, closing, after, hopening, hclosing, hscans⟩ := scans_braced hword
  rw [htext]
  exact ⟨_, after, hscans, .output hopening hname houtput hclosing⟩

theorem scans_render (h : t.Fits role) (hrest : Separates rest) (p : Position) :
    ∃ tokens after, Scans ⟨t.render.toList ++ rest, p⟩ tokens ⟨rest, after⟩ ∧
      IsPiece role tokens t := by
  cases t with
  | literal text => exact scans_literal h hrest p
  | slot declared =>
    obtain ⟨rfl, hindex⟩ := h
    exact scans_slot hindex rest p
  | argument index =>
    obtain ⟨rfl, hindex⟩ := h
    exact scans_argument hindex rest p
  | output =>
    obtain rfl : role = .template := h
    exact scans_output rest p

end Pieces

/-- Pieces in their notation, with a blank between them, are scanned as their tokens. -/
theorem scans_intercalate (h : ∀ piece ∈ t :: ts, piece.Fits role) (p : Position) :
    ∃ runs after, Scans ⟨(" ".intercalate ((t :: ts).map PatternTerm.render)).toList, p⟩
      runs.flatten ⟨[], after⟩ ∧ List.Forall₂ (IsPiece role) runs (t :: ts) := by
  obtain ⟨hfirst, hlater⟩ := List.forall_mem_cons.mp h
  induction ts generalizing t p with
  | nil =>
    obtain ⟨tokens, after, hscans, hpiece⟩ := scans_render hfirst separates_nil p
    refine ⟨[tokens], after, ?_, .cons hpiece .nil⟩
    simpa using hscans
  | cons second ts ih =>
    have htext : (" ".intercalate ((t :: second :: ts).map PatternTerm.render)).toList =
        t.render.toList ++ ' ' :: (" ".intercalate ((second :: ts).map PatternTerm.render)).toList := by
      rw [List.map_cons, String.intercalate_cons_of_ne_nil (by simp)]
      simp
    obtain ⟨tokens, middle, hscans, hpiece⟩ :=
      scans_render hfirst (separates_blank rfl _ : Separates (' ' :: _)) p
    obtain ⟨hsecond, hthird⟩ := List.forall_mem_cons.mp hlater
    obtain ⟨runs, after, hrest, hpieces⟩ := ih hlater (middle.advance ' ') hsecond hthird
    -- the blank is in front of the next piece, which has a token
    have hne : runs.flatten ≠ [] := by
      cases hpieces with
      | cons hnext _ =>
        obtain ⟨first, later, rfl, -⟩ := hnext.exists_cons
        exact List.cons_ne_nil _ _
    refine ⟨tokens :: runs, after, ?_, .cons hpiece hpieces⟩
    rw [htext, List.flatten_cons]
    exact hscans.append (Scans.of_blank rfl hrest hne)

end PatternParser

namespace Pattern

/-- A pattern that fits its role is what its notation is read as. -/
theorem parse_of_fits {role : PatternRole} {p : Pattern} (h : p.Fits role) :
    parse role p.render = .ok p := by
  obtain ⟨terms⟩ := p
  obtain ⟨first, later, rfl⟩ := List.exists_cons_of_ne_nil h.ne_nil
  obtain ⟨runs, after, hscans, hpieces⟩ := PatternParser.scans_intercalate h.forall_mem .start
  obtain ⟨last, hlast, hreading⟩ := PatternToken.Scans.reading_eq hscans
  rw [parse, render, hreading, Parser.run, Feed.ofReading_of_ending rfl]
  dsimp only
  rw [PatternParser.pattern_of_forall₂ hlast hpieces h.ne_nil]
  rfl

/-- What is read as a pattern fits the role it is read in, and every pattern that fits a role
is what its own notation is read as in this role. -/
theorem fits_of_parse_and_parse_of_fits (role : PatternRole) :
    (∀ source p, parse role source = .ok p → p.Fits role) ∧
      ∀ p, p.Fits role → parse role p.render = .ok p :=
  ⟨fun _ _ => fits_of_parse, fun _ => parse_of_fits⟩

/-- A template whose pieces touch each other is read as a pattern that fits, and this is read
again from its notation, where blanks set the pieces apart. -/
theorem fits_of_parse_and_parse_of_fits_of_touching :
    let p : Pattern := ⟨[.literal "f", .literal "(", .literal "x", .literal ")=", .literal "1.5",
      .literal ",-.", .argument 0, .literal "is", .output, .literal "!"]⟩
    parse .template "f(x)=1.5,-.\x7b0\x7dis \x7boutput\x7d!" = .ok p ∧ p.Fits .template ∧
      p.render = "f ( x )= 1.5 ,-. \x7b0\x7d is \x7boutput\x7d !" ∧
        parse .template p.render = .ok p := by
  intro p
  have h : parse .template "f(x)=1.5,-.\x7b0\x7dis \x7boutput\x7d!" = .ok p := by decide +kernel
  have hfits : p.Fits .template := (fits_of_parse_and_parse_of_fits .template).1 _ p h
  exact ⟨h, hfits, by decide +kernel, (fits_of_parse_and_parse_of_fits .template).2 p hfits⟩

end Pattern

end MathQuery
