import MathQuery.Answer
import MathQuery.Proofs.Algebra.Origin
import MathQuery.Proofs.Markup.Formulas
import MathQuery.Proofs.Markup.Groups
import MathQuery.Proofs.Pattern.Notation
import MathQuery.Proofs.Schema.Matching

/-!
# The groups of an answer

An answer in LaTeX is balanced, if the result is, unless a literal of its template ends in an
odd number of backslashes.  What queries say and what is captured from them has no backslash in
it, but a template may have: the last one then takes along the brace that is to close the text.

* `Value.Typeset`, `Trie.typeset_of_matchStatement` – what is captured from queries;
* `Answer.Provides` – a computation that only adds terms, with a property of its value;
* `PatternTerm.groupsOpened` – the groups that a piece of a template leaves open;
* `Answer.balanced_format_iff` – the answers that are balanced;
* `Answer.not_balanced_format` – an answer that is not.
-/

namespace MathQuery

open Markup TermTable

/-! ## What queries say -/

theorem isOrdinary_of_isWord {cs : List Char} (h : IsWord cs) : ∀ c ∈ cs, isOrdinary c = true := by
  obtain ⟨-, hletters⟩ := h
  exact fun c hc => isOrdinary_of_isAlphanumeric (hletters c hc)

theorem isOrdinary_of_isNumeral {cs : List Char} (h : IsNumeral cs) :
    ∀ c ∈ cs, isOrdinary c = true := by
  have hdigit {d : Char} (hd : d.isDigit = true) : isOrdinary d = true :=
    isOrdinary_of_isAlphanumeric (isAlphanumeric_of_isDigit hd)
  cases h with
  | whole _ hds => exact fun d hd => hdigit (hds d hd)
  | decimal _ hds hfs =>
    refine List.forall_mem_append.mpr ⟨fun d hd => hdigit (hds d hd), ?_⟩
    exact List.forall_mem_cons.mpr ⟨rfl, fun d hd => hdigit (hfs d hd)⟩

theorem Markup.Closed.inPlainParens {text : String} (h : Closed text) :
    Closed ("(" ++ text ++ ")") := by
  have hopening : Closed "(" := closed_symbols rfl
  have hclosing : Closed ")" := closed_symbols rfl
  exact (hopening.append h).append hclosing

namespace Expr

theorem closed_binary (op : BinaryOp) {left right : Expr} (hl : Closed left.render)
    (hr : Closed right.render) : Closed (binary op left right).render := by
  have hparens (parens : Bool) {text : String} (h : Closed text) :
      Closed (parenthesized parens text) := by
    cases parens with
    | false => exact h
    | true => exact h.inPlainParens
  rw [render]
  exact ((hparens _ hl).append (Term.closed_sign op)).append (hparens _ hr)

theorem renderEach_eq_map (es : List Expr) : renderEach es = es.map render := by
  induction es with
  | nil => rw [renderEach, List.map_nil]
  | cons e es ih => rw [renderEach, List.map_cons, ih]

/-- What a query says has neither braces nor backslashes. -/
theorem Legible.closed {e : Expr} (h : e.Legible) : Closed e.render := by
  induction h with
  | number h =>
    rw [render]
    exact closed_ordinary (isOrdinary_of_isNumeral h)
  | symbol h =>
    rw [render]
    exact closed_ordinary (isOrdinary_of_isWord h)
  | negative sign _ ih =>
    have hone : Closed "-1" := closed_symbols rfl
    have hminus : Closed (Expr.number ⟨"-1", sign⟩).render := by rwa [render]
    exact closed_binary .mul hminus ih
  | binary _ _ _ ihl ihr => exact closed_binary _ ihl ihr
  | call hname _ ih =>
    have harguments := Closed.intercalate (List.forall_mem_map.mpr ih)
    have hword := closed_ordinary (isOrdinary_of_isWord hname)
    have happlied := hword.append harguments.inPlainParens
    rw [render, renderEach_eq_map]
    rwa [← String.append_assoc, ← String.append_assoc] at happlied

theorem LegibleEquation.closed {e : Expr} (h : e.LegibleEquation) : Closed e.render := by
  cases h with
  | term h => exact h.closed
  | equal hl hr => exact closed_binary .equal hl.closed hr.closed

end Expr

/-- A legible term has names of letters and digits. -/
theorem Term.Legible.lettered {t : Term} (h : t.Legible) : t.Lettered := by
  induction h with
  | number value => exact .number value
  | symbol h => exact .symbol (.of_isWord h)
  | operation _ _ _ ihl ihr => exact .operation _ ihl ihr
  | application hname _ ih => exact .application (.of_isWord hname) ih

theorem Term.LegibleEquation.lettered {t : Term} (h : t.LegibleEquation) : t.Lettered := by
  cases h with
  | term h => exact h.lettered
  | equal hl hr => exact .operation _ hl.lettered hr.lettered

/-! ## What is captured -/

/-- A value whose text in LaTeX is well nested. -/
def Value.Typeset : Value → Prop
  | .expression e => e.LegibleEquation
  | .text s => Closed s
  | .integer _ => True

theorem Expr.LegibleEquation.typeset_capture {e : Expr} (h : e.LegibleEquation)
    {type : ArgumentType} {value : Value} (hvalue : e.capture type = .ok value) :
    value.Typeset := by
  cases type with
  | expression =>
    obtain rfl := Except.ok.inj hvalue
    exact h
  | text =>
    obtain rfl := Except.ok.inj hvalue
    exact h.closed
  | integer =>
    rw [Expr.capture] at hvalue
    split at hvalue
    · obtain rfl := Except.ok.inj hvalue
      trivial
    · contradiction

theorem Expr.LegibleEquation.closed_word? {e : Expr} (h : e.LegibleEquation) {w : String}
    (hw : e.word? = some w) : Closed w := by
  cases e with
  | symbol name =>
    obtain rfl : name.text = w := Option.some.inj hw
    have hclosed := h.closed
    rwa [Expr.render] at hclosed
  | number _ | binary _ _ _ | call _ _ => contradiction

namespace Trie

/-- Everything that is captured is typeset well. -/
abbrev AllTypeset (captured : Arguments) : Prop :=
  ∀ index value, captured.get? index = some value → value.Typeset

theorem AllTypeset.insert {captured : Arguments} (h : AllTypeset captured) {index : ℕ}
    {value : Value} (hvalue : value.Typeset) : AllTypeset (captured.insert index value) := by
  intro other value' hget
  rw [Arguments.get?_insert] at hget
  split at hget
  · exact Option.some.inj hget ▸ hvalue
  · exact h other value' hget

theorem AllTypeset.follow {t node : Trie} {captured longer : Arguments} {term : Expr}
    (h : AllTypeset captured) (hterm : term.LegibleEquation)
    (hfollow : t.follow captured term = .ok (node, longer)) : AllTypeset longer := by
  unfold Trie.follow at hfollow
  split at hfollow
  · next w hw =>
    split at hfollow
    · obtain ⟨-, rfl⟩ := Prod.mk.inj (Except.ok.inj hfollow)
      exact h
    · obtain ⟨-, rfl⟩ := Prod.mk.inj (Except.ok.inj hfollow)
      exact h.insert (hterm.closed_word? hw)
    · contradiction
  · split at hfollow
    · obtain ⟨value, hvalue, hfollow⟩ := Except.bind_eq_ok.mp hfollow
      obtain ⟨-, rfl⟩ := Prod.mk.inj (Except.ok.inj hfollow)
      exact h.insert (hterm.typeset_capture hvalue)
    · contradiction

theorem AllTypeset.matchFrom {t : Trie} {captured : Arguments} {last : Position}
    {terms : List Expr} {m : Match} (h : AllTypeset captured)
    (hterms : ∀ e ∈ terms, e.LegibleEquation)
    (hmatch : t.matchFrom captured last terms = .ok m) : AllTypeset m.arguments := by
  induction terms generalizing t captured last with
  | nil =>
    rw [Trie.matchFrom] at hmatch
    split at hmatch
    · obtain rfl := Except.ok.inj hmatch
      exact h
    · contradiction
  | cons term terms ih =>
    obtain ⟨hterm, hterms⟩ := List.forall_mem_cons.mp hterms
    rw [Trie.matchFrom] at hmatch
    split at hmatch
    · next hfollow => exact ih (h.follow hterm hfollow) hterms hmatch
    · contradiction

/-- What a statement of a query leaves captured is typeset well, in whatever schema. -/
theorem typeset_of_matchStatement {source : String} {program : Program} {s : Statement}
    {t : Trie} {m : Match} (hparse : parse source = .ok program) (hs : s ∈ program.statements)
    (hmatch : t.matchStatement s = .ok m) : AllTypeset m.arguments := by
  have hterms : ∀ e ∈ s.terms, e.LegibleEquation := fun e he =>
    legible_of_parse hparse (List.mem_flatMap.mpr ⟨s, hs, he⟩)
  have hempty : AllTypeset .empty := fun _ _ hget => nomatch hget
  exact hempty.matchFrom hterms hmatch

end Trie

/-! ## Literals -/

theorem braceless_of_fits {w : String} (h : (PatternTerm.literal w).Fits .template) :
    ∀ c ∈ w.toList, c ≠ '\x7b' ∧ c ≠ '\x7d' := by
  intro c hc
  rcases h with hword | hnumeral | ⟨-, hpunctuation⟩
  · exact (isOrdinary_iff.mp (isOrdinary_of_isWord hword c hc)).2
  · exact (isOrdinary_iff.mp (isOrdinary_of_isNumeral hnumeral c hc)).2
  · -- braces are no punctuation
    have hmark := hpunctuation.forall_mem c hc
    constructor <;> rintro rfl <;> contradiction

/-- The number of groups that a piece of a template leaves open in LaTeX. -/
def PatternTerm.groupsOpened : PatternTerm → ℕ
  | .literal w => if Odd (trailingBackslashes w.toList) then 1 else 0
  | _ => 0

theorem PatternTerm.groupsOpened_eq_zero_iff {piece : PatternTerm} : piece.groupsOpened = 0 ↔
    ∀ w, piece = .literal w → ¬Odd (trailingBackslashes w.toList) := by
  cases piece with
  | literal w => simp [groupsOpened]
  | slot _ | argument _ | output => simp [groupsOpened]

/-- A text leaves as many groups open as a piece of a template. -/
def PatternTerm.Opens (piece : PatternTerm) (text : String) : Prop :=
  ∀ depth, depthAfter depth text.toList = some (depth + piece.groupsOpened)

theorem PatternTerm.opens_literal {w : String} (h : (PatternTerm.literal w).Fits .template) :
    (PatternTerm.literal w).Opens (Style.latex.words w) := by
  intro depth
  have hopening : depthAfter depth (Style.latex.words w).toList =
      depthAfter (depth + 1) (w.toList ++ ['\x7d']) := by
    simp [Style.words, Style.braced, depthAfter]
  rw [hopening, depthAfter_closing (braceless_of_fits h), PatternTerm.groupsOpened]
  split <;> rfl

theorem PatternTerm.opens_of_balanced {piece : PatternTerm} {text : String}
    (h : IsBalanced text) (hpiece : piece.groupsOpened = 0) : piece.Opens text := by
  intro depth
  rw [h.depthAfter_eq, hpiece, Nat.add_zero]

/-! ## Answers -/

namespace Answer

section Providing

variable {α β : Type} {base : TermTable} {P : α → Prop} {Q : β → Prop}

/-- Wherever a computation ends in a value, from some table on, it has only added terms, and the
value has a property. -/
def Provides (base : TermTable) (P : α → Prop) (c : Compiler α) : Prop :=
  ∀ table later a, table.Extends base → c table = .ok a later → later.Extends table ∧ P a

theorem provides_pure {a : α} (h : P a) : Provides base P (pure a) := by
  intro table later a' _ hrun
  obtain ⟨rfl, rfl⟩ : a = a' ∧ table = later := by simpa [pure, EStateM.pure] using hrun
  exact ⟨.refl table, h⟩

theorem provides_throw (e : Failure) : Provides base P (throw e) :=
  fun _ _ _ _ hrun => nomatch hrun

theorem Provides.bind {c : Compiler α} {next : α → Compiler β} (h : Provides base P c)
    (hnext : ∀ a, P a → Provides base Q (next a)) : Provides base Q (c >>= next) := by
  intro table later b hbase hrun
  cases hc : c table with
  | error e middle =>
    rw [bind_of_error hc] at hrun
    contradiction
  | ok a middle =>
    rw [bind_of_ok hc] at hrun
    obtain ⟨hextends, ha⟩ := h table middle a hbase hc
    obtain ⟨hextends', hb⟩ := hnext a ha middle later b (hbase.trans hextends) hrun
    exact ⟨hextends.trans hextends', hb⟩

end Providing

open Compiler

section Format

variable (functions : FunctionTable) {base : TermTable}

/-- An expression of a query is compiled, and its term is written. -/
theorem provides_expression {e : Expr} (h : e.LegibleEquation) :
    Provides base Closed (value functions .latex (.expression e)) := by
  intro table later text hbase hrun
  rw [value] at hrun
  cases hcompile : compile functions e table with
  | error failure middle =>
    rw [bind_of_error hcompile] at hrun
    contradiction
  | ok handle middle =>
    obtain ⟨t, hterm, hextends, hstands⟩ :=
      (gives_compile functions e).of_run (.refl table) hcompile
    rw [bind_of_ok hcompile, Builder.render_of_term .latex hstands] at hrun
    obtain ⟨rfl, rfl⟩ := EStateM.Result.ok.inj hrun
    exact ⟨hextends, (h.compiled hterm).lettered.closed⟩

theorem provides_value {captured : Value} (h : captured.Typeset) :
    Provides base Closed (value functions .latex captured) := by
  cases captured with
  | expression e => exact provides_expression functions h
  | text s =>
    have hcommand : Closed "\\text" := .of_brackets fun rest => by simp [brackets]
    exact provides_pure (hcommand.append (Closed.braced h))
  | integer n => exact provides_pure (closed_whole n)

variable (operation : String) {arguments : Arguments} {result : Handle} {r : Term}

/-- Each piece of a template is written with the groups that it leaves open. -/
theorem provides_piece (harguments : Trie.AllTypeset arguments) (hr : base.term result = .ok r)
    (hbalanced : IsBalanced (r.render .latex)) {piece : PatternTerm}
    (hpiece : piece.Fits .template) :
    Provides base (fun text? => ∃ text, text? = some text ∧ piece.Opens text)
      (Answer.piece functions .latex operation arguments result piece) := by
  cases piece with
  | literal w => exact provides_pure ⟨_, rfl, PatternTerm.opens_literal hpiece⟩
  | slot declared => exact absurd hpiece.1 nofun
  | output =>
    intro table later text? hbase hrun
    rw [piece, bind_of_ok (Builder.render_of_term .latex (hbase.term hr))] at hrun
    obtain ⟨rfl, rfl⟩ := EStateM.Result.ok.inj hrun
    exact ⟨.refl table, _, rfl, PatternTerm.opens_of_balanced hbalanced rfl⟩
  | argument index =>
    rw [piece, argument]
    cases hget : arguments.get? index with
    | none => exact (provides_throw _ : Provides base (fun _ => False) _).bind fun _ => False.elim
    | some captured =>
      have hcaptured := harguments index captured hget
      refine (provides_pure hcaptured).bind fun captured hcaptured => ?_
      refine (provides_value functions hcaptured).bind fun text htext => ?_
      exact provides_pure ⟨text, rfl, PatternTerm.opens_of_balanced htext.balanced rfl⟩

theorem provides_pieces (harguments : Trie.AllTypeset arguments) (hr : base.term result = .ok r)
    (hbalanced : IsBalanced (r.render .latex)) {terms : List PatternTerm}
    (hterms : ∀ piece ∈ terms, piece.Fits .template) :
    Provides base (List.Forall₂ PatternTerm.Opens terms)
      (pieces functions .latex operation arguments result terms) := by
  induction terms with
  | nil => exact provides_pure .nil
  | cons piece terms ih =>
    obtain ⟨hpiece, hterms⟩ := List.forall_mem_cons.mp hterms
    refine (provides_piece functions operation harguments hr hbalanced hpiece).bind ?_
    rintro _ ⟨text, rfl, htext⟩
    exact (ih hterms).bind fun later hlater => provides_pure (.cons htext hlater)

end Format

/-- Pieces with separators between them leave open what each of them leaves open. -/
theorem depthAfter_intercalate {terms : List PatternTerm} {texts : List String}
    (h : List.Forall₂ PatternTerm.Opens terms texts) (depth : ℕ) :
    depthAfter depth ("\\ ".intercalate texts).toList =
      some (depth + (terms.map PatternTerm.groupsOpened).sum) := by
  induction h generalizing depth with
  | nil => rfl
  | @cons piece text terms texts hfirst hlater ih =>
    rw [List.map_cons, List.sum_cons]
    cases texts with
    | nil =>
      cases hlater
      rw [String.intercalate_singleton, hfirst]
      rfl
    | cons text' texts =>
      have htext : ("\\ ".intercalate (text :: text' :: texts)).toList =
          text.toList ++ '\\' :: ' ' :: ("\\ ".intercalate (text' :: texts)).toList := by
        rw [String.intercalate_cons_of_ne_nil (List.cons_ne_nil _ _)]
        simp
      rw [htext, depthAfter_separator, hfirst, Option.bind_some, ih, Nat.add_assoc]

theorem provides_format (functions : FunctionTable) (operation : String) {base : TermTable}
    {arguments : Arguments} {result : Handle} {r : Term} {template : Pattern}
    (htemplate : template.Fits .template) (harguments : Trie.AllTypeset arguments)
    (hr : base.term result = .ok r) (hbalanced : IsBalanced (r.render .latex)) :
    Provides base (fun text => ∀ depth, depthAfter depth text.toList =
        some (depth + (template.terms.map PatternTerm.groupsOpened).sum))
      (format functions .latex operation template arguments result) := by
  have hpieces := provides_pieces functions operation harguments hr hbalanced htemplate.forall_mem
  exact hpieces.bind fun texts htexts => provides_pure (depthAfter_intercalate htexts)

/-- The groups that are open behind an answer in LaTeX, whatever the query, the schema that it was
matched in, the template and the functions, if the LaTeX of the result is balanced.  As many are
open as literals of the template end in an odd number of backslashes, so the answer is balanced
if there is no such literal, and only then.  The group of such a literal is not closed by the
brace behind it, that of every other literal is, and so is that of every captured text. -/
theorem balanced_format_iff {written source : String} {template : Pattern} {program : Program}
    {s : Statement} {t : Trie} {m : Match} {result : Handle} {r : Term} {table later : TermTable}
    {text : String} (functions : FunctionTable) (operation : String)
    (htemplate : Pattern.parse .template written = .ok template)
    (hparse : parse source = .ok program) (hs : s ∈ program.statements)
    (hmatch : t.matchStatement s = .ok m) (hr : table.term result = .ok r)
    (hbalanced : IsBalanced (r.render .latex))
    (hformat : format functions .latex operation template m.arguments result table =
      .ok text later) :
    depthAfter 0 text.toList = some (template.terms.map PatternTerm.groupsOpened).sum ∧
    (IsBalanced text ↔
      ∀ w, PatternTerm.literal w ∈ template.terms → ¬Odd (trailingBackslashes w.toList)) ∧
    (∀ w, PatternTerm.literal w ∈ template.terms → ∀ depth rest,
      depthAfter (depth + 1) (w.toList ++ '\x7d' :: rest) =
        depthAfter (if Odd (trailingBackslashes w.toList) then depth + 1 else depth) rest) ∧
    ∀ index w, m.arguments.get? index = some (.text w) → ∀ depth rest,
      depthAfter (depth + 1) (w.toList ++ '\x7d' :: rest) = depthAfter depth rest := by
  have hfits := Pattern.fits_of_parse htemplate
  have harguments := Trie.typeset_of_matchStatement hparse hs hmatch
  have hdepth := (provides_format functions operation hfits harguments hr hbalanced
    table later text (.refl table) hformat).2 0
  rw [Nat.zero_add] at hdepth
  refine ⟨hdepth, ?_, fun w hw => ?_, fun index w hw depth rest => ?_⟩
  · rw [IsBalanced, hdepth, Option.some_inj, List.sum_eq_zero_iff, List.forall_mem_map]
    simp only [PatternTerm.groupsOpened_eq_zero_iff]
    exact ⟨fun h w hw => h _ hw w rfl, fun h _ hpiece w heq => h w (heq ▸ hpiece)⟩
  · exact depthAfter_closing (braceless_of_fits (hfits.forall_mem _ hw))
  · have hclosed : Closed w := harguments index _ hw
    rw [hclosed.depthAfter_append, depthAfter]

/-- The answer to `reduce x/2` with the template `{0} is {output}` is balanced. -/
theorem balanced_format_iff_of_words :
    let half : Expr := .binary .div (.symbol ⟨"x", ⟨1, 8⟩⟩) (.number ⟨"2", ⟨1, 10⟩⟩)
    let s : Statement := [[.symbol ⟨"reduce", ⟨1, 1⟩⟩, half]]
    let template : Pattern := ⟨[.argument 0, .literal "is", .output]⟩
    let entry : Entry := ⟨"reduce", "", "", ⟨[.literal "reduce", .slot ⟨0, .expression⟩]⟩, template⟩
    let t : Trie :=
      ⟨none, .word "reduce" none (.slot ⟨0, .expression⟩ (some entry) .none) .none⟩
    let m : Match := ⟨entry, ⟨[(0, .expression half)]⟩⟩
    let table : TermTable := ⟨#[.symbol "x"]⟩
    let text := "\\frac\x7bx\x7d\x7b2\x7d\\ \\text\x7bis\x7d\\ x"
    Pattern.parse .template "\x7b0\x7d is \x7boutput\x7d" = .ok template ∧
      parse "reduce x/2" = .ok ⟨[s]⟩ ∧ t.matchStatement s = .ok m ∧
      table.term 0 = .ok (.symbol "x") ∧
      (∃ later, format .standard .latex "reduce" template m.arguments 0 table = .ok text later) ∧
      IsBalanced text := by
  intro half s template entry t m table text
  have htemplate : Pattern.parse .template "\x7b0\x7d is \x7boutput\x7d" = .ok template := by
    decide +kernel
  have hparse : parse "reduce x/2" = .ok ⟨[s]⟩ := by decide +kernel
  have hmatch : t.matchStatement s = .ok m := by decide +kernel
  have hr : table.term 0 = .ok (.symbol "x") := rfl
  have hbalanced : IsBalanced ((Term.symbol "x").render .latex) := by decide +kernel
  obtain ⟨later, hformat⟩ : ∃ later,
      format .standard .latex "reduce" template m.arguments 0 table = .ok text later :=
    ⟨_, rfl⟩
  refine ⟨htemplate, hparse, hmatch, hr, ⟨later, hformat⟩, ?_⟩
  have hiff := (balanced_format_iff .standard "reduce" htemplate hparse List.mem_cons_self hmatch hr
    hbalanced hformat).2.1
  refine hiff.mpr fun w hw => ?_
  obtain rfl : w = "is" := by simpa [template] using hw
  decide +kernel

/-- A template that is a single backslash is read, but the answer that it gives to `reduce x` has
a group that is not closed: its backslash takes the closing brace along. -/
theorem not_balanced_format :
    let s : Statement := [[.symbol ⟨"reduce", ⟨1, 1⟩⟩, .symbol ⟨"x", ⟨1, 8⟩⟩]]
    let template : Pattern := ⟨[.literal "\\"]⟩
    let entry : Entry := ⟨"reduce", "", "", ⟨[.literal "reduce", .slot ⟨0, .expression⟩]⟩, template⟩
    let t : Trie :=
      ⟨none, .word "reduce" none (.slot ⟨0, .expression⟩ (some entry) .none) .none⟩
    let m : Match := ⟨entry, ⟨[(0, .text "x")]⟩⟩
    let table : TermTable := ⟨#[.symbol "x"]⟩
    let text := "\\text\x7b\\\x7d"
    Pattern.parse .template "\\" = .ok template ∧ parse "reduce x" = .ok ⟨[s]⟩ ∧
      t.matchStatement s = .ok m ∧ table.term 0 = .ok (.symbol "x") ∧
      IsBalanced ((Term.symbol "x").render .latex) ∧
      format .standard .latex "reduce" template m.arguments 0 table = .ok text table ∧
      depthAfter 0 text.toList = some 1 ∧ ¬IsBalanced text := by
  intro s template entry t m table text
  exact ⟨by decide +kernel, by decide +kernel, by decide +kernel, rfl, by decide +kernel, rfl,
    by decide +kernel, by decide +kernel⟩

end Answer

end MathQuery
