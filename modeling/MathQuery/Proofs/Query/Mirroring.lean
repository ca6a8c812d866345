import MathQuery.Proofs.Query.Relocation
import MathQuery.Proofs.Query.Soundness
import MathQuery.Proofs.Text.Agreement

/-!
# What the parser sees of blanks and signs

Of the blanks in front of a lexeme the parser asks only behind a number, a word or a closing
parenthesis, and only if the lexeme begins a primary.  Where two lexemes that touch are a
product, it makes no difference to it whether the sign of the product is written.  Lexemes
that mirror each other differ in nothing but this and their places, and the parser does the
same on both sides: it reads the same program, or fails with the same error.

* `Grammar.Mirrored` – lexemes that the parser treats alike, behind a lexeme of a kind;
* `Grammar.Aligned` – the same where no sign can be missing;
* `QueryParser.alike_primary` – primaries on both sides, by induction on the depth;
* `QueryParser.alike_program` – all lexemes of two queries;
* `parseUnplaced_eq_of_mirrored` – the texts of mirrored lexemes read alike.
-/

namespace MathQuery

/-! ## Up to places -/

/-- The characters of an error without their place. -/
def LexicalError.unplaced : LexicalError → LexicalError
  | malformedNumber literal _ => malformedNumber literal .start
  | unexpectedCharacter c _ => unexpectedCharacter c .start

/-- What an error of the grammar says without the place it points to. -/
def GrammarError.unplaced : GrammarError → GrammarError
  | unexpectedToken expected found _ => unexpectedToken expected found .start
  | missingArgument function _ => missingArgument function .start
  | unterminatedCall function _ => unterminatedCall function .start
  | unknownType name _ => unknownType name .start
  | invalidSlotIndex found _ => invalidSlotIndex found .start
  | invalidTemplateName name _ => invalidTemplateName name .start
  | unterminatedSlot _ => unterminatedSlot .start
  | misplacedArgument kind context _ => misplacedArgument kind context .start

/-- What is wrong with a query without the place of the term. -/
def MatchError.unplaced : MatchError → MatchError
  | incomplete _ => incomplete .start
  | noEdge found _ => noEdge found .start
  | notInteger found _ => notInteger found .start

/-- A failure up to the place it points to. -/
def Failure.unplaced : Failure → Failure
  | lexical e => lexical e.unplaced
  | grammar e => grammar e.unplaced
  | matching e => matching e.unplaced
  | dispatch e => dispatch e
  | algebra e => algebra e
  | setup e => setup e

/-- A program up to the places of its leaves. -/
def Program.unplaced (p : Program) : Program :=
  ⟨p.statements.map (List.map (List.map Expr.unplaced))⟩

/-- What reading a query comes to, up to places. -/
def parseUnplaced (source : String) : Except Failure Program :=
  ((parse source).map Program.unplaced).mapError Failure.unplaced

theorem Expr.relocateEach_eq_map (f : Position → Position) (es : List Expr) :
    relocateEach f es = es.map (relocate f) := by
  induction es with
  | nil => rfl
  | cons e es ih => rw [relocateEach, ih, List.map_cons]

/-! ## Mirrored lexemes -/

/-- Two lexemes of the same kind and text. -/
structure Lexeme.SameToken (l l' : Lexeme) : Prop where
  kind : l.kind = l'.kind
  text : l.text = l'.text

instance {l l' : Lexeme} : Decidable (l.SameToken l') :=
  decidable_of_iff (l.kind = l'.kind ∧ l.text = l'.text)
    ⟨fun ⟨hkind, htext⟩ => ⟨hkind, htext⟩, fun h => ⟨h.kind, h.text⟩⟩

theorem Lexeme.SameToken.trans {l m n : Lexeme} (h : l.SameToken m) (h' : m.SameToken n) :
    l.SameToken n :=
  ⟨h.kind.trans h'.kind, h.text.trans h'.text⟩

theorem Lexeme.SameToken.is_eq {l l' : Lexeme} (h : l.SameToken l') (kind : TokenKind) :
    l'.is kind = l.is kind :=
  congrArg (· == kind) h.kind.symm

theorem Lexeme.SameToken.found {l l' : Lexeme} (h : l.SameToken l') : l.found = l'.found := by
  rw [Lexeme.found, Lexeme.found, h.is_eq, h.text]

namespace Grammar

open Lexeme (SameToken)

/-- The kinds of lexemes that a primary ends with. -/
inductive EndsPrimary : TokenKind → Prop
  | number : EndsPrimary .number
  | identifier : EndsPrimary .identifier
  | closeParen : EndsPrimary .closeParen

theorem endsPrimary_iff {kind : TokenKind} :
    EndsPrimary kind ↔ kind = .number ∨ kind = .identifier ∨ kind = .closeParen := by
  constructor
  · rintro (_ | _ | _) <;> simp
  · rintro (rfl | rfl | rfl) <;> constructor

instance : DecidablePred EndsPrimary := fun _ => decidable_of_iff' _ endsPrimary_iff

/-- The pairs of kinds of lexemes that are a product when they touch. -/
inductive ProductPair : TokenKind → TokenKind → Prop
  | numberOpen : ProductPair .number .openParen
  | numberIdentifier : ProductPair .number .identifier
  | closeOpen : ProductPair .closeParen .openParen
  | closeIdentifier : ProductPair .closeParen .identifier
  | closeNumber : ProductPair .closeParen .number

theorem productPair_iff {k kind : TokenKind} :
    ProductPair k kind ↔ k = .number ∧ (kind = .openParen ∨ kind = .identifier) ∨
      k = .closeParen ∧ BeginsPrimary kind := by
  constructor
  · rintro (_ | _ | _ | _ | _) <;> simp [beginsPrimary_iff]
  · rintro (⟨rfl, rfl | rfl⟩ | ⟨rfl, _ | _ | _⟩) <;> constructor

instance {k kind : TokenKind} : Decidable (ProductPair k kind) :=
  decidable_of_iff' _ productPair_iff

theorem ProductPair.ends {k kind : TokenKind} (h : ProductPair k kind) : EndsPrimary k := by
  cases h <;> constructor

theorem ProductPair.begins {k kind : TokenKind} (h : ProductPair k kind) : BeginsPrimary kind := by
  cases h <;> constructor

/-- Lexemes that the parser treats alike, behind a lexeme of kind `k`.  The tokens are the
same and blanks stand in front of the same ones, as far as the parser asks for them; on the
right side signs may be written in products that have none on the left. -/
inductive Mirrored : TokenKind → List Lexeme → List Lexeme → Prop
  | nil {k : TokenKind} : Mirrored k [] []
  | cons {k : TokenKind} {l l' : Lexeme} {ts ts' : List Lexeme} (htoken : l.SameToken l')
    (hspaced : EndsPrimary k → BeginsPrimary l.kind → l.spaced = l'.spaced)
    (htail : Mirrored l.kind ts ts') : Mirrored k (l :: ts) (l' :: ts')
  | sign {k : TokenKind} {l star l' : Lexeme} {ts ts' : List Lexeme} (hspaced : l.spaced = false)
    (hpair : ProductPair k l.kind) (hstar : star.kind = .star) (htoken : l.SameToken l')
    (htail : Mirrored l.kind ts ts') : Mirrored k (l :: ts) (star :: l' :: ts')

/-- Lexemes of which the first ones are the same token, and those behind it mirror each
other. -/
inductive Aligned : List Lexeme → List Lexeme → Prop
  | nil : Aligned [] []
  | cons {l l' : Lexeme} {ts ts' : List Lexeme} (htoken : l.SameToken l')
    (htail : Mirrored l.kind ts ts') : Aligned (l :: ts) (l' :: ts')

/-- Where the next lexeme is no product with the last one, no sign is missing. -/
theorem Mirrored.aligned_of_not_pair {k : TokenKind} {ts ts' : List Lexeme}
    (h : Mirrored k ts ts') (hpair : ∀ l ∈ ts.head?, ¬ ProductPair k l.kind) : Aligned ts ts' := by
  cases h with
  | nil => exact .nil
  | cons htoken _ htail => exact .cons htoken htail
  | sign _ hproduct _ _ _ => exact absurd hproduct (hpair _ rfl)

theorem Mirrored.aligned {k : TokenKind} {ts ts' : List Lexeme} (h : Mirrored k ts ts')
    (hk : ¬ EndsPrimary k) : Aligned ts ts' :=
  h.aligned_of_not_pair fun _ _ hpair => hk hpair.ends

/-- What touches a word is the beginning of a call and no operand of a product. -/
theorem Mirrored.aligned_of_word {ts ts' : List Lexeme} (h : Mirrored .identifier ts ts') :
    Aligned ts ts' :=
  h.aligned_of_not_pair fun _ _ => nofun

theorem Mirrored.aligned_of_current {k : TokenKind} {last : Lexeme} {ts ts' : List Lexeme}
    (h : Mirrored k ts ts') (hcurrent : ¬ BeginsPrimary (Feed.ofList last ts).current.kind) :
    Aligned ts ts' := by
  refine h.aligned_of_not_pair fun l hl hpair => hcurrent ?_
  obtain ⟨rest, rfl⟩ := List.head?_eq_some_iff.mp hl
  exact hpair.begins

/-- The kind of the lexeme that a primary of this shape ends with. -/
inductive EndsWith : Shape → TokenKind → Prop
  | number : EndsWith .number .number
  | symbol : EndsWith .symbol .identifier
  | call : EndsWith .call .closeParen
  | group : EndsWith .group .closeParen

variable {shape : Shape} {k kind : TokenKind}

theorem EndsWith.ends (h : EndsWith shape k) : EndsPrimary k := by
  cases h <;> constructor

/-- What the grammar says of kinds, the parser decides by the shape of the last primary. -/
theorem EndsWith.multiplies (h : EndsWith shape k) (hpair : ProductPair k kind) :
    shape.multiplies kind = true := by
  cases h <;> cases hpair <;> rfl

theorem beginsPrimary_of_multiplies (h : shape.multiplies kind = true) : BeginsPrimary kind := by
  rcases QueryParser.multiplies_eq_true_iff.mp h with hpair | ⟨-, rfl⟩
  · exact hpair.begins
  · exact .number

end Grammar

namespace QueryParser

open Grammar MathQuery.Parser
open Lexeme (SameToken)

/-! ## Both sides of a run -/

/-- Proper lexemes, fewer than the levels of parentheses that are allowed. -/
structure Within (depth : ℕ) (ts : List Lexeme) : Prop where
  proper : Lexeme.Proper ts
  length_lt : ts.length < depth

section Within

variable {depth : ℕ} {l : Lexeme} {ts : List Lexeme}

theorem Within.inner (h : Within (depth + 1) (l :: ts)) : Within depth ts :=
  ⟨h.proper.tail, Nat.lt_of_succ_lt_succ h.length_lt⟩

theorem Within.outer (h : Within depth ts) : Within (depth + 1) ts :=
  ⟨h.proper, Nat.lt_succ_of_lt h.length_lt⟩

theorem Within.tail (h : Within depth (l :: ts)) : Within depth ts :=
  ⟨h.proper.tail, (Nat.lt_succ_self _).trans h.length_lt⟩

end Within

/-- Related lexemes on both sides, within the depths of both. -/
structure Apace (m m' : ℕ) (R : List Lexeme → List Lexeme → Prop) (ts ts' : List Lexeme) :
    Prop where
  left : Within m ts
  right : Within m' ts'
  related : R ts ts'

/-- Two runs of parsers end in the same way, up to places. -/
abbrev Alike (last last' : Lexeme) {α β : Type}
    (S : α → β → List Lexeme → List Lexeme → Prop) :
    Except Failure (α × Feed Lexeme) → Except Failure (β × Feed Lexeme) → Prop :=
  Agree last last' (fun e e' => e.unplaced = e'.unplaced) S

variable {last last' : Lexeme} {α β : Type} {S : α → β → List Lexeme → List Lexeme → Prop}
  {m m' : ℕ} {k kind : TokenKind} {ts ts' : List Lexeme}

/-- Results that are the same without places, as `f` takes them off, and aligned lexemes
behind them. -/
def Same {α : Type} (f : α → α) (m m' : ℕ) (a a' : α) (ts ts' : List Lexeme) : Prop :=
  f a = f a' ∧ Apace m m' Aligned ts ts'

/-- The same operands up to places, and lexemes behind them that mirror each other. -/
structure SameOperand (m m' : ℕ) (a a' : Operand) (ts ts' : List Lexeme) : Prop where
  expr : a.expr.unplaced = a'.expr.unplaced
  shape : a.shape = a'.shape
  rest : ∃ k, EndsWith a.shape k ∧ Apace m m' (Mirrored k) ts ts'

theorem unplaced_binary {op : BinaryOp} {a a' b b' : Expr} (ha : a.unplaced = a'.unplaced)
    (hb : b.unplaced = b'.unplaced) :
    (Expr.binary op a b).unplaced = (Expr.binary op a' b').unplaced := by
  rw [Expr.unplaced_binary, Expr.unplaced_binary, ha, hb]

theorem unplaced_call {name name' : Spelling} {es es' : List Expr} (hname : name.text = name'.text)
    (hes : es.map Expr.unplaced = es'.map Expr.unplaced) :
    (Expr.call name es).unplaced = (Expr.call name' es').unplaced := by
  have harguments := (Expr.relocateEach_eq_map (fun _ => .start) es).trans
    (hes.trans (Expr.relocateEach_eq_map _ es').symm)
  rw [Expr.unplaced, Expr.unplaced, Expr.relocate, Expr.relocate, harguments, Spelling.relocate,
    Spelling.relocate, hname]

/-- The lexeme that marks the end is none of those that are left. -/
theorem notMem_of_proper (hlast : last.kind = .endOfInput) (ts : List Lexeme)
    (h : Lexeme.Proper ts) : last ∉ ts :=
  fun hmem => h.kind_ne last hmem hlast

/-- Repetitions whose steps are alike list the same results up to places. -/
theorem alike_many {α : Type} {f : α → α} {step step' : QueryParser (Option α)}
    (hlast : last.kind = .endOfInput)
    (hstep : Advances last Lexeme.Proper step) (hstep' : Advances last' Lexeme.Proper step')
    (hsteps : ∀ ts ts', Apace m m' Aligned ts ts' →
      Alike last last' (Further (Same f m m') (Apace m m' Aligned)) (step (Feed.ofList last ts))
        (step' (Feed.ofList last' ts'))) (h : Apace m m' Aligned ts ts') :
    Alike last last' (Same (List.map f) m m') (many step (Feed.ofList last ts))
      (many step' (Feed.ofList last' ts')) := by
  have hgood (ts ts' : List Lexeme) (h : Apace m m' Aligned ts ts') :
      Lexeme.Proper ts ∧ Lexeme.Proper ts' := ⟨h.left.proper, h.right.proper⟩
  refine (Agree.many (notMem_of_proper hlast) hstep hstep' hgood hsteps h).mono
    fun as as' us us' ⟨hresults, hrest⟩ => ⟨?_, hrest⟩
  rwa [← List.forall₂_eq_eq_eq, List.forall₂_map_left_iff, List.forall₂_map_right_iff]

/-- Both sides leave a lexeme that no primary ends with. -/
theorem alike_next_bind {γ δ : Type} {following : Lexeme → QueryParser γ}
    {following' : Lexeme → QueryParser δ} {S : γ → δ → List Lexeme → List Lexeme → Prop}
    (hlast : last.kind = .endOfInput) (hkind : kind ≠ .endOfInput) (hends : ¬ EndsPrimary kind)
    (hcurrent : (Feed.ofList last ts).current.kind = kind) (h : Apace m m' Aligned ts ts')
    (hnext : ∀ l l' us us', l.SameToken l' → Apace m m' Aligned us us' → Alike last last' S
      (following l (Feed.ofList last us)) (following' l' (Feed.ofList last' us'))) :
    Alike last last' S ((next >>= following) (Feed.ofList last ts))
      ((next >>= following') (Feed.ofList last' ts')) := by
  obtain ⟨l, us, rfl, rfl⟩ := exists_cons_of_current hlast hkind hcurrent
  obtain ⟨hleft, hright, _ | ⟨htoken, htail⟩⟩ := h
  rw [next_bind_ofList, next_bind_ofList]
  exact hnext _ _ _ _ htoken ⟨hleft.tail, hright.tail, htail.aligned hends⟩

section Current

variable (hlast : last.kind = .endOfInput) (hlast' : last.SameToken last')
include hlast'

/-- Aligned lexemes begin with the same token. -/
theorem sameToken_current (h : Aligned ts ts') :
    (Feed.ofList last ts).current.SameToken (Feed.ofList last' ts').current := by
  cases h with
  | nil => exact hlast'
  | cons htoken _ => exact htoken

theorem alike_unexpected (expected : String) (h : Aligned ts ts') :
    Alike last last' S (unexpected expected (Feed.ofList last ts))
      (unexpected expected (Feed.ofList last' ts')) := by
  have hfound := (sameToken_current hlast' h).found
  rw [unexpected, unexpected, current_bind, current_bind]
  refine .fail ?_
  rw [Lexeme.unexpected, Lexeme.unexpected, hfound]
  rfl

include hlast

theorem alike_nextOf (hkind : kind ≠ .endOfInput) (h : Apace m m' Aligned ts ts') :
    Alike last last' (fun _ _ us us' => Apace m m' (Mirrored kind) us us')
      (nextOf kind (Feed.ofList last ts)) (nextOf kind (Feed.ofList last' ts')) := by
  have htoken := sameToken_current hlast' h.related
  rw [nextOf, current_bind, current_bind, htoken.is_eq]
  by_cases his : (Feed.ofList last ts).current.kind = kind
  · rw [if_pos (Lexeme.is_eq_true_iff.mpr his)]
    obtain ⟨l, us, rfl, rfl⟩ := exists_cons_of_current hlast hkind his
    obtain ⟨hleft, hright, _ | ⟨hfirst, htail⟩⟩ := h
    rw [next, next, Feed.next_ofList_cons, Feed.next_ofList_cons]
    exact .ok ⟨hleft.tail, hright.tail, htail⟩
  · rw [if_neg (mt Lexeme.is_eq_true_iff.mp his)]
    exact alike_unexpected hlast' _ h.related

omit hlast in
/-- A lexeme that begins no primary is the same token on both sides, also where a sign can
be missing. -/
theorem current_of_mirrored (h : Mirrored k ts ts') (hkind : ¬ BeginsPrimary kind)
    (hstar : kind ≠ .star) :
    (Feed.ofList last' ts').current.kind = kind ↔ (Feed.ofList last ts).current.kind = kind := by
  cases h with
  | nil =>
    change last'.kind = kind ↔ last.kind = kind
    rw [hlast'.kind]
  | cons htoken _ _ => rw [Feed.current_ofList_cons, Feed.current_ofList_cons, htoken.kind]
  | @sign _ l star l' us us' _ hpair hsign _ _ =>
    refine iff_of_false ?_ ?_
    · exact fun heq => hstar (heq.symm.trans hsign)
    · exact fun heq => hkind (heq ▸ hpair.begins)

end Current

/-! ## Powers and signs -/

section Productions

variable (hlast : last.kind = .endOfInput) (hlast' : last.SameToken last')
  (hprimary : ∀ ts ts', Apace m m' Aligned ts ts' →
    Alike last last' (SameOperand m m') (primary m (Feed.ofList last ts))
      (primary m' (Feed.ofList last' ts')))
include hlast hlast' hprimary

theorem alike_power (h : Apace m m' Aligned ts ts') :
    Alike last last' (SameOperand m m') (power (primary m) (Feed.ofList last ts))
      (power (primary m') (Feed.ofList last' ts')) := by
  rw [power, power]
  refine (hprimary ts ts' h).bind fun base base' us us' hbase => ?_
  obtain ⟨hexpr, hshape, k, hk, hleft, hright, hmirrored⟩ := hbase
  have hcurrent : (Feed.ofList last' us').current.kind = .caret ↔
      (Feed.ofList last us).current.kind = .caret :=
    current_of_mirrored hlast' hmirrored (by decide) (by decide)
  rw [current_bind, current_bind]
  by_cases hcaret : (Feed.ofList last us).current.kind = .caret
  · rw [if_pos (Lexeme.is_eq_true_iff.mpr hcaret),
      if_pos (Lexeme.is_eq_true_iff.mpr (hcurrent.mpr hcaret))]
    have hbegins : ¬ BeginsPrimary (Feed.ofList last us).current.kind := by rw [hcaret]; decide
    have haligned := hmirrored.aligned_of_current hbegins
    refine alike_next_bind hlast (by decide) (by decide) hcaret ⟨hleft, hright, haligned⟩
      fun caret caret' us us' _ h => ?_
    refine (hprimary us us' h).bind fun e e' vs vs' he => ?_
    exact .pure ⟨unplaced_binary hexpr he.expr, he.shape, he.rest⟩
  · rw [if_neg (mt Lexeme.is_eq_true_iff.mp hcaret),
      if_neg (mt Lexeme.is_eq_true_iff.mp (mt hcurrent.mp hcaret))]
    exact .pure ⟨hexpr, hshape, k, hk, hleft, hright, hmirrored⟩

theorem alike_unary (h : Apace m m' Aligned ts ts') :
    Alike last last' (SameOperand m m') (unary (primary m) (Feed.ofList last ts))
      (unary (primary m') (Feed.ofList last' ts')) := by
  have htoken := sameToken_current hlast' h.related
  by_cases hminus : (Feed.ofList last ts).current.kind = .minus
  · rw [unary_of_minus hminus, unary_of_minus (htoken.kind ▸ hminus)]
    refine alike_next_bind hlast (by decide) (by decide) hminus h
      fun sign sign' us us' _ h => ?_
    refine (alike_power hlast hlast' hprimary h).bind fun a a' vs vs' ha => ?_
    exact .pure ⟨unplaced_binary rfl ha.expr, ha.shape, ha.rest⟩
  by_cases hplus : (Feed.ofList last ts).current.kind = .plus
  · rw [unary_of_plus hplus, unary_of_plus (htoken.kind ▸ hplus)]
    exact alike_next_bind hlast (by decide) (by decide) hplus h
      fun sign sign' us us' _ h => alike_power hlast hlast' hprimary h
  · rw [unary_of_ne hminus hplus, unary_of_ne (htoken.kind ▸ hminus) (htoken.kind ▸ hplus)]
    exact alike_power hlast hlast' hprimary h

/-! ## Products and sums -/

/-- Behind its sign, or where none is needed, the next operand of a product is read alike. -/
theorem alike_right (op : BinaryOp) {left left' : Operand}
    (hexpr : left.expr.unplaced = left'.expr.unplaced) {D : List Lexeme → List Lexeme → Prop}
    (h : Apace m m' Aligned ts ts') :
    Alike last last' (Further (SameOperand m m') D)
      ((unary (primary m) >>= fun right =>
        pure (some ⟨.binary op left.expr right.expr, right.shape⟩)) (Feed.ofList last ts))
      ((unary (primary m') >>= fun right =>
        pure (some ⟨.binary op left'.expr right.expr, right.shape⟩)) (Feed.ofList last' ts')) := by
  refine (alike_unary hlast hlast' hprimary h).bind fun a a' us us' ha => ?_
  exact .pure (.more ⟨unplaced_binary hexpr ha.expr, ha.shape, ha.rest⟩)

/-- One more operand is read on both sides or on none.  Where the sign of a product is on the
right side only, the left side finds the adjacent operand. -/
theorem alike_moreFactors {left left' : Operand} (h : SameOperand m m' left left' ts ts') :
    Alike last last'
      (Further (SameOperand m m') (Same Expr.unplaced m m' left.expr left'.expr))
      (moreFactors (primary m) left (Feed.ofList last ts))
      (moreFactors (primary m') left' (Feed.ofList last' ts')) := by
  obtain ⟨hexpr, hshape, k, hk, hleft, hright, hmirrored⟩ := h
  have hends : last'.kind = .endOfInput := hlast'.kind ▸ hlast
  cases hmirrored with
  | nil =>
    have hnone {last : Lexeme} (hlast : last.kind = .endOfInput) (m : ℕ) (left : Operand) :
        moreFactors (primary m) left (Feed.ofList last []) = .ok (none, Feed.ofList last []) :=
      (advances_moreFactors hlast isPrimary_begins (sound_primary hlast m) left).ends
    rw [hnone hlast, hnone hends]
    exact .ok (.done ⟨hexpr, hleft, hright, .nil⟩)
  | @cons _ l l' us us' htoken hspaced htail =>
    have haligned : Aligned (l :: us) (l' :: us') := .cons htoken htail
    by_cases hstar : l.kind = .star
    · rw [moreFactors_of_star hstar, moreFactors_of_star (htoken.kind ▸ hstar)]
      exact alike_next_bind hlast (by decide) (by decide) hstar ⟨hleft, hright, haligned⟩
        fun sign sign' vs vs' _ h => alike_right hlast hlast' hprimary .mul hexpr h
    by_cases hslash : l.kind = .slash
    · rw [moreFactors_of_slash hslash, moreFactors_of_slash (htoken.kind ▸ hslash)]
      exact alike_next_bind hlast (by decide) (by decide) hslash ⟨hleft, hright, haligned⟩
        fun sign sign' vs vs' _ h => alike_right hlast hlast' hprimary .div hexpr h
    -- only behind a primary, and in front of one, the blanks are asked for
    have hspaced (hmultiplies : left.shape.multiplies l.kind = true) : l.spaced = l'.spaced :=
      hspaced hk.ends (beginsPrimary_of_multiplies hmultiplies)
    by_cases hpair : l.spaced = false ∧ left.shape.multiplies l.kind = true
    · obtain ⟨htouches, hmultiplies⟩ := hpair
      have htouches' : l'.spaced = false := hspaced hmultiplies ▸ htouches
      have hmultiplies' : left'.shape.multiplies l'.kind = true := by
        rw [← hshape, ← htoken.kind, hmultiplies]
      rw [moreFactors_of_multiplies htouches hmultiplies,
        moreFactors_of_multiplies htouches' hmultiplies']
      exact alike_right hlast hlast' hprimary .mul hexpr ⟨hleft, hright, haligned⟩
    · have hnot (htouches : l.spaced = false) : left.shape.multiplies l.kind = false :=
        Bool.eq_false_iff.mpr fun hmultiplies => hpair ⟨htouches, hmultiplies⟩
      have hnot' (htouches : l'.spaced = false) : left'.shape.multiplies l'.kind = false := by
        rw [← hshape, ← htoken.kind]
        refine Bool.eq_false_iff.mpr fun hmultiplies => hpair ⟨?_, hmultiplies⟩
        rw [hspaced hmultiplies, htouches]
      rw [moreFactors_of_ne hstar hslash hnot,
        moreFactors_of_ne (htoken.kind ▸ hstar) (htoken.kind ▸ hslash) hnot']
      exact .ok (.done ⟨hexpr, hleft, hright, haligned⟩)
  | @sign _ l star l' us us' hspaced hpair hstar htoken htail =>
    rw [moreFactors_of_multiplies hspaced (hk.multiplies hpair), moreFactors_of_star hstar,
      next_bind_ofList]
    exact alike_right hlast hlast' hprimary .mul hexpr ⟨hleft, hright.tail, .cons htoken htail⟩

theorem alike_factor (h : Apace m m' Aligned ts ts') :
    Alike last last' (Same Expr.unplaced m m') (factor (primary m) (Feed.ofList last ts))
      (factor (primary m') (Feed.ofList last' ts')) := by
  have hends : last'.kind = .endOfInput := hlast'.kind ▸ hlast
  rw [factor, factor]
  refine (alike_unary hlast hlast' hprimary h).bind fun first first' us us' hfirst => ?_
  refine (Agree.chain (notMem_of_proper hlast)
    (advances_moreFactors hlast isPrimary_begins (sound_primary hlast m))
    (advances_moreFactors hends isPrimary_begins (sound_primary hends m'))
    (fun _ _ _ _ ⟨_, _, _, _, hleft, hright, _⟩ => ⟨hleft.proper, hright.proper⟩)
    (fun _ _ _ _ => alike_moreFactors hlast hlast' hprimary) hfirst).bind
    fun product product' vs vs' hproduct => ?_
  exact .pure hproduct

theorem alike_moreTerms {left left' : Expr} (h : Same Expr.unplaced m m' left left' ts ts') :
    Alike last last' (Further (Same Expr.unplaced m m') (Same Expr.unplaced m m' left left'))
      (moreTerms (primary m) left (Feed.ofList last ts))
      (moreTerms (primary m') left' (Feed.ofList last' ts')) := by
  have htoken := sameToken_current hlast' h.2.related
  have hright (op : BinaryOp) {ts ts' : List Lexeme} (h' : Apace m m' Aligned ts ts') :
      Alike last last' (Further (Same Expr.unplaced m m') (Same Expr.unplaced m m' left left'))
        ((factor (primary m) >>= fun right => pure (some (.binary op left right)))
          (Feed.ofList last ts))
        ((factor (primary m') >>= fun right => pure (some (.binary op left' right)))
          (Feed.ofList last' ts')) := by
    refine (alike_factor hlast hlast' hprimary h').bind fun e e' us us' ⟨he, hrest⟩ => ?_
    exact .pure (.more ⟨unplaced_binary h.1 he, hrest⟩)
  by_cases hplus : (Feed.ofList last ts).current.kind = .plus
  · rw [moreTerms_of_plus hplus, moreTerms_of_plus (htoken.kind ▸ hplus)]
    exact alike_next_bind hlast (by decide) (by decide) hplus h.2
      fun sign sign' us us' _ h' => hright .add h'
  by_cases hminus : (Feed.ofList last ts).current.kind = .minus
  · rw [moreTerms_of_minus hminus, moreTerms_of_minus (htoken.kind ▸ hminus)]
    exact alike_next_bind hlast (by decide) (by decide) hminus h.2
      fun sign sign' us us' _ h' => hright .sub h'
  · rw [moreTerms_of_ne hplus hminus, moreTerms_of_ne (htoken.kind ▸ hplus) (htoken.kind ▸ hminus)]
    exact .ok (.done h)

theorem alike_term (h : Apace m m' Aligned ts ts') :
    Alike last last' (Same Expr.unplaced m m') (term (primary m) (Feed.ofList last ts))
      (term (primary m') (Feed.ofList last' ts')) := by
  have hends : last'.kind = .endOfInput := hlast'.kind ▸ hlast
  rw [term, term]
  refine (alike_factor hlast hlast' hprimary h).bind fun first first' us us' hfirst => ?_
  exact Agree.chain (notMem_of_proper hlast)
    (advances_moreTerms hlast isPrimary_begins (sound_primary hlast m))
    (advances_moreTerms hends isPrimary_begins (sound_primary hends m'))
    (fun _ _ _ _ ⟨_, h⟩ => ⟨h.left.proper, h.right.proper⟩)
    (fun _ _ _ _ => alike_moreTerms hlast hlast' hprimary) hfirst

/-! ## Arguments and primaries -/

theorem alike_moreArguments {name name' : Lexeme} (hname : name.SameToken name')
    (h : Apace m m' Aligned ts ts') :
    Alike last last'
      (Further (Same Expr.unplaced m m') (Apace m m' Aligned))
      (moreArguments (primary m) name (Feed.ofList last ts))
      (moreArguments (primary m') name' (Feed.ofList last' ts')) := by
  have htoken := sameToken_current hlast' h.related
  by_cases hcomma : (Feed.ofList last ts).current.kind = .comma
  · rw [moreArguments_of_comma hcomma, moreArguments_of_comma (htoken.kind ▸ hcomma)]
    refine alike_next_bind hlast (by decide) (by decide) hcomma h fun comma comma' us us' _ h => ?_
    have hfollowing := sameToken_current hlast' h.related
    rw [current_bind, current_bind, hfollowing.is_eq, hfollowing.is_eq]
    split
    · refine .fail ?_
      rw [hname.text]
      rfl
    · refine (alike_term hlast hlast' hprimary h).bind fun e e' vs vs' he => ?_
      exact .pure (.more he)
  · rw [moreArguments_of_ne hcomma, moreArguments_of_ne (htoken.kind ▸ hcomma)]
    exact .ok (.done h)

omit hprimary in
theorem alike_closing {name name' : Lexeme} (hname : name.SameToken name') {es es' : List Expr}
    (hes : es.map Expr.unplaced = es'.map Expr.unplaced) (h : Apace m m' Aligned ts ts') :
    Alike last last'
      (fun es es' us us' => es.map Expr.unplaced = es'.map Expr.unplaced ∧
        Apace m m' (Mirrored .closeParen) us us')
      (closing name es (Feed.ofList last ts)) (closing name' es' (Feed.ofList last' ts')) := by
  have htoken := sameToken_current hlast' h.related
  by_cases hclose : (Feed.ofList last ts).current.kind = .closeParen
  · rw [closing_of_closeParen hclose, closing_of_closeParen (htoken.kind ▸ hclose)]
    obtain ⟨l, us, rfl, hl⟩ := exists_cons_of_current hlast (by decide) hclose
    obtain ⟨hleft, hright, _ | ⟨_, htail⟩⟩ := h
    rw [next_bind_ofList, next_bind_ofList]
    exact .pure ⟨hes, hleft.tail, hright.tail, hl ▸ htail⟩
  by_cases hend : (Feed.ofList last ts).current.kind = .endOfInput
  · rw [closing_of_endOfInput hend, closing_of_endOfInput (htoken.kind ▸ hend)]
    refine .fail ?_
    rw [hname.text]
    rfl
  · rw [closing_of_ne hclose hend, closing_of_ne (htoken.kind ▸ hclose) (htoken.kind ▸ hend)]
    exact alike_unexpected hlast' _ h.related

theorem alike_arguments {name name' : Lexeme} (hname : name.SameToken name')
    (h : Apace m m' Aligned ts ts') :
    Alike last last'
      (fun es es' us us' => es.map Expr.unplaced = es'.map Expr.unplaced ∧
        Apace m m' (Mirrored .closeParen) us us')
      (arguments (primary m) name (Feed.ofList last ts))
      (arguments (primary m') name' (Feed.ofList last' ts')) := by
  have hends : last'.kind = .endOfInput := hlast'.kind ▸ hlast
  rw [arguments_eq, arguments_eq]
  refine (alike_nextOf hlast hlast' (by decide) h).bind fun _ _ us us' h => ?_
  have h : Apace m m' Aligned us us' := ⟨h.left, h.right, h.related.aligned (by decide)⟩
  have htoken := sameToken_current hlast' h.related
  rw [current_bind, current_bind, htoken.is_eq]
  split
  · next hclose =>
    have hclose : (Feed.ofList last us).current.kind = .closeParen :=
      Lexeme.is_eq_true_iff.mp hclose
    obtain ⟨l, us, rfl, hl⟩ := exists_cons_of_current hlast (by decide) hclose
    obtain ⟨hleft, hright, _ | ⟨_, htail⟩⟩ := h
    rw [next_bind_ofList, next_bind_ofList]
    exact .pure ⟨rfl, hleft.tail, hright.tail, hl ▸ htail⟩
  · refine (alike_term hlast hlast' hprimary h).bind fun first first' vs vs' ⟨hfirst, hrest⟩ => ?_
    refine (alike_many hlast
      (advances_moreArguments hlast isPrimary_begins (sound_primary hlast m) name)
      (advances_moreArguments hends isPrimary_begins (sound_primary hends m') name')
      (fun _ _ => alike_moreArguments hlast hlast' hprimary hname) hrest).bind
      fun later later' ws ws' ⟨hlater, hrest⟩ => ?_
    refine alike_closing hlast hlast' hname ?_ hrest
    rw [List.map_cons, List.map_cons, hfirst, hlater]

end Productions

variable (hlast : last.kind = .endOfInput) (hlast' : last.SameToken last')
include hlast hlast'

/-- Whether a word is the name of a call, both sides decide alike. -/
theorem call_eq (h : Mirrored .identifier ts ts') :
    ((Feed.ofList last ts).current.is .openParen && (Feed.ofList last ts).current.isAdjacent) =
      ((Feed.ofList last' ts').current.is .openParen &&
        (Feed.ofList last' ts').current.isAdjacent) := by
  have htoken := sameToken_current hlast' h.aligned_of_word
  rw [htoken.is_eq]
  by_cases hopen : (Feed.ofList last ts).current.kind = .openParen
  · cases h with
    | nil => exact absurd (hlast.symm.trans hopen) (by decide)
    | cons _ hspaced _ =>
      rw [Feed.current_ofList_cons] at hopen
      rw [Feed.current_ofList_cons, Feed.current_ofList_cons, Lexeme.isAdjacent, Lexeme.isAdjacent,
        hspaced .identifier (hopen ▸ .openParen)]
    | sign _ hpair _ _ _ => cases hpair
  · have hnot : (Feed.ofList last ts).current.is .openParen = false := beq_false_of_ne hopen
    rw [hnot, Bool.false_and, Bool.false_and]

/-- Primaries are read alike, whatever depth is left on either side. -/
theorem alike_primary (m m' : ℕ) (ts ts' : List Lexeme) (h : Apace m m' Aligned ts ts') :
    Alike last last' (SameOperand m m') (primary m (Feed.ofList last ts))
      (primary m' (Feed.ofList last' ts')) := by
  induction m generalizing m' ts ts' with
  | zero => exact absurd h.left.length_lt (Nat.not_lt_zero _)
  | succ m ih =>
  obtain _ | m' := m'
  · exact absurd h.right.length_lt (Nat.not_lt_zero _)
  have htoken := sameToken_current hlast' h.related
  by_cases hbegins : BeginsPrimary (Feed.ofList last ts).current.kind
  · obtain ⟨hleft, hright, _ | @⟨l, l', us, us', hfirst, htail⟩⟩ := h
    · rw [Feed.current_ofList_nil, hlast] at hbegins
      contradiction
    rw [Feed.current_ofList_cons] at hbegins
    generalize hkind : l.kind = kind at hbegins htail
    have hkind' : l'.kind = kind := hfirst.kind.symm.trans hkind
    cases hbegins with
    | openParen =>
      -- one level deeper there is a lexeme less on both sides
      rw [primary_of_openParen hkind, primary_of_openParen hkind', next_bind_ofList,
        next_bind_ofList]
      have hinner : Apace m m' Aligned us us' :=
        ⟨hleft.inner, hright.inner, htail.aligned (by decide)⟩
      refine (alike_term hlast hlast' (ih m') hinner).bind fun e e' vs vs' ⟨he, hrest⟩ => ?_
      refine (alike_nextOf hlast hlast' (by decide) hrest).bind fun _ _ ws ws' h => ?_
      exact .pure ⟨he, rfl, _, .group, h.left.outer, h.right.outer, h.related⟩
    | number =>
      rw [primary_of_number hkind, primary_of_number hkind', next_bind_ofList, next_bind_ofList]
      have hexpr := congrArg (fun text => Expr.number ⟨text, .start⟩) hfirst.text
      exact .pure ⟨hexpr, rfl, _, .number, hleft.tail, hright.tail, htail⟩
    | identifier =>
      rw [primary_of_identifier hkind, primary_of_identifier hkind', next_bind_ofList,
        next_bind_ofList, current_bind, current_bind, call_eq hlast hlast' htail]
      split
      · have hinner : Apace m m' Aligned us us' :=
          ⟨hleft.inner, hright.inner, htail.aligned_of_word⟩
        refine (alike_arguments hlast hlast' (ih m') hfirst hinner).bind
          fun es es' vs vs' ⟨hes, h⟩ => ?_
        have hexpr := unplaced_call hfirst.text hes
        exact .pure ⟨hexpr, rfl, _, .call, h.left.outer, h.right.outer, h.related⟩
      · have hexpr := congrArg (fun text => Expr.symbol ⟨text, .start⟩) hfirst.text
        exact .pure ⟨hexpr, rfl, _, .symbol, hleft.tail, hright.tail, htail⟩
  · rw [primary_of_not_begins hbegins, primary_of_not_begins (htoken.kind ▸ hbegins)]
    exact alike_unexpected hlast' _ h.related

/-! ## Equations, phrases and statements -/

theorem alike_equation (h : Apace m m' Aligned ts ts') :
    Alike last last' (Same Expr.unplaced m m') (equation m (Feed.ofList last ts))
      (equation m' (Feed.ofList last' ts')) := by
  have hprimary := alike_primary hlast hlast' m m'
  rw [equation, equation]
  refine (alike_term hlast hlast' hprimary h).bind fun left left' us us' hsum => ?_
  obtain ⟨hleft, hrest⟩ := hsum
  have htoken := sameToken_current hlast' hrest.related
  rw [current_bind, current_bind, htoken.is_eq]
  by_cases hequal : (Feed.ofList last us).current.kind = .equal
  · rw [if_pos (Lexeme.is_eq_true_iff.mpr hequal), if_pos (Lexeme.is_eq_true_iff.mpr hequal)]
    refine alike_next_bind hlast (by decide) (by decide) hequal hrest
      fun sign sign' vs vs' _ h => ?_
    refine (alike_term hlast hlast' hprimary h).bind fun right right' ws ws' hright => ?_
    exact .pure ⟨unplaced_binary hleft hright.1, hright.2⟩
  · have hnot := mt Lexeme.is_eq_true_iff.mp hequal
    rw [if_neg hnot, if_neg hnot]
    exact .pure ⟨hleft, hrest⟩

theorem alike_moreEquations (h : Apace m m' Aligned ts ts') :
    Alike last last'
      (Further (Same Expr.unplaced m m') (Apace m m' Aligned))
      (moreEquations m (Feed.ofList last ts)) (moreEquations m' (Feed.ofList last' ts')) := by
  have htoken := sameToken_current hlast' h.related
  by_cases hend : (Feed.ofList last ts).current.kind = .endOfInput ∨
      (Feed.ofList last ts).current.kind = .comma
  · rw [moreEquations_of_end hend, moreEquations_of_end (htoken.kind ▸ hend)]
    exact .ok (.done h)
  · obtain ⟨hend, hcomma⟩ := not_or.mp hend
    rw [moreEquations_of_ne hend hcomma,
      moreEquations_of_ne (htoken.kind ▸ hend) (htoken.kind ▸ hcomma)]
    refine (alike_equation hlast hlast' h).bind fun e e' us us' he => ?_
    exact .pure (.more he)

theorem alike_phrase (h : Apace m m' Aligned ts ts') :
    Alike last last'
      (Same (List.map Expr.unplaced) m m')
      (phrase m (Feed.ofList last ts)) (phrase m' (Feed.ofList last' ts')) := by
  have hends : last'.kind = .endOfInput := hlast'.kind ▸ hlast
  rw [phrase, phrase]
  refine (alike_equation hlast hlast' h).bind fun first first' us us' ⟨hfirst, hrest⟩ => ?_
  refine (alike_many hlast (advances_moreEquations hlast m) (advances_moreEquations hends m')
    (fun _ _ => alike_moreEquations hlast hlast') hrest).bind fun later later' vs vs' ⟨hlater, h⟩ => ?_
  refine .pure ⟨?_, h⟩
  rw [List.map_cons, List.map_cons, hfirst, hlater]

theorem alike_morePhrases (h : Apace m m' Aligned ts ts') :
    Alike last last'
      (Further (Same (List.map Expr.unplaced) m m') (Apace m m' Aligned))
      (morePhrases m (Feed.ofList last ts)) (morePhrases m' (Feed.ofList last' ts')) := by
  have htoken := sameToken_current hlast' h.related
  by_cases hcomma : (Feed.ofList last ts).current.kind = .comma
  · rw [morePhrases_of_comma hcomma, morePhrases_of_comma (htoken.kind ▸ hcomma)]
    refine alike_next_bind hlast (by decide) (by decide) hcomma h fun comma comma' us us' _ h => ?_
    refine (alike_phrase hlast hlast' h).bind fun p p' vs vs' hp => ?_
    exact .pure (.more hp)
  · rw [morePhrases_of_ne hcomma, morePhrases_of_ne (htoken.kind ▸ hcomma)]
    exact .ok (.done h)

theorem alike_statement (h : Apace m m' Aligned ts ts') :
    Alike last last'
      (Same (List.map (List.map Expr.unplaced)) m m')
      (statement m (Feed.ofList last ts)) (statement m' (Feed.ofList last' ts')) := by
  have hends : last'.kind = .endOfInput := hlast'.kind ▸ hlast
  rw [statement, statement]
  refine (alike_phrase hlast hlast' h).bind fun first first' us us' ⟨hfirst, hrest⟩ => ?_
  refine (alike_many hlast (advances_morePhrases hlast m) (advances_morePhrases hends m')
    (fun _ _ => alike_morePhrases hlast hlast') hrest).bind fun later later' vs vs' ⟨hlater, h⟩ => ?_
  refine .pure ⟨?_, h⟩
  rw [List.map_cons, List.map_cons, hfirst, hlater]

theorem alike_moreStatements (h : Apace m m' Aligned ts ts') :
    Alike last last'
      (Further (Same (List.map (List.map Expr.unplaced)) m m') (Apace m m' Aligned))
      (moreStatements m (Feed.ofList last ts)) (moreStatements m' (Feed.ofList last' ts')) := by
  have htoken := sameToken_current hlast' h.related
  by_cases hend : (Feed.ofList last ts).current.kind = .endOfInput
  · rw [moreStatements_of_end hend, moreStatements_of_end (htoken.kind ▸ hend)]
    exact .ok (.done h)
  · rw [moreStatements_of_ne hend, moreStatements_of_ne (htoken.kind ▸ hend)]
    refine (alike_statement hlast hlast' h).bind fun s s' us us' hs => ?_
    exact .pure (.more hs)

/-- Aligned lexemes are the same program up to places, or fail alike. -/
theorem alike_program (h : Apace m m' Aligned ts ts') :
    Alike last last' (fun p p' _ _ => p.unplaced = p'.unplaced)
      (program m (Feed.ofList last ts)) (program m' (Feed.ofList last' ts')) := by
  have hends : last'.kind = .endOfInput := hlast'.kind ▸ hlast
  rw [program, program]
  refine (alike_many hlast (advances_moreStatements hlast m)
    (advances_moreStatements hends m') (fun _ _ => alike_moreStatements hlast hlast') h).bind
    fun statements statements' vs vs' ⟨hstatements, _⟩ => ?_
  refine .pure ?_
  rw [Program.unplaced, Program.unplaced, hstatements]

end QueryParser

/-! ## Texts -/

namespace Grammar

/-- The lexemes that mark the end correspond, and those in front of them mirror each other. -/
theorem Mirrored.of_concat {k : TokenKind} {ls ls' : List Lexeme} {last last' : Lexeme}
    (hls : ∀ l ∈ ls, l.kind ≠ .endOfInput) (hls' : ∀ l ∈ ls', l.kind ≠ .endOfInput)
    (hlast : last.kind = .endOfInput) (hlast' : last'.kind = .endOfInput)
    (h : Mirrored k (ls ++ [last]) (ls' ++ [last'])) :
    Mirrored k ls ls' ∧ last.SameToken last' := by
  generalize hks : ls ++ [last] = ks at h
  generalize hks' : ls' ++ [last'] = ks' at h
  -- where one side has only the end left, the kind of the first token tells that the other has
  induction h generalizing ls ls' with
  | nil => simp at hks
  | cons htoken hspaced _ ih =>
    rcases ls with _ | ⟨l, ls⟩ <;> rcases ls' with _ | ⟨l', ls'⟩ <;>
      obtain ⟨rfl, rfl⟩ := List.cons.inj hks <;> obtain ⟨rfl, rfl⟩ := List.cons.inj hks'
    · exact ⟨.nil, htoken⟩
    · exact absurd (htoken.kind.symm.trans hlast) (hls' l' List.mem_cons_self)
    · exact absurd (htoken.kind.trans hlast') (hls l List.mem_cons_self)
    · obtain ⟨hbehind, hends⟩ :=
        ih (List.forall_mem_cons.mp hls).2 (List.forall_mem_cons.mp hls').2 rfl rfl
      exact ⟨.cons htoken hspaced hbehind, hends⟩
  | sign hspaced hpair hstar htoken _ ih =>
    rcases ls' with _ | ⟨star, ls'⟩ <;> obtain ⟨rfl, hbehind⟩ := List.cons.inj hks'
    · contradiction
    rcases ls with _ | ⟨l, ls⟩ <;> rcases ls' with _ | ⟨l', ls'⟩ <;>
      obtain ⟨rfl, rfl⟩ := List.cons.inj hks <;> obtain ⟨rfl, rfl⟩ := List.cons.inj hbehind
    · exact absurd (hlast ▸ hpair.begins) (by decide)
    · exact absurd (hlast ▸ hpair.begins) (by decide)
    · exact absurd (htoken.kind.trans hlast') (hls l List.mem_cons_self)
    · obtain ⟨hbehind, hends⟩ := ih (List.forall_mem_cons.mp hls).2
        (List.forall_mem_cons.mp (List.forall_mem_cons.mp hls').2).2 rfl rfl
      exact ⟨.sign hspaced hpair hstar htoken hbehind, hends⟩

end Grammar

open Grammar in
/-- Texts whose lexemes mirror each other read alike. -/
theorem parseUnplaced_eq_of_mirrored {source source' : String} {ks ks' : List Lexeme}
    (h : tokenize source = .ok ks) (h' : tokenize source' = .ok ks') {k : TokenKind}
    (hk : ¬ EndsPrimary k) (hmirrored : Mirrored k ks ks') :
    parseUnplaced source = parseUnplaced source' := by
  have hrun {source : String} {ls : List Lexeme} {last : Lexeme}
      (h : Lexeme.Reads (.ofString source) ls last) : parse source =
        (QueryParser.program (ls.length + 1) (Feed.ofList last ls)).map Prod.fst := by
    have hreading := Lexeme.reading_eq_iff.mpr h
    rw [parse, hreading, Parser.run, Feed.ofReading_of_ending (r := ⟨ls, .ok last⟩) rfl]
  obtain ⟨ls, last, rfl, hreads⟩ := tokenize_eq_ok_iff.mp h
  obtain ⟨ls', last', rfl, hreads'⟩ := tokenize_eq_ok_iff.mp h'
  obtain ⟨_, _, hscans, -, hend⟩ := id hreads
  obtain ⟨_, _, hscans', -, hend'⟩ := id hreads'
  obtain ⟨hmirrored, hlast⟩ := hmirrored.of_concat hscans.kind_ne hscans'.kind_ne hend hend'
  have hwithin {ls : List Lexeme} (h : Lexeme.Proper ls) : QueryParser.Within (ls.length + 1) ls :=
    ⟨h, Nat.lt_succ_self _⟩
  have halike := QueryParser.alike_program hend hlast
    ⟨hwithin hscans.proper, hwithin hscans'.proper, hmirrored.aligned hk⟩
  rw [parseUnplaced, parseUnplaced, hrun hreads, hrun hreads']
  generalize QueryParser.program _ _ = x at halike ⊢
  generalize QueryParser.program _ _ = x' at halike ⊢
  cases halike with
  | ok hp => exact congrArg Except.ok hp
  | error he => exact congrArg Except.error he

end MathQuery
