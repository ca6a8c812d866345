import MathQuery.Query.Parser

/-!
# The grammar of queries

Which lexemes make up which expressions is said here by derivations, apart from any
way of finding them.  The productions are those of the parser, from the tightest to the
loosest:

```text
primary   := '(' term ')' | identifier | identifier '(' arguments ')' | number
power     := primary ('^' primary)?
unary     := '-' power | '+'? power
factor    := factor ('*' | '/' | adjacent) unary | unary
term      := term ('+' | '-') factor | factor
arguments := (term (',' term)*)?
equation  := term ('=' term)?
phrase    := equation+
statement := phrase (',' phrase)*
program   := statement*
```

The productions from `power` to `arguments` take the derivations of primaries as an
argument, so that only `IsPrimary` is recursive through all of them.

Two further conditions make derivations unique.  In a phrase, `CanFollow` keeps apart
what the tighter productions would have read as one expression.  A phrase runs up to a
comma or the end, so behind a statement there is one of these.
-/

namespace MathQuery

namespace Grammar

/-- The lexemes of an expression, the expression and the shape of its last primary. -/
abbrev Derivation := List Lexeme → Operand → Prop

/-- The pairs of a primary and a kind of token that read as a product when they touch. -/
inductive AdjacentPair : Shape → TokenKind → Prop
  | numberOpen : AdjacentPair .number .openParen
  | numberIdentifier : AdjacentPair .number .identifier
  | callOpen : AdjacentPair .call .openParen
  | callIdentifier : AdjacentPair .call .identifier
  | callNumber : AdjacentPair .call .number
  | groupOpen : AdjacentPair .group .openParen
  | groupIdentifier : AdjacentPair .group .identifier
  | groupNumber : AdjacentPair .group .number

section Productions

variable (Primary : Derivation)

/-- A primary, optionally raised to another one. -/
inductive IsPower : Derivation
  | primary {ls : List Lexeme} {a : Operand} (h : Primary ls a) : IsPower ls a
  | pow {ls rs : List Lexeme} {caret : Lexeme} {a b : Operand} (hbase : Primary ls a)
    (hcaret : caret.kind = .caret) (hexponent : Primary rs b) :
    IsPower (ls ++ caret :: rs) ⟨.binary .pow a.expr b.expr, b.shape⟩

/-- A power with at most one sign.  A minus is a product with the number `-1` at the
place of the sign. -/
inductive IsUnary : Derivation
  | power {ls : List Lexeme} {a : Operand} (h : IsPower Primary ls a) : IsUnary ls a
  | plus {sign : Lexeme} {ls : List Lexeme} {a : Operand} (hsign : sign.kind = .plus)
    (h : IsPower Primary ls a) : IsUnary (sign :: ls) a
  | minus {sign : Lexeme} {ls : List Lexeme} {a : Operand} (hsign : sign.kind = .minus)
    (h : IsPower Primary ls a) :
    IsUnary (sign :: ls) ⟨.binary .mul (.number ⟨"-1", sign.position⟩) a.expr, a.shape⟩

/-- Products and quotients, from left to right. -/
inductive IsFactor : Derivation
  | unary {ls : List Lexeme} {a : Operand} (h : IsUnary Primary ls a) : IsFactor ls a
  | mul {ls rs : List Lexeme} {sign : Lexeme} {a b : Operand} (hleft : IsFactor ls a)
    (hsign : sign.kind = .star) (hright : IsUnary Primary rs b) :
    IsFactor (ls ++ sign :: rs) ⟨.binary .mul a.expr b.expr, b.shape⟩
  | div {ls rs : List Lexeme} {sign : Lexeme} {a b : Operand} (hleft : IsFactor ls a)
    (hsign : sign.kind = .slash) (hright : IsUnary Primary rs b) :
    IsFactor (ls ++ sign :: rs) ⟨.binary .div a.expr b.expr, b.shape⟩
  | adjacent {ls rs : List Lexeme} {first : Lexeme} {a b : Operand} (hleft : IsFactor ls a)
    (hspaced : first.spaced = false) (hpair : AdjacentPair a.shape first.kind)
    (hright : IsUnary Primary (first :: rs) b) :
    IsFactor (ls ++ first :: rs) ⟨.binary .mul a.expr b.expr, b.shape⟩

/-- Sums and differences, from left to right. -/
inductive IsTerm : Derivation
  | factor {ls : List Lexeme} {a : Operand} (h : IsFactor Primary ls a) : IsTerm ls a
  | add {ls rs : List Lexeme} {sign : Lexeme} {a b : Operand} (hleft : IsTerm ls a)
    (hsign : sign.kind = .plus) (hright : IsFactor Primary rs b) :
    IsTerm (ls ++ sign :: rs) ⟨.binary .add a.expr b.expr, b.shape⟩
  | sub {ls rs : List Lexeme} {sign : Lexeme} {a b : Operand} (hleft : IsTerm ls a)
    (hsign : sign.kind = .minus) (hright : IsFactor Primary rs b) :
    IsTerm (ls ++ sign :: rs) ⟨.binary .sub a.expr b.expr, b.shape⟩

/-- One or more terms, set apart by commas. -/
inductive IsArgumentList : List Lexeme → List Expr → Prop
  | one {ls : List Lexeme} {a : Operand} (h : IsTerm Primary ls a) : IsArgumentList ls [a.expr]
  | more {ls rs : List Lexeme} {comma : Lexeme} {a : Operand} {es : List Expr}
    (hfirst : IsTerm Primary ls a) (hcomma : comma.kind = .comma)
    (hlater : IsArgumentList rs es) : IsArgumentList (ls ++ comma :: rs) (a.expr :: es)

/-- The arguments of a call. -/
inductive IsArguments : List Lexeme → List Expr → Prop
  | none : IsArguments [] []
  | some {ls : List Lexeme} {es : List Expr} (h : IsArgumentList Primary ls es) :
    IsArguments ls es

end Productions

/-- A group, a number, a symbol or a call.  Nothing stands between the name of a call and
its opening parenthesis. -/
inductive IsPrimary : Derivation
  | group {opening closing : Lexeme} {ls : List Lexeme} {a : Operand}
    (hopening : opening.kind = .openParen) (h : IsTerm IsPrimary ls a)
    (hclosing : closing.kind = .closeParen) :
    IsPrimary (opening :: (ls ++ [closing])) ⟨a.expr, .group⟩
  | number {l : Lexeme} (h : l.kind = .number) : IsPrimary [l] ⟨.number l.toSpelling, .number⟩
  | symbol {l : Lexeme} (h : l.kind = .identifier) :
    IsPrimary [l] ⟨.symbol l.toSpelling, .symbol⟩
  | call {name opening closing : Lexeme} {ls : List Lexeme} {es : List Expr}
    (hname : name.kind = .identifier) (hopening : opening.kind = .openParen)
    (hspaced : opening.spaced = false) (h : IsArguments IsPrimary ls es)
    (hclosing : closing.kind = .closeParen) :
    IsPrimary (name :: opening :: (ls ++ [closing])) ⟨.call name.toSpelling es, .call⟩

/-- A primary is a term by itself. -/
theorem isTerm_of_isPrimary {ls : List Lexeme} {a : Operand} (h : IsPrimary ls a) :
    IsTerm IsPrimary ls a :=
  .factor (.unary (.power (.primary h)))

/-- A sum, optionally equated with another one. -/
inductive IsEquation : Derivation
  | term {ls : List Lexeme} {a : Operand} (h : IsTerm IsPrimary ls a) : IsEquation ls a
  | equal {ls rs : List Lexeme} {sign : Lexeme} {a b : Operand} (hleft : IsTerm IsPrimary ls a)
    (hsign : sign.kind = .equal) (hright : IsTerm IsPrimary rs b) :
    IsEquation (ls ++ sign :: rs) ⟨.binary .equal a.expr b.expr, b.shape⟩

/-- Whether a lexeme can begin the next term of a phrase.  A sign would continue the term
before it, a lexeme that forms an adjacent product would too, and an opening parenthesis
that touches a symbol would make a call of it. -/
structure CanFollow (shape : Shape) (next : Lexeme) : Prop where
  not_sign : next.kind ≠ .plus ∧ next.kind ≠ .minus
  not_product : next.spaced = false → ¬ AdjacentPair shape next.kind
  not_call : next.spaced = false → shape = .symbol → next.kind ≠ .openParen

/-- One or more equations. -/
inductive IsPhrase : List Lexeme → Phrase → Prop
  | one {ls : List Lexeme} {a : Operand} (h : IsEquation ls a) : IsPhrase ls [a.expr]
  | more {ls rs : List Lexeme} {next : Lexeme} {a : Operand} {es : Phrase}
    (hfirst : IsEquation ls a) (hnext : CanFollow a.shape next)
    (hlater : IsPhrase (next :: rs) es) : IsPhrase (ls ++ next :: rs) (a.expr :: es)

/-- One or more phrases, set apart by commas. -/
inductive IsStatement : List Lexeme → Statement → Prop
  | one {ls : List Lexeme} {p : Phrase} (h : IsPhrase ls p) : IsStatement ls [p]
  | more {ls rs : List Lexeme} {comma : Lexeme} {p : Phrase} {ps : Statement}
    (hfirst : IsPhrase ls p) (hcomma : comma.kind = .comma) (hlater : IsStatement rs ps) :
    IsStatement (ls ++ comma :: rs) (p :: ps)

/-- Statements in succession.  The last phrase of each runs up to a comma or the end. -/
inductive IsProgram : List Lexeme → List Statement → Prop
  | nil : IsProgram [] []
  | cons {ls rs : List Lexeme} {s : Statement} {ss : List Statement} (hfirst : IsStatement ls s)
    (hends : ∀ next ∈ rs.head?, next.kind = .comma) (hlater : IsProgram rs ss) :
    IsProgram (ls ++ rs) (s :: ss)

/-- All lexemes of a query, up to the one that marks its end, make up a program. -/
def IsQuery (ls : List Lexeme) (p : Program) : Prop :=
  ∃ ks last, ls = ks ++ [last] ∧ last.kind = .endOfInput ∧ IsProgram ks p.statements

/-! ## First lexemes -/

/-- The kinds of lexemes that a primary begins with. -/
inductive BeginsPrimary : TokenKind → Prop
  | openParen : BeginsPrimary .openParen
  | number : BeginsPrimary .number
  | identifier : BeginsPrimary .identifier

theorem AdjacentPair.begins {shape : Shape} {kind : TokenKind} (h : AdjacentPair shape kind) :
    BeginsPrimary kind := by
  cases h <;> constructor

theorem AdjacentPair.shape_ne {shape : Shape} {kind : TokenKind} (h : AdjacentPair shape kind) :
    shape ≠ .symbol := by
  cases h <;> exact nofun

/-- The kinds of lexemes that a term begins with. -/
inductive BeginsTerm : TokenKind → Prop
  | plus : BeginsTerm .plus
  | minus : BeginsTerm .minus
  | primary {kind : TokenKind} (h : BeginsPrimary kind) : BeginsTerm kind

theorem beginsPrimary_iff {kind : TokenKind} :
    BeginsPrimary kind ↔ kind = .openParen ∨ kind = .number ∨ kind = .identifier := by
  constructor
  · rintro (_ | _ | _) <;> simp
  · rintro (rfl | rfl | rfl) <;> constructor

instance : DecidablePred BeginsPrimary := fun _ => decidable_of_iff' _ beginsPrimary_iff

theorem beginsTerm_iff {kind : TokenKind} :
    BeginsTerm kind ↔ kind = .plus ∨ kind = .minus ∨ BeginsPrimary kind := by
  constructor
  · rintro (_ | _ | h)
    · exact .inl rfl
    · exact .inr (.inl rfl)
    · exact .inr (.inr h)
  · rintro (rfl | rfl | h)
    · exact .plus
    · exact .minus
    · exact .primary h

instance : DecidablePred BeginsTerm := fun _ => decidable_of_iff' _ beginsTerm_iff

/-- Every derivation begins with a lexeme of one of these kinds. -/
def Begins {α : Type} (P : List Lexeme → α → Prop) (Kinds : TokenKind → Prop) : Prop :=
  ∀ ls a, P ls a → ∃ l ks, ls = l :: ks ∧ Kinds l.kind

theorem isPrimary_begins : Begins IsPrimary BeginsPrimary := by
  intro ls a h
  cases h with
  | group hopening _ _ => exact ⟨_, _, rfl, hopening ▸ .openParen⟩
  | number h => exact ⟨_, _, rfl, h ▸ .number⟩
  | symbol h => exact ⟨_, _, rfl, h ▸ .identifier⟩
  | call hname _ _ _ _ => exact ⟨_, _, rfl, hname ▸ .identifier⟩

section Productions

variable {Primary : Derivation} (hprimary : Begins Primary BeginsPrimary)
include hprimary

theorem isPower_begins : Begins (IsPower Primary) BeginsPrimary := by
  intro ls a h
  cases h with
  | primary h => exact hprimary ls a h
  | pow hbase _ _ =>
    obtain ⟨l, ks, rfl, hkind⟩ := hprimary _ _ hbase
    exact ⟨l, _, rfl, hkind⟩

theorem isUnary_begins : Begins (IsUnary Primary) BeginsTerm := by
  intro ls a h
  cases h with
  | power h =>
    obtain ⟨l, ks, rfl, hkind⟩ := isPower_begins hprimary _ _ h
    exact ⟨l, _, rfl, .primary hkind⟩
  | plus hsign _ => exact ⟨_, _, rfl, hsign ▸ .plus⟩
  | minus hsign _ => exact ⟨_, _, rfl, hsign ▸ .minus⟩

theorem isFactor_begins : Begins (IsFactor Primary) BeginsTerm := by
  intro ls a h
  induction h with
  | unary h => exact isUnary_begins hprimary _ _ h
  | mul _ _ _ ih | div _ _ _ ih | adjacent _ _ _ _ ih =>
    obtain ⟨l, ks, rfl, hkind⟩ := ih
    exact ⟨l, _, rfl, hkind⟩

theorem isTerm_begins : Begins (IsTerm Primary) BeginsTerm := by
  intro ls a h
  induction h with
  | factor h => exact isFactor_begins hprimary _ _ h
  | add _ _ _ ih | sub _ _ _ ih =>
    obtain ⟨l, ks, rfl, hkind⟩ := ih
    exact ⟨l, _, rfl, hkind⟩

theorem isArgumentList_begins : Begins (IsArgumentList Primary) BeginsTerm := by
  intro ls es h
  cases h with
  | one h => exact isTerm_begins hprimary _ _ h
  | more hfirst _ _ =>
    obtain ⟨l, ks, rfl, hkind⟩ := isTerm_begins hprimary _ _ hfirst
    exact ⟨l, _, rfl, hkind⟩

end Productions

theorem isEquation_begins : Begins IsEquation BeginsTerm := by
  intro ls a h
  cases h with
  | term h => exact isTerm_begins isPrimary_begins _ _ h
  | equal hleft _ _ =>
    obtain ⟨l, ks, rfl, hkind⟩ := isTerm_begins isPrimary_begins _ _ hleft
    exact ⟨l, _, rfl, hkind⟩

theorem isPhrase_begins : Begins IsPhrase BeginsTerm := by
  intro ls p h
  cases h with
  | one h => exact isEquation_begins _ _ h
  | more hfirst _ _ =>
    obtain ⟨l, ks, rfl, hkind⟩ := isEquation_begins _ _ hfirst
    exact ⟨l, _, rfl, hkind⟩

theorem isStatement_begins : Begins IsStatement BeginsTerm := by
  intro ls s h
  cases h with
  | one h => exact isPhrase_begins _ _ h
  | more hfirst _ _ =>
    obtain ⟨l, ks, rfl, hkind⟩ := isPhrase_begins _ _ hfirst
    exact ⟨l, _, rfl, hkind⟩

/-! ## Last lexemes -/

/-- Where the last primary is a symbol, the last lexeme is a word. -/
def EndsInWord (P : Derivation) : Prop :=
  ∀ ls a, P ls a → a.shape = .symbol → ∃ ks l, ls = ks ++ [l] ∧ l.kind = .identifier

theorem isPrimary_endsInWord : EndsInWord IsPrimary := by
  intro ls a h hshape
  cases h with
  | symbol h => exact ⟨[], _, rfl, h⟩
  | group _ _ _ | number _ | call _ _ _ _ _ => contradiction

theorem exists_concat_append (ks : List Lexeme) {ls : List Lexeme}
    (h : ∃ js l, ls = js ++ [l] ∧ l.kind = .identifier) :
    ∃ js l, ks ++ ls = js ++ [l] ∧ l.kind = .identifier := by
  obtain ⟨js, l, rfl, hl⟩ := h
  exact ⟨ks ++ js, l, (List.append_assoc ks js [l]).symm, hl⟩

section Productions

variable {Primary : Derivation} (hprimary : EndsInWord Primary)
include hprimary

theorem isPower_endsInWord : EndsInWord (IsPower Primary) := by
  intro ls a h hshape
  cases h with
  | primary h => exact hprimary ls a h hshape
  | @pow ls rs caret _ _ _ _ hexponent =>
    have hlast := hprimary _ _ hexponent hshape
    exact exists_concat_append _ (exists_concat_append [caret] hlast)

theorem isUnary_endsInWord : EndsInWord (IsUnary Primary) := by
  intro ls a h hshape
  cases h with
  | power h => exact isPower_endsInWord hprimary _ _ h hshape
  | plus _ h | minus _ h =>
    have hlast := isPower_endsInWord hprimary _ _ h hshape
    exact exists_concat_append [_] hlast

theorem isFactor_endsInWord : EndsInWord (IsFactor Primary) := by
  intro ls a h hshape
  cases h with
  | unary h => exact isUnary_endsInWord hprimary _ _ h hshape
  | @mul _ _ sign _ _ _ _ hright | @div _ _ sign _ _ _ _ hright =>
    have hlast := isUnary_endsInWord hprimary _ _ hright hshape
    exact exists_concat_append _ (exists_concat_append [sign] hlast)
  | adjacent _ _ _ hright =>
    exact exists_concat_append _ (isUnary_endsInWord hprimary _ _ hright hshape)

theorem isTerm_endsInWord : EndsInWord (IsTerm Primary) := by
  intro ls a h hshape
  cases h with
  | factor h => exact isFactor_endsInWord hprimary _ _ h hshape
  | @add _ _ sign _ _ _ _ hright | @sub _ _ sign _ _ _ _ hright =>
    have hlast := isFactor_endsInWord hprimary _ _ hright hshape
    exact exists_concat_append _ (exists_concat_append [sign] hlast)

end Productions

theorem isEquation_endsInWord : EndsInWord IsEquation := by
  intro ls a h hshape
  cases h with
  | term h => exact isTerm_endsInWord isPrimary_endsInWord _ _ h hshape
  | @equal _ _ sign _ _ _ _ hright =>
    have hlast := isTerm_endsInWord isPrimary_endsInWord _ _ hright hshape
    exact exists_concat_append _ (exists_concat_append [sign] hlast)

end Grammar

end MathQuery
