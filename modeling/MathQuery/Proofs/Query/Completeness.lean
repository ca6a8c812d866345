import MathQuery.Proofs.Query.Soundness
import MathQuery.Schema.Match

/-!
# What has a derivation is read

On lexemes with a derivation and further ones that do not continue it, a parser yields
what is derived and leaves the further ones.  Products and sums are derived from the
left, so for them a chain that starts in front of a derivation is the chain that starts
behind it.

* `QueryParser.Complete` – the property of a parser that every production keeps;
* `QueryParser.complete_primary` – primaries, as long as the depth of nesting allows;
* `parse_eq_ok_iff` – the programs that are read are those that have a derivation.
-/

namespace MathQuery

open Grammar MathQuery.Parser

namespace QueryParser

variable {last : Lexeme} {n : ℕ}

/-! ## What follows -/

/-- What is left does not begin with a lexeme of these kinds. -/
def NotKind (kinds : List TokenKind) (rest : List Lexeme) : Prop :=
  ∀ next ∈ rest.head?, next.kind ∉ kinds

theorem NotKind.mono {kinds kinds' : List TokenKind} {rest : List Lexeme}
    (h : NotKind kinds' rest) (hsubset : kinds ⊆ kinds') : NotKind kinds rest :=
  fun next hnext hmem => h next hnext (hsubset hmem)

theorem NotKind.current_ne (hlast : last.kind = .endOfInput) {kinds : List TokenKind}
    {rest : List Lexeme} (h : NotKind kinds rest) {kind : TokenKind} (hmem : kind ∈ kinds)
    (hend : kind ≠ .endOfInput) : (Feed.ofList last rest).current.kind ≠ kind := by
  cases rest with
  | nil => exact fun hkind => hend (hkind.symm.trans hlast)
  | cons next rest => exact fun hkind => h next rfl (hkind ▸ hmem)

theorem notCalled_cons {next : Lexeme} (h : ¬ BeginsPrimary next.kind) (shape : Shape)
    (rest : List Lexeme) : NotCalled shape (next :: rest) := by
  intro next' hnext _ _
  obtain rfl := Option.some.inj hnext
  exact ⟨fun hopen => h (hopen ▸ .openParen), fun hnumber => h (hnumber ▸ .number)⟩

theorem notProduct_cons {next : Lexeme} (h : ¬ BeginsPrimary next.kind) (shape : Shape)
    (rest : List Lexeme) : NotProduct shape (next :: rest) := by
  intro next' hnext _ hpair
  obtain rfl := Option.some.inj hnext
  exact h hpair.begins

/-! ## Completeness of a parser -/

/-- On at most `n` proper lexemes for which `P` holds a parser yields the result and
leaves the rest, if that follows as `Follow` says. -/
def Complete {α : Type} (last : Lexeme) (n : ℕ) (P : List Lexeme → α → Prop)
    (Follow : α → List Lexeme → Prop) (parser : QueryParser α) : Prop :=
  ∀ ls a rest, Lexeme.Proper (ls ++ rest) → ls.length ≤ n → P ls a → Follow a rest →
    parser (Feed.ofList last (ls ++ rest)) = .ok (a, Feed.ofList last rest)

section Productions

variable {Primary : Derivation} {primary : QueryParser Operand}
  (hlast : last.kind = .endOfInput) (hbegins : Begins Primary BeginsPrimary)
  (hsound : Sound last (fun ls a rest => Primary ls a ∧ NotCalled a.shape rest) primary)
  (hprimary : Complete last n Primary (fun a rest => NotCalled a.shape rest) primary)
include hlast hbegins hsound hprimary

omit hbegins hsound in
theorem complete_power :
    Complete last n (IsPower Primary)
      (fun a rest => NotCalled a.shape rest ∧ NotKind [.caret] rest) (power primary) := by
  rintro ls a rest hproper hlength h ⟨hcalled, hcaret⟩
  cases h with
  | primary h =>
    exact power_of_ne (hprimary ls a rest hproper hlength h hcalled)
      (hcaret.current_ne hlast List.mem_cons_self (by decide))
  | @pow ls rs caret base exponent hbase hkind hexponent =>
    rw [List.length_append, List.length_cons] at hlength
    rw [List.append_assoc] at hproper ⊢
    have hnot : ¬ BeginsPrimary caret.kind := by rw [hkind]; decide
    have hrun := hprimary ls base (caret :: rs ++ rest) hproper (by omega) hbase
      (notCalled_cons hnot _ _)
    rw [power_of_caret hrun hkind, List.cons_append, next_bind_ofList]
    refine bind_of_ok ?_
    exact hprimary rs exponent rest hproper.right_of_append.tail (by omega) hexponent hcalled

omit hsound in
theorem complete_unary :
    Complete last n (IsUnary Primary)
      (fun a rest => NotCalled a.shape rest ∧ NotKind [.caret] rest) (unary primary) := by
  intro ls a rest hproper hlength h hfollow
  have hpower := complete_power hlast hprimary
  cases h with
  | power h =>
    obtain ⟨l, ks, rfl, hkind⟩ := isPower_begins hbegins ls a h
    have hne {kind : TokenKind} (hnot : ¬ BeginsPrimary kind) :
        (Feed.ofList last (l :: ks ++ rest)).current.kind ≠ kind := fun heq => hnot (heq ▸ hkind)
    rw [unary_of_ne (hne nofun) (hne nofun)]
    exact hpower _ a rest hproper hlength h hfollow
  | @plus sign ls a hkind h =>
    have hplus : (Feed.ofList last (sign :: ls ++ rest)).current.kind = .plus := hkind
    rw [unary_of_plus hplus, List.cons_append, next_bind_ofList]
    exact hpower ls a rest hproper.tail (Nat.le_of_succ_le hlength) h hfollow
  | @minus sign ls a hkind h =>
    have hminus : (Feed.ofList last (sign :: ls ++ rest)).current.kind = .minus := hkind
    rw [unary_of_minus hminus, List.cons_append, next_bind_ofList]
    exact bind_of_ok (hpower ls a rest hproper.tail (Nat.le_of_succ_le hlength) h hfollow)

/-! ## Products and sums -/

omit hsound in
/-- What extends a product by one factor is read in one step. -/
theorem complete_moreFactors {ls rest : List Lexeme} {left a : Operand}
    (hproper : Lexeme.Proper (ls ++ rest)) (hlength : ls.length ≤ n)
    (h : OneMoreFactor Primary left ls a) (hcalled : NotCalled a.shape rest)
    (hcaret : NotKind [.caret] rest) :
    moreFactors primary left (Feed.ofList last (ls ++ rest)) =
      .ok (some a, Feed.ofList last rest) := by
  have hunary := complete_unary hlast hbegins hprimary
  cases h with
  | @mul sign rs a hsign h =>
    have hstar : (Feed.ofList last (sign :: rs ++ rest)).current.kind = .star := hsign
    rw [moreFactors_of_star hstar, List.cons_append, next_bind_ofList]
    exact bind_of_ok (hunary rs a rest hproper.tail (Nat.le_of_succ_le hlength) h ⟨hcalled, hcaret⟩)
  | @div sign rs a hsign h =>
    have hslash : (Feed.ofList last (sign :: rs ++ rest)).current.kind = .slash := hsign
    rw [moreFactors_of_slash hslash, List.cons_append, next_bind_ofList]
    exact bind_of_ok (hunary rs a rest hproper.tail (Nat.le_of_succ_le hlength) h ⟨hcalled, hcaret⟩)
  | @adjacent first rs a hspaced hmultiplies h =>
    refine (moreFactors_of_multiplies hspaced hmultiplies).trans ?_
    exact bind_of_ok (hunary (first :: rs) a rest hproper hlength h ⟨hcalled, hcaret⟩)

/-- A chain of products that starts in front of a product is the one that starts behind. -/
theorem unary_chain_of_isFactor {ls rest : List Lexeme} {a : Operand}
    (hproper : Lexeme.Proper (ls ++ rest)) (hlength : ls.length ≤ n) (h : IsFactor Primary ls a)
    (hcalled : NotCalled a.shape rest) (hcaret : NotKind [.caret] rest) :
    (unary primary >>= chain (moreFactors primary)) (Feed.ofList last (ls ++ rest)) =
      chain (moreFactors primary) a (Feed.ofList last rest) := by
  have hmore {ls rest : List Lexeme} {left a : Operand} (hproper : Lexeme.Proper (ls ++ rest))
      (hlength : ls.length ≤ n) (h : OneMoreFactor Primary left ls a)
      (hcalled : NotCalled a.shape rest) (hcaret : NotKind [.caret] rest) :
      chain (moreFactors primary) left (Feed.ofList last (ls ++ rest)) =
        chain (moreFactors primary) a (Feed.ofList last rest) :=
    chain_of_some (advances_moreFactors hlast hbegins hsound) hproper
      (complete_moreFactors hlast hbegins hprimary hproper hlength h hcalled hcaret)
  induction h generalizing rest with
  | @unary ls a h =>
    have hunary := complete_unary hlast hbegins hprimary
    exact bind_of_ok (hunary ls a rest hproper hlength h ⟨hcalled, hcaret⟩)
  | @mul ls rs sign left right hleft hsign hright ih
  | @div ls rs sign left right hleft hsign hright ih =>
    rw [List.length_append] at hlength
    rw [List.append_assoc] at hproper ⊢
    -- an operator begins no primary, so the product in front of it ends there
    have hnot : ¬ BeginsPrimary sign.kind := by rw [hsign]; decide
    rw [ih hproper (by omega) (notCalled_cons hnot _ _) (by simp [NotKind, hsign])]
    refine hmore hproper.right_of_append (by omega) ?_ hcalled hcaret
    first | exact .mul hsign hright | exact .div hsign hright
  | @adjacent ls rs first left right hleft hspaced hpair hright ih =>
    rw [List.length_append] at hlength
    rw [List.append_assoc] at hproper ⊢
    have hleftCalled : NotCalled left.shape (first :: rs ++ rest) :=
      fun next hnext hshape => absurd hshape hpair.shape_ne
    have hleftCaret : NotKind [.caret] (first :: rs ++ rest) := by
      intro next hnext hmem
      obtain rfl := Option.some.inj hnext
      have hbegins := hpair.begins
      rw [List.mem_singleton.mp hmem] at hbegins
      contradiction
    rw [ih hproper (by omega) hleftCalled hleftCaret]
    have hmultiplies := multiplies_eq_true_iff.mpr (.inl hpair)
    exact hmore hproper.right_of_append (by omega) (.adjacent hspaced hmultiplies hright) hcalled
      hcaret

/-- What is left does not continue a product. -/
structure EndsFactor (shape : Shape) (rest : List Lexeme) : Prop where
  notCalled : NotCalled shape rest
  notProduct : NotProduct shape rest
  notKind : NotKind [.caret, .star, .slash] rest

omit hbegins hsound hprimary in
theorem moreFactors_of_endsFactor {a : Operand} {rest : List Lexeme}
    (h : EndsFactor a.shape rest) :
    moreFactors primary a (Feed.ofList last rest) = .ok (none, Feed.ofList last rest) := by
  refine moreFactors_of_ne (h.notKind.current_ne hlast (by decide) (by decide))
    (h.notKind.current_ne hlast (by decide) (by decide)) fun hspaced => ?_
  refine Bool.eq_false_iff.mpr fun hmultiplies => ?_
  cases rest with
  | nil =>
    rw [Feed.current_ofList_nil, hlast] at hmultiplies
    rcases multiplies_eq_true_iff.mp hmultiplies with hpair | ⟨-, hnumber⟩
    · cases hpair.begins
    · contradiction
  | cons next rest =>
    rcases multiplies_eq_true_iff.mp hmultiplies with hpair | ⟨hshape, hnumber⟩
    · exact h.notProduct next rfl hspaced hpair
    · exact (h.notCalled next rfl hshape hspaced).2 hnumber

theorem complete_factor {ls rest : List Lexeme} {a : Operand}
    (hproper : Lexeme.Proper (ls ++ rest)) (hlength : ls.length ≤ n) (h : IsFactor Primary ls a)
    (hends : EndsFactor a.shape rest) :
    factor primary (Feed.ofList last (ls ++ rest)) = .ok (a.expr, Feed.ofList last rest) := by
  have hchain := unary_chain_of_isFactor hlast hbegins hsound hprimary hproper hlength h
    hends.notCalled (hends.notKind.mono (by decide))
  rw [chain_of_none (advances_moreFactors hlast hbegins hsound) hproper.right_of_append
    (moreFactors_of_endsFactor hlast hends)] at hchain
  -- the chain works on operands, of which the expression is kept
  have hassoc : factor primary = (unary primary >>= chain (moreFactors primary)) >>=
      fun product => pure product.expr := (bind_assoc _ _ _).symm
  rw [hassoc, bind_of_ok hchain]
  rfl

/-- What is left does not continue a sum. -/
structure EndsTerm (shape : Shape) (rest : List Lexeme) : Prop extends EndsFactor shape rest where
  notSign : NotKind [.plus, .minus] rest

/-- What extends a sum by one product is read in one step. -/
theorem complete_moreTerms {ls rest : List Lexeme} {left : Expr} {a : Operand}
    (hproper : Lexeme.Proper (ls ++ rest)) (hlength : ls.length ≤ n)
    (h : OneMoreTerm Primary left ls a) (hends : EndsFactor a.shape rest) :
    moreTerms primary left (Feed.ofList last (ls ++ rest)) =
      .ok (some a.expr, Feed.ofList last rest) := by
  cases h with
  | @add sign rs a hsign h =>
    have hplus : (Feed.ofList last (sign :: rs ++ rest)).current.kind = .plus := hsign
    rw [moreTerms_of_plus hplus, List.cons_append, next_bind_ofList]
    exact bind_of_ok (complete_factor hlast hbegins hsound hprimary hproper.tail
      (Nat.le_of_succ_le hlength) h hends)
  | @sub sign rs a hsign h =>
    have hminus : (Feed.ofList last (sign :: rs ++ rest)).current.kind = .minus := hsign
    rw [moreTerms_of_minus hminus, List.cons_append, next_bind_ofList]
    exact bind_of_ok (complete_factor hlast hbegins hsound hprimary hproper.tail
      (Nat.le_of_succ_le hlength) h hends)

/-- A chain of sums that starts in front of a sum is the one that starts behind. -/
theorem factor_chain_of_isTerm {ls rest : List Lexeme} {a : Operand}
    (hproper : Lexeme.Proper (ls ++ rest)) (hlength : ls.length ≤ n) (h : IsTerm Primary ls a)
    (hends : EndsFactor a.shape rest) :
    (factor primary >>= chain (moreTerms primary)) (Feed.ofList last (ls ++ rest)) =
      chain (moreTerms primary) a.expr (Feed.ofList last rest) := by
  have hmore {ls rest : List Lexeme} {left : Expr} {a : Operand}
      (hproper : Lexeme.Proper (ls ++ rest)) (hlength : ls.length ≤ n)
      (h : OneMoreTerm Primary left ls a) (hends : EndsFactor a.shape rest) :
      chain (moreTerms primary) left (Feed.ofList last (ls ++ rest)) =
        chain (moreTerms primary) a.expr (Feed.ofList last rest) :=
    chain_of_some (advances_moreTerms hlast hbegins hsound) hproper
      (complete_moreTerms hlast hbegins hsound hprimary hproper hlength h hends)
  induction h generalizing rest with
  | factor h =>
    exact bind_of_ok (complete_factor hlast hbegins hsound hprimary hproper hlength h hends)
  | @add ls rs sign left right hleft hsign hright ih
  | @sub ls rs sign left right hleft hsign hright ih =>
    rw [List.length_append] at hlength
    rw [List.append_assoc] at hproper ⊢
    -- a sign begins no primary, so the sum in front of it ends there
    have hnot : ¬ BeginsPrimary sign.kind := by rw [hsign]; decide
    rw [ih hproper (by omega)
      ⟨notCalled_cons hnot _ _, notProduct_cons hnot _ _, by simp [NotKind, hsign]⟩]
    refine hmore hproper.right_of_append (by omega) ?_ hends
    first | exact .add hsign hright | exact .sub hsign hright

theorem complete_term {ls rest : List Lexeme} {a : Operand}
    (hproper : Lexeme.Proper (ls ++ rest)) (hlength : ls.length ≤ n) (h : IsTerm Primary ls a)
    (hends : EndsTerm a.shape rest) :
    term primary (Feed.ofList last (ls ++ rest)) = .ok (a.expr, Feed.ofList last rest) := by
  have hchain := factor_chain_of_isTerm hlast hbegins hsound hprimary hproper hlength h
    hends.toEndsFactor
  have hstop : moreTerms primary a.expr (Feed.ofList last rest) = .ok (none, Feed.ofList last rest) :=
    moreTerms_of_ne (hends.notSign.current_ne hlast (by decide) (by decide))
      (hends.notSign.current_ne hlast (by decide) (by decide))
  rw [chain_of_none (advances_moreTerms hlast hbegins hsound) hproper.right_of_append hstop]
    at hchain
  exact hchain

omit hlast hbegins hsound hprimary in
theorem endsTerm_cons {next : Lexeme} (hbegins : ¬ BeginsTerm next.kind)
    (hkind : next.kind ∉ [.caret, .star, .slash]) (shape : Shape) (rest : List Lexeme) :
    EndsTerm shape (next :: rest) where
  notCalled := notCalled_cons (fun h => hbegins (.primary h)) shape rest
  notProduct := notProduct_cons (fun h => hbegins (.primary h)) shape rest
  notKind next' hnext := by
    obtain rfl := Option.some.inj hnext
    exact hkind
  notSign next' hnext hmem := by
    obtain rfl := Option.some.inj hnext
    rcases List.mem_pair.mp hmem with hplus | hminus
    · exact hbegins (hplus ▸ .plus)
    · exact hbegins (hminus ▸ .minus)

omit hlast hbegins hsound hprimary in
theorem endsTerm_of_kind {next : Lexeme} (h : next.kind = .comma ∨ next.kind = .closeParen)
    (shape : Shape) (rest : List Lexeme) : EndsTerm shape (next :: rest) := by
  refine endsTerm_cons (fun hbegins => ?_) ?_ shape rest
  · rcases h with h | h <;> rw [h] at hbegins <;> exact absurd hbegins (by decide)
  · rcases h with h | h <;> rw [h] <;> decide

/-! ## Arguments -/

/-- An argument with the comma in front of it is read in one step. -/
theorem complete_moreArguments (name : Lexeme) {comma next : Lexeme} {ls rest : List Lexeme}
    {a : Operand} (hcomma : comma.kind = .comma)
    (hproper : Lexeme.Proper (comma :: ls ++ next :: rest)) (hlength : ls.length ≤ n)
    (h : IsTerm Primary ls a) (hnext : next.kind = .comma ∨ next.kind = .closeParen) :
    moreArguments primary name (Feed.ofList last (comma :: ls ++ next :: rest)) =
      .ok (some a.expr, Feed.ofList last (next :: rest)) := by
  obtain ⟨first, ks, rfl, hfirst⟩ := isTerm_begins hbegins ls a h
  have hcurrent : (Feed.ofList last (comma :: (first :: ks) ++ next :: rest)).current.kind =
    .comma := hcomma
  rw [moreArguments_of_comma hcurrent, List.cons_append, next_bind_ofList, current_bind]
  -- a comma in front of the end of the call would be refused, but no term begins there
  have hnot : ¬ ((Feed.ofList last (first :: ks ++ next :: rest)).current.is .closeParen ||
      (Feed.ofList last (first :: ks ++ next :: rest)).current.is .endOfInput) = true := by
    rw [List.cons_append, Feed.current_ofList_cons]
    intro hor
    rcases Bool.or_eq_true_iff.mp hor with his | his <;>
      rw [Lexeme.is_eq_true_iff.mp his] at hfirst <;> exact absurd hfirst (by decide)
  rw [if_neg hnot]
  exact bind_of_ok (complete_term hlast hbegins hsound hprimary hproper.tail hlength h
    (endsTerm_of_kind hnext _ _))

/-- Further arguments, each with the comma in front of it. -/
theorem complete_laterArguments (name : Lexeme) {comma closing : Lexeme} {ls rest : List Lexeme}
    {es : List Expr} (hcomma : comma.kind = .comma)
    (hproper : Lexeme.Proper (comma :: ls ++ closing :: rest)) (hlength : ls.length ≤ n)
    (h : IsArgumentList Primary ls es) (hclosing : closing.kind = .closeParen) :
    many (moreArguments primary name) (Feed.ofList last (comma :: ls ++ closing :: rest)) =
      .ok (es, Feed.ofList last (closing :: rest)) := by
  have hsteps := advances_moreArguments hlast hbegins hsound name
  induction h generalizing comma with
  | @one ls a h =>
    have hone := complete_moreArguments hlast hbegins hsound hprimary name hcomma hproper hlength h
      (.inr hclosing)
    refine many_of_some hsteps hproper hone ?_
    refine many_of_none hsteps hproper.right_of_append (moreArguments_of_ne ?_)
    rw [Feed.current_ofList_cons, hclosing]
    decide
  | @more ls rs comma' a es hfirst hcomma' hlater ih =>
    rw [List.length_append, List.length_cons] at hlength
    rw [← List.cons_append, List.append_assoc] at hproper ⊢
    have hone := complete_moreArguments hlast hbegins hsound hprimary name hcomma hproper
      (by omega) hfirst (.inl hcomma')
    refine many_of_some hsteps hproper hone ?_
    exact ih hcomma' hproper.right_of_append (by omega)

theorem complete_arguments (name : Lexeme) {opening closing : Lexeme} {ls rest : List Lexeme}
    {es : List Expr} (hopening : opening.kind = .openParen)
    (hproper : Lexeme.Proper (opening :: ls ++ closing :: rest)) (hlength : ls.length ≤ n)
    (h : IsArguments Primary ls es) (hclosing : closing.kind = .closeParen) :
    arguments primary name (Feed.ofList last (opening :: ls ++ closing :: rest)) =
      .ok (es, Feed.ofList last rest) := by
  rw [arguments_eq, List.cons_append, nextOf_bind_of_kind hopening, current_bind]
  have hcurrent : (Feed.ofList last (closing :: rest)).current.kind = .closeParen := hclosing
  cases h with
  | none =>
    rw [List.nil_append, if_pos (Lexeme.is_eq_true_iff.mpr hcurrent), next_bind_ofList]
    rfl
  | some h =>
    have hnot : ¬ (Feed.ofList last (ls ++ closing :: rest)).current.is .closeParen = true := by
      obtain ⟨first, ks, rfl, hfirst⟩ := isArgumentList_begins hbegins ls es h
      rw [List.cons_append, Feed.current_ofList_cons]
      intro his
      rw [Lexeme.is_eq_true_iff.mp his] at hfirst
      exact absurd hfirst (by decide)
    rw [if_neg hnot]
    cases h with
    | one h =>
      rw [bind_of_ok (complete_term hlast hbegins hsound hprimary hproper.tail hlength h
        (endsTerm_of_kind (.inr hclosing) _ _))]
      have hnone := many_of_none (advances_moreArguments hlast hbegins hsound name)
        hproper.right_of_append (moreArguments_of_ne (by rw [hcurrent]; decide))
      rw [bind_of_ok hnone, closing_of_closeParen hcurrent, next_bind_ofList]
      rfl
    | @more ls rs comma a es hfirst hcomma hlater =>
      rw [List.length_append, List.length_cons] at hlength
      rw [List.cons_append, List.append_assoc] at hproper
      rw [List.append_assoc, bind_of_ok (complete_term hlast hbegins hsound hprimary hproper.tail
        (by omega) hfirst (endsTerm_of_kind (.inl hcomma) _ _))]
      rw [bind_of_ok (complete_laterArguments hlast hbegins hsound hprimary name hcomma
        hproper.tail.right_of_append (by omega) hlater hclosing), closing_of_closeParen hcurrent,
        next_bind_ofList]
      rfl

end Productions

/-! ## Primaries -/

/-- Primaries are read as long as the depth of nesting is not less than their length. -/
theorem complete_primary (hlast : last.kind = .endOfInput) (depth : ℕ) :
    Complete last depth IsPrimary (fun a rest => NotCalled a.shape rest) (primary depth) := by
  induction depth with
  | zero =>
    intro ls a rest _ hlength h _
    -- a primary has at least one lexeme
    obtain ⟨l, ks, rfl, -⟩ := isPrimary_begins ls a h
    simp at hlength
  | succ depth ih =>
    intro ls a rest hproper hlength h hcalled
    have hsound := sound_primary hlast depth
    cases h with
    | @group opening closing ls a hopening h hclosing =>
      have hcurrent : (Feed.ofList last (opening :: (ls ++ [closing]) ++ rest)).current.kind =
        .openParen := hopening
      rw [List.length_cons, List.length_append] at hlength
      rw [primary_of_openParen hcurrent, List.cons_append, next_bind_ofList]
      rw [List.cons_append, List.append_assoc] at hproper
      rw [List.append_assoc, bind_of_ok (complete_term hlast isPrimary_begins hsound ih hproper.tail
        (by simp at hlength; omega) h (endsTerm_of_kind (.inr hclosing) _ _))]
      exact nextOf_bind_of_kind hclosing _ rest
    | @number l hl =>
      have hcurrent : (Feed.ofList last ([l] ++ rest)).current.kind = .number := hl
      rw [primary_of_number hcurrent, List.singleton_append, next_bind_ofList]
      rfl
    | @symbol l hl =>
      have hcurrent : (Feed.ofList last ([l] ++ rest)).current.kind = .identifier := hl
      rw [primary_of_identifier hcurrent, List.singleton_append, next_bind_ofList, current_bind]
      rw [if_neg]
      · rfl
      -- a parenthesis that touches the name would make it a call
      · intro hcall
        obtain ⟨hopen, hadjacent⟩ := Bool.and_eq_true_iff.mp hcall
        rw [Lexeme.isAdjacent, Bool.not_eq_true'] at hadjacent
        cases rest with
        | nil =>
          have hkind := Lexeme.is_eq_true_iff.mp hopen
          rw [Feed.current_ofList_nil, hlast] at hkind
          contradiction
        | cons next rest =>
          exact (hcalled next rfl rfl hadjacent).1 (Lexeme.is_eq_true_iff.mp hopen)
    | @call name opening closing ls es hname hopening hspaced h hclosing =>
      have hcurrent : (Feed.ofList last (name :: opening :: (ls ++ [closing]) ++ rest)).current.kind =
        .identifier := hname
      rw [primary_of_identifier hcurrent, List.cons_append, next_bind_ofList, current_bind,
        List.cons_append, Feed.current_ofList_cons]
      rw [List.length_cons, List.length_cons, List.length_append] at hlength
      rw [List.cons_append, List.cons_append, List.append_assoc] at hproper
      have hcall : (opening.is .openParen && opening.isAdjacent) = true := by
        simp [Lexeme.is, Lexeme.isAdjacent, hopening, hspaced]
      rw [if_pos hcall, List.append_assoc]
      have hargs := complete_arguments hlast isPrimary_begins hsound ih name hopening hproper.tail
        (by simp at hlength; omega) h hclosing
      exact bind_of_ok hargs

/-! ## Equations, phrases and statements -/

/-- What is left does not continue an equation. -/
structure EndsEquation (shape : Shape) (rest : List Lexeme) : Prop extends EndsTerm shape rest where
  notEqual : NotKind [.equal] rest

/-- Behind a phrase there is a comma or nothing. -/
def EndsPhrase (rest : List Lexeme) : Prop := ∀ next ∈ rest.head?, next.kind = .comma

theorem EndsPhrase.endsEquation {rest : List Lexeme} (h : EndsPhrase rest) (shape : Shape) :
    EndsEquation shape rest := by
  cases rest with
  | nil => exact ⟨⟨⟨nofun, nofun, nofun⟩, nofun⟩, nofun⟩
  | cons next rest =>
    have hcomma : next.kind = .comma := h next rfl
    exact ⟨endsTerm_of_kind (.inl hcomma) shape rest, by simp [NotKind, hcomma]⟩

theorem EndsPhrase.current (hlast : last.kind = .endOfInput) {rest : List Lexeme}
    (h : EndsPhrase rest) :
    (Feed.ofList last rest).current.kind = .endOfInput ∨
      (Feed.ofList last rest).current.kind = .comma := by
  cases rest with
  | nil => exact .inl hlast
  | cons next rest => exact .inr (h next rfl)

/-- A term that can follow an equation does not continue it. -/
theorem endsEquation_of_canFollow {ls rest : List Lexeme} {next : Lexeme} {a : Operand}
    (hproper : Lexeme.Proper (ls ++ next :: rest)) (h : IsEquation ls a)
    (hfollow : CanFollow a.shape next) (hnext : BeginsTerm next.kind) :
    EndsEquation a.shape (next :: rest) := by
  have hkind {kinds : List TokenKind} (hnot : ∀ kind ∈ kinds, ¬ BeginsTerm kind) :
      NotKind kinds (next :: rest) := by
    intro next' hhead hmem
    obtain rfl := Option.some.inj hhead
    exact hnot _ hmem hnext
  refine ⟨⟨⟨?_, ?_, hkind (by decide)⟩, ?_⟩, hkind (by decide)⟩
  · intro next' hhead hshape hspaced
    obtain rfl := Option.some.inj hhead
    refine ⟨hfollow.not_call hspaced hshape, fun hnumber => ?_⟩
    obtain ⟨ks, l, rfl, hword⟩ := isEquation_endsInWord ls a h hshape
    rw [List.append_assoc] at hproper
    have htrue := hproper.isChain.right_of_append.rel_head? rfl hword hnumber
    rw [hspaced] at htrue
    contradiction
  · intro next' hhead
    obtain rfl := Option.some.inj hhead
    exact hfollow.not_product
  · intro next' hhead hmem
    obtain rfl := Option.some.inj hhead
    rcases List.mem_pair.mp hmem with hplus | hminus
    · exact hfollow.not_sign.1 hplus
    · exact hfollow.not_sign.2 hminus

section Statements

variable (hlast : last.kind = .endOfInput) {depth : ℕ}
include hlast

theorem complete_equation {ls rest : List Lexeme} {a : Operand}
    (hproper : Lexeme.Proper (ls ++ rest)) (hlength : ls.length ≤ depth) (h : IsEquation ls a)
    (hends : EndsEquation a.shape rest) :
    equation depth (Feed.ofList last (ls ++ rest)) = .ok (a.expr, Feed.ofList last rest) := by
  have hterm {ls rest : List Lexeme} {a : Operand} (hproper : Lexeme.Proper (ls ++ rest))
      (hlength : ls.length ≤ depth) (h : IsTerm IsPrimary ls a) (hends : EndsTerm a.shape rest) :=
    complete_term hlast isPrimary_begins (sound_primary hlast depth) (complete_primary hlast depth)
      hproper hlength h hends
  cases h with
  | term h =>
    exact equation_of_ne (hterm hproper hlength h hends.toEndsTerm)
      (hends.notEqual.current_ne hlast List.mem_cons_self (by decide))
  | @equal ls rs sign left right hleft hsign hright =>
    rw [List.length_append, List.length_cons] at hlength
    rw [List.append_assoc] at hproper ⊢
    have hsignEnds : EndsTerm left.shape (sign :: rs ++ rest) := by
      refine endsTerm_cons (fun hbegins => ?_) (by rw [hsign]; decide) _ _
      rw [hsign] at hbegins
      exact absurd hbegins (by decide)
    rw [equation_of_equal (hterm hproper (by omega) hleft hsignEnds) hsign, List.cons_append,
      next_bind_ofList]
    exact bind_of_ok (hterm hproper.right_of_append.tail (by omega) hright hends.toEndsTerm)

/-- An equation of a phrase is read in one step. -/
theorem complete_moreEquations {ls rest : List Lexeme} {a : Operand}
    (hproper : Lexeme.Proper (ls ++ rest)) (hlength : ls.length ≤ depth) (h : IsEquation ls a)
    (hends : EndsEquation a.shape rest) :
    moreEquations depth (Feed.ofList last (ls ++ rest)) =
      .ok (some a.expr, Feed.ofList last rest) := by
  have hbegins : BeginsTerm (Feed.ofList last (ls ++ rest)).current.kind := by
    obtain ⟨first, ks, rfl, hfirst⟩ := isEquation_begins ls a h
    exact hfirst
  rw [moreEquations_of_ne (fun hend => absurd (hend ▸ hbegins) (by decide))
    (fun hcomma => absurd (hcomma ▸ hbegins) (by decide))]
  exact bind_of_ok (complete_equation hlast hproper hlength h hends)

/-- A succession of equations yields all expressions of a phrase. -/
theorem complete_laterEquations {ls rest : List Lexeme} {p : Phrase}
    (hproper : Lexeme.Proper (ls ++ rest)) (hlength : ls.length ≤ depth) (h : IsPhrase ls p)
    (hends : EndsPhrase rest) :
    many (moreEquations depth) (Feed.ofList last (ls ++ rest)) = .ok (p, Feed.ofList last rest) := by
  have hsteps := advances_moreEquations hlast depth
  induction h with
  | @one ls a h =>
    have hone := complete_moreEquations hlast hproper hlength h (hends.endsEquation _)
    refine many_of_some hsteps hproper hone ?_
    exact many_of_none hsteps hproper.right_of_append (moreEquations_of_end (hends.current hlast))
  | @more ls rs next a es hfirst hnext hlater ih =>
    rw [List.length_append] at hlength
    rw [List.append_assoc] at hproper ⊢
    obtain ⟨l, ks, heq, hbegins⟩ := isPhrase_begins _ _ hlater
    obtain ⟨rfl, rfl⟩ := List.cons.inj heq
    have hle : ls.length ≤ depth := by omega
    have hone := complete_moreEquations hlast hproper hle hfirst
      (endsEquation_of_canFollow hproper hfirst hnext hbegins)
    refine many_of_some hsteps hproper hone ?_
    exact ih hproper.right_of_append (by omega)

theorem complete_phrase {ls rest : List Lexeme} {p : Phrase} (hproper : Lexeme.Proper (ls ++ rest))
    (hlength : ls.length ≤ depth) (h : IsPhrase ls p) (hends : EndsPhrase rest) :
    phrase depth (Feed.ofList last (ls ++ rest)) = .ok (p, Feed.ofList last rest) := by
  cases h with
  | @one ls a h =>
    refine (bind_of_ok (complete_equation hlast hproper hlength h (hends.endsEquation _))).trans ?_
    have hnone := many_of_none (advances_moreEquations hlast depth) hproper.right_of_append
      (moreEquations_of_end (hends.current hlast))
    exact bind_of_ok hnone
  | @more ls rs next a es hfirst hnext hlater =>
    rw [List.length_append] at hlength
    rw [List.append_assoc] at hproper ⊢
    obtain ⟨l, ks, heq, hbegins⟩ := isPhrase_begins _ _ hlater
    obtain ⟨rfl, rfl⟩ := List.cons.inj heq
    refine (bind_of_ok (complete_equation hlast hproper (by omega) hfirst
      (endsEquation_of_canFollow hproper hfirst hnext hbegins))).trans ?_
    exact bind_of_ok (complete_laterEquations hlast hproper.right_of_append (by omega) hlater hends)

/-- A phrase with the comma in front of it is read in one step. -/
theorem complete_morePhrases {comma : Lexeme} {ls rest : List Lexeme} {p : Phrase}
    (hcomma : comma.kind = .comma) (hproper : Lexeme.Proper (comma :: ls ++ rest))
    (hlength : ls.length ≤ depth) (h : IsPhrase ls p) (hends : EndsPhrase rest) :
    morePhrases depth (Feed.ofList last (comma :: ls ++ rest)) =
      .ok (some p, Feed.ofList last rest) := by
  have hcurrent : (Feed.ofList last (comma :: ls ++ rest)).current.kind = .comma := hcomma
  rw [morePhrases_of_comma hcurrent, List.cons_append, next_bind_ofList]
  exact bind_of_ok (complete_phrase hlast hproper.tail hlength h hends)

/-- Further phrases, each with the comma in front of it. -/
theorem complete_laterPhrases {comma : Lexeme} {ls : List Lexeme} {ps : Statement}
    (hcomma : comma.kind = .comma) (hproper : Lexeme.Proper (comma :: ls))
    (hlength : ls.length ≤ depth) (h : IsStatement ls ps) :
    many (morePhrases depth) (Feed.ofList last (comma :: ls)) = .ok (ps, Feed.ofList last []) := by
  have hsteps := advances_morePhrases hlast depth
  induction h generalizing comma with
  | @one ls p h =>
    rw [← List.append_nil (comma :: ls)] at hproper ⊢
    have hone := complete_morePhrases hlast hcomma hproper hlength h (nofun : EndsPhrase [])
    exact many_of_some hsteps hproper hone (many_of_none hsteps ⟨.nil, nofun⟩ hsteps.ends)
  | @more ls rs comma' p ps hfirst hcomma' hlater ih =>
    rw [List.length_append, List.length_cons] at hlength
    rw [← List.cons_append] at hproper ⊢
    have hends : EndsPhrase (comma' :: rs) := fun next hnext => Option.some.inj hnext ▸ hcomma'
    have hle : ls.length ≤ depth := by omega
    have hone := complete_morePhrases hlast hcomma hproper hle hfirst hends
    refine many_of_some hsteps hproper hone ?_
    exact ih hcomma' hproper.right_of_append (by omega)

theorem complete_statement {ls : List Lexeme} {s : Statement} (hproper : Lexeme.Proper ls)
    (hlength : ls.length ≤ depth) (h : IsStatement ls s) :
    statement depth (Feed.ofList last ls) = .ok (s, Feed.ofList last []) := by
  have hsteps := advances_morePhrases hlast depth
  cases h with
  | one h =>
    rw [← List.append_nil ls] at hproper ⊢
    have hrun := complete_phrase hlast hproper hlength h (nofun : EndsPhrase [])
    refine (bind_of_ok hrun).trans ?_
    exact bind_of_ok (many_of_none hsteps ⟨.nil, nofun⟩ hsteps.ends)
  | @more ls rs comma p ps hfirst hcomma hlater =>
    rw [List.length_append, List.length_cons] at hlength
    have hends : EndsPhrase (comma :: rs) := fun next hnext => Option.some.inj hnext ▸ hcomma
    refine (bind_of_ok (complete_phrase hlast hproper (by omega) hfirst hends)).trans ?_
    exact bind_of_ok (complete_laterPhrases hlast hcomma hproper.right_of_append (by omega) hlater)

omit hlast in
/-- A program has no statement or one. -/
theorem eq_nil_or_isStatement {ls : List Lexeme} {ss : List Statement} (h : IsProgram ls ss) :
    ls = [] ∧ ss = [] ∨ ∃ s, ss = [s] ∧ IsStatement ls s := by
  induction h with
  | nil => exact .inl ⟨rfl, rfl⟩
  | @cons ls rs s ss hfirst hends hlater ih =>
    rcases ih with ⟨rfl, rfl⟩ | ⟨s', rfl, hs'⟩
    · exact .inr ⟨s, rfl, by rwa [List.append_nil]⟩
    -- what follows a statement begins none, so there is no second one
    · obtain ⟨l, ks, rfl, hbegins⟩ := isStatement_begins rs s' hs'
      rw [hends l rfl] at hbegins
      exact absurd hbegins (by decide)

theorem complete_program {ls : List Lexeme} {ss : List Statement} (hproper : Lexeme.Proper ls)
    (hlength : ls.length ≤ depth) (h : IsProgram ls ss) :
    program depth (Feed.ofList last ls) = .ok (⟨ss⟩, Feed.ofList last []) := by
  have hsteps := advances_moreStatements hlast depth
  have hnone := many_of_none hsteps ⟨.nil, nofun⟩ hsteps.ends
  rcases eq_nil_or_isStatement h with ⟨rfl, rfl⟩ | ⟨s, rfl, hs⟩
  · exact bind_of_ok hnone
  · have hne : (Feed.ofList last ls).current.kind ≠ .endOfInput := by
      obtain ⟨first, ks, rfl, hfirst⟩ := isStatement_begins ls s hs
      exact hproper.kind_ne first List.mem_cons_self
    have hrun : moreStatements depth (Feed.ofList last ls) = .ok (some s, Feed.ofList last []) := by
      rw [moreStatements_of_ne hne]
      exact bind_of_ok (complete_statement hlast hproper hlength hs)
    exact bind_of_ok (many_of_some hsteps hproper hrun hnone)

end Statements

end QueryParser

/-! ## Queries -/

/-- On a text that is read as lexemes the parser runs on these. -/
theorem parse_eq_of_reads {source : String} {ls : List Lexeme} {last : Lexeme}
    (h : Lexeme.Reads (.ofString source) ls last) :
    parse source = (QueryParser.program (ls.length + 1) (Feed.ofList last ls)).map Prod.fst := by
  rw [parse, Lexeme.reading_eq_iff.mpr h, run, Feed.ofReading_of_ending rfl]

/-- Reading a text that is made of lexemes as a program is deriving the program from them. -/
theorem parse_eq_ok_iff_isProgram {source : String} {ls : List Lexeme} {last : Lexeme}
    (h : Lexeme.Reads (.ofString source) ls last) (p : Program) :
    parse source = .ok p ↔ IsProgram ls p.statements := by
  obtain ⟨middle, after, hscans, -, hlast⟩ := id h
  rw [parse_eq_of_reads h, Except.map_eq_ok]
  constructor
  · rintro ⟨⟨p, after⟩, hrun, rfl⟩
    exact QueryParser.sound_program hlast hscans.proper hrun
  · intro hprogram
    exact ⟨_, QueryParser.complete_program hlast hscans.proper (Nat.le_succ _) hprogram, rfl⟩

/-- The parser accepts exactly its grammar.  A text that is made of lexemes is read as a
program if and only if its lexemes make up that program.  Such a program has at most one
statement, so matching a query looks at all its terms. -/
theorem parse_eq_ok_iff {source : String} {ks : List Lexeme} (h : tokenize source = .ok ks) :
    (∀ p, parse source = .ok p ↔ IsQuery ks p) ∧
      ∀ p, parse source = .ok p → p.statements.length ≤ 1 ∧
        ∀ t : Trie, t.matchProgram p =
          if p.statements = [] then .ok none
          else (t.matchFrom .empty .start p.terms).map some := by
  obtain ⟨ls, last, rfl, hreads⟩ := tokenize_eq_ok_iff.mp h
  obtain ⟨middle, after, -, -, hlast⟩ := id hreads
  have hiff (p : Program) : parse source = .ok p ↔ IsQuery (ls ++ [last]) p := by
    rw [parse_eq_ok_iff_isProgram hreads]
    constructor
    · exact fun hprogram => ⟨ls, last, rfl, hlast, hprogram⟩
    · rintro ⟨ls', last', heq, -, hprogram⟩
      obtain ⟨rfl, -⟩ := List.append_inj' heq rfl
      exact hprogram
  refine ⟨hiff, fun p hp => ?_⟩
  have hprogram := (parse_eq_ok_iff_isProgram hreads p).mp hp
  rcases QueryParser.eq_nil_or_isStatement hprogram with ⟨-, hss⟩ | ⟨s, hss, -⟩
  · simp [hss, Trie.matchProgram]
  · simp [hss, Trie.matchProgram, Trie.matchStatement, Program.terms]

/-- The lexemes of `2x` make up exactly what is read, the product of the two. -/
theorem parse_eq_ok_iff_of_product :
    let ks : List Lexeme := [⟨⟨⟨"2", ⟨1, 1⟩⟩, .number⟩, false⟩, ⟨⟨⟨"x", ⟨1, 2⟩⟩, .identifier⟩, false⟩,
      ⟨⟨⟨"", ⟨1, 3⟩⟩, .endOfInput⟩, false⟩]
    tokenize "2x" = .ok ks ∧ (∀ p, parse "2x" = .ok p ↔ IsQuery ks p) ∧
      ∀ p, parse "2x" = .ok p → p.statements.length ≤ 1 ∧
        ∀ t : Trie, t.matchProgram p =
          if p.statements = [] then .ok none
          else (t.matchFrom .empty .start p.terms).map some :=
  ⟨rfl, parse_eq_ok_iff rfl⟩

end MathQuery
