import MathQuery.Proofs.Query.Productions

/-!
# What the parser reads has a derivation

A parser that succeeds has consumed lexemes that its result is derived from.  What is
left behind them is known not to continue the result, which is what the productions
around it need.

* `QueryParser.Sound` – the property of a parser that every production keeps;
* `QueryParser.sound_primary` – primaries, by induction on the depth of nesting;
* `QueryParser.sound_program` – all lexemes of a query.
-/

namespace MathQuery

open Grammar MathQuery.Parser

namespace QueryParser

variable {last : Lexeme} {α : Type}

/-! ## Soundness of a parser -/

/-- From proper lexemes a parser that succeeds takes a front part, and `P` holds of that
part, the result and what is left. -/
def Sound (last : Lexeme) (P : List Lexeme → α → List Lexeme → Prop) (parser : QueryParser α) :
    Prop :=
  ∀ ts a after, Lexeme.Proper ts → parser (Feed.ofList last ts) = .ok (a, after) →
    ∃ ls rest, ts = ls ++ rest ∧ after = Feed.ofList last rest ∧ P ls a rest

/-- Neither an opening parenthesis nor a number touches a last symbol. -/
def NotCalled (shape : Shape) (rest : List Lexeme) : Prop :=
  ∀ next ∈ rest.head?, shape = .symbol → next.spaced = false →
    next.kind ≠ .openParen ∧ next.kind ≠ .number

/-- What follows does not form an adjacent product with the last primary. -/
def NotProduct (shape : Shape) (rest : List Lexeme) : Prop :=
  ∀ next ∈ rest.head?, next.spaced = false → ¬ AdjacentPair shape next.kind

section Productions

variable {Primary : Derivation} {primary : QueryParser Operand}
  (hlast : last.kind = .endOfInput) (hbegins : Begins Primary BeginsPrimary)
  (hprimary : Sound last (fun ls a rest => Primary ls a ∧ NotCalled a.shape rest) primary)
include hlast hprimary

theorem sound_power :
    Sound last (fun ls a rest => IsPower Primary ls a ∧ NotCalled a.shape rest) (power primary) := by
  intro ts a after hproper h
  obtain ⟨base, middle, hbase, -⟩ := bind_eq_ok.mp h
  obtain ⟨ls, rest, rfl, rfl, hls, hcalled⟩ := hprimary ts base middle hproper hbase
  by_cases hcaret : (Feed.ofList last rest).current.kind = .caret
  · rw [power_of_caret hbase hcaret] at h
    obtain ⟨caret, rest, rfl, hkind⟩ := exists_cons_of_current hlast (by decide) hcaret
    rw [next_bind_ofList] at h
    obtain ⟨exponent, middle, hexponent, h⟩ := bind_eq_ok.mp h
    obtain ⟨rs, rest, rfl, rfl, hrs, hcalled⟩ :=
      hprimary rest exponent middle hproper.right_of_append.tail hexponent
    obtain ⟨rfl, rfl⟩ := pure_eq_ok.mp h
    exact ⟨ls ++ caret :: rs, rest, by simp, rfl, .pow hls hkind hrs, hcalled⟩
  · rw [power_of_ne hbase hcaret] at h
    obtain ⟨rfl, rfl⟩ := Prod.mk.inj (Except.ok.inj h)
    exact ⟨ls, rest, rfl, rfl, .primary hls, hcalled⟩

theorem sound_unary :
    Sound last (fun ls a rest => IsUnary Primary ls a ∧ NotCalled a.shape rest) (unary primary) := by
  intro ts a after hproper h
  by_cases hminus : (Feed.ofList last ts).current.kind = .minus
  · rw [unary_of_minus hminus] at h
    obtain ⟨sign, ts, rfl, hkind⟩ := exists_cons_of_current hlast (by decide) hminus
    rw [next_bind_ofList] at h
    obtain ⟨operand, middle, hoperand, h⟩ := bind_eq_ok.mp h
    obtain ⟨ls, rest, rfl, rfl, hls, hcalled⟩ :=
      sound_power hlast hprimary ts operand middle hproper.tail hoperand
    obtain ⟨rfl, rfl⟩ := pure_eq_ok.mp h
    exact ⟨sign :: ls, rest, rfl, rfl, .minus hkind hls, hcalled⟩
  · by_cases hplus : (Feed.ofList last ts).current.kind = .plus
    · rw [unary_of_plus hplus] at h
      obtain ⟨sign, ts, rfl, hkind⟩ := exists_cons_of_current hlast (by decide) hplus
      rw [next_bind_ofList] at h
      obtain ⟨ls, rest, rfl, rfl, hls, hcalled⟩ :=
        sound_power hlast hprimary ts a after hproper.tail h
      exact ⟨sign :: ls, rest, rfl, rfl, .plus hkind hls, hcalled⟩
    · rw [unary_of_ne hminus hplus] at h
      obtain ⟨ls, rest, rfl, rfl, hls, hcalled⟩ :=
        sound_power hlast hprimary ts a after hproper h
      exact ⟨ls, rest, rfl, rfl, .power hls, hcalled⟩

/-! ## Products -/

/-- The lexemes that extend a product by one operand. -/
inductive OneMoreFactor (Primary : Derivation) (left : Operand) : Derivation
  | mul {sign : Lexeme} {rs : List Lexeme} {a : Operand} (hsign : sign.kind = .star)
    (h : IsUnary Primary rs a) :
    OneMoreFactor Primary left (sign :: rs) ⟨.binary .mul left.expr a.expr, a.shape⟩
  | div {sign : Lexeme} {rs : List Lexeme} {a : Operand} (hsign : sign.kind = .slash)
    (h : IsUnary Primary rs a) :
    OneMoreFactor Primary left (sign :: rs) ⟨.binary .div left.expr a.expr, a.shape⟩
  | adjacent {first : Lexeme} {rs : List Lexeme} {a : Operand} (hspaced : first.spaced = false)
    (hpair : left.shape.multiplies first.kind = true) (h : IsUnary Primary (first :: rs) a) :
    OneMoreFactor Primary left (first :: rs) ⟨.binary .mul left.expr a.expr, a.shape⟩

omit hlast hprimary in
theorem OneMoreFactor.ne_nil {left a : Operand} {ls : List Lexeme}
    (h : OneMoreFactor Primary left ls a) : ls ≠ [] := by
  cases h <;> exact List.cons_ne_nil _ _

omit hlast hprimary in
/-- A product and one more operand are a product, as no number touches a last symbol. -/
theorem isFactor_append {left a : Operand} {ks ls rest : List Lexeme}
    (hleft : IsFactor Primary ks left) (hcalled : NotCalled left.shape (ls ++ rest))
    (h : OneMoreFactor Primary left ls a) : IsFactor Primary (ks ++ ls) a := by
  cases h with
  | mul hsign h => exact .mul hleft hsign h
  | div hsign h => exact .div hleft hsign h
  | adjacent hspaced hpair h =>
    rcases multiplies_eq_true_iff.mp hpair with hpair | ⟨hshape, hnumber⟩
    · exact .adjacent hleft hspaced hpair h
    · exact absurd hnumber (hcalled _ rfl hshape hspaced).2

include hbegins in
theorem moreFactors_eq_some {left b : Operand} {ts : List Lexeme} {after : Feed Lexeme}
    (hproper : Lexeme.Proper ts)
    (h : moreFactors primary left (Feed.ofList last ts) = .ok (some b, after)) :
    ∃ ls rest, ts = ls ++ rest ∧ after = Feed.ofList last rest ∧
      OneMoreFactor Primary left ls b ∧ NotCalled b.shape rest := by
  have hright {result : Operand → Operand} {ts : List Lexeme} (hproper : Lexeme.Proper ts)
      (hrun : (unary primary >>= fun right => pure (some (result right)))
        (Feed.ofList last ts) = .ok (some b, after)) :
      ∃ ls rest a, ts = ls ++ rest ∧ after = Feed.ofList last rest ∧ IsUnary Primary ls a ∧
        NotCalled a.shape rest ∧ result a = b := by
    obtain ⟨right, middle, hright, hrun⟩ := bind_eq_ok.mp hrun
    obtain ⟨ls, rest, rfl, rfl, hls, hcalled⟩ :=
      sound_unary hlast hprimary ts right middle hproper hright
    obtain ⟨heq, rfl⟩ := pure_eq_ok.mp hrun
    exact ⟨ls, rest, right, rfl, rfl, hls, hcalled, Option.some.inj heq⟩
  by_cases hstar : (Feed.ofList last ts).current.kind = .star
  · rw [moreFactors_of_star hstar] at h
    obtain ⟨sign, ts, rfl, hkind⟩ := exists_cons_of_current hlast (by decide) hstar
    rw [next_bind_ofList] at h
    obtain ⟨ls, rest, a, rfl, rfl, hls, hcalled, rfl⟩ := hright hproper.tail h
    exact ⟨sign :: ls, rest, rfl, rfl, .mul hkind hls, hcalled⟩
  by_cases hslash : (Feed.ofList last ts).current.kind = .slash
  · rw [moreFactors_of_slash hslash] at h
    obtain ⟨sign, ts, rfl, hkind⟩ := exists_cons_of_current hlast (by decide) hslash
    rw [next_bind_ofList] at h
    obtain ⟨ls, rest, a, rfl, rfl, hls, hcalled, rfl⟩ := hright hproper.tail h
    exact ⟨sign :: ls, rest, rfl, rfl, .div hkind hls, hcalled⟩
  by_cases hpair : (Feed.ofList last ts).current.spaced = false ∧
      left.shape.multiplies (Feed.ofList last ts).current.kind = true
  · rw [moreFactors_of_multiplies hpair.1 hpair.2] at h
    obtain ⟨ls, rest, a, rfl, rfl, hls, hcalled, rfl⟩ := hright hproper h
    obtain ⟨first, ks, rfl, -⟩ := isUnary_begins hbegins ls a hls
    exact ⟨first :: ks, rest, rfl, rfl, .adjacent hpair.1 hpair.2 hls, hcalled⟩
  · have hnot (hspaced : (Feed.ofList last ts).current.spaced = false) :
        left.shape.multiplies (Feed.ofList last ts).current.kind = false :=
      Bool.eq_false_iff.mpr fun hmultiplies => hpair ⟨hspaced, hmultiplies⟩
    rw [moreFactors_of_ne hstar hslash hnot] at h
    cases h

omit hlast hprimary in
theorem moreFactors_eq_none {left : Operand} {ts : List Lexeme} {after : Feed Lexeme}
    (h : moreFactors primary left (Feed.ofList last ts) = .ok (none, after)) :
    after = Feed.ofList last ts ∧ NotProduct left.shape ts := by
  have hsome {next : QueryParser Operand} {result : Operand → Operand} {feed : Feed Lexeme}
      (hrun : (next >>= fun right => pure (some (result right))) feed = .ok (none, after)) :
      False := by
    obtain ⟨right, middle, -, hrun⟩ := bind_eq_ok.mp hrun
    cases (pure_eq_ok.mp hrun).1
  by_cases hstar : (Feed.ofList last ts).current.kind = .star
  · rw [moreFactors_of_star hstar] at h
    obtain ⟨sign, middle, -, h⟩ := bind_eq_ok.mp h
    exact (hsome h).elim
  by_cases hslash : (Feed.ofList last ts).current.kind = .slash
  · rw [moreFactors_of_slash hslash] at h
    obtain ⟨sign, middle, -, h⟩ := bind_eq_ok.mp h
    exact (hsome h).elim
  by_cases hpair : (Feed.ofList last ts).current.spaced = false ∧
      left.shape.multiplies (Feed.ofList last ts).current.kind = true
  · rw [moreFactors_of_multiplies hpair.1 hpair.2] at h
    exact (hsome h).elim
  · have hnot (hspaced : (Feed.ofList last ts).current.spaced = false) :
        left.shape.multiplies (Feed.ofList last ts).current.kind = false :=
      Bool.eq_false_iff.mpr fun hmultiplies => hpair ⟨hspaced, hmultiplies⟩
    rw [moreFactors_of_ne hstar hslash hnot] at h
    obtain ⟨-, rfl⟩ := Prod.mk.inj (Except.ok.inj h)
    refine ⟨rfl, fun next hnext hspaced hadjacent => ?_⟩
    cases ts with
    | nil => contradiction
    | cons l ts =>
      obtain rfl := Option.some.inj hnext
      exact hpair ⟨hspaced, multiplies_eq_true_iff.mpr (.inl hadjacent)⟩

include hbegins in
theorem advances_moreFactors (left : Operand) :
    Advances last Lexeme.Proper (moreFactors primary left) where
  shorter ts b after hproper h := by
    obtain ⟨ls, rest, rfl, rfl, hls, -⟩ := moreFactors_eq_some hlast hbegins hprimary hproper h
    have hpos := List.length_pos_iff.mpr hls.ne_nil
    refine ⟨rest, rfl, ?_, hproper.right_of_append⟩
    rw [List.length_append]
    omega
  ends := by
    have hkind : (Feed.ofList last []).current.kind = .endOfInput := hlast
    refine moreFactors_of_ne (by rw [hkind]; decide) (by rw [hkind]; decide) fun _ => ?_
    rw [hkind]
    cases left.shape <;> rfl

include hbegins in
theorem sound_factor :
    Sound last (fun ls e rest => ∃ shape, IsFactor Primary ls ⟨e, shape⟩ ∧ NotCalled shape rest ∧
      NotProduct shape rest) (factor primary) := by
  intro ts e after hproper h
  obtain ⟨first, middle, hfirst, h⟩ := bind_eq_ok.mp h
  obtain ⟨ks, ts, rfl, rfl, hks, hcalled⟩ := sound_unary hlast hprimary ts first middle hproper hfirst
  obtain ⟨product, middle, hproduct, h⟩ := bind_eq_ok.mp h
  obtain ⟨rfl, rfl⟩ := pure_eq_ok.mp h
  -- what was read so far is a product, and neither a call nor a number touches a last symbol
  obtain ⟨ls, rest, rfl, rfl, hls, hcalled, hrest⟩ :=
    chain_rule (advances_moreFactors hlast hbegins hprimary)
      (C := fun ls b rest => IsFactor Primary ls b ∧ NotCalled b.shape rest)
      (D := fun ls b rest =>
        IsFactor Primary ls b ∧ NotCalled b.shape rest ∧ NotProduct b.shape rest)
      (fun _ _ h => h.right_of_append)
      (fun ks left ts longer after hleft hproper hrun => by
        obtain ⟨ls, rest, rfl, rfl, hls, hcalled⟩ :=
          moreFactors_eq_some hlast hbegins hprimary hproper hrun
        exact ⟨ls, rest, hls.ne_nil, rfl, rfl, isFactor_append hleft.1 hleft.2 hls, hcalled⟩)
      (fun ks left ts after hleft _ hrun => by
        obtain ⟨rfl, hrest⟩ := moreFactors_eq_none hrun
        exact ⟨rfl, hleft.1, hleft.2, hrest⟩)
      ⟨.unary hks, hcalled⟩ hproper.right_of_append hproduct
  exact ⟨ks ++ ls, rest, by simp, rfl, product.shape, hls, hcalled, hrest⟩

/-! ## Sums -/

/-- The lexemes that extend a sum by one product. -/
inductive OneMoreTerm (Primary : Derivation) (left : Expr) : Derivation
  | add {sign : Lexeme} {rs : List Lexeme} {a : Operand} (hsign : sign.kind = .plus)
    (h : IsFactor Primary rs a) :
    OneMoreTerm Primary left (sign :: rs) ⟨.binary .add left a.expr, a.shape⟩
  | sub {sign : Lexeme} {rs : List Lexeme} {a : Operand} (hsign : sign.kind = .minus)
    (h : IsFactor Primary rs a) :
    OneMoreTerm Primary left (sign :: rs) ⟨.binary .sub left a.expr, a.shape⟩

omit hlast hprimary in
theorem OneMoreTerm.ne_nil {left : Expr} {a : Operand} {ls : List Lexeme}
    (h : OneMoreTerm Primary left ls a) : ls ≠ [] := by
  cases h <;> exact List.cons_ne_nil _ _

omit hlast hprimary in
theorem isTerm_append {left a : Operand} {ks ls : List Lexeme} (hleft : IsTerm Primary ks left)
    (h : OneMoreTerm Primary left.expr ls a) : IsTerm Primary (ks ++ ls) a := by
  cases h with
  | add hsign h => exact .add hleft hsign h
  | sub hsign h => exact .sub hleft hsign h

include hbegins in
theorem moreTerms_eq_some {left e : Expr} {ts : List Lexeme} {after : Feed Lexeme}
    (hproper : Lexeme.Proper ts)
    (h : moreTerms primary left (Feed.ofList last ts) = .ok (some e, after)) :
    ∃ ls rest shape, ts = ls ++ rest ∧ after = Feed.ofList last rest ∧
      OneMoreTerm Primary left ls ⟨e, shape⟩ ∧ NotCalled shape rest ∧ NotProduct shape rest := by
  have hright {result : Expr → Expr} {ts : List Lexeme} (hproper : Lexeme.Proper ts)
      (hrun : (factor primary >>= fun right => pure (some (result right)))
        (Feed.ofList last ts) = .ok (some e, after)) :
      ∃ ls rest a, ts = ls ++ rest ∧ after = Feed.ofList last rest ∧ IsFactor Primary ls a ∧
        NotCalled a.shape rest ∧ NotProduct a.shape rest ∧ result a.expr = e := by
    obtain ⟨right, middle, hright, hrun⟩ := bind_eq_ok.mp hrun
    obtain ⟨ls, rest, rfl, rfl, shape, hls, hcalled, hrest⟩ :=
      sound_factor hlast hbegins hprimary ts right middle hproper hright
    obtain ⟨heq, rfl⟩ := pure_eq_ok.mp hrun
    exact ⟨ls, rest, ⟨right, shape⟩, rfl, rfl, hls, hcalled, hrest, Option.some.inj heq⟩
  by_cases hplus : (Feed.ofList last ts).current.kind = .plus
  · rw [moreTerms_of_plus hplus] at h
    obtain ⟨sign, ts, rfl, hkind⟩ := exists_cons_of_current hlast (by decide) hplus
    rw [next_bind_ofList] at h
    obtain ⟨ls, rest, a, rfl, rfl, hls, hcalled, hrest, rfl⟩ := hright hproper.tail h
    exact ⟨sign :: ls, rest, a.shape, rfl, rfl, .add hkind hls, hcalled, hrest⟩
  by_cases hminus : (Feed.ofList last ts).current.kind = .minus
  · rw [moreTerms_of_minus hminus] at h
    obtain ⟨sign, ts, rfl, hkind⟩ := exists_cons_of_current hlast (by decide) hminus
    rw [next_bind_ofList] at h
    obtain ⟨ls, rest, a, rfl, rfl, hls, hcalled, hrest, rfl⟩ := hright hproper.tail h
    exact ⟨sign :: ls, rest, a.shape, rfl, rfl, .sub hkind hls, hcalled, hrest⟩
  · rw [moreTerms_of_ne hplus hminus] at h
    cases h

omit hlast hprimary in
theorem moreTerms_eq_none {left : Expr} {ts : List Lexeme} {after : Feed Lexeme}
    (h : moreTerms primary left (Feed.ofList last ts) = .ok (none, after)) :
    after = Feed.ofList last ts ∧ ∀ next ∈ ts.head?, next.kind ≠ .plus ∧ next.kind ≠ .minus := by
  have hsome {result : Expr → Expr} {feed : Feed Lexeme}
      (hrun : (next >>= fun _ => factor primary >>= fun right => pure (some (result right))) feed =
        .ok (none, after)) : False := by
    obtain ⟨sign, middle, -, hrun⟩ := bind_eq_ok.mp hrun
    obtain ⟨right, middle, -, hrun⟩ := bind_eq_ok.mp hrun
    cases (pure_eq_ok.mp hrun).1
  by_cases hplus : (Feed.ofList last ts).current.kind = .plus
  · rw [moreTerms_of_plus hplus] at h
    exact (hsome h).elim
  by_cases hminus : (Feed.ofList last ts).current.kind = .minus
  · rw [moreTerms_of_minus hminus] at h
    exact (hsome h).elim
  · rw [moreTerms_of_ne hplus hminus] at h
    obtain ⟨-, rfl⟩ := Prod.mk.inj (Except.ok.inj h)
    refine ⟨rfl, fun next hnext => ?_⟩
    cases ts with
    | nil => contradiction
    | cons l ts =>
      obtain rfl := Option.some.inj hnext
      exact ⟨hplus, hminus⟩

include hbegins in
theorem advances_moreTerms (left : Expr) :
    Advances last Lexeme.Proper (moreTerms primary left) where
  shorter ts e after hproper h := by
    obtain ⟨ls, rest, shape, rfl, rfl, hls, -⟩ :=
      moreTerms_eq_some hlast hbegins hprimary hproper h
    have hpos := List.length_pos_iff.mpr hls.ne_nil
    refine ⟨rest, rfl, ?_, hproper.right_of_append⟩
    rw [List.length_append]
    omega
  ends := by
    have hkind : (Feed.ofList last []).current.kind = .endOfInput := hlast
    exact moreTerms_of_ne (by rw [hkind]; decide) (by rw [hkind]; decide)

include hbegins in
theorem sound_term :
    Sound last (fun ls e rest => ∃ shape, IsTerm Primary ls ⟨e, shape⟩ ∧
      ∀ next ∈ rest.head?, CanFollow shape next) (term primary) := by
  intro ts e after hproper h
  obtain ⟨first, middle, hfirst, h⟩ := bind_eq_ok.mp h
  obtain ⟨ks, ts, rfl, rfl, shape, hks, hcalled, hrest⟩ :=
    sound_factor hlast hbegins hprimary ts first middle hproper hfirst
  -- what was read so far is a sum, and nothing touches its last primary to form a product
  obtain ⟨ls, rest, rfl, rfl, shape, hls, hrest⟩ :=
    chain_rule (advances_moreTerms hlast hbegins hprimary)
      (C := fun ls e rest => ∃ shape, IsTerm Primary ls ⟨e, shape⟩ ∧ NotCalled shape rest ∧
        NotProduct shape rest)
      (D := fun ls e rest => ∃ shape, IsTerm Primary ls ⟨e, shape⟩ ∧
        ∀ next ∈ rest.head?, CanFollow shape next)
      (fun _ _ h => h.right_of_append)
      (fun ks left ts longer after hleft hproper hrun => by
        obtain ⟨shape, hks, -⟩ := hleft
        obtain ⟨ls, rest, shape', rfl, rfl, hls, hrest⟩ :=
          moreTerms_eq_some hlast hbegins hprimary hproper hrun
        exact ⟨ls, rest, hls.ne_nil, rfl, rfl, shape', isTerm_append hks hls, hrest⟩)
      (fun ks left ts after hleft _ hrun => by
        obtain ⟨shape, hks, hcalled, hproduct⟩ := hleft
        obtain ⟨rfl, hsign⟩ := moreTerms_eq_none hrun
        refine ⟨rfl, shape, hks, fun next hnext => ⟨hsign next hnext, ?_, ?_⟩⟩
        · exact hproduct next hnext
        · exact fun hspaced hshape => (hcalled next hnext hshape hspaced).1)
      ⟨shape, .factor hks, hcalled, hrest⟩ hproper.right_of_append h
  exact ⟨ks ++ ls, rest, by simp, rfl, shape, hls, hrest⟩

/-! ## Arguments -/

include hbegins in
theorem moreArguments_eq_some {name : Lexeme} {e : Expr} {ts : List Lexeme} {after : Feed Lexeme}
    (hproper : Lexeme.Proper ts)
    (h : moreArguments primary name (Feed.ofList last ts) = .ok (some e, after)) :
    ∃ comma ls rest shape, ts = comma :: ls ++ rest ∧ after = Feed.ofList last rest ∧
      comma.kind = .comma ∧ IsTerm Primary ls ⟨e, shape⟩ := by
  by_cases hcomma : (Feed.ofList last ts).current.kind = .comma
  · rw [moreArguments_of_comma hcomma] at h
    obtain ⟨comma, ts, rfl, hkind⟩ := exists_cons_of_current hlast (by decide) hcomma
    rw [next_bind_ofList, current_bind] at h
    split at h
    · cases h
    · obtain ⟨argument, middle, hargument, h⟩ := bind_eq_ok.mp h
      obtain ⟨ls, rest, rfl, rfl, shape, hls, -⟩ :=
        sound_term hlast hbegins hprimary ts argument middle hproper.tail hargument
      obtain ⟨heq, rfl⟩ := pure_eq_ok.mp h
      obtain rfl := Option.some.inj heq
      exact ⟨comma, ls, rest, shape, rfl, rfl, hkind, hls⟩
  · rw [moreArguments_of_ne hcomma] at h
    cases h

omit hlast hprimary in
theorem moreArguments_eq_none {name : Lexeme} {ts : List Lexeme} {after : Feed Lexeme}
    (h : moreArguments primary name (Feed.ofList last ts) = .ok (none, after)) :
    after = Feed.ofList last ts := by
  by_cases hcomma : (Feed.ofList last ts).current.kind = .comma
  · rw [moreArguments_of_comma hcomma] at h
    obtain ⟨comma, middle, -, h⟩ := bind_eq_ok.mp h
    rw [current_bind] at h
    split at h
    · cases h
    · obtain ⟨argument, middle, -, h⟩ := bind_eq_ok.mp h
      cases (pure_eq_ok.mp h).1
  · rw [moreArguments_of_ne hcomma] at h
    exact (Prod.mk.inj (Except.ok.inj h)).2.symm

include hbegins in
theorem advances_moreArguments (name : Lexeme) :
    Advances last Lexeme.Proper (moreArguments primary name) where
  shorter ts e after hproper h := by
    obtain ⟨comma, ls, rest, shape, rfl, rfl, -⟩ :=
      moreArguments_eq_some hlast hbegins hprimary hproper h
    refine ⟨rest, rfl, ?_, hproper.right_of_append⟩
    rw [List.length_append, List.length_cons]
    omega
  ends := by
    have hkind : (Feed.ofList last []).current.kind = .endOfInput := hlast
    exact moreArguments_of_ne (by rw [hkind]; decide)

include hbegins in
/-- The arguments of a call, with the parentheses around them. -/
theorem sound_arguments (name : Lexeme) :
    Sound last (fun ls es _ => ∃ opening ks closing, ls = opening :: (ks ++ [closing]) ∧
      opening.kind = .openParen ∧ IsArguments Primary ks es ∧ closing.kind = .closeParen)
      (arguments primary name) := by
  intro ts es after hproper h
  rw [arguments_eq] at h
  obtain ⟨opening, middle, hrun, h⟩ := bind_eq_ok.mp h
  obtain ⟨ts, rfl, hopening, rfl⟩ := nextOf_eq_ok hlast (by decide) hrun
  rw [current_bind] at h
  split at h
  · next hclose =>
    obtain ⟨closing, rest, rfl, hclosing⟩ :=
      exists_cons_of_current hlast (by decide) (Lexeme.is_eq_true_iff.mp hclose)
    rw [next_bind_ofList] at h
    obtain ⟨rfl, rfl⟩ := pure_eq_ok.mp h
    exact ⟨[opening, closing], rest, rfl, rfl, opening, [], closing, rfl, hopening, .none, hclosing⟩
  · obtain ⟨first, middle, hfirst, h⟩ := bind_eq_ok.mp h
    obtain ⟨ks, ts, rfl, rfl, shape, hks, -⟩ :=
      sound_term hlast hbegins hprimary ts first middle hproper.tail hfirst
    obtain ⟨later, middle, hlater, h⟩ := bind_eq_ok.mp h
    -- the arguments behind a term make a list of arguments with it
    obtain ⟨ls, rest, rfl, rfl, hlist⟩ :=
      many_rule (advances_moreArguments hlast hbegins hprimary name)
        (D := fun ls es _ => ∀ ks a, IsTerm Primary ks a →
          IsArgumentList Primary (ks ++ ls) (a.expr :: es))
        (fun _ _ h => h.right_of_append)
        (fun ts e after hproper hrun => by
          obtain ⟨comma, ls, rest, shape, rfl, rfl, hcomma, hls⟩ :=
            moreArguments_eq_some hlast hbegins hprimary hproper hrun
          exact ⟨comma :: ls, rest, List.cons_ne_nil _ _, rfl, rfl,
            fun js es _ _ hjs ks a hks => .more hks hcomma (hjs ls ⟨e, shape⟩ hls)⟩)
        (fun ts after _ hrun => ⟨moreArguments_eq_none hrun, fun ks a hks => by
          rw [List.append_nil]
          exact .one hks⟩)
        hproper.tail.right_of_append hlater
    have hclose : (Feed.ofList last rest).current.kind = .closeParen := by
      by_contra hnot
      exact closing_ne_ok hnot _ h
    rw [closing_of_closeParen hclose] at h
    obtain ⟨closing, rest, rfl, hclosing⟩ := exists_cons_of_current hlast (by decide) hclose
    rw [next_bind_ofList] at h
    obtain ⟨rfl, rfl⟩ := pure_eq_ok.mp h
    exact ⟨opening :: (ks ++ ls ++ [closing]), rest, by simp, rfl, opening, ks ++ ls, closing, rfl,
      hopening, .some (hlist ks ⟨first, shape⟩ hks), hclosing⟩

end Productions

/-! ## Primaries -/

/-- Primaries are derived whatever depth of nesting is allowed. -/
theorem sound_primary (hlast : last.kind = .endOfInput) (depth : ℕ) :
    Sound last (fun ls a rest => IsPrimary ls a ∧ NotCalled a.shape rest) (primary depth) := by
  induction depth with
  | zero =>
    intro ts a after _ h
    exact absurd h (unexpected_ne_ok _ _ _)
  | succ depth ih =>
    intro ts a after hproper h
    have hbegins : BeginsPrimary (Feed.ofList last ts).current.kind := by
      by_contra hnot
      exact primary_ne_ok hnot _ h
    cases hkind : (Feed.ofList last ts).current.kind with
    | openParen =>
      rw [primary_of_openParen hkind] at h
      obtain ⟨opening, ts, rfl, hopening⟩ := exists_cons_of_current hlast (by decide) hkind
      rw [next_bind_ofList] at h
      obtain ⟨inner, middle, hinner, h⟩ := bind_eq_ok.mp h
      obtain ⟨ls, ts, rfl, rfl, shape, hls, -⟩ :=
        sound_term hlast isPrimary_begins ih ts inner middle hproper.tail hinner
      obtain ⟨closing, middle, hrun, h⟩ := bind_eq_ok.mp h
      obtain ⟨rest, rfl, hclosing, rfl⟩ := nextOf_eq_ok hlast (by decide) hrun
      obtain ⟨rfl, rfl⟩ := pure_eq_ok.mp h
      exact ⟨opening :: (ls ++ [closing]), rest, by simp, rfl, .group hopening hls hclosing,
        fun next _ hshape => by contradiction⟩
    | number =>
      rw [primary_of_number hkind] at h
      obtain ⟨l, rest, rfl, hl⟩ := exists_cons_of_current hlast (by decide) hkind
      rw [next_bind_ofList] at h
      obtain ⟨rfl, rfl⟩ := pure_eq_ok.mp h
      exact ⟨[l], rest, rfl, rfl, .number hl, fun next _ hshape => by contradiction⟩
    | identifier =>
      rw [primary_of_identifier hkind] at h
      obtain ⟨name, ts, rfl, hname⟩ := exists_cons_of_current hlast (by decide) hkind
      rw [next_bind_ofList, current_bind] at h
      split at h
      · next hcall =>
        obtain ⟨args, middle, hargs, h⟩ := bind_eq_ok.mp h
        obtain ⟨ls, rest, rfl, rfl, opening, ks, closing, rfl, hopening, hks, hclosing⟩ :=
          sound_arguments hlast isPrimary_begins ih name ts args middle hproper.tail hargs
        obtain ⟨rfl, rfl⟩ := pure_eq_ok.mp h
        have hspaced : opening.spaced = false := by
          have hadjacent := (Bool.and_eq_true_iff.mp hcall).2
          rwa [Lexeme.isAdjacent, Bool.not_eq_true'] at hadjacent
        exact ⟨name :: opening :: (ks ++ [closing]), rest, rfl, rfl,
          .call hname hopening hspaced hks hclosing, fun next _ hshape => by contradiction⟩
      · next hcall =>
        obtain ⟨rfl, rfl⟩ := pure_eq_ok.mp h
        refine ⟨[name], ts, rfl, rfl, .symbol hname, fun next hnext _ hspaced => ⟨?_, ?_⟩⟩
        · intro hopen
          obtain ⟨rest, rfl⟩ := List.head?_eq_some_iff.mp hnext
          exact hcall (by simp [Lexeme.is, Lexeme.isAdjacent, hopen, hspaced])
        · intro hnumber
          have htrue := hproper.isChain.rel_head? hnext hname hnumber
          rw [hspaced] at htrue
          contradiction
    | _ =>
      rw [hkind] at hbegins
      contradiction

/-! ## Equations, phrases and statements -/

theorem sound_equation (hlast : last.kind = .endOfInput) (depth : ℕ) :
    Sound last (fun ls e rest => ∃ shape, IsEquation ls ⟨e, shape⟩ ∧
      ∀ next ∈ rest.head?, CanFollow shape next) (equation depth) := by
  intro ts e after hproper h
  have hterm := sound_term hlast isPrimary_begins (sound_primary hlast depth)
  obtain ⟨left, middle, hleft, -⟩ := bind_eq_ok.mp h
  obtain ⟨ls, rest, rfl, rfl, shape, hls, hrest⟩ := hterm ts left middle hproper hleft
  by_cases hequal : (Feed.ofList last rest).current.kind = .equal
  · rw [equation_of_equal hleft hequal] at h
    obtain ⟨sign, rest, rfl, hsign⟩ := exists_cons_of_current hlast (by decide) hequal
    rw [next_bind_ofList] at h
    obtain ⟨right, middle, hright, h⟩ := bind_eq_ok.mp h
    obtain ⟨rs, rest, rfl, rfl, shape, hrs, hrest⟩ :=
      hterm rest right middle hproper.right_of_append.tail hright
    obtain ⟨rfl, rfl⟩ := pure_eq_ok.mp h
    exact ⟨ls ++ sign :: rs, rest, by simp, rfl, shape, .equal hls hsign hrs, hrest⟩
  · rw [equation_of_ne hleft hequal] at h
    obtain ⟨rfl, rfl⟩ := Prod.mk.inj (Except.ok.inj h)
    exact ⟨ls, rest, rfl, rfl, shape, .term hls, hrest⟩

section Steps

variable {depth : ℕ} {ts : List Lexeme} {after : Feed Lexeme} (hproper : Lexeme.Proper ts)
include hproper

/-- At proper lexemes the end is reached only behind all of them. -/
theorem eq_nil_of_current (h : (Feed.ofList last ts).current.kind = .endOfInput) : ts = [] := by
  cases ts with
  | nil => rfl
  | cons l ts => exact absurd h (hproper.kind_ne l List.mem_cons_self)

theorem moreEquations_eq_some (hlast : last.kind = .endOfInput) {e : Expr}
    (h : moreEquations depth (Feed.ofList last ts) = .ok (some e, after)) :
    ∃ first ls rest shape, ts = first :: ls ++ rest ∧ after = Feed.ofList last rest ∧
      IsEquation (first :: ls) ⟨e, shape⟩ ∧ ∀ next ∈ rest.head?, CanFollow shape next := by
  by_cases hend : (Feed.ofList last ts).current.kind = .endOfInput ∨
      (Feed.ofList last ts).current.kind = .comma
  · rw [moreEquations_of_end hend] at h
    cases h
  · rw [moreEquations_of_ne (not_or.mp hend).1 (not_or.mp hend).2] at h
    obtain ⟨e', middle, hrun, h⟩ := bind_eq_ok.mp h
    obtain ⟨ls, rest, rfl, rfl, shape, hls, hrest⟩ :=
      sound_equation hlast depth ts e' middle hproper hrun
    obtain ⟨heq, rfl⟩ := pure_eq_ok.mp h
    obtain rfl := Option.some.inj heq
    obtain ⟨first, ls, rfl, -⟩ := isEquation_begins _ _ hls
    exact ⟨first, ls, rest, shape, rfl, rfl, hls, hrest⟩

theorem moreEquations_eq_none
    (h : moreEquations depth (Feed.ofList last ts) = .ok (none, after)) :
    after = Feed.ofList last ts ∧ ∀ next ∈ ts.head?, next.kind = .comma := by
  by_cases hend : (Feed.ofList last ts).current.kind = .endOfInput ∨
      (Feed.ofList last ts).current.kind = .comma
  · rw [moreEquations_of_end hend] at h
    obtain ⟨-, rfl⟩ := Prod.mk.inj (Except.ok.inj h)
    refine ⟨rfl, fun next hnext => ?_⟩
    obtain ⟨rest, rfl⟩ := List.head?_eq_some_iff.mp hnext
    rcases hend with hend | hcomma
    · exact absurd hend (hproper.kind_ne next List.mem_cons_self)
    · exact hcomma
  · rw [moreEquations_of_ne (not_or.mp hend).1 (not_or.mp hend).2] at h
    obtain ⟨e, middle, -, h⟩ := bind_eq_ok.mp h
    cases (pure_eq_ok.mp h).1

end Steps

theorem advances_moreEquations (hlast : last.kind = .endOfInput) (depth : ℕ) :
    Advances last Lexeme.Proper (moreEquations depth) where
  shorter ts e after hproper h := by
    obtain ⟨first, ls, rest, shape, rfl, rfl, -⟩ := moreEquations_eq_some hproper hlast h
    refine ⟨rest, rfl, ?_, hproper.right_of_append⟩
    rw [List.length_append, List.length_cons]
    omega
  ends := moreEquations_of_end (.inl hlast)

/-- A phrase runs up to a comma or the end. -/
theorem sound_phrase (hlast : last.kind = .endOfInput) (depth : ℕ) :
    Sound last (fun ls p rest => IsPhrase ls p ∧ ∀ next ∈ rest.head?, next.kind = .comma)
      (phrase depth) := by
  intro ts p after hproper h
  obtain ⟨first, middle, hfirst, h⟩ := bind_eq_ok.mp h
  obtain ⟨ks, ts, rfl, rfl, shape, hks, hrest⟩ :=
    sound_equation hlast depth ts first middle hproper hfirst
  obtain ⟨later, middle, hlater, h⟩ := bind_eq_ok.mp h
  obtain ⟨rfl, rfl⟩ := pure_eq_ok.mp h
  -- the equations behind one that they can follow make a phrase with it
  obtain ⟨ls, rest, rfl, rfl, hphrase, hend⟩ :=
    many_rule (advances_moreEquations hlast depth)
      (D := fun ls es rest =>
        (∀ ks a, IsEquation ks a → (∀ next ∈ (ls ++ rest).head?, CanFollow a.shape next) →
          IsPhrase (ks ++ ls) (a.expr :: es)) ∧ ∀ next ∈ rest.head?, next.kind = .comma)
      (fun _ _ h => h.right_of_append)
      (fun ts e after hproper hrun => by
        obtain ⟨first, ls, rest, shape, rfl, rfl, hls, hrest⟩ :=
          moreEquations_eq_some hproper hlast hrun
        refine ⟨first :: ls, rest, List.cons_ne_nil _ _, rfl, rfl, ?_⟩
        rintro ks es rest' rfl ⟨hphrase, hend⟩
        exact ⟨fun js a hjs hfollow => .more hjs (hfollow first rfl)
          (hphrase _ ⟨e, shape⟩ hls hrest), hend⟩)
      (fun ts after hproper hrun => by
        obtain ⟨rfl, hend⟩ := moreEquations_eq_none hproper hrun
        refine ⟨rfl, fun ks a hks _ => ?_, hend⟩
        rw [List.append_nil]
        exact .one hks)
      hproper.right_of_append hlater
  exact ⟨ks ++ ls, rest, by simp, rfl, hphrase ks ⟨first, shape⟩ hks hrest, hend⟩

theorem morePhrases_eq_some (hlast : last.kind = .endOfInput) {depth : ℕ} {ts : List Lexeme}
    (hproper : Lexeme.Proper ts) {p : Phrase} {after : Feed Lexeme}
    (h : morePhrases depth (Feed.ofList last ts) = .ok (some p, after)) :
    ∃ comma ls rest, ts = comma :: ls ++ rest ∧ after = Feed.ofList last rest ∧
      comma.kind = .comma ∧ IsPhrase ls p ∧ ∀ next ∈ rest.head?, next.kind = .comma := by
  by_cases hcomma : (Feed.ofList last ts).current.kind = .comma
  · rw [morePhrases_of_comma hcomma] at h
    obtain ⟨comma, ts, rfl, hkind⟩ := exists_cons_of_current hlast (by decide) hcomma
    rw [next_bind_ofList] at h
    obtain ⟨p', middle, hrun, h⟩ := bind_eq_ok.mp h
    obtain ⟨ls, rest, rfl, rfl, hls, hend⟩ := sound_phrase hlast depth ts p' middle hproper.tail hrun
    obtain ⟨heq, rfl⟩ := pure_eq_ok.mp h
    obtain rfl := Option.some.inj heq
    exact ⟨comma, ls, rest, rfl, rfl, hkind, hls, hend⟩
  · rw [morePhrases_of_ne hcomma] at h
    cases h

theorem morePhrases_eq_none {depth : ℕ} {ts : List Lexeme} {after : Feed Lexeme}
    (h : morePhrases depth (Feed.ofList last ts) = .ok (none, after)) :
    after = Feed.ofList last ts ∧ ∀ next ∈ ts.head?, next.kind ≠ .comma := by
  by_cases hcomma : (Feed.ofList last ts).current.kind = .comma
  · rw [morePhrases_of_comma hcomma] at h
    obtain ⟨comma, middle, -, h⟩ := bind_eq_ok.mp h
    obtain ⟨p, middle, -, h⟩ := bind_eq_ok.mp h
    cases (pure_eq_ok.mp h).1
  · rw [morePhrases_of_ne hcomma] at h
    obtain ⟨-, rfl⟩ := Prod.mk.inj (Except.ok.inj h)
    refine ⟨rfl, fun next hnext => ?_⟩
    obtain ⟨rest, rfl⟩ := List.head?_eq_some_iff.mp hnext
    exact hcomma

theorem advances_morePhrases (hlast : last.kind = .endOfInput) (depth : ℕ) :
    Advances last Lexeme.Proper (morePhrases depth) where
  shorter ts p after hproper h := by
    obtain ⟨comma, ls, rest, rfl, rfl, -⟩ := morePhrases_eq_some hlast hproper h
    refine ⟨rest, rfl, ?_, hproper.right_of_append⟩
    rw [List.length_append, List.length_cons]
    omega
  ends := by
    have hkind : (Feed.ofList last []).current.kind = .endOfInput := hlast
    exact morePhrases_of_ne (by rw [hkind]; decide)

/-- A statement takes all lexemes that are left. -/
theorem sound_statement (hlast : last.kind = .endOfInput) (depth : ℕ) :
    Sound last (fun ls s rest => IsStatement ls s ∧ rest = []) (statement depth) := by
  intro ts s after hproper h
  obtain ⟨first, middle, hfirst, h⟩ := bind_eq_ok.mp h
  obtain ⟨ks, ts, rfl, rfl, hks, hrest⟩ := sound_phrase hlast depth ts first middle hproper hfirst
  obtain ⟨later, middle, hlater, h⟩ := bind_eq_ok.mp h
  obtain ⟨rfl, rfl⟩ := pure_eq_ok.mp h
  -- a phrase leaves a comma or nothing, and the list of phrases ends where no comma stands
  obtain ⟨ls, rest, rfl, rfl, hstatement, hend⟩ :=
    many_rule (advances_morePhrases hlast depth)
      (D := fun ls ps rest =>
        (∀ ks p, IsPhrase ks p → IsStatement (ks ++ ls) (p :: ps)) ∧
          ((∀ next ∈ (ls ++ rest).head?, next.kind = .comma) → rest = []))
      (fun _ _ h => h.right_of_append)
      (fun ts p after hproper hrun => by
        obtain ⟨comma, ls, rest, rfl, rfl, hcomma, hls, hrest⟩ :=
          morePhrases_eq_some hlast hproper hrun
        refine ⟨comma :: ls, rest, List.cons_ne_nil _ _, rfl, rfl, ?_⟩
        rintro ks ps rest' rfl ⟨hstatement, hend⟩
        exact ⟨fun js q hjs => .more hjs hcomma (hstatement ls p hls), fun _ => hend hrest⟩)
      (fun ts after _ hrun => by
        obtain ⟨rfl, hne⟩ := morePhrases_eq_none hrun
        refine ⟨rfl, fun ks p hks => ?_, fun hcomma => ?_⟩
        · rw [List.append_nil]
          exact .one hks
        · cases ts with
          | nil => rfl
          | cons l ts => exact absurd (hcomma l rfl) (hne l rfl))
      hproper.right_of_append hlater
  exact ⟨ks ++ ls, rest, by simp, rfl, hstatement ks first hks, hend hrest⟩

theorem moreStatements_eq_some (hlast : last.kind = .endOfInput) {depth : ℕ} {ts : List Lexeme}
    (hproper : Lexeme.Proper ts) {s : Statement} {after : Feed Lexeme}
    (h : moreStatements depth (Feed.ofList last ts) = .ok (some s, after)) :
    IsStatement ts s ∧ after = Feed.ofList last [] := by
  by_cases hend : (Feed.ofList last ts).current.kind = .endOfInput
  · rw [moreStatements_of_end hend] at h
    cases h
  · rw [moreStatements_of_ne hend] at h
    obtain ⟨s', middle, hrun, h⟩ := bind_eq_ok.mp h
    obtain ⟨ls, rest, rfl, rfl, hls, rfl⟩ := sound_statement hlast depth ts s' middle hproper hrun
    obtain ⟨heq, rfl⟩ := pure_eq_ok.mp h
    obtain rfl := Option.some.inj heq
    exact ⟨by rwa [List.append_nil], rfl⟩

theorem advances_moreStatements (hlast : last.kind = .endOfInput) (depth : ℕ) :
    Advances last Lexeme.Proper (moreStatements depth) where
  shorter ts s after hproper h := by
    obtain ⟨hs, rfl⟩ := moreStatements_eq_some hlast hproper h
    obtain ⟨l, ks, rfl, -⟩ := isStatement_begins _ _ hs
    exact ⟨[], rfl, Nat.succ_pos _, ⟨.nil, nofun⟩⟩
  ends := moreStatements_of_end hlast

/-- A program is derived from all lexemes. -/
theorem sound_program (hlast : last.kind = .endOfInput) {depth : ℕ} {ts : List Lexeme}
    (hproper : Lexeme.Proper ts) {p : Program} {after : Feed Lexeme}
    (h : program depth (Feed.ofList last ts) = .ok (p, after)) : IsProgram ts p.statements := by
  obtain ⟨statements, middle, hrun, h⟩ := bind_eq_ok.mp h
  obtain ⟨rfl, rfl⟩ := pure_eq_ok.mp h
  obtain ⟨ls, rest, rfl, -, hprogram, rfl⟩ :=
    many_rule (advances_moreStatements hlast depth)
      (D := fun ls ss rest => IsProgram ls ss ∧ rest = [])
      (fun _ _ h => h.right_of_append)
      (fun ts s after hproper hrun => by
        obtain ⟨hs, rfl⟩ := moreStatements_eq_some hlast hproper hrun
        obtain ⟨l, ks, rfl, -⟩ := isStatement_begins _ _ hs
        refine ⟨l :: ks, [], List.cons_ne_nil _ _, (List.append_nil _).symm, rfl, ?_⟩
        rintro js ss rest' hnil ⟨hprogram, rfl⟩
        obtain ⟨rfl, -⟩ := List.append_eq_nil_iff.mp hnil.symm
        exact ⟨.cons hs nofun hprogram, rfl⟩)
      (fun ts after hproper hrun => by
        have hend : (Feed.ofList last ts).current.kind = .endOfInput := by
          by_contra hnot
          rw [moreStatements_of_ne hnot] at hrun
          obtain ⟨s, middle, -, hrun⟩ := bind_eq_ok.mp hrun
          cases (pure_eq_ok.mp hrun).1
        obtain rfl := eq_nil_of_current hproper hend
        rw [moreStatements_of_end hend] at hrun
        exact ⟨(Prod.mk.inj (Except.ok.inj hrun)).2.symm, .nil, rfl⟩)
      hproper hrun
  rwa [List.append_nil]

end QueryParser

end MathQuery
