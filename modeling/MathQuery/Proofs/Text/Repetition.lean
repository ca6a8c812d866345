import MathQuery.Proofs.Except
import MathQuery.Text.Parser

/-!
# Parsers on lists of tokens

Where reading a text does not fail, a feed is the list of the tokens that are left
before the one that marks the end.  On such feeds a repetition whose steps consume
tokens is never ended by its bound.

* `Feed.ofList` – the feed of the tokens that are left;
* `Parser.Advances` – a step consumes a token or yields nothing, the latter at the end;
* `Parser.chain_eq`, `Parser.many_eq` – repetitions unfold without a bound.
-/

namespace MathQuery

variable {τ α β : Type}

namespace Feed

/-- The feed of the tokens that are left before the one that marks the end. -/
def ofList (last : τ) : List τ → Feed τ
  | [] => ⟨last, [], .ok last⟩
  | token :: tokens => ⟨token, tokens, .ok last⟩

@[simp] theorem current_ofList_nil (last : τ) : (ofList last []).current = last := rfl

@[simp] theorem current_ofList_cons (last token : τ) (tokens : List τ) :
    (ofList last (token :: tokens)).current = token := rfl

@[simp] theorem next_ofList_cons (last token : τ) (tokens : List τ) :
    (ofList last (token :: tokens)).next = .ok (ofList last tokens) := by
  cases tokens <;> rfl

theorem length_le_size_ofList (last : τ) (tokens : List τ) :
    tokens.length ≤ (ofList last tokens).size := by
  cases tokens with
  | nil => exact Nat.zero_le _
  | cons token tokens => exact Nat.le_refl _

/-- A feed determines the tokens that are left, where none of them is the one that marks the
end. -/
theorem ofList_injOn {last : τ} {ts us : List τ} (hts : last ∉ ts) (hus : last ∉ us)
    (h : ofList last ts = ofList last us) : ts = us := by
  cases ts <;> cases us <;> simp_all [ofList]

/-- The feed of a reading that does not fail. -/
theorem ofReading_of_ending {r : Reading τ} {last : τ} (h : r.ending = .ok last) :
    ofReading r = .ok (ofList last r.tokens) := by
  rw [ofReading]
  cases r.tokens with
  | nil => rw [h]; rfl
  | cons token tokens => rw [h]; rfl

end Feed

namespace Parser

theorem bind_eq_ok {p : Parser τ α} {next : α → Parser τ β} {feed after : Feed τ} {b : β} :
    (p >>= next) feed = .ok (b, after) ↔
      ∃ a middle, p feed = .ok (a, middle) ∧ next a middle = .ok (b, after) := by
  change (p feed >>= fun s => next s.1 s.2) = _ ↔ _
  rw [Except.bind_eq_ok, Prod.exists]

theorem bind_of_ok {p : Parser τ α} {next : α → Parser τ β} {feed middle : Feed τ} {a : α}
    (h : p feed = .ok (a, middle)) : (p >>= next) feed = next a middle := by
  change (p feed >>= fun s => next s.1 s.2) = _
  rw [h]
  rfl

@[simp] theorem current_bind (next : τ → Parser τ β) (feed : Feed τ) :
    (current >>= next) feed = next feed.current feed := rfl

@[simp] theorem next_bind_ofList (following : τ → Parser τ β) (last token : τ)
    (tokens : List τ) :
    (next >>= following) (Feed.ofList last (token :: tokens)) =
      following token (Feed.ofList last tokens) := by
  refine bind_of_ok ?_
  rw [next, Feed.next_ofList_cons]
  rfl

theorem pure_eq_ok {a b : α} {feed after : Feed τ} :
    (pure a : Parser τ α) feed = .ok (b, after) ↔ a = b ∧ feed = after := by
  change Except.ok (a, feed) = .ok (b, after) ↔ _
  simp

/-- On good lists of tokens a step that yields something has consumed a token and leaves
a good list, and at the end it yields nothing. -/
structure Advances (last : τ) (Good : List τ → Prop) (step : Parser τ (Option α)) : Prop where
  shorter : ∀ tokens a after, Good tokens → step (Feed.ofList last tokens) = .ok (some a, after) →
    ∃ rest, after = Feed.ofList last rest ∧ rest.length < tokens.length ∧ Good rest
  ends : step (Feed.ofList last []) = .ok (none, Feed.ofList last [])

variable {last : τ} {Good : List τ → Prop}

/-- Two continuations of a step that agree on every shorter feed agree behind it. -/
theorem Advances.bind_congr {step : Parser τ (Option α)} (hstep : Advances last Good step)
    {next next' : Option α → Parser τ β} {tokens : List τ} (hgood : Good tokens)
    (hnone : next none = next' none)
    (hsome : ∀ a rest, rest.length < tokens.length → Good rest →
      next (some a) (Feed.ofList last rest) = next' (some a) (Feed.ofList last rest)) :
    (step >>= next) (Feed.ofList last tokens) = (step >>= next') (Feed.ofList last tokens) := by
  change (step _ >>= _) = (step _ >>= _)
  cases hrun : step (Feed.ofList last tokens) with
  | error e => rfl
  | ok result =>
    obtain ⟨value, after⟩ := result
    cases value with
    | none => exact congrFun hnone after
    | some a =>
      obtain ⟨rest, rfl, hlt, hrest⟩ := hstep.shorter tokens a after hgood hrun
      exact hsome a rest hlt hrest

/-! ## Chains -/

section Chain

variable {step : α → Parser τ (Option α)} (hstep : ∀ a, Advances last Good (step a))
include hstep

/-- Behind as many steps as there are tokens the bound of a chain does not matter. -/
theorem chainUpTo_congr {fuel fuel' : ℕ} {tokens : List τ} (hgood : Good tokens)
    (h : tokens.length ≤ fuel) (h' : tokens.length ≤ fuel') (a : α) :
    chainUpTo step fuel a (Feed.ofList last tokens) =
      chainUpTo step fuel' a (Feed.ofList last tokens) := by
  -- a step that yields something leaves less, so neither bound is reached before the end
  induction fuel generalizing fuel' tokens a with
  | zero =>
    obtain rfl := List.eq_nil_of_length_eq_zero (Nat.le_zero.mp h)
    cases fuel' with
    | zero => rfl
    | succ fuel' => rw [chainUpTo, chainUpTo, bind_of_ok (hstep a).ends]
  | succ fuel ih =>
    cases fuel' with
    | zero =>
      obtain rfl := List.eq_nil_of_length_eq_zero (Nat.le_zero.mp h')
      rw [chainUpTo, chainUpTo, bind_of_ok (hstep a).ends]
    | succ fuel' =>
      rw [chainUpTo, chainUpTo]
      refine (hstep a).bind_congr hgood rfl fun longer rest hlt hrest => ?_
      exact ih hrest (by omega) (by omega) longer

theorem chain_eq_chainUpTo {fuel : ℕ} {tokens : List τ} (hgood : Good tokens)
    (h : tokens.length < fuel) (a : α) :
    chain step a (Feed.ofList last tokens) = chainUpTo step fuel a (Feed.ofList last tokens) := by
  obtain ⟨fuel, rfl⟩ := Nat.exists_eq_add_one_of_ne_zero (Nat.ne_zero_of_lt h)
  rw [chain, chainUpTo]
  refine (hstep a).bind_congr hgood rfl fun longer rest hlt hrest => ?_
  exact chainUpTo_congr hstep hrest (Feed.length_le_size_ofList last rest) (by omega) longer

/-- A chain is a step, and if that yields something the chain from there. -/
theorem chain_eq {tokens : List τ} (hgood : Good tokens) (a : α) :
    chain step a (Feed.ofList last tokens) =
      (step a >>= fun
        | none => pure a
        | some longer => chain step longer) (Feed.ofList last tokens) := by
  rw [chain_eq_chainUpTo hstep hgood (Nat.lt_succ_self _), chainUpTo]
  refine (hstep a).bind_congr hgood rfl fun longer rest hlt hrest => ?_
  exact (chain_eq_chainUpTo hstep hrest hlt longer).symm

theorem chain_of_some {tokens rest : List τ} (hgood : Good tokens) {a longer : α}
    (h : step a (Feed.ofList last tokens) = .ok (some longer, Feed.ofList last rest)) :
    chain step a (Feed.ofList last tokens) = chain step longer (Feed.ofList last rest) := by
  rw [chain_eq hstep hgood, bind_of_ok h]

theorem chain_of_none {tokens : List τ} (hgood : Good tokens) {a : α}
    (h : step a (Feed.ofList last tokens) = .ok (none, Feed.ofList last tokens)) :
    chain step a (Feed.ofList last tokens) = .ok (a, Feed.ofList last tokens) := by
  rw [chain_eq hstep hgood, bind_of_ok h]
  rfl

/-- The rule for chains.  What holds at the beginning and is kept by every step holds of
what was consumed, of the value and of what is left when the chain ends. -/
theorem chain_rule {C D : List τ → α → List τ → Prop}
    (hsuffix : ∀ ls ts, Good (ls ++ ts) → Good ts)
    (hmore : ∀ ks v ts w after, C ks v ts → Good ts →
      step v (Feed.ofList last ts) = .ok (some w, after) →
      ∃ ls rest, ls ≠ [] ∧ ts = ls ++ rest ∧ after = Feed.ofList last rest ∧ C (ks ++ ls) w rest)
    (hdone : ∀ ks v ts after, C ks v ts → Good ts →
      step v (Feed.ofList last ts) = .ok (none, after) → after = Feed.ofList last ts ∧ D ks v ts)
    {ks ts : List τ} {a b : α} {after : Feed τ} (hinit : C ks a ts) (hgood : Good ts)
    (h : chain step a (Feed.ofList last ts) = .ok (b, after)) :
    ∃ ls rest, ts = ls ++ rest ∧ after = Feed.ofList last rest ∧ D (ks ++ ls) b rest := by
  -- what is left gets shorter with every step, and the invariant goes along with it
  induction hn : ts.length using Nat.strongRecOn generalizing ks ts a with
  | ind n ih =>
  subst hn
  rw [chain_eq hstep hgood] at h
  obtain ⟨value, middle, hrun, h⟩ := bind_eq_ok.mp h
  cases value with
  | none =>
    obtain ⟨rfl, rfl⟩ := pure_eq_ok.mp h
    obtain ⟨rfl, hD⟩ := hdone ks a ts middle hinit hgood hrun
    exact ⟨[], ts, rfl, rfl, by rwa [List.append_nil]⟩
  | some longer =>
    obtain ⟨ls, rest, hne, rfl, rfl, hC⟩ := hmore ks a ts longer middle hinit hgood hrun
    have hlt : rest.length < (ls ++ rest).length := by
      have hpos := List.length_pos_iff.mpr hne
      rw [List.length_append]
      omega
    obtain ⟨js, rest', rfl, rfl, hD⟩ := ih rest.length hlt hC (hsuffix ls rest hgood) h rfl
    exact ⟨ls ++ js, rest', by rw [List.append_assoc], rfl, by rwa [← List.append_assoc]⟩

end Chain

/-! ## Lists -/

section Many

variable {step : Parser τ (Option α)} (hstep : Advances last Good step)
include hstep

/-- Behind as many steps as there are tokens the bound of a list does not matter. -/
theorem manyUpTo_congr {fuel fuel' : ℕ} {tokens : List τ} (hgood : Good tokens)
    (h : tokens.length ≤ fuel) (h' : tokens.length ≤ fuel') :
    manyUpTo step fuel (Feed.ofList last tokens) =
      manyUpTo step fuel' (Feed.ofList last tokens) := by
  induction fuel generalizing fuel' tokens with
  | zero =>
    obtain rfl := List.eq_nil_of_length_eq_zero (Nat.le_zero.mp h)
    cases fuel' with
    | zero => rfl
    | succ fuel' => rw [manyUpTo, manyUpTo, bind_of_ok hstep.ends]
  | succ fuel ih =>
    cases fuel' with
    | zero =>
      obtain rfl := List.eq_nil_of_length_eq_zero (Nat.le_zero.mp h')
      rw [manyUpTo, manyUpTo, bind_of_ok hstep.ends]
    | succ fuel' =>
      rw [manyUpTo, manyUpTo]
      refine hstep.bind_congr hgood rfl fun a rest hlt hrest => ?_
      have heq := @ih fuel' rest hrest (by omega) (by omega)
      exact congrArg (· >>= fun s => (pure (a :: s.1) : Parser τ (List α)) s.2) heq

theorem many_eq_manyUpTo {fuel : ℕ} {tokens : List τ} (hgood : Good tokens)
    (h : tokens.length < fuel) :
    many step (Feed.ofList last tokens) = manyUpTo step fuel (Feed.ofList last tokens) := by
  obtain ⟨fuel, rfl⟩ := Nat.exists_eq_add_one_of_ne_zero (Nat.ne_zero_of_lt h)
  rw [many, manyUpTo]
  refine hstep.bind_congr hgood rfl fun a rest hlt hrest => ?_
  have heq := manyUpTo_congr hstep hrest (Feed.length_le_size_ofList last rest)
    (show rest.length ≤ fuel by omega)
  exact congrArg (· >>= fun s => (pure (a :: s.1) : Parser τ (List α)) s.2) heq

/-- A list of results is empty, or a result and the list of those behind it. -/
theorem many_eq {tokens : List τ} (hgood : Good tokens) :
    many step (Feed.ofList last tokens) =
      (step >>= fun
        | none => pure []
        | some a => many step >>= fun later => pure (a :: later)) (Feed.ofList last tokens) := by
  rw [many_eq_manyUpTo hstep hgood (Nat.lt_succ_self _), manyUpTo]
  refine hstep.bind_congr hgood rfl fun a rest hlt hrest => ?_
  have heq := (many_eq_manyUpTo hstep hrest hlt).symm
  exact congrArg (· >>= fun s => (pure (a :: s.1) : Parser τ (List α)) s.2) heq

theorem many_of_some {tokens rest rest' : List τ} (hgood : Good tokens) {a : α} {later : List α}
    (h : step (Feed.ofList last tokens) = .ok (some a, Feed.ofList last rest))
    (hlater : many step (Feed.ofList last rest) = .ok (later, Feed.ofList last rest')) :
    many step (Feed.ofList last tokens) = .ok (a :: later, Feed.ofList last rest') := by
  rw [many_eq hstep hgood, bind_of_ok h]
  exact bind_of_ok hlater

theorem many_of_none {tokens : List τ} (hgood : Good tokens)
    (h : step (Feed.ofList last tokens) = .ok (none, Feed.ofList last tokens)) :
    many step (Feed.ofList last tokens) = .ok ([], Feed.ofList last tokens) := by
  rw [many_eq hstep hgood, bind_of_ok h]
  rfl

/-- The rule for lists.  What holds where a list ends and is carried over by every result
in front of it holds of what was consumed, of the results and of what is left. -/
theorem many_rule {D : List τ → List α → List τ → Prop}
    (hsuffix : ∀ ls ts, Good (ls ++ ts) → Good ts)
    (hmore : ∀ ts a after, Good ts → step (Feed.ofList last ts) = .ok (some a, after) →
      ∃ ls rest, ls ≠ [] ∧ ts = ls ++ rest ∧ after = Feed.ofList last rest ∧
        ∀ ks as rest', rest = ks ++ rest' → D ks as rest' → D (ls ++ ks) (a :: as) rest')
    (hdone : ∀ ts after, Good ts → step (Feed.ofList last ts) = .ok (none, after) →
      after = Feed.ofList last ts ∧ D [] [] ts)
    {ts : List τ} {as : List α} {after : Feed τ} (hgood : Good ts)
    (h : many step (Feed.ofList last ts) = .ok (as, after)) :
    ∃ ls rest, ts = ls ++ rest ∧ after = Feed.ofList last rest ∧ D ls as rest := by
  -- what is left gets shorter, and the results are put together from the last one on
  induction hn : ts.length using Nat.strongRecOn generalizing ts as with
  | ind n ih =>
  subst hn
  rw [many_eq hstep hgood] at h
  obtain ⟨value, middle, hrun, h⟩ := bind_eq_ok.mp h
  cases value with
  | none =>
    obtain ⟨rfl, rfl⟩ := pure_eq_ok.mp h
    obtain ⟨rfl, hD⟩ := hdone ts middle hgood hrun
    exact ⟨[], ts, rfl, rfl, hD⟩
  | some a =>
    obtain ⟨ls, rest, hne, rfl, rfl, hcarry⟩ := hmore ts a middle hgood hrun
    obtain ⟨later, middle', hlater, h⟩ := bind_eq_ok.mp h
    obtain ⟨rfl, rfl⟩ := pure_eq_ok.mp h
    have hlt : rest.length < (ls ++ rest).length := by
      have hpos := List.length_pos_iff.mpr hne
      rw [List.length_append]
      omega
    obtain ⟨ks, rest', rfl, rfl, hD⟩ := ih rest.length hlt (hsuffix ls rest hgood) hlater rfl
    exact ⟨ls ++ ks, rest', by rw [List.append_assoc], rfl, hcarry ks later rest' rfl hD⟩

end Many

end Parser

end MathQuery
