import MathQuery.Proofs.Text.Repetition

/-!
# Parsers on good tokens

What a parser yields is put together from the tokens it is given.  What these have in
common, whatever they are and even if the text behind them cannot be read, is carried over
to what is yielded by one rule for each way to put parsers together.

* `Feed.All` – all tokens that are left are good;
* `Parser.Yields` – what a parser yields from good tokens, with a rule for each step.
-/

namespace MathQuery

variable {τ α β : Type}

/-- All tokens that are left in a feed are good. -/
structure Feed.All (Good : τ → Prop) (feed : Feed τ) : Prop where
  current : Good feed.current
  upcoming : ∀ token ∈ feed.upcoming, Good token
  ending : ∀ last, feed.ending = .ok last → Good last

theorem Feed.all_ofReading {Good : τ → Prop} {r : Reading τ} {feed : Feed τ}
    (htokens : ∀ token ∈ r.tokens, Good token) (hending : ∀ last, r.ending = .ok last → Good last)
    (h : ofReading r = .ok feed) : feed.All Good := by
  obtain ⟨tokens, ending⟩ := r
  cases tokens with
  | nil =>
    cases ending with
    | error e => contradiction
    | ok last =>
      obtain rfl := Except.ok.inj h
      have hlast : Good last := hending last rfl
      exact ⟨hlast, nofun, fun _ heq => Except.ok.inj heq ▸ hlast⟩
  | cons token tokens =>
    obtain rfl := Except.ok.inj h
    have htokens := List.forall_mem_cons.mp htokens
    exact ⟨htokens.1, htokens.2, hending⟩

/-- Leaving a token opens the feed at the next one. -/
theorem Feed.All.next {Good : τ → Prop} {feed later : Feed τ} (h : feed.All Good)
    (hnext : feed.next = .ok later) : later.All Good := by
  have hopened : ofReading ⟨feed.upcoming, feed.ending⟩ = .ok later := hnext
  exact all_ofReading h.upcoming h.ending hopened

namespace Parser

/-- From a feed of good tokens a parser fails, or it yields a value with `P` and leaves good
tokens. -/
def Yields (Good : τ → Prop) (p : Parser τ α) (P : α → Prop) : Prop :=
  ∀ feed a after, feed.All Good → p feed = .ok (a, after) → P a ∧ after.All Good

variable {Good : τ → Prop} {P : α → Prop} {Q : β → Prop}

theorem yields_pure {a : α} (h : P a) : Yields Good (pure a) P := by
  intro feed b after hfeed hrun
  obtain ⟨rfl, rfl⟩ := pure_eq_ok.mp hrun
  exact ⟨h, hfeed⟩

theorem yields_current : Yields Good current Good := by
  intro feed a after hfeed hrun
  obtain ⟨rfl, rfl⟩ := Prod.mk.inj (Except.ok.inj hrun)
  exact ⟨hfeed.current, hfeed⟩

theorem yields_next : Yields Good next Good := by
  intro feed a after hfeed hrun
  unfold next at hrun
  cases hnext : feed.next with
  | error e => simp [hnext] at hrun
  | ok later =>
    simp only [hnext, Except.ok.injEq, Prod.mk.injEq] at hrun
    obtain ⟨rfl, rfl⟩ := hrun
    exact ⟨hfeed.current, hfeed.next hnext⟩

theorem yields_fail (e : GrammarError) : Yields Good (fail e) P :=
  fun _ _ _ _ hrun => nomatch hrun

theorem Yields.bind {p : Parser τ α} {following : α → Parser τ β} (h : Yields Good p P)
    (hfollowing : ∀ a, P a → Yields Good (following a) Q) : Yields Good (p >>= following) Q := by
  intro feed b after hfeed hrun
  obtain ⟨a, middle, hfirst, hrun⟩ := bind_eq_ok.mp hrun
  obtain ⟨ha, hmiddle⟩ := h feed a middle hfeed hfirst
  exact hfollowing a ha middle b after hmiddle hrun

/-- A parser of something that may be missing, as repetitions have it for their steps. -/
abbrev YieldsMore (Good : τ → Prop) (p : Parser τ (Option α)) (P : α → Prop) : Prop :=
  Yields Good p fun more => ∀ a ∈ more, P a

theorem yieldsMore_none : YieldsMore Good (pure none) P := yields_pure nofun

theorem Yields.some {p : Parser τ α} {f : α → β} (h : Yields Good p P)
    (hf : ∀ a, P a → Q (f a)) : YieldsMore Good (p >>= fun a => pure (some (f a))) Q := by
  refine h.bind fun a ha => yields_pure ?_
  rintro _ ⟨⟩
  exact hf a ha

/-- What a step keeps, a chain of steps keeps. -/
theorem Yields.chain {step : α → Parser τ (Option α)}
    (hstep : ∀ a, P a → YieldsMore Good (step a) P) {a : α} (h : P a) :
    Yields Good (Parser.chain step a) P := by
  have hupTo (fuel : ℕ) : ∀ a, P a → Yields Good (chainUpTo step fuel a) P := by
    induction fuel with
    | zero => exact fun a ha => yields_pure ha
    | succ fuel ih =>
      intro a ha
      refine (hstep a ha).bind fun longer hlonger => ?_
      cases longer with
      | none => exact yields_pure ha
      | some b => exact ih b (hlonger b rfl)
  refine (hstep a h).bind fun longer hlonger => ?_
  cases longer with
  | none => exact yields_pure h
  | some b => exact fun feed => hupTo feed.size b (hlonger b rfl) feed

/-- What a step yields, a list of its results has throughout. -/
theorem YieldsMore.many {step : Parser τ (Option α)} (hstep : YieldsMore Good step P) :
    Yields Good (Parser.many step) fun results => ∀ a ∈ results, P a := by
  have hupTo (fuel : ℕ) : Yields Good (manyUpTo step fuel) fun results => ∀ a ∈ results, P a := by
    induction fuel with
    | zero => exact yields_pure nofun
    | succ fuel ih =>
      refine hstep.bind fun result hresult => ?_
      cases result with
      | none => exact yields_pure nofun
      | some a =>
        refine ih.bind fun later hlater => ?_
        exact yields_pure (List.forall_mem_cons.mpr ⟨hresult a rfl, hlater⟩)
  refine hstep.bind fun result hresult => ?_
  cases result with
  | none => exact yields_pure nofun
  | some a =>
    have hlater : Yields Good (fun feed => manyUpTo step feed.size feed) _ :=
      fun feed => hupTo feed.size feed
    refine hlater.bind fun later hlater => ?_
    exact yields_pure (List.forall_mem_cons.mpr ⟨hresult a rfl, hlater⟩)

end Parser

end MathQuery
