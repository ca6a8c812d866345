import MathQuery.Proofs.Text.Yield

/-!
# What parsers blame

A parser that fails blames one of the tokens it has met, unless a token behind them cannot be
read.  What is said of all failures that blame a good token, and of the error of the text, is
carried over to all failures of a parser by one rule for each way to put parsers together.  A
parser that succeeds has not come to the error, so it would have read the same if the text ended
there.

* `Feed.Sound` – all tokens that are left are good, and so is how the text ends;
* `Feed.cut` – the tokens in front of an error as all of a text;
* `Parser.Blames` – a parser whose failures are of a kind, with a rule for each step;
* `Blames.of_run_eq_error`, `Blames.exists_run_ofList` – what it makes of a whole text.
-/

namespace MathQuery

variable {τ α β : Type} {Good : τ → Prop} {Blamed : Failure → Prop}

/-- All tokens that are left in a feed are good, and the error behind them, if there is one, is
of the kind that is blamed. -/
structure Feed.Sound (Good : τ → Prop) (Blamed : Failure → Prop) (feed : Feed τ) : Prop extends
    feed.All Good where
  error : ∀ e, feed.ending = .error e → Blamed (.lexical e)

theorem Feed.sound_ofReading {r : Reading τ} {feed : Feed τ}
    (htokens : ∀ token ∈ r.tokens, Good token) (hending : ∀ last, r.ending = .ok last → Good last)
    (herror : ∀ e, r.ending = .error e → Blamed (.lexical e)) (h : ofReading r = .ok feed) :
    feed.Sound Good Blamed := by
  refine ⟨all_ofReading htokens hending h, ?_⟩
  obtain ⟨tokens, ending⟩ := r
  cases tokens with
  | cons token tokens =>
    obtain rfl := Except.ok.inj h
    exact herror
  | nil =>
    cases ending with
    | error e => contradiction
    | ok last =>
      obtain rfl := Except.ok.inj h
      exact nofun

theorem Feed.error_of_ofReading {r : Reading τ} {e : LexicalError} (h : ofReading r = .error e) :
    r.ending = .error e := by
  obtain ⟨tokens, ending⟩ := r
  cases tokens with
  | cons token tokens => contradiction
  | nil =>
    cases ending with
    | error e' => rw [Except.error.inj h]
    | ok last => contradiction

/-- The tokens that are left, with the end of the text behind them instead of an error. -/
def Feed.cut (last : τ) (feed : Feed τ) : Feed τ := { feed with ending := .ok last }

namespace Parser

/-- From a feed of good tokens a parser fails as may be blamed, or it leaves good tokens.  In
the latter case it does not come to an error behind them. -/
def Blames (Good : τ → Prop) (Blamed : Failure → Prop) (p : Parser τ α) : Prop :=
  ∀ feed, feed.Sound Good Blamed →
    match p feed with
    | .ok (a, after) => after.Sound Good Blamed ∧ ∀ e last, feed.ending = .error e →
      after.ending = .error e ∧ p (feed.cut last) = .ok (a, after.cut last)
    | .error e => Blamed e

theorem blames_pure (a : α) : Blames Good Blamed (pure a) :=
  fun _ hfeed => ⟨hfeed, fun _ _ hending => ⟨hending, rfl⟩⟩

theorem blames_fail {e : GrammarError} (h : Blamed (.grammar e)) :
    Blames Good Blamed (fail e : Parser τ α) := fun _ _ => h

theorem Blames.bind {p : Parser τ α} {following : α → Parser τ β} (h : Blames Good Blamed p)
    (hfollowing : ∀ a, Blames Good Blamed (following a)) :
    Blames Good Blamed (p >>= following) := by
  intro feed hfeed
  have hfirst := h feed hfeed
  cases hrun : p feed with
  | error e =>
    rw [hrun] at hfirst
    have hbind : (p >>= following) feed = .error e := by
      change (p feed >>= fun s => following s.1 s.2) = _
      rw [hrun]
      rfl
    rwa [hbind]
  | ok result =>
    obtain ⟨a, middle⟩ := result
    rw [hrun] at hfirst
    rw [bind_of_ok hrun]
    have hlater := hfollowing a middle hfirst.1
    cases hrun' : following a middle with
    | error e =>
      rw [hrun'] at hlater
      exact hlater
    | ok result =>
      obtain ⟨b, after⟩ := result
      rw [hrun'] at hlater
      refine ⟨hlater.1, fun e last hending => ?_⟩
      obtain ⟨hmiddle, hcut⟩ := hfirst.2 e last hending
      obtain ⟨hafter, hcut'⟩ := hlater.2 e last hmiddle
      exact ⟨hafter, (bind_of_ok hcut).trans hcut'⟩

/-- The current token is good. -/
theorem blames_current_bind {following : τ → Parser τ β}
    (h : ∀ token, Good token → Blames Good Blamed (following token)) :
    Blames Good Blamed (current >>= following) :=
  fun feed hfeed => h feed.current hfeed.current feed hfeed

theorem blames_next : Blames Good Blamed (next : Parser τ τ) := by
  intro feed hfeed
  -- leaving a token opens the feed of what is behind it
  have hopened : feed.next = Feed.ofReading ⟨feed.upcoming, feed.ending⟩ := rfl
  rw [next]
  cases hnext : feed.next with
  | error e => exact hfeed.error e (Feed.error_of_ofReading (hopened.symm.trans hnext))
  | ok later =>
    refine ⟨Feed.sound_ofReading hfeed.upcoming hfeed.ending hfeed.error
      (hopened.symm.trans hnext), fun e last hending => ?_⟩
    obtain ⟨current, upcoming, ending⟩ := feed
    obtain rfl : ending = .error e := hending
    cases upcoming with
    | nil => contradiction
    | cons token tokens =>
      obtain rfl := Except.ok.inj hnext
      exact ⟨rfl, rfl⟩

/-- A token that is left is good. -/
theorem blames_next_bind {following : τ → Parser τ β}
    (h : ∀ token, Good token → Blames Good Blamed (following token)) :
    Blames Good Blamed (next >>= following) := by
  -- what is left is the current token
  have hsame : (next >>= following) =
      (current >>= fun token => next >>= fun _ => following token) := by
    funext feed
    change (next feed >>= fun s => following s.1 s.2) =
      (next feed >>= fun s => following feed.current s.2)
    rw [next]
    cases feed.next <;> rfl
  rw [hsame]
  exact blames_current_bind fun token htoken => blames_next.bind fun _ => h token htoken

/-- What each step blames, a chain of steps does. -/
theorem Blames.chain {step : α → Parser τ (Option α)} (hstep : ∀ a, Blames Good Blamed (step a))
    (a : α) : Blames Good Blamed (Parser.chain step a) := by
  have hupTo (fuel : ℕ) : ∀ a, Blames Good Blamed (chainUpTo step fuel a) := by
    induction fuel with
    | zero => exact fun a => blames_pure a
    | succ fuel ih =>
      refine fun a => (hstep a).bind fun longer => ?_
      cases longer with
      | none => exact blames_pure a
      | some b => exact ih b
  refine (hstep a).bind fun longer => ?_
  cases longer with
  | none => exact blames_pure a
  | some b => exact fun feed => hupTo feed.size b feed

/-- And a list of the results of steps. -/
theorem Blames.many {step : Parser τ (Option α)} (hstep : Blames Good Blamed step) :
    Blames Good Blamed (Parser.many step) := by
  have hupTo (fuel : ℕ) : Blames Good Blamed (manyUpTo step fuel) := by
    induction fuel with
    | zero => exact blames_pure []
    | succ fuel ih =>
      refine hstep.bind fun result => ?_
      cases result with
      | none => exact blames_pure []
      | some a => exact ih.bind fun later => blames_pure (a :: later)
  refine hstep.bind fun result => ?_
  cases result with
  | none => exact blames_pure []
  | some a =>
    have hlater : Blames Good Blamed fun feed => manyUpTo step feed.size feed :=
      fun feed => hupTo feed.size feed
    exact hlater.bind fun later => blames_pure (a :: later)

/-- Over a whole reading a parser fails as may be blamed. -/
theorem Blames.of_run_eq_error {p : Parser τ α} (h : Blames Good Blamed p) {r : Reading τ}
    (htokens : ∀ token ∈ r.tokens, Good token) (hending : ∀ last, r.ending = .ok last → Good last)
    (herror : ∀ e, r.ending = .error e → Blamed (.lexical e)) {e : Failure}
    (hrun : p.run r = .error e) : Blamed e := by
  rw [run] at hrun
  cases hfeed : Feed.ofReading r with
  | error e' =>
    rw [hfeed] at hrun
    rw [← Except.error.inj hrun]
    exact herror e' (Feed.error_of_ofReading hfeed)
  | ok feed =>
    have hblames := h feed (Feed.sound_ofReading htokens hending herror hfeed)
    simp only [hfeed] at hrun
    cases hp : p feed with
    | error e' =>
      rw [hp] at hrun hblames
      rw [← Except.error.inj hrun]
      exact hblames
    | ok result =>
      rw [hp] at hrun
      contradiction

/-- What is read of a text with an error is read of the tokens in front of the error. -/
theorem Blames.exists_run_ofList {p : Parser τ α} (h : Blames Good Blamed p) {r : Reading τ}
    (htokens : ∀ token ∈ r.tokens, Good token) {e : LexicalError} (hending : r.ending = .error e)
    (herror : Blamed (.lexical e)) {a : α} (hrun : p.run r = .ok a) (last : τ) :
    ∃ after, p (Feed.ofList last r.tokens) = .ok (a, after) := by
  obtain ⟨tokens, ending⟩ := r
  obtain rfl : ending = .error e := hending
  cases tokens with
  | nil => contradiction
  | cons token tokens =>
    obtain ⟨⟨a, after⟩, hp, rfl⟩ := Except.map_eq_ok.mp hrun
    have hsound : Feed.Sound Good Blamed ⟨token, tokens, .error e⟩ := by
      refine Feed.sound_ofReading htokens nofun (fun e' he => ?_) rfl
      rwa [← Except.error.inj he]
    have hblames := h _ hsound
    rw [hp] at hblames
    exact ⟨_, (hblames.2 e last rfl).2⟩

end Parser

end MathQuery
