import Mathlib.Data.List.Forall2
import MathQuery.Proofs.Text.Repetition

/-!
# Two parsers in step

Two runs of parsers agree if both fail in the same way, or both succeed with results and
remaining tokens that belong together.  Agreement goes through successions of parsers, and
through repetitions whose steps agree: both sides make equally many steps, however many
tokens each of them takes.

* `Parser.Agree` – two runs that end in the same way;
* `Parser.Further` – two steps that go on or end a repetition together;
* `Agree.bind`, `Agree.chain`, `Agree.many` – the rules for what parsers are made of.
-/

namespace MathQuery

namespace Parser

variable {τ α β γ δ : Type} {last last' : τ} {SameFailure : Failure → Failure → Prop}

/-- Two runs end in the same way: with failures that are the same, or with results and
remaining tokens that belong together. -/
inductive Agree (last last' : τ) (SameFailure : Failure → Failure → Prop)
    (S : α → β → List τ → List τ → Prop) :
    Except Failure (α × Feed τ) → Except Failure (β × Feed τ) → Prop
  | ok {a : α} {b : β} {ts ts' : List τ} (h : S a b ts ts') :
    Agree last last' SameFailure S (.ok (a, Feed.ofList last ts)) (.ok (b, Feed.ofList last' ts'))
  | error {e e' : Failure} (h : SameFailure e e') :
    Agree last last' SameFailure S (.error e) (.error e')

namespace Agree

variable {S : α → β → List τ → List τ → Prop} {S' : γ → δ → List τ → List τ → Prop}

theorem mono {T : α → β → List τ → List τ → Prop} {x : Except Failure (α × Feed τ)}
    {x' : Except Failure (β × Feed τ)} (h : Agree last last' SameFailure S x x')
    (hST : ∀ a b ts ts', S a b ts ts' → T a b ts ts') : Agree last last' SameFailure T x x' := by
  cases h with
  | ok h => exact .ok (hST _ _ _ _ h)
  | error h => exact .error h

theorem pure {a : α} {b : β} {ts ts' : List τ} (h : S a b ts ts') :
    Agree last last' SameFailure S ((Pure.pure a : Parser τ α) (Feed.ofList last ts))
      ((Pure.pure b : Parser τ β) (Feed.ofList last' ts')) :=
  .ok h

theorem fail {e e' : GrammarError} {feed feed' : Feed τ}
    (h : SameFailure (.grammar e) (.grammar e')) :
    Agree last last' SameFailure S ((Parser.fail e : Parser τ α) feed)
      ((Parser.fail e' : Parser τ β) feed') :=
  .error h

/-- Parsers that go on in agreement behind parsers that agree. -/
theorem bind {p : Parser τ α} {p' : Parser τ β} {following : α → Parser τ γ}
    {following' : β → Parser τ δ} {feed feed' : Feed τ}
    (h : Agree last last' SameFailure S (p feed) (p' feed'))
    (hnext : ∀ a b ts ts', S a b ts ts' → Agree last last' SameFailure S'
      (following a (Feed.ofList last ts)) (following' b (Feed.ofList last' ts'))) :
    Agree last last' SameFailure S' ((p >>= following) feed) ((p' >>= following') feed') := by
  change Agree last last' SameFailure S' (p feed >>= fun s => following s.1 s.2)
    (p' feed' >>= fun s => following' s.1 s.2)
  generalize p feed = x at h ⊢
  generalize p' feed' = x' at h ⊢
  cases h with
  | ok h => exact hnext _ _ _ _ h
  | error h => exact .error h

end Agree

/-- Two steps of a repetition both yield something and go on at `R`, or both yield nothing
and end it at `D`. -/
inductive Further (R : α → β → List τ → List τ → Prop) (D : List τ → List τ → Prop) :
    Option α → Option β → List τ → List τ → Prop
  | more {a : α} {b : β} {ts ts' : List τ} (h : R a b ts ts') :
    Further R D (some a) (some b) ts ts'
  | done {ts ts' : List τ} (h : D ts ts') : Further R D none none ts ts'

section Repetition

variable {Good : List τ → Prop} (hlast : ∀ ts, Good ts → last ∉ ts)
include hlast

/-- A step that yields something has consumed a token of the left side. -/
theorem Agree.shorter {step : Parser τ (Option α)} (hstep : Advances last Good step)
    {R : α → β → List τ → List τ → Prop} {D : List τ → List τ → Prop}
    (hgood : ∀ a b ts ts', R a b ts ts' → Good ts) {ts : List τ} (hts : Good ts)
    {x' : Except Failure (Option β × Feed τ)}
    (h : Agree last last' SameFailure (Further R D) (step (Feed.ofList last ts)) x') :
    Agree last last' SameFailure
      (Further (fun a b us us' => R a b us us' ∧ us.length < ts.length) D)
      (step (Feed.ofList last ts)) x' := by
  generalize hrun : step (Feed.ofList last ts) = x at h ⊢
  cases h with
  | error h => exact .error h
  | ok h =>
    cases h with
    | done h => exact .ok (.done h)
    | more h =>
      obtain ⟨rest, heq, hlt, hrest⟩ := hstep.shorter _ _ _ hts hrun
      obtain rfl := Feed.ofList_injOn (hlast _ (hgood _ _ _ _ h)) (hlast _ hrest) heq
      exact .ok (.more ⟨h, hlt⟩)

/-- Two chains agree if a step on each side goes on where the next one can be made. -/
theorem Agree.chain {step : α → Parser τ (Option α)} {step' : β → Parser τ (Option β)}
    (hstep : ∀ a, Advances last Good (step a)) (hstep' : ∀ b, Advances last' Good (step' b))
    {R D : α → β → List τ → List τ → Prop}
    (hgood : ∀ a b ts ts', R a b ts ts' → Good ts ∧ Good ts')
    (h : ∀ a b ts ts', R a b ts ts' → Agree last last' SameFailure (Further R (D a b))
      (step a (Feed.ofList last ts)) (step' b (Feed.ofList last' ts')))
    {a : α} {b : β} {ts ts' : List τ} (hinit : R a b ts ts') :
    Agree last last' SameFailure D (Parser.chain step a (Feed.ofList last ts))
      (Parser.chain step' b (Feed.ofList last' ts')) := by
  -- the left side consumes tokens with every step, and the right side keeps pace
  induction hn : ts.length using Nat.strongRecOn generalizing a b ts ts' with
  | ind n ih =>
  subst hn
  obtain ⟨hts, hts'⟩ := hgood a b ts ts' hinit
  rw [chain_eq hstep hts, chain_eq hstep' hts']
  have hagree := (h a b ts ts' hinit).shorter hlast (hstep a)
    (fun a b ts ts' h => (hgood a b ts ts' h).1) hts
  refine hagree.bind fun longer longer' us us' hfurther => ?_
  cases hfurther with
  | more hmore => exact ih us.length hmore.2 hmore.1 rfl
  | done hdone => exact .ok hdone

/-- Two lists of results agree if a step on each side goes on where the next one can be
made, and the results correspond one by one. -/
theorem Agree.many {step : Parser τ (Option α)} {step' : Parser τ (Option β)}
    (hstep : Advances last Good step) (hstep' : Advances last' Good step')
    {V : α → β → Prop} {R D : List τ → List τ → Prop}
    (hgood : ∀ ts ts', R ts ts' → Good ts ∧ Good ts')
    (h : ∀ ts ts', R ts ts' →
      Agree last last' SameFailure (Further (fun a b us us' => V a b ∧ R us us') D)
        (step (Feed.ofList last ts)) (step' (Feed.ofList last' ts')))
    {ts ts' : List τ} (hinit : R ts ts') :
    Agree last last' SameFailure (fun as bs us us' => List.Forall₂ V as bs ∧ D us us')
      (Parser.many step (Feed.ofList last ts)) (Parser.many step' (Feed.ofList last' ts')) := by
  induction hn : ts.length using Nat.strongRecOn generalizing ts ts' with
  | ind n ih =>
  subst hn
  obtain ⟨hts, hts'⟩ := hgood ts ts' hinit
  rw [many_eq hstep hts, many_eq hstep' hts']
  have hagree := (h ts ts' hinit).shorter hlast hstep
    (fun _ _ ts ts' h => (hgood ts ts' h.2).1) hts
  refine hagree.bind fun value value' us us' hfurther => ?_
  cases hfurther with
  | more hmore =>
    obtain ⟨⟨hvalue, hrest⟩, hlt⟩ := hmore
    refine (ih us.length hlt hrest rfl).bind fun later later' vs vs' hlater => ?_
    exact .ok ⟨.cons hvalue hlater.1, hlater.2⟩
  | done hdone => exact .ok ⟨.nil, hdone⟩

end Repetition

end Parser

end MathQuery
