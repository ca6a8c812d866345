import Mathlib.Tactic.Common
import MathQuery.Text.Feed

/-!
# Readings

A reading is what scans in succession find up to the end of a text or the first error.  A
scanner that takes a character for every token but the one at the end reaches one of them
before the bound on the number of scans.

* `Scanner.Finds` – scans in succession, none of which finds the end;
* `Reading.forall_of_invariant` – what every scan keeps to, the tokens of a reading and its error
  have throughout;
* `Scanner.Finds.scanUpTo_eq` – a succession up to the end of a text, or up to its first error,
  is its reading.
-/

namespace MathQuery

variable {τ : Type} {scan : Scanner τ} {isEnd : τ → Bool}

/-- What every scan keeps to, from the cursors that it is started from, all tokens of a reading
and its error have. -/
theorem Reading.forall_of_invariant {Inv : Cursor → Prop} {Good : τ → Prop}
    {Bad : LexicalError → Prop}
    (hok : ∀ c token after, Inv c → scan c = (.ok token, after) → Good token ∧ Inv after)
    (herror : ∀ c e after, Inv c → scan c = (.error e, after) → Bad e) (fuel : ℕ) {c : Cursor}
    (hc : Inv c) :
    let r := scanUpTo scan isEnd fuel c
    (∀ token ∈ r.tokens, Good token) ∧ (∀ last, r.ending = .ok last → Good last) ∧
      ∀ e, r.ending = .error e → Bad e := by
  induction fuel generalizing c with
  | zero =>
    exact ⟨List.forall_mem_nil _, fun last hlast => (hok c last _ hc (Prod.ext hlast rfl)).1,
      fun e he => herror c e _ hc (Prod.ext he rfl)⟩
  | succ fuel ih =>
    unfold scanUpTo
    cases hrun : scan c with
    | mk result after =>
    cases result with
    | error e =>
      refine ⟨List.forall_mem_nil _, nofun, fun e' he => ?_⟩
      rw [← Except.error.inj he]
      exact herror c e after hc hrun
    | ok token =>
      obtain ⟨htoken, hafter⟩ := hok c token after hc hrun
      dsimp only
      split
      · exact ⟨List.forall_mem_nil _, fun last hlast => Except.ok.inj hlast ▸ htoken, nofun⟩
      · obtain ⟨htokens, hending⟩ := ih hafter
        exact ⟨List.forall_mem_cons.mpr ⟨htoken, htokens⟩, hending⟩

/-- What every scan finds, all tokens of a reading have. -/
theorem Reading.forall_scanUpTo {Good : τ → Prop}
    (hscan : ∀ c token after, scan c = (.ok token, after) → Good token) (fuel : ℕ) (c : Cursor) :
    let r := scanUpTo scan isEnd fuel c
    (∀ token ∈ r.tokens, Good token) ∧ ∀ last, r.ending = .ok last → Good last := by
  have hall := @forall_of_invariant τ scan isEnd (fun _ => True) Good (fun _ => True)
    (fun c token after _ hrun => ⟨hscan c token after hrun, trivial⟩) (fun _ _ _ _ _ => trivial)
    fuel c trivial
  exact ⟨hall.1, hall.2.1⟩

/-- Scans in succession find these tokens, none of them the end, and leave a cursor. -/
inductive Scanner.Finds (scan : Scanner τ) (isEnd : τ → Bool) : Cursor → List τ → Cursor → Prop
  | nil {c : Cursor} : Finds scan isEnd c [] c
  | cons {c middle after : Cursor} {token : τ} {tokens : List τ}
    (h : scan c = (.ok token, middle)) (hend : isEnd token = false)
    (hlater : Finds scan isEnd middle tokens after) : Finds scan isEnd c (token :: tokens) after

namespace Scanner.Finds

variable {c middle after : Cursor} {tokens : List τ}

theorem append {more : List τ} (h : Finds scan isEnd c tokens middle)
    (h' : Finds scan isEnd middle more after) : Finds scan isEnd c (tokens ++ more) after := by
  induction h with
  | nil => exact h'
  | cons hscan hend _ ih => exact .cons hscan hend (ih h')

/-- With as many scans as there are characters the end of the text or the first error is
reached, and the reading ends with what the next scan finds. -/
theorem scanUpTo_eq
    (hlt : ∀ c token after, scan c = (.ok token, after) → isEnd token = false →
      after.rest.length < c.rest.length)
    (h : Finds scan isEnd c tokens middle) {ending : Except LexicalError τ}
    (hending : scan middle = (ending, after)) (hend : ∀ last, ending = .ok last → isEnd last = true)
    {fuel : ℕ} (hfuel : c.rest.length ≤ fuel) :
    Reading.scanUpTo scan isEnd fuel c = ⟨tokens, ending⟩ := by
  induction h generalizing fuel with
  | nil =>
    cases fuel with
    | zero => simp [Reading.scanUpTo, hending]
    | succ fuel =>
      cases ending with
      | error e => simp [Reading.scanUpTo, hending]
      | ok last => simp [Reading.scanUpTo, hending, hend last rfl]
  | cons hscan hnot _ ih =>
    have hshorter := hlt _ _ _ hscan hnot
    cases fuel with
    | zero => omega
    | succ fuel => simp [Reading.scanUpTo, hscan, hnot, ih hending (show _ ≤ fuel by omega)]

end Scanner.Finds

end MathQuery
