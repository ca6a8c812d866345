import MathQuery.Proofs.Markup.Delimiters

/-!
# Groups of LaTeX that stay open

The braces of groups in a text are balanced if every group that it opens is closed in it, and no
other.  A text that ends in an odd number of backslashes takes the first character behind it
along, so a brace that is to close a group behind it does not.

* `Markup.depthAfter` – how many groups are open behind a text;
* `Markup.IsBalanced` – the texts that leave none open and close no other;
* `Markup.takesNext_iff` – the texts that take along what follows;
* `Markup.Closed.depthAfter_append` – groups behind two texts, one after the other.
-/

namespace MathQuery

namespace Markup

/-- The number of groups that are open behind a text, if `depth` of them are open before it.
There is none if the text closes a group that is not open. -/
def depthAfter : Nat → List Char → Option Nat
  | depth, '\\' :: _ :: rest => depthAfter depth rest
  | depth, ['\\'] => some depth
  | depth, '\x7b' :: rest => depthAfter (depth + 1) rest
  | 0, '\x7d' :: _ => none
  | depth + 1, '\x7d' :: rest => depthAfter depth rest
  | depth, _ :: rest => depthAfter depth rest
  | depth, [] => some depth

/-- The number of groups that are open behind delimiters. -/
def depthBehind : Nat → List Bracket → Option Nat
  | depth, .opening .brace :: ms => depthBehind (depth + 1) ms
  | 0, .closing .brace :: _ => none
  | depth + 1, .closing .brace :: ms => depthBehind depth ms
  | depth, _ :: ms => depthBehind depth ms
  | depth, [] => some depth

/-- A backslash is the first of two characters or the last of all. -/
theorem ne_backslash {c : Char} {rest : List Char}
    (hpair : ∀ next later, c = '\\' → rest = next :: later → False)
    (hlast : c = '\\' → rest = [] → False) : c ≠ '\\' := by
  intro hc
  cases rest with
  | nil => exact hlast hc rfl
  | cons next later => exact hpair next later hc rfl

theorem depthAfter_cons {c : Char} (h : isOrdinary c = true) (depth : ℕ) (rest : List Char) :
    depthAfter depth (c :: rest) = depthAfter depth rest := by
  obtain ⟨hescape, hopening, hclosing⟩ := isOrdinary_iff.mp h
  rw [depthAfter]
  · exact fun _ _ hc _ => hescape hc
  · exact fun hc _ => hescape hc
  · exact hopening
  · exact fun _ => hclosing
  · exact fun _ _ => hclosing

/-- The characters that nothing is said about in the definition are the ordinary ones. -/
theorem isOrdinary_of_ne {c : Char} {rest : List Char} {depth : ℕ}
    (hpair : ∀ next later, c = '\\' → rest = next :: later → False)
    (hlast : c = '\\' → rest = [] → False) (hopening : c = '\x7b' → False)
    (hzero : depth = 0 → c = '\x7d' → False)
    (hsucc : ∀ n : ℕ, depth = n.succ → c = '\x7d' → False) : isOrdinary c = true := by
  refine isOrdinary_iff.mpr ⟨ne_backslash hpair hlast, hopening, ?_⟩
  cases depth with
  | zero => exact hzero rfl
  | succ n => exact hsucc n rfl

/-- Of the delimiters of a text, the braces are counted. -/
theorem depthAfter_eq (depth : ℕ) (cs : List Char) :
    depthAfter depth cs = depthBehind depth (brackets cs) := by
  fun_induction brackets cs generalizing depth with
  | case1 rest ih | case2 rest ih | case4 rest ih => simp [depthAfter, depthBehind, ih]
  | case3 c rest _ _ ih => simp [depthAfter, ih]
  | case5 rest ih => cases depth <;> simp [depthAfter, depthBehind, ih]
  | case6 c rest _ _ hpair hopening hclosing ih =>
    by_cases hc : c = '\\'
    · -- the last character of all
      cases rest with
      | nil =>
        rw [hc]
        rfl
      | cons next later => exact (hpair next later hc rfl).elim
    · rw [depthAfter_cons (isOrdinary_iff.mpr ⟨hc, hopening, hclosing⟩), ih]
  | case7 => rfl

/-- Well nested delimiters leave as many groups open as were open before. -/
theorem depthBehind_append {ms : List Bracket} (h : WellNested ms) (depth : ℕ)
    (rest : List Bracket) : depthBehind depth (ms ++ rest) = depthBehind depth rest := by
  induction h generalizing depth rest with
  | nil => rfl
  | @pair d inner later _ _ ihinner ihlater =>
    rw [List.cons_append, List.append_assoc, List.cons_append]
    cases d <;> simp only [depthBehind, ihinner, ihlater]

theorem Closed.depthAfter_append {text : String} (h : Closed text) (depth : ℕ)
    (rest : List Char) : depthAfter depth (text.toList ++ rest) = depthAfter depth rest := by
  obtain ⟨ms, hnested, hbrackets⟩ := h
  rw [depthAfter_eq, hbrackets, depthBehind_append hnested, depthAfter_eq]

/-- The braces of the groups in a text are balanced. -/
def IsBalanced (text : String) : Prop := depthAfter 0 text.toList = some 0

instance (text : String) : Decidable (IsBalanced text) :=
  inferInstanceAs (Decidable (depthAfter 0 text.toList = some 0))

theorem depthAfter_add {depth later : ℕ} {cs : List Char} (h : depthAfter depth cs = some later)
    (outer : ℕ) : depthAfter (depth + outer) cs = some (later + outer) := by
  fun_induction depthAfter depth cs with
  | case1 depth c rest ih => simpa [depthAfter] using ih h
  | case2 depth =>
    obtain rfl := Option.some.inj h
    rfl
  | case3 depth rest ih =>
    rw [depthAfter, Nat.add_right_comm]
    exact ih h
  | case4 rest => contradiction
  | case5 depth rest ih =>
    rw [Nat.succ_add, depthAfter]
    exact ih h
  | case6 depth c rest hpair hlast hopening hzero hsucc ih =>
    rw [depthAfter_cons (isOrdinary_of_ne hpair hlast hopening hzero hsucc)]
    exact ih h
  | case7 depth =>
    obtain rfl := Option.some.inj h
    rfl

/-- Groups that are open outside of a balanced text stay open. -/
theorem IsBalanced.depthAfter_eq {text : String} (h : IsBalanced text) (depth : ℕ) :
    depthAfter depth text.toList = some depth := by
  have hadd := depthAfter_add h depth
  rwa [Nat.zero_add] at hadd

theorem Closed.balanced {text : String} (h : Closed text) : IsBalanced text := by
  have happend := h.depthAfter_append 0 []
  rwa [List.append_nil] at happend

/-! ## Backslashes at the end -/

/-- Whether a text ends in a backslash that takes along what follows the text. -/
def takesNext : List Char → Bool
  | '\\' :: _ :: rest => takesNext rest
  | ['\\'] => true
  | _ :: rest => takesNext rest
  | [] => false

/-- The number of backslashes at the end of a text. -/
def trailingBackslashes (cs : List Char) : ℕ := (cs.reverse.takeWhile (· == '\\')).length

theorem takesNext_cons {c : Char} (h : c ≠ '\\') (rest : List Char) :
    takesNext (c :: rest) = takesNext rest := by
  rw [takesNext]
  · exact fun _ _ hc _ => h hc
  · exact fun hc _ => h hc

theorem takesNext_concat (cs : List Char) (c : Char) :
    takesNext (cs ++ [c]) = (c == '\\' && !takesNext cs) := by
  fun_induction takesNext cs with
  | case1 x rest ih => simpa [takesNext] using ih
  | case2 => simp [takesNext]
  | case3 x rest hpair hlast ih =>
    rw [List.cons_append, takesNext_cons (ne_backslash hpair hlast), ih]
  | case4 =>
    by_cases hc : c = '\\'
    · rw [hc]
      rfl
    · simp [takesNext_cons hc, takesNext, hc]

theorem trailingBackslashes_concat (cs : List Char) (c : Char) :
    trailingBackslashes (cs ++ [c]) = if c = '\\' then trailingBackslashes cs + 1 else 0 := by
  rw [trailingBackslashes, List.reverse_concat, List.takeWhile_cons]
  by_cases hc : c = '\\' <;> simp [hc, trailingBackslashes]

/-- What follows is taken along by an odd number of backslashes. -/
theorem takesNext_iff (cs : List Char) : takesNext cs = true ↔ Odd (trailingBackslashes cs) := by
  induction cs using List.reverseRecOn with
  | nil => decide
  | append_singleton cs c ih =>
    rw [takesNext_concat, trailingBackslashes_concat]
    by_cases hc : c = '\\'
    · rw [if_pos hc, Nat.odd_add_one, ← ih]
      simp [hc]
    · simp [hc]

/-- A character behind a text counts as it does alone, unless the text takes it along. -/
theorem depthAfter_append_cons (depth : ℕ) (cs : List Char) (c : Char) (rest : List Char) :
    depthAfter depth (cs ++ c :: rest) = (depthAfter depth cs).bind fun later =>
      if takesNext cs then depthAfter later rest else depthAfter later (c :: rest) := by
  fun_induction depthAfter depth cs with
  | case1 depth x cs ih => simpa [depthAfter, takesNext] using ih
  | case2 depth => simp [depthAfter, takesNext]
  | case3 depth cs ih => simpa [depthAfter, takesNext] using ih
  | case4 cs => simp [depthAfter]
  | case5 depth cs ih => simpa [depthAfter, takesNext] using ih
  | case6 depth x cs hpair hlast hopening hzero hsucc ih =>
    rw [List.cons_append, depthAfter_cons (isOrdinary_of_ne hpair hlast hopening hzero hsucc),
      takesNext_cons (ne_backslash hpair hlast), ih]
  | case7 depth => simp [takesNext]

/-- A text without braces opens and closes no group. -/
theorem depthAfter_of_braceless {cs : List Char} (h : ∀ c ∈ cs, c ≠ '\x7b' ∧ c ≠ '\x7d')
    (depth : ℕ) : depthAfter depth cs = some depth := by
  fun_induction depthAfter depth cs with
  | case1 depth c rest ih =>
    exact ih fun c' hc' => h c' (List.mem_cons_of_mem _ (List.mem_cons_of_mem _ hc'))
  | case2 depth | case7 depth => rfl
  | case3 depth rest _ => exact absurd rfl (h _ List.mem_cons_self).1
  | case4 rest | case5 depth rest _ => exact absurd rfl (h _ List.mem_cons_self).2
  | case6 depth c rest _ _ _ _ _ ih => exact ih fun c' hc' => h c' (List.mem_cons_of_mem _ hc')

/-- Behind a text without braces, a brace closes the innermost open group, unless the text takes
it along. -/
theorem depthAfter_closing {cs : List Char} (h : ∀ c ∈ cs, c ≠ '\x7b' ∧ c ≠ '\x7d') (depth : ℕ)
    (rest : List Char) : depthAfter (depth + 1) (cs ++ '\x7d' :: rest) =
      depthAfter (if Odd (trailingBackslashes cs) then depth + 1 else depth) rest := by
  rw [depthAfter_append_cons, depthAfter_of_braceless h, Option.bind_some]
  by_cases hodd : Odd (trailingBackslashes cs)
  · rw [if_pos ((takesNext_iff cs).mpr hodd), if_pos hodd]
  · rw [if_neg (mt (takesNext_iff cs).mp hodd), if_neg hodd, depthAfter]

/-- The separator between two texts opens and closes no group, and takes nothing along. -/
theorem depthAfter_separator (depth : ℕ) (cs rest : List Char) :
    depthAfter depth (cs ++ '\\' :: ' ' :: rest) =
      (depthAfter depth cs).bind fun later => depthAfter later rest := by
  have hblank (later : ℕ) : depthAfter later (' ' :: rest) = depthAfter later rest :=
    depthAfter_cons rfl later rest
  rw [depthAfter_append_cons]
  congr 1
  funext later
  split
  · exact hblank later
  · rw [depthAfter]

end Markup

end MathQuery
