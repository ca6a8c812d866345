import MathQuery.CommandLine
import MathQuery.Proofs.Interpreter.History
import MathQuery.Proofs.Text.Bytes

/-!
# One line after the other

The program answers an input line by line with a single interpreter.  No line influences
what a later one is answered, so the output for two inputs in succession is the output for
the first one followed by that for the second one, as long as the first one is read to its
end.

* `CommandLine.linesFrom_append` – the lines of two inputs in succession;
* `CommandLine.exists_decode?_of_mem_linesFrom` – every line of a text is a text;
* `CommandLine.step_core` – a line is carried out alike whatever was answered before;
* `CommandLine.answers_append` – the answers to lines in succession;
* `CommandLine.run_append_session` – the output of the whole program.
-/

namespace MathQuery

namespace CommandLine

/-! ## Lines -/

/-- The byte that ends a line. -/
abbrev lineFeed : UInt8 := 10

/-- Every line of an input is ended. -/
def AllEnded (input : List UInt8) : Prop := input = [] ∨ input.getLast? = some lineFeed

instance (input : List UInt8) : Decidable (AllEnded input) :=
  inferInstanceAs (Decidable (_ ∨ _))

theorem allEnded_iff {input : List UInt8} :
    AllEnded input ↔ input = [] ∨ ∃ bytes, input = bytes ++ [lineFeed] := by
  rw [AllEnded, List.getLast?_eq_some_iff]

/-- Behind a line feed the lines are those of what is left. -/
theorem linesFrom_lineFeed (line as bs : List UInt8) :
    linesFrom line (as ++ lineFeed :: bs) = linesFrom line (as ++ [lineFeed]) ++ linesFrom [] bs := by
  induction as generalizing line with
  | nil => rfl
  | cons a as ih =>
    rw [List.cons_append, List.cons_append, linesFrom, linesFrom]
    split
    · rw [ih, List.cons_append]
    · exact ih _

/-- The lines of two inputs in succession, the first of which is read to the end of a line. -/
theorem linesFrom_append {first : List UInt8} (h : AllEnded first) (second : List UInt8) :
    linesFrom [] (first ++ second) = linesFrom [] first ++ linesFrom [] second := by
  rcases allEnded_iff.mp h with rfl | ⟨bytes, rfl⟩
  · rfl
  · rw [List.append_assoc, List.singleton_append, linesFrom_lineFeed]

/-- Bytes without a line feed belong to the current line. -/
theorem linesFrom_of_notMem {run : List UInt8} (h : lineFeed ∉ run) (line bs : List UInt8) :
    linesFrom line (run ++ bs) = linesFrom (run.reverse ++ line) bs := by
  induction run generalizing line with
  | nil => rfl
  | cons b run ih =>
    obtain ⟨hb, hrun⟩ := List.ne_and_not_mem_of_not_mem_cons h
    rw [List.cons_append, linesFrom, if_neg (Ne.symm hb), ih hrun, List.reverse_cons,
      List.append_assoc, List.singleton_append]

/-- A line feed and the bytes before it, none of which is one, are a line. -/
theorem linesFrom_line {line : List UInt8} (h : lineFeed ∉ line) (bs : List UInt8) :
    linesFrom [] (line ++ lineFeed :: bs) = line :: linesFrom [] bs := by
  rw [linesFrom_of_notMem h, List.append_nil, linesFrom, if_pos rfl, List.reverse_reverse]

/-! ## Lines of texts -/

theorem decode?_eq_some_iff {line : List UInt8} {text : String} :
    decode? line = some text ↔ line = utf8Bytes text := by
  have hbytes : decode? line = some text ↔ (⟨line.toArray⟩ : ByteArray) = text.toByteArray := by
    unfold decode? String.fromUTF8?
    split
    · rw [Option.some.injEq, ← String.toByteArray_inj]
      rfl
    · next hinvalid =>
      refine ⟨nofun, fun heq => absurd ?_ hinvalid⟩
      rw [heq]
      exact text.isValidUTF8
  rw [hbytes, utf8Bytes, String.toUTF8_eq_toByteArray]
  constructor
  · intro heq
    rw [← heq]
  · rintro rfl
    rw [Array.toArray_toList]

/-- The bytes of some characters are a text. -/
theorem decode?_flatMap (cs : List Char) :
    decode? (cs.flatMap String.utf8EncodeChar) = some (String.ofList cs) := by
  rw [decode?_eq_some_iff, utf8Bytes_eq_flatMap, String.toList_ofList]

/-- Every line of a text is a text. -/
theorem exists_decode?_of_mem_linesFrom {input : List UInt8} {text : String}
    (h : decode? input = some text) {line : List UInt8} (hline : line ∈ linesFrom [] input) :
    ∃ s, decode? line = some s := by
  -- the current line holds the bytes of whole characters
  have hchars (before cs : List Char)
      (hline : line ∈ linesFrom (before.flatMap String.utf8EncodeChar).reverse
        (cs.flatMap String.utf8EncodeChar)) : ∃ s, decode? line = some s := by
    induction cs generalizing before with
    | nil =>
      rw [List.flatMap_nil, linesFrom] at hline
      split at hline
      · contradiction
      · obtain rfl := List.mem_singleton.mp hline
        rw [List.reverse_reverse]
        exact ⟨_, decode?_flatMap before⟩
    | cons c cs ih =>
      rw [List.flatMap_cons] at hline
      by_cases hc : c = '\n'
      · subst hc
        rcases List.mem_cons.mp hline with rfl | hline
        · rw [List.reverse_reverse]
          exact ⟨_, decode?_flatMap before⟩
        · exact ih [] hline
      · rw [linesFrom_of_notMem (lineFeed_notMem_utf8EncodeChar hc)] at hline
        refine ih (before ++ [c]) ?_
        simpa using hline
  refine hchars [] text.toList ?_
  rwa [← utf8Bytes_eq_flatMap, ← decode?_eq_some_iff.mp h]

/-! ## One line -/

/-- An outcome without what no later answer depends on. -/
def Outcome.core : Outcome → Outcome
  | quit => quit
  | silent => silent
  | said text i => said text i.core

variable {i j : Interpreter} (json : Bool)

/-- A line is carried out alike whatever was answered before. -/
theorem step_core (h : i.core = j.core) (line : String) :
    (step json i line).core = (step json j line).core := by
  obtain ⟨-, hrespond, hhelp⟩ := Interpreter.answers_of_core_eq h
  unfold step
  cases Command.parse line with
  | query query => simp only [Outcome.core, hrespond, Interpreter.core_respond, h]
  | help operation =>
    simp only [hhelp]
    cases j.help operation <;> simp only [Outcome.core, h]
  | quit => rfl
  | unknown text => simp only [Outcome.core, h]
  | blank => rfl

/-- A line leaves an interpreter that answers like the one before. -/
theorem core_of_step {line output : String} (h : step json i line = .said output j) :
    j.core = i.core := by
  unfold step at h
  split at h
  · contradiction
  · contradiction
  · obtain ⟨-, rfl⟩ := Outcome.said.inj h
    exact i.core_respond _
  · split at h
    · obtain ⟨-, rfl⟩ := Outcome.said.inj h
      rfl
    · obtain ⟨-, rfl⟩ := Outcome.said.inj h
      rfl
  · obtain ⟨-, rfl⟩ := Outcome.said.inj h
    rfl

/-- Only the command to quit ends the program. -/
theorem step_eq_quit_iff {line : String} :
    step json i line = .quit ↔ Command.parse line = .quit := by
  unfold step
  cases Command.parse line with
  | help operation =>
    dsimp only
    cases i.help operation <;> simp
  | query _ | quit | unknown _ | blank => simp

/-! ## Lines in succession -/

theorem answers_of_said {line : List UInt8} {text output : String}
    (hline : decode? line = some text) (h : step json i text = .said output j)
    (lines : List (List UInt8)) :
    answers json i (line :: lines) = output ++ "\n" ++ answers json j lines := by
  simp only [answers, hline, h]

theorem answers_of_silent {line : List UInt8} {text : String} (hline : decode? line = some text)
    (h : step json i text = .silent) (lines : List (List UInt8)) :
    answers json i (line :: lines) = answers json i lines := by
  simp only [answers, hline, h]

/-- A command to quit ends the answers, and so does a line that is no text. -/
theorem answers_of_ends {line : List UInt8}
    (h : ∀ text, decode? line = some text → Command.parse text = .quit)
    (lines : List (List UInt8)) : answers json i (line :: lines) = "" := by
  cases hline : decode? line with
  | none => simp only [answers, hline]
  | some text =>
    have hstep : step json i text = .quit := (step_eq_quit_iff json).mpr (h text hline)
    simp only [answers, hline, hstep]

/-- Lines are answered alike whatever was answered before. -/
theorem answers_congr (h : i.core = j.core) (lines : List (List UInt8)) :
    answers json i lines = answers json j lines := by
  induction lines generalizing i j with
  | nil => rfl
  | cons line lines ih =>
    cases hline : decode? line with
    | none => simp only [answers, hline]
    | some text =>
      have hstep := step_core json h text
      cases hi : step json i text <;> cases hj : step json j text
      all_goals rw [hi, hj] at hstep
      case quit.quit => simp only [answers, hline, hi, hj]
      case silent.silent =>
        rw [answers_of_silent json hline hi, answers_of_silent json hline hj, ih h]
      case said.said output i' output' j' =>
        obtain ⟨rfl, hcore⟩ := Outcome.said.inj hstep
        rw [answers_of_said json hline hi, answers_of_said json hline hj, ih hcore]
      all_goals contradiction

/-- A line that is read and does not quit leaves later lines to be answered as if it had not
been there. -/
theorem answers_cons {line : List UInt8} {text : String} (hline : decode? line = some text)
    (hquit : Command.parse text ≠ .quit) (lines : List (List UInt8)) :
    answers json i (line :: lines) = answers json i [line] ++ answers json i lines := by
  cases h : step json i text with
  | quit => exact absurd ((step_eq_quit_iff json).mp h) hquit
  | silent =>
    rw [answers_of_silent json hline h, answers_of_silent json hline h, answers]
    exact (String.empty_append).symm
  | said output j =>
    rw [answers_of_said json hline h, answers_of_said json hline h, answers, String.append_empty,
      answers_congr json (core_of_step json h)]

/-- The answers to lines in succession, where the first ones are read and none of them
quits. -/
theorem answers_append {first : List (List UInt8)}
    (htext : ∀ line ∈ first, ∃ text, decode? line = some text)
    (hquit : ∀ line ∈ first, ∀ text, decode? line = some text → Command.parse text ≠ .quit)
    (second : List (List UInt8)) :
    answers json i (first ++ second) = answers json i first ++ answers json i second := by
  induction first with
  | nil => exact (String.empty_append).symm
  | cons line lines ih =>
    obtain ⟨htext, htexts⟩ := List.forall_mem_cons.mp htext
    obtain ⟨hquit, hquits⟩ := List.forall_mem_cons.mp hquit
    obtain ⟨text, hline⟩ := htext
    rw [List.cons_append, answers_cons json hline (hquit text hline), ih htexts hquits,
      answers_cons json hline (hquit text hline) lines, String.append_assoc]

/-- Behind a command to quit no line is answered. -/
theorem answers_append_of_quit {quit : List UInt8} {text : String} (hline : decode? quit = some text)
    (hquit : Command.parse text = .quit) (first second : List (List UInt8)) :
    answers json i (first ++ quit :: second) = answers json i first := by
  induction first generalizing i with
  | nil =>
    refine answers_of_ends json (fun s hs => ?_) second
    obtain rfl := Option.some.inj (hline.symm.trans hs)
    exact hquit
  | cons line lines ih =>
    rw [List.cons_append]
    simp only [answers, ih]

/-! ## The whole program -/

variable (lookup : String → Option String) (document : String → String → Except Failure String)

/-- The program answers an input by the lines of it, unless it does not start. -/
theorem run_cases : (∃ code, ∀ input, run lookup document input = (code, "")) ∨
    ∃ json i, ∀ input, run lookup document input = (0, answers json i (linesFrom [] input)) := by
  unfold run
  cases Settings.ofLookup lookup with
  | error _ => exact .inl ⟨_, fun _ => rfl⟩
  | ok settings =>
    dsimp only
    cases start settings (document settings.schemaPath settings.culture) with
    | error code => exact .inl ⟨code, fun _ => rfl⟩
    | ok i => exact .inr ⟨settings.json, i, fun _ => rfl⟩

/-- The program answers line by line.  The output for an input that is a text without a
command to quit, and that ends with a line, followed by any other input is the output for the
one followed by the output for the other.  Neither a command to quit nor what stands behind it
adds to the output. -/
theorem run_append_session :
    (∀ first second : List UInt8, (∃ text, decode? first = some text) → AllEnded first →
      (∀ line ∈ linesFrom [] first, ∀ text, decode? line = some text →
        Command.parse text ≠ .quit) →
      (run lookup document (first ++ second)).2 =
        (run lookup document first).2 ++ (run lookup document second).2) ∧
    ∀ (before quit after : List UInt8) (text : String), AllEnded before → lineFeed ∉ quit →
      decode? quit = some text → Command.parse text = .quit →
      (run lookup document (before ++ quit ++ lineFeed :: after)).2 =
        (run lookup document before).2 := by
  rcases run_cases lookup document with ⟨code, hrun⟩ | ⟨json, i, hrun⟩
  · -- a program that does not start writes nothing
    constructor
    · intro first second _ _ _
      rw [hrun, hrun, hrun]
      rfl
    · intro before quit after text _ _ _ _
      rw [hrun, hrun]
  · simp only [hrun]
    constructor
    · rintro first second ⟨text, htext⟩ hended hquit
      rw [linesFrom_append hended]
      exact answers_append json (fun line => exists_decode?_of_mem_linesFrom htext) hquit _
    · intro before quit after text hended hline htext hquit
      rw [List.append_assoc, linesFrom_append hended, linesFrom_line hline]
      exact answers_append_of_quit json htext hquit _ _

/-- Help, a failing query and an answer, then a command to quit: what stands behind it is not
answered, and what stands before it is answered as in two sessions. -/
theorem run_append_session_of_quit :
    let lookup : String → Option String := fun _ => none
    let document : String → String → Except Failure String := fun _ _ => .ok
      "\x7b\"querys\": [\x7b\"query\": \"reduce \x7b0:expression\x7d\", \"exec\": \"reduce\"\x7d]\x7d"
    let first := utf8Bytes ":help factor\nreduce x/0\n"
    let second := utf8Bytes "reduce x + x\n"
    let after := utf8Bytes "reduce y\n"
    (run lookup document first).2 =
        "no matching queries\nerror: [ENGINE_ERROR] Engine Error: division by zero\n" ∧
      (run lookup document second).2 = "2*x\n" ∧
      (run lookup document (first ++ second)).2 =
        (run lookup document first).2 ++ (run lookup document second).2 ∧
      (run lookup document (second ++ utf8Bytes ":quit" ++ lineFeed :: after)).2 =
        (run lookup document second).2 := by
  intro lookup document first second after
  obtain ⟨happend, hquit⟩ := run_append_session lookup document
  have hdecode (s : String) : decode? (utf8Bytes s) = some s := decode?_eq_some_iff.mpr rfl
  have hlines : linesFrom [] first = [":help factor", "reduce x/0"].map utf8Bytes := by
    decide +kernel
  refine ⟨by decide +kernel, by decide +kernel, ?_, ?_⟩
  · refine happend first second ⟨_, hdecode _⟩ (by decide +kernel) fun line hline text htext => ?_
    rw [hlines] at hline
    obtain ⟨s, hs, rfl⟩ := List.mem_map.mp hline
    obtain rfl := Option.some.inj ((hdecode s).symm.trans htext)
    have hparse : ∀ s ∈ [":help factor", "reduce x/0"], Command.parse s ≠ .quit := by
      decide +kernel
    exact hparse s hs
  · exact hquit second (utf8Bytes ":quit") after ":quit" (by decide +kernel) (by decide +kernel)
      (hdecode _) (by decide +kernel)

end CommandLine

end MathQuery
