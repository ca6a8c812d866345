import MathQuery.Algebra.Rendering
import MathQuery.Proofs.Algebra.Numeral
import MathQuery.Proofs.Query.Spelling

/-!
# The delimiters of LaTeX

What opens and closes in a text of LaTeX are the braces of groups and the parentheses that are
written `\left(` and `\right)`.  A backslash takes the character behind it along, so a brace
behind it is only a character.

* `Markup.brackets` – the delimiters of a text, in order;
* `WellNested` – every delimiter is closed by one of its kind, and what stands between the two
  is well nested itself;
* `Markup.Closed` – a piece of text with well nested delimiters, whatever follows it.
-/

namespace MathQuery

/-- The kinds of delimiters: the braces of groups, and parentheses of variable size. -/
inductive Delimiter
  | brace
  | parenthesis
deriving DecidableEq

/-- One of the two sides of a pair of delimiters. -/
inductive Bracket
  | opening (d : Delimiter)
  | closing (d : Delimiter)
deriving DecidableEq

/-- Delimiters that are properly nested: each that is opened is closed by one of its kind, and
those between the two are properly nested. -/
inductive WellNested : List Bracket → Prop
  | nil : WellNested []
  | pair (d : Delimiter) {inner rest : List Bracket} (hinner : WellNested inner)
    (hrest : WellNested rest) : WellNested (.opening d :: (inner ++ .closing d :: rest))

theorem WellNested.append {first second : List Bracket} (h : WellNested first)
    (h' : WellNested second) : WellNested (first ++ second) := by
  induction h with
  | nil => exact h'
  | @pair d inner rest hinner _ _ ih =>
    rw [List.cons_append, List.append_assoc, List.cons_append]
    exact .pair d hinner ih

namespace Markup

/-- The delimiters of a text. -/
def brackets : List Char → List Bracket
  | '\\' :: 'l' :: 'e' :: 'f' :: 't' :: '(' :: rest => .opening .parenthesis :: brackets rest
  | '\\' :: 'r' :: 'i' :: 'g' :: 'h' :: 't' :: ')' :: rest => .closing .parenthesis :: brackets rest
  | '\\' :: _ :: rest => brackets rest
  | '\x7b' :: rest => .opening .brace :: brackets rest
  | '\x7d' :: rest => .closing .brace :: brackets rest
  | _ :: rest => brackets rest
  | [] => []

/-- The characters that are neither delimiters nor the beginning of a command. -/
def isOrdinary (c : Char) : Bool := c ≠ '\\' && c ≠ '\x7b' && c ≠ '\x7d'

theorem isOrdinary_iff {c : Char} :
    isOrdinary c = true ↔ c ≠ '\\' ∧ c ≠ '\x7b' ∧ c ≠ '\x7d' := by
  simp [isOrdinary, and_assoc]

theorem isOrdinary_of_isAlphanumeric {c : Char} (h : isAlphanumeric c = true) :
    isOrdinary c = true := by
  -- none of the three characters is a letter or a digit
  refine isOrdinary_iff.mpr ⟨?_, ?_, ?_⟩
  all_goals
    rintro rfl
    contradiction

theorem brackets_cons {c : Char} (h : isOrdinary c = true) (rest : List Char) :
    brackets (c :: rest) = brackets rest := by
  obtain ⟨hescape, hopening, hclosing⟩ := isOrdinary_iff.mp h
  rw [brackets]
  · exact fun _ hc _ => hescape hc
  · exact fun _ hc _ => hescape hc
  · exact fun _ _ hc _ => hescape hc
  · exact hopening
  · exact hclosing

/-! ## Pieces of text -/

/-- A piece of text with well nested delimiters.  It ends where it ends: nothing of what follows
it becomes part of a command in it. -/
def Closed (text : String) : Prop :=
  ∃ ms, WellNested ms ∧ ∀ rest, brackets (text.toList ++ rest) = ms ++ brackets rest

theorem Closed.wellNested {text : String} (h : Closed text) :
    WellNested (brackets text.toList) := by
  obtain ⟨ms, hnested, hbrackets⟩ := h
  have hall := hbrackets []
  rw [List.append_nil, brackets, List.append_nil] at hall
  rwa [hall]

/-- A piece without delimiters. -/
theorem Closed.of_brackets {text : String}
    (h : ∀ rest, brackets (text.toList ++ rest) = brackets rest) : Closed text :=
  ⟨[], .nil, h⟩

theorem Closed.append {first second : String} (h : Closed first) (h' : Closed second) :
    Closed (first ++ second) := by
  obtain ⟨ms, hnested, hbrackets⟩ := h
  obtain ⟨ms', hnested', hbrackets'⟩ := h'
  refine ⟨ms ++ ms', hnested.append hnested', fun rest => ?_⟩
  rw [String.toList_append, List.append_assoc, hbrackets, hbrackets', List.append_assoc]

theorem closed_ordinary {text : String} (h : ∀ c ∈ text.toList, isOrdinary c = true) :
    Closed text := by
  refine .of_brackets fun rest => ?_
  generalize text.toList = cs at h
  induction cs with
  | nil => rfl
  | cons c cs ih =>
    obtain ⟨hc, hcs⟩ := List.forall_mem_cons.mp h
    rw [List.cons_append, brackets_cons hc, ih hcs]

theorem closed_symbols {text : String} (h : text.toList.all isOrdinary = true) : Closed text :=
  closed_ordinary (List.all_eq_true.mp h)

/-- What stands between two delimiters of one kind, together with them. -/
theorem Closed.enclose {before text after : String} (d : Delimiter) (h : Closed text)
    (hbefore : ∀ rest, brackets (before.toList ++ rest) = .opening d :: brackets rest)
    (hafter : ∀ rest, brackets (after.toList ++ rest) = .closing d :: brackets rest) :
    Closed (before ++ text ++ after) := by
  obtain ⟨ms, hnested, hbrackets⟩ := h
  refine ⟨.opening d :: (ms ++ [.closing d]), .pair d hnested .nil, fun rest => ?_⟩
  rw [String.toList_append, String.toList_append, List.append_assoc, List.append_assoc, hbefore,
    hbrackets, hafter]
  simp

theorem Closed.braced {text : String} (h : Closed text) : Closed (Style.braced text) :=
  h.enclose .brace (fun rest => by simp [brackets]) (fun rest => by simp [brackets])

theorem Closed.inParens {text : String} (h : Closed text) :
    Closed ("\\left(" ++ text ++ "\\right)") :=
  h.enclose .parenthesis (fun rest => by simp [brackets]) (fun rest => by simp [brackets])

theorem Closed.parenthesized {text : String} (h : Closed text) (parens : Bool) :
    Closed (Style.latex.parenthesized parens text) := by
  cases parens with
  | false => exact h
  | true => exact h.inParens

theorem Closed.fraction {numerator denominator : String} (h : Closed numerator)
    (h' : Closed denominator) : Closed (Style.fraction numerator denominator) := by
  have hcommand : Closed "\\frac" := .of_brackets fun rest => by simp [brackets]
  exact (hcommand.append h.braced).append h'.braced

theorem Closed.intercalate {texts : List String} (h : ∀ text ∈ texts, Closed text) :
    Closed (", ".intercalate texts) := by
  induction texts with
  | nil => exact closed_symbols rfl
  | cons first later ih =>
    obtain ⟨hfirst, hlater⟩ := List.forall_mem_cons.mp h
    cases later with
    | nil =>
      rw [String.intercalate_singleton]
      exact hfirst
    | cons second later =>
      have hcomma : Closed ", " := closed_symbols rfl
      rw [String.intercalate_cons_of_ne_nil (List.cons_ne_nil _ _)]
      exact (hfirst.append hcomma).append (ih hlater)

theorem closed_command {name : String} (h : name ∈ Style.commands) : Closed ("\\" ++ name) := by
  simp only [Style.commands, List.mem_cons, List.not_mem_nil, or_false] at h
  rcases h with rfl | rfl | rfl | rfl | rfl | rfl | rfl | rfl | rfl <;>
    exact .of_brackets fun rest => by simp [brackets]

theorem closed_natural (n : ℕ) : Closed (toString n) :=
  closed_ordinary fun d hd =>
    isOrdinary_of_isAlphanumeric (isAlphanumeric_of_isDigit (isDigit_of_mem_toString n d hd))

theorem closed_whole (z : ℤ) : Closed (toString z) := by
  cases z with
  | ofNat n => exact closed_natural n
  | negSucc n =>
    have hsign : Closed "-" := closed_symbols rfl
    exact hsign.append (closed_natural (n + 1))

end Markup

end MathQuery
