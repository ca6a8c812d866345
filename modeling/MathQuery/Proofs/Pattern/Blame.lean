import MathQuery.Pattern.Parser
import MathQuery.Proofs.Pattern.Lossless
import MathQuery.Proofs.Text.Blame

/-!
# Where reading a pattern fails

The tokens of a pattern tell where in its text they stand, and every failure to read a pattern
names the place of one of them: of the current one, of what stands in braces, or of the opening
brace of an argument that is not closed or does not fit the role.

* `PatternToken.isIn_of_reading` – the places of tokens and of lexical errors;
* `PatternParser.blamesIn_pattern` – the failures of each production, up to whole patterns;
* `Pattern.pointsInto_of_parse` – the failures to read a pattern.
-/

namespace MathQuery

/-! ## Tokens -/

namespace PatternToken

/-- The tokens of a pattern stand in its text, and its error does. -/
theorem isIn_of_reading (source : String) :
    (∀ token ∈ (reading source).tokens, token.position.IsIn source) ∧
      (∀ last, (reading source).ending = .ok last → last.position.IsIn source) ∧
      ∀ e, (reading source).ending = .error e → e.position.IsIn source := by
  obtain ⟨run, gap, rest, tokens, hsource, hgap, hlaid, hend⟩ := exists_laid [] source.toList
  have hbehind : (Position.behind (run ++ gap)).IsIn source :=
    ⟨run ++ gap, rest, by rw [hsource, List.append_assoc], rfl⟩
  have htokens : ∀ token ∈ tokens, token.position.IsIn source := by
    intro token htoken
    obtain ⟨front, back, rfl⟩ := List.append_of_mem htoken
    obtain ⟨run₁, gap₁, run₂, rfl, -, -, hposition, -, -⟩ := hlaid.exists_between
    refine ⟨run₁ ++ gap₁, token.text.toList ++ (run₂ ++ (gap ++ rest)), ?_, hposition⟩
    rw [hsource]
    simp only [List.append_assoc]
  rcases hend with rfl | hoffends
  · rw [List.append_nil] at hlaid hsource
    rw [hlaid.reading_eq hgap hsource]
    exact ⟨htokens, fun last hlast => Except.ok.inj hlast ▸ hbehind, nofun⟩
  · obtain ⟨literal, -, hreading⟩ := hlaid.exists_reading_eq hgap hoffends hsource
    rw [hreading]
    exact ⟨htokens, nofun, fun e he => Except.error.inj he ▸ hbehind⟩

end PatternToken

/-! ## Productions -/

namespace PatternParser

open MathQuery.Parser

variable {source : String} {α : Type}

/-- A parser whose failures name places of a text. -/
abbrev BlamesIn (source : String) (p : PatternParser α) : Prop :=
  Blames (fun t : PatternToken => t.position.IsIn source) (·.PointsInto source) p

/-- To blame a token is to name its place. -/
theorem blamesIn_fail {e : GrammarError} (h : e.position.IsIn source) :
    BlamesIn source (fail e : PatternParser α) :=
  blames_fail ⟨e.position, rfl, h⟩

theorem blamesIn_unexpected (expected : String) :
    BlamesIn source (unexpected expected : PatternParser α) :=
  blames_current_bind fun _ htoken => blamesIn_fail htoken

section Braces

variable {opening : PatternToken} (hopening : opening.position.IsIn source)
include hopening

theorem blamesIn_type : BlamesIn source (type opening) := by
  unfold type
  refine blames_current_bind fun token htoken => ?_
  split
  · refine blames_next.bind fun _ => ?_
    split
    · exact blames_pure _
    · exact blamesIn_fail htoken
  · exact blamesIn_fail hopening
  · exact blamesIn_fail htoken

theorem blamesIn_inner : BlamesIn source (inner opening) := by
  unfold inner
  refine blames_current_bind fun token htoken => ?_
  split
  · refine blames_next.bind fun _ => ?_
    split
    · exact blames_pure _
    · exact blamesIn_fail htoken
  · refine blames_next.bind fun _ => ?_
    split
    · exact blamesIn_fail htoken
    · refine blames_current_bind fun following _ => ?_
      split
      · exact blames_next.bind fun _ => (blamesIn_type hopening).bind fun _ => blames_pure _
      · exact blames_pure _
  · exact blamesIn_fail hopening
  · exact blamesIn_fail htoken

/-- Where a brace is not closed, the opening one is blamed. -/
theorem blamesIn_close : BlamesIn source (close opening) := by
  unfold close
  refine blames_current_bind fun token _ => ?_
  split
  · exact blames_next.bind fun _ => blames_pure _
  · exact blamesIn_fail hopening
  · exact blamesIn_unexpected _

end Braces

variable (role : PatternRole)

/-- Where an argument does not fit the role, its opening brace is blamed. -/
theorem blamesIn_argument : BlamesIn source (argument role) := by
  unfold argument
  refine blames_next_bind fun opening hopening => ?_
  refine (blamesIn_inner hopening).bind fun piece => ?_
  refine (blamesIn_close hopening).bind fun _ => ?_
  split
  · exact blamesIn_fail hopening
  · exact blames_pure _

theorem blamesIn_piece : BlamesIn source (piece role) := by
  unfold piece
  refine blames_current_bind fun token _ => ?_
  split
  · exact blamesIn_argument _
  · exact blames_next.bind fun _ => blames_pure _
  · exact blames_next.bind fun _ => blames_pure _
  · exact blames_next.bind fun _ => blames_pure _
  · exact blamesIn_unexpected _

theorem blamesIn_pattern : BlamesIn source (pattern role) := by
  have hmore : BlamesIn source (morePieces role) := by
    unfold morePieces
    refine blames_current_bind fun token _ => ?_
    split
    · exact blames_pure _
    · exact (blamesIn_piece role).bind fun _ => blames_pure _
  unfold pattern
  refine (blamesIn_piece role).bind fun first => ?_
  exact hmore.many.bind fun _ => blames_pure _

end PatternParser

/-- A failure to read a pattern names a place in its text. -/
theorem Pattern.pointsInto_of_parse {role : PatternRole} {source : String} {e : Failure}
    (h : parse role source = .error e) : e.PointsInto source := by
  obtain ⟨htokens, hending, herror⟩ := PatternToken.isIn_of_reading source
  have hpattern : PatternParser.BlamesIn source (.pattern role) :=
    PatternParser.blamesIn_pattern role
  refine hpattern.of_run_eq_error htokens hending (fun e he => ?_) h
  exact ⟨e.position, rfl, herror e he⟩

end MathQuery
