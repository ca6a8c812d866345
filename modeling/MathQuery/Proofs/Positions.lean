import MathQuery.Proofs.Except
import MathQuery.Proofs.Pattern.Blame
import MathQuery.Proofs.Query.Leaves
import MathQuery.Schema.Match

/-!
# Reported positions

Every place that a query or a pattern is told to be wrong at is one of its text.  A failure to
read names a place of a token.  A failure to match names the place of a term, and the terms of a
query stand in its text, one behind the other.

* `Trie.position_of_follow`, `Trie.position_of_matchFrom` – a failure to match names the place of
  a term, or that of the last one;
* `Trie.isIn_of_matchProgram` – so it names a place in the text that the query is read from;
* `reported_positions` – the places that are reported, and those of terms.
-/

namespace MathQuery

/-- What cannot be captured is a term that is no integer, and its own place is named. -/
theorem Expr.position_of_capture {term : Expr} {type : ArgumentType} {e : MatchError}
    (h : term.capture type = .error e) : e.position = term.position := by
  unfold capture at h
  split at h
  · contradiction
  · contradiction
  · split at h
    · contradiction
    · rw [← Except.error.inj h, MatchError.position]

namespace Trie

variable {t : Trie} {captured : Arguments} {e : MatchError}

/-- Where a term leads nowhere or cannot be captured, its own place is named. -/
theorem position_of_follow {term : Expr} (h : t.follow captured term = .error e) :
    e.position = term.position := by
  unfold follow at h
  split at h
  · split at h
    · contradiction
    · contradiction
    · rw [← Except.error.inj h, MatchError.position]
  · split at h
    · rcases Except.bind_eq_error.mp h with hcapture | ⟨value, -, hvalue⟩
      · exact Expr.position_of_capture hcapture
      · contradiction
    · rw [← Except.error.inj h, MatchError.position]

/-- Where the terms end too early, the place of the last one is named, and otherwise that of the
one that cannot be followed. -/
theorem position_of_matchFrom {last : Position} {terms : List Expr}
    (h : t.matchFrom captured last terms = .error e) :
    e.position = last ∨ ∃ term ∈ terms, e.position = term.position := by
  induction terms generalizing t captured last with
  | nil =>
    unfold matchFrom at h
    split at h
    · contradiction
    · exact .inl (by rw [← Except.error.inj h, MatchError.position])
  | cons term terms ih =>
    unfold matchFrom at h
    split at h
    · rcases ih h with hlast | ⟨later, hlater, hposition⟩
      · exact .inr ⟨term, List.mem_cons_self, hlast⟩
      · exact .inr ⟨later, List.mem_cons_of_mem _ hlater, hposition⟩
    · next cause hfollow =>
      obtain rfl : cause = e := Except.error.inj h
      exact .inr ⟨term, List.mem_cons_self, position_of_follow hfollow⟩

/-- A failure to match a query names a place in the text that the query is read from. -/
theorem isIn_of_matchProgram {source : String} {p : Program} (hp : parse source = .ok p)
    (h : t.matchProgram p = .error e) : e.position.IsIn source := by
  unfold matchProgram at h
  split at h
  · next statement later hstatements =>
    rcases position_of_matchFrom (Except.map_eq_error.mp h) with hstart | ⟨term, hterm, hposition⟩
    · rw [hstart]
      exact Position.start_isIn source
    · have hmem : term ∈ p.terms := by
        rw [Program.terms, hstatements, List.flatMap_cons]
        exact List.mem_append_left _ hterm
      rw [hposition]
      exact Program.isIn_of_mem_terms hp hmem
  · contradiction

end Trie

/-- Whatever the source is, a failure to read it as a query or as a pattern names one of its
characters or its end, and so does a failure to match the query that it reads as.  All parts of
the terms of this query have the place of their leftmost token, and the terms of each statement
have places that increase. -/
theorem reported_positions (source : String) :
    (∀ e, parse source = .error e → e.PointsInto source) ∧
      (∀ p, parse source = .ok p →
        (∀ (t : Trie) (e : MatchError),
          t.matchProgram p = .error e → (Failure.matching e).PointsInto source) ∧
        (∀ term ∈ p.terms, ∀ part : Expr, part.IsPartOf term → part.IsLeftmost) ∧
        ∀ s ∈ p.statements, s.terms.Pairwise fun a b => a.position.Before b.position) ∧
      ∀ role e, Pattern.parse role source = .error e → e.PointsInto source := by
  refine ⟨fun e => pointsInto_of_parse, fun p hp => ⟨fun t e he => ?_, ?_, ?_⟩,
    fun role e => Pattern.pointsInto_of_parse⟩
  · exact ⟨e.position, rfl, Trie.isIn_of_matchProgram hp he⟩
  · exact fun term hterm part => Program.isLeftmost_of_isPartOf hp hterm
  · exact (List.pairwise_flatMap.mp (Program.terms_pairwise hp)).1

/-- A call whose last argument is missing, a pattern with a type that does not exist, and a query
of two lines whose second term no pattern goes on with: what is named is the comma, the name of
the type and the number that the term begins with. -/
theorem reported_positions_of_lines :
    let gap : Failure := .grammar (.missingArgument "f" ⟨1, 4⟩)
    let type : Failure := .grammar (.unknownType "real" ⟨1, 11⟩)
    let product := Expr.binary .mul (.number ⟨"2", ⟨2, 2⟩⟩) (.symbol ⟨"x", ⟨2, 3⟩⟩)
    let p : Program := ⟨[[[.symbol ⟨"expand", ⟨1, 1⟩⟩, product, .symbol ⟨"y", ⟨2, 5⟩⟩]]]⟩
    let t : Trie := ⟨none, .word "expand" none .none .none⟩
    let edge : MatchError := .noEdge "2*x" ⟨2, 2⟩
    (parse "f(x,\n )" = .error gap ∧ gap.PointsInto "f(x,\n )") ∧
      (parse "expand\n 2x y" = .ok p ∧
        (t.matchProgram p = .error edge ∧ (Failure.matching edge).PointsInto "expand\n 2x y") ∧
        (∀ term ∈ p.terms, ∀ part : Expr, part.IsPartOf term → part.IsLeftmost) ∧
        ∀ s ∈ p.statements, s.terms.Pairwise fun a b => a.position.Before b.position) ∧
      Pattern.parse .query "expand \x7b0:real\x7d" = .error type ∧
        type.PointsInto "expand \x7b0:real\x7d" := by
  intro gap type product p t edge
  have hgap : parse "f(x,\n )" = .error gap := by decide +kernel
  have hp : parse "expand\n 2x y" = .ok p := by decide +kernel
  have hedge : t.matchProgram p = .error edge := by decide +kernel
  have htype : Pattern.parse .query "expand \x7b0:real\x7d" = .error type := by decide +kernel
  obtain ⟨hmatching, hparts, horder⟩ := (reported_positions _).2.1 p hp
  exact ⟨⟨hgap, (reported_positions _).1 gap hgap⟩,
    ⟨hp, ⟨hedge, hmatching t edge hedge⟩, hparts, horder⟩,
    htype, (reported_positions _).2.2 .query type htype⟩

end MathQuery
