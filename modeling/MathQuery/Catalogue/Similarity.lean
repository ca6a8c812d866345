import MathQuery.Order.Sorting
import MathQuery.Text.LowerCase

/-!
# Names similar to an unknown one

When a name is unknown, the names that resemble it most are proposed.  The score
of a candidate counts how far one name contains the other, how many characters
they share, and how close their lengths are.  Equal scores are ordered by name, so
the proposals do not depend on the order of the candidates.
-/

namespace MathQuery

namespace Similarity

/-- Whether one list occurs in another one without gaps. -/
def occursIn (part : List Char) : List Char → Bool
  | [] => part.isEmpty
  | c :: cs => part.isPrefixOf (c :: cs) || occursIn part cs

/-- The score of containment: most for a beginning, less for an inner part, least
when the candidate is the part. -/
def containment (query candidate : List Char) : Nat :=
  if query.isPrefixOf candidate then 100
  else if occursIn query candidate then 50
  else if occursIn candidate query then 30
  else 0

/-- The number of different characters that two names share. -/
def shared (query candidate : List Char) : Nat :=
  (query.eraseDups.filter (· ∈ candidate)).length

/-- The difference of two lengths, counted in UTF-8 bytes. -/
def lengthGap (query candidate : String) : Nat :=
  Nat.max query.utf8ByteSize candidate.utf8ByteSize -
    Nat.min query.utf8ByteSize candidate.utf8ByteSize

/-- How much a candidate resembles a name.  The lengths count only if anything
else does. -/
def score (query candidate : String) : Nat :=
  let likeness := containment query.toList candidate.toList +
    2 * shared query.toList candidate.toList
  if 0 < likeness && lengthGap query candidate < 5 then
    likeness + (5 - lengthGap query candidate)
  else likeness

/-- Whether one scored name is proposed no later than another: a higher score
first, equal scores by name. -/
def proposedLE (a b : Nat × String) : Bool :=
  match compare b.1 a.1 with
  | .lt => true
  | .gt => false
  | .eq => (compare a.2 b.2).isLE

end Similarity

/-- At most five candidates that resemble a name, the best one first. -/
def similarNames (name : String) (candidates : List String) : List String :=
  let query := lowerCase name
  let scored := candidates.map fun candidate => (Similarity.score query candidate, candidate)
  ((sortBy Similarity.proposedLE (scored.filter (0 < ·.1))).take 5).map Prod.snd

end MathQuery
