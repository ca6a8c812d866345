import Mathlib.Data.List.Sort
import Mathlib.Data.String.Basic
import MathQuery.Operation

/-!
# Which names are proposed

The names that are proposed instead of an unknown one are the best five of those that
resemble it at all.  A higher score ranks before a lower one, and names with equal scores rank
by their characters.  No two different names rank alike, so it does not matter in which order
the known names are gone through.

* `Similarity.score_eq_signed` – the score is what the same sum over signed numbers is;
* `Similarity.RanksBefore`, `Similarity.ranked` – all names that resemble a query, ranked;
* `ranked_eq_of_perm` – the ranking does not depend on the order of the names;
* `Similarity.omitted` – the names that are left out if only the first ranks are kept;
* `similarNames_ranked` – which names are proposed, and which are not;
* `FunctionTable.resolve_eq_of_perm`, `OperationTable.execute_eq_of_perm` – the failure to find
  a function or an operation does not depend on the order of the tables.
-/

namespace MathQuery

namespace Similarity

/-! ## Scores -/

/-- The gap of two lengths is their distance. -/
theorem lengthGap_eq_natAbs (query candidate : String) :
    lengthGap query candidate =
      ((query.utf8ByteSize : ℤ) - candidate.utf8ByteSize).natAbs := by
  rw [lengthGap]
  rcases Nat.le_total query.utf8ByteSize candidate.utf8ByteSize with hle | hle
  · rw [show Nat.max _ _ = candidate.utf8ByteSize from max_eq_right hle,
      show Nat.min _ _ = query.utf8ByteSize from min_eq_left hle]
    omega
  · rw [show Nat.max _ _ = query.utf8ByteSize from max_eq_left hle,
      show Nat.min _ _ = candidate.utf8ByteSize from min_eq_right hle]
    omega

/-- A score is what the same sum over signed numbers is, so none of its differences falls below
zero. -/
theorem score_eq_signed (query candidate : String) :
    let likeness : ℤ := containment query.toList candidate.toList +
      2 * shared query.toList candidate.toList
    let gap : ℤ := ((query.utf8ByteSize : ℤ) - candidate.utf8ByteSize).natAbs
    (score query candidate : ℤ) = likeness + if 0 < likeness ∧ gap < 5 then 5 - gap else 0 := by
  intro likeness gap
  have hgap : (lengthGap query candidate : ℤ) = gap :=
    congrArg Nat.cast (lengthGap_eq_natAbs query candidate)
  rw [score]
  split
  · next hclose =>
    simp only [Bool.and_eq_true, decide_eq_true_eq] at hclose
    rw [if_pos (by omega)]
    omega
  · next hfar =>
    simp only [Bool.and_eq_true, decide_eq_true_eq, not_and] at hfar
    rw [if_neg (by omega)]
    omega

/-! ## Ranks -/

/-- One name ranks before another one: the higher score first, and equal scores by name. -/
def RanksBefore (query a b : String) : Prop :=
  score query b < score query a ∨ score query a = score query b ∧ a < b

theorem proposedLE_iff {a b : ℕ × String} :
    proposedLE a b = true ↔ b.1 < a.1 ∨ a.1 = b.1 ∧ a.2 ≤ b.2 := by
  rw [proposedLE]
  cases hcompare : compare b.1 a.1 with
  | lt =>
    have hlt := Nat.compare_eq_lt.mp hcompare
    exact iff_of_true rfl (.inl hlt)
  | gt =>
    have hgt := Nat.compare_eq_gt.mp hcompare
    exact iff_of_false (by simp) (by omega)
  | eq =>
    have heq := Nat.compare_eq_eq.mp hcompare
    rw [Std.LawfulBCmp.isLE_iff_le]
    simp [heq]

theorem proposedLE_trans {a b c : ℕ × String} (h : proposedLE a b = true)
    (h' : proposedLE b c = true) : proposedLE a c = true := by
  rw [proposedLE_iff] at h h' ⊢
  rcases h with h | ⟨h, hname⟩ <;> rcases h' with h' | ⟨h', hname'⟩
  · exact .inl (h'.trans h)
  · exact .inl (h' ▸ h)
  · exact .inl (h ▸ h')
  · exact .inr ⟨h.trans h', hname.trans hname'⟩

theorem proposedLE_total (a b : ℕ × String) : (proposedLE a b || proposedLE b a) = true := by
  rw [Bool.or_eq_true, proposedLE_iff, proposedLE_iff]
  rcases lt_trichotomy a.1 b.1 with h | h | h
  · exact .inr (.inl h)
  · exact (le_total a.2 b.2).imp (fun hname => .inr ⟨h, hname⟩) fun hname => .inr ⟨h.symm, hname⟩
  · exact .inl (.inl h)

theorem proposedLE_antisymm {a b : ℕ × String} (h : proposedLE a b = true)
    (h' : proposedLE b a = true) : a = b := by
  rw [proposedLE_iff] at h h'
  rcases h with h | ⟨h, hname⟩ <;> rcases h' with h' | ⟨h', hname'⟩
  · exact absurd h (Nat.lt_asymm h')
  · exact absurd h' h.ne
  · exact absurd h h'.ne
  · exact Prod.ext h (hname.antisymm hname')

/-! ## Ranked names -/

/-- The names that resemble a query with their scores, in the order of their ranks. -/
def scored (query : String) (candidates : List String) : List (ℕ × String) :=
  sortBy proposedLE
    ((candidates.map fun candidate => (score query candidate, candidate)).filter (0 < ·.1))

/-- The names that resemble a query, in the order of their ranks. -/
def ranked (query : String) (candidates : List String) : List String :=
  (scored query candidates).map Prod.snd

variable {query : String} {candidates : List String}

theorem scored_perm (query : String) (candidates : List String) :
    (scored query candidates).Perm
      ((candidates.filter (0 < score query ·)).map fun c => (score query c, c)) := by
  rw [scored]
  refine (sortBy_perm proposedLE _).trans ?_
  rw [List.filter_map]
  exact .refl _

theorem pairwise_scored (query : String) (candidates : List String) :
    (scored query candidates).Pairwise fun a b => proposedLE a b :=
  sortBy_pairwise proposedLE (fun _ _ _ => proposedLE_trans) proposedLE_total _

/-- Every name is ranked with its own score. -/
theorem fst_of_mem_scored {a : ℕ × String} (h : a ∈ scored query candidates) :
    a.1 = score query a.2 := by
  obtain ⟨c, -, rfl⟩ := List.mem_map.mp ((scored_perm query candidates).mem_iff.mp h)
  rfl

/-- The ranked names are those with a score. -/
theorem ranked_perm (query : String) (candidates : List String) :
    (ranked query candidates).Perm (candidates.filter (0 < score query ·)) := by
  have hperm := (scored_perm query candidates).map Prod.snd
  rwa [List.map_map, show Prod.snd ∘ (fun c => (score query c, c)) = id from rfl,
    List.map_id] at hperm

theorem pairwise_ranked (query : String) (candidates : List String) :
    (ranked query candidates).Pairwise fun a b => a = b ∨ RanksBefore query a b := by
  rw [ranked, List.pairwise_map]
  refine (pairwise_scored query candidates).imp_of_mem fun {a b} ha hb hle => ?_
  rw [proposedLE_iff, fst_of_mem_scored ha, fst_of_mem_scored hb] at hle
  rcases hle with hscore | ⟨hscore, hname⟩
  · exact .inr (.inl hscore)
  · exact hname.eq_or_lt.imp id fun hlt => .inr ⟨hscore, hlt⟩

/-- The ranking does not depend on the order of the names. -/
theorem ranked_eq_of_perm {candidates' : List String} (h : candidates'.Perm candidates) :
    ranked query candidates' = ranked query candidates := by
  have hscored : scored query candidates' = scored query candidates := by
    refine List.Perm.eq_of_pairwise (fun a b _ _ => proposedLE_antisymm)
      (pairwise_scored query candidates') (pairwise_scored query candidates) ?_
    exact (scored_perm query candidates').trans
      (((h.filter _).map _).trans (scored_perm query candidates).symm)
  rw [ranked, ranked, hscored]

/-- Ranks are a strict order. -/
theorem RanksBefore.not_ranksBefore {a b : String} (h : a = b ∨ RanksBefore query a b) :
    ¬ RanksBefore query b a := by
  rintro (hlt | ⟨heq, hlt⟩)
  · rcases h with rfl | hlt' | ⟨heq', -⟩
    · exact lt_irrefl _ hlt
    · exact lt_asymm hlt hlt'
    · exact hlt.ne heq'
  · rcases h with rfl | hlt' | ⟨-, hlt'⟩
    · exact lt_irrefl _ hlt
    · exact hlt'.ne heq
    · exact lt_asymm hlt hlt'

/-- A name without a score ranks before no name that has one. -/
theorem not_ranksBefore_of_score_eq_zero {a b : String} (ha : score query a = 0)
    (hb : 0 < score query b) : ¬ RanksBefore query a b := by
  rintro (hlt | ⟨heq, -⟩)
  · exact absurd hlt (by omega)
  · exact absurd heq (by omega)

/-! ## Names that are left out -/

/-- What is left out if only the first ranks are kept: the later ranks, and the names that have
no score. -/
def omitted (query : String) (kept : ℕ) (candidates : List String) : List String :=
  (ranked query candidates).drop kept ++ candidates.filter fun c => !(0 < score query c)

variable {kept : ℕ} {c d : String}

theorem score_pos_of_mem_ranked (h : c ∈ ranked query candidates) : 0 < score query c := by
  simpa using (List.mem_filter.mp ((ranked_perm query candidates).mem_iff.mp h)).2

theorem perm_take_append_omitted (query : String) (kept : ℕ) (candidates : List String) :
    candidates.Perm ((ranked query candidates).take kept ++ omitted query kept candidates) := by
  rw [omitted, ← List.append_assoc, List.take_append_drop]
  exact (List.filter_append_perm _ candidates).symm.trans
    ((ranked_perm query candidates).symm.append_right _)

/-- What is left out is a later rank or has no score. -/
theorem mem_omitted (h : c ∈ omitted query kept candidates) :
    c ∈ (ranked query candidates).drop kept ∨ score query c = 0 := by
  refine (List.mem_append.mp h).imp_right fun hunlike => ?_
  simpa using (List.mem_filter.mp hunlike).2

theorem not_ranksBefore_of_mem_omitted (hc : c ∈ omitted query kept candidates)
    (hd : d ∈ (ranked query candidates).take kept) : ¬ RanksBefore query c d := by
  rcases mem_omitted hc with hlater | hzero
  · have hpairwise := pairwise_ranked query candidates
    rw [← List.take_append_drop kept (ranked query candidates), List.pairwise_append] at hpairwise
    exact RanksBefore.not_ranksBefore (hpairwise.2.2 d hd c hlater)
  · exact not_ranksBefore_of_score_eq_zero hzero (score_pos_of_mem_ranked (List.mem_of_mem_take hd))

/-- If there are fewer ranks than are kept, only names without a score are left out. -/
theorem score_eq_zero_of_mem_omitted (hfew : (ranked query candidates).length < kept)
    (hc : c ∈ omitted query kept candidates) : score query c = 0 := by
  refine (mem_omitted hc).resolve_left fun hlater => ?_
  rw [List.drop_eq_nil_of_le hfew.le] at hlater
  contradiction

end Similarity

open Similarity

/-- The proposals are the best five ranks. -/
theorem similarNames_eq_take (name : String) (candidates : List String) :
    similarNames name candidates = (ranked (lowerCase name) candidates).take 5 :=
  List.map_take

/-- Whatever the name that is looked up and the names that are known: the proposals are the same
for every order of the known names.  They are at most five, all of them have a score above zero,
and they are sorted by descending score and then by name.  No known name that is left out ranks
before one that is proposed, and where fewer than five are proposed, those left out have no
score at all.  Scores are found without a difference below zero, however long the names are. -/
theorem similarNames_ranked (name : String) (candidates : List String) :
    let query := lowerCase name
    let proposed := similarNames name candidates
    (∀ candidates' : List String, candidates'.Perm candidates →
      similarNames name candidates' = proposed) ∧
    proposed.length ≤ 5 ∧ (∀ c ∈ proposed, 0 < score query c) ∧
    (proposed.Pairwise fun a b => a = b ∨ RanksBefore query a b) ∧
    (∃ omitted, candidates.Perm (proposed ++ omitted) ∧
      (∀ c ∈ omitted, ∀ d ∈ proposed, ¬ RanksBefore query c d) ∧
      (proposed.length < 5 → ∀ c ∈ omitted, score query c = 0)) ∧
    ∀ query candidate : String,
      let likeness : ℤ := containment query.toList candidate.toList +
        2 * shared query.toList candidate.toList
      let gap : ℤ := ((query.utf8ByteSize : ℤ) - candidate.utf8ByteSize).natAbs
      (score query candidate : ℤ) =
        likeness + if 0 < likeness ∧ gap < 5 then 5 - gap else 0 := by
  intro query proposed
  have htake : proposed = (ranked query candidates).take 5 := similarNames_eq_take name candidates
  refine ⟨fun candidates' hperm => ?_, ?_, fun c hc => ?_, ?_,
    ⟨omitted query 5 candidates, ?_, fun c hc d hd => ?_, fun hfew c hc => ?_⟩, score_eq_signed⟩
  · rw [similarNames_eq_take, ranked_eq_of_perm hperm, ← htake]
  · rw [htake]
    exact List.length_take_le 5 _
  · rw [htake] at hc
    exact score_pos_of_mem_ranked (List.mem_of_mem_take hc)
  · rw [htake]
    exact (pairwise_ranked query candidates).sublist (List.take_sublist 5 _)
  · rw [htake]
    exact perm_take_append_omitted query 5 candidates
  · rw [htake] at hd
    exact not_ranksBefore_of_mem_omitted hc hd
  · rw [htake, List.length_take] at hfew
    exact score_eq_zero_of_mem_omitted (by omega) hc

/-- Six names share characters with `Red`.  The scores of `derivative` and `expand` are equal, so
`expand` is the one that is left out. -/
theorem similarNames_ranked_of_prefix :
    let names := ["expand", "derivative", "reduce", "red", "odder", "dare", "xyz"]
    similarNames "Red" names = ["red", "reduce", "dare", "odder", "derivative"] ∧
      similarNames "Red" names.reverse = similarNames "Red" names ∧
      ∃ omitted, names.Perm (similarNames "Red" names ++ omitted) ∧
        ∀ c ∈ omitted, ∀ d ∈ similarNames "Red" names, ¬ RanksBefore "red" c d := by
  intro names
  have hlower : lowerCase "Red" = "red" := by decide +kernel
  obtain ⟨hperm, -, -, -, ⟨omitted, hsplit, hrank, -⟩, -⟩ := similarNames_ranked "Red" names
  refine ⟨by decide +kernel, hperm _ (List.reverse_perm names), omitted, hsplit, ?_⟩
  rw [hlower] at hrank
  exact hrank

/-! ## Tables in any order -/

theorem Catalogue.find?_eq_none_iff {α : Type} {c : Catalogue α} {name : String} :
    c.find? name = none ↔ lowerCase name ∉ c.names := by
  rw [find?, List.lookup_eq_none_iff, names, List.mem_map]
  simp only [bne_iff_ne, ne_eq, not_exists, not_and]
  exact forall₂_congr fun _ _ => ne_comm

/-- An unknown function is refused with the same proposals, in whatever order the table has its
functions. -/
theorem FunctionTable.resolve_eq_of_perm {functions functions' : FunctionTable} {name : String}
    (hperm : functions'.names.Perm functions.names) (h : functions.find? name = none)
    (arguments : List Expr) :
    functions'.resolve name arguments = functions.resolve name arguments := by
  have h' : functions'.find? name = none := by
    rw [Catalogue.find?_eq_none_iff] at h ⊢
    rwa [hperm.mem_iff]
  rw [resolve, resolve, h, h', similarNames_eq_take, similarNames_eq_take,
    ranked_eq_of_perm hperm]

/-- So is an unknown operation, in whatever order the tables have operations and aliases. -/
theorem OperationTable.execute_eq_of_perm {table table' : OperationTable} {name : String}
    (hoperations : table'.operations.names.Perm table.operations.names)
    (haliases : table'.aliases.names.Perm table.aliases.names)
    (h : table.find? name = none) (h' : table'.find? name = none) (functions : FunctionTable)
    (arguments : Arguments) :
    table'.execute functions name arguments = table.execute functions name arguments := by
  rw [execute, execute, h, h']
  dsimp only
  rw [similarNames_eq_take, similarNames_eq_take,
    ranked_eq_of_perm (hoperations.append haliases)]

end MathQuery
