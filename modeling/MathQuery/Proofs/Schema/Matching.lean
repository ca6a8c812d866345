import MathQuery.Proofs.Schema.Paths
import MathQuery.Schema.Match

/-!
# Matching against a list of patterns

A query can be matched without a trie, by looking through all registered patterns at every
term: a word is followed if some pattern goes on with it, and everything else is taken by
the slot that was declared last.  The trie gives the same answer.

* `Naive.matchStatement` – matching against a list of entries;
* `Naive.goesAlong_iff`, `declared?_eq`, `entry?_eq` – its questions about the patterns are
  answered by the node of what is left of them;
* `Naive.matchFrom_left` – from that node on both match the same way;
* `Trie.matchStatement_eq_naive` – matching against the trie of registrations.
-/

namespace MathQuery

/-! ## Matching without a trie -/

namespace Naive

variable (es : List Entry)

/-- Some pattern goes along a path. -/
def GoesAlong (path : List Mark) : Prop := ∃ e ∈ es, path <+: e.pattern.skeleton

instance (path : List Mark) : Decidable (GoesAlong es path) :=
  inferInstanceAs (Decidable (∃ e ∈ es, path <+: e.pattern.skeleton))

/-- The slot behind a path, as the last pattern that has one there declares it. -/
def declared? (path : List Mark) : Option Slot := do
  let e ← es.reverse.find? fun e => path ++ [.slot] <+: e.pattern.skeleton
  let step ← e.pattern.steps[path.length]?
  step.slot?

/-- The entry of the last pattern whose skeleton is a path. -/
def entry? (path : List Mark) : Option Entry :=
  es.reverse.find? fun e => e.pattern.skeleton = path

/-- One step: the mark that a term takes behind a path, and the captures so far. -/
def follow (path : List Mark) (captured : Arguments) (term : Expr) :
    Except MatchError (Mark × Arguments) :=
  match term.word? with
  | some w =>
    if GoesAlong es (path ++ [.word w]) then .ok (.word w, captured)
    else match declared? es path with
      | some declared => .ok (.slot, captured.insert declared.index (.text w))
      | none => .error (.noEdge w term.position)
  | none =>
    match declared? es path with
    | some declared => do
      let value ← term.capture declared.type
      .ok (.slot, captured.insert declared.index value)
    | none => .error (.noEdge term.render term.position)

/-- Match the terms behind a path, where `last` is the place of the term before them. -/
def matchFrom (path : List Mark) (captured : Arguments) (last : Position) :
    List Expr → Except MatchError Match
  | [] =>
    match entry? es path with
    | some entry => .ok ⟨entry, captured⟩
    | none => .error (.incomplete last)
  | term :: terms =>
    match follow es path captured term with
    | .ok (mark, longer) => matchFrom (path ++ [mark]) longer term.position terms
    | .error e => .error e

/-- Match a statement. -/
def matchStatement (s : Statement) : Except MatchError Match :=
  matchFrom es [] .empty .start s.terms

end Naive

/-! ## What is left of the patterns -/

theorem stepsBehind?_isSome_iff {path : List Mark} {steps : List Step} :
    (stepsBehind? path steps).isSome ↔ path <+: steps.map Step.mark := by
  rw [Option.isSome_iff_exists]
  constructor
  · rintro ⟨rest, h⟩
    obtain ⟨front, rfl, rfl⟩ := stepsBehind?_eq_some_iff.mp h
    simp
  · rintro ⟨marks, h⟩
    obtain ⟨front, rest, rfl, hfront, -⟩ := List.map_eq_append_iff.mp h.symm
    exact ⟨rest, stepsBehind?_eq_some_iff.mpr ⟨front, rfl, hfront⟩⟩

/-- Nothing is left of a skeleton behind itself. -/
theorem stepsBehind?_eq_some_nil_iff (path : List Mark) (steps : List Step) :
    stepsBehind? path steps = some [] ↔ steps.map Step.mark = path := by
  simp [stepsBehind?_eq_some_iff]

/-- The step behind a path is the one at the length of the path. -/
theorem getElem?_of_stepsBehind? {path : List Mark} {steps rest : List Step}
    (h : stepsBehind? path steps = some rest) : steps[path.length]? = rest.head? := by
  obtain ⟨front, rfl, rfl⟩ := stepsBehind?_eq_some_iff.mp h
  rw [List.length_map, List.getElem?_append_right (Nat.le_refl _), Nat.sub_self,
    List.head?_eq_getElem?]

/-- Steps go along a path and a slot behind it if a slot is what begins the rest. -/
theorem concat_slot_prefix_iff (path : List Mark) (steps : List Step) :
    path ++ [.slot] <+: steps.map Step.mark ↔
      ∃ declared rest, stepsBehind? path steps = some (.slot declared :: rest) := by
  rw [← stepsBehind?_isSome_iff, stepsBehind?_append]
  rcases hsteps : stepsBehind? path steps with _ | _ | ⟨_ | declared, rest⟩
  all_goals simp [stepsBehind?, Step.mark]

/-- What is left of patterns behind a path. -/
def Entry.left (path : List Mark) (es : List Entry) : List (List Step × Entry) :=
  MathQuery.left path (es.map Entry.path)

namespace Naive

variable (es : List Entry) (path : List Mark)

theorem goesAlong_iff : GoesAlong es path ↔ Entry.left path es ≠ [] := by
  rw [Entry.left, MathQuery.left, ne_eq, List.filterMap_eq_nil_iff, not_forall]
  simp only [GoesAlong, Pattern.skeleton, ← stepsBehind?_isSome_iff, Option.isSome_iff_ne_none]
  simp [Entry.path]

theorem findSome?_left {α : Type} (f : List Step × Entry → Option α) :
    (Entry.left path es).reverse.findSome? f =
      es.reverse.findSome? fun e =>
        (stepsBehind? path e.pattern.steps).bind fun rest => f (rest, e) := by
  rw [Entry.left, MathQuery.left, ← List.head?_filterMap, ← List.head?_filterMap,
    List.filterMap_map, ← List.filterMap_reverse, List.filterMap_filterMap]
  congr 2
  funext e
  show ((stepsBehind? path e.pattern.steps).map (·, e)).bind f = _
  cases stepsBehind? path e.pattern.steps <;> rfl

/-- The last pattern whose skeleton is a path ends at the node that the path leads to. -/
theorem entry?_eq : entry? es path = (Trie.ofPaths (Entry.left path es)).entry := by
  rw [Trie.entry_ofPaths, findSome?_left, entry?]
  induction es.reverse with
  | nil => rfl
  | cons e es ih =>
    have hiff := stepsBehind?_eq_some_nil_iff path e.pattern.steps
    rw [List.find?_cons, List.findSome?_cons, ih, Pattern.skeleton]
    rcases hsteps : stepsBehind? path e.pattern.steps with _ | _ | ⟨step, rest⟩
    all_goals simp [← hiff, hsteps]

/-- The last pattern with a slot behind a path declares the slot of the node that the path
leads to. -/
theorem declared?_eq : declared? es path = (Trie.ofPaths (Entry.left path es)).declared? := by
  rw [Trie.declared?_ofPaths, findSome?_left, declared?]
  induction es.reverse with
  | nil => rfl
  | cons e es ih =>
    have hiff := concat_slot_prefix_iff path e.pattern.steps
    rw [List.find?_cons, List.findSome?_cons, ← ih, Pattern.skeleton]
    rcases hsteps : stepsBehind? path e.pattern.steps with _ | _ | ⟨_ | declared, rest⟩
    case some.cons.slot => simp [hiff, hsteps, getElem?_of_stepsBehind? hsteps, Step.slot?]
    all_goals simp [hiff, hsteps, Step.slot?]

/-- A mark leads to a node if some pattern goes along it, the node of what is left. -/
theorem child?_left (m : Mark) :
    (Trie.ofPaths (Entry.left path es)).child? m =
      if GoesAlong es (path ++ [m]) then some (Trie.ofPaths (Entry.left (path ++ [m]) es))
      else none := by
  have hleft : Entry.left (path ++ [m]) es = left [m] (Entry.left path es) := left_append _ _ _
  rw [Trie.child?_ofPaths, ← hleft]
  by_cases hnil : Entry.left (path ++ [m]) es = []
  · rw [if_pos hnil, if_neg (by simpa [goesAlong_iff] using hnil)]
  · rw [if_neg hnil, if_pos ((goesAlong_iff es _).mpr hnil)]

/-- Where a slot is declared, some pattern goes along it. -/
theorem goesAlong_of_declared? {declared : Slot} (h : declared? es path = some declared) :
    GoesAlong es (path ++ [.slot]) := by
  rw [declared?] at h
  obtain ⟨e, he, -⟩ := Option.bind_eq_some_iff.mp h
  refine ⟨e, by simpa using List.mem_of_find?_eq_some he, by simpa using List.find?_some he⟩

theorem slot?_left : (Trie.ofPaths (Entry.left path es)).slot? =
    (declared? es path).map fun declared =>
      (declared, Trie.ofPaths (Entry.left (path ++ [.slot]) es)) := by
  cases h : declared? es path with
  | none =>
    rw [declared?_eq, Trie.declared?, Option.map_eq_none_iff] at h
    exact h
  | some declared =>
    have hchild := child?_left es path .slot
    rw [if_pos (goesAlong_of_declared? es path h)] at hchild
    rw [declared?_eq] at h
    exact Trie.slot?_eq_some_iff.mpr ⟨h, hchild⟩

/-- A step of a query leads to the node of what is left behind the mark that it takes. -/
theorem follow_left (captured : Arguments) (term : Expr) :
    (Trie.ofPaths (Entry.left path es)).follow captured term =
      (follow es path captured term).map fun (m, longer) =>
        (Trie.ofPaths (Entry.left (path ++ [m]) es), longer) := by
  rw [Trie.follow, follow, slot?_left]
  cases term.word? with
  | none =>
    dsimp only
    cases declared? es path with
    | none => rfl
    | some declared =>
      dsimp only [Option.map_some]
      cases term.capture declared.type <;> rfl
  | some w =>
    have hword := child?_left es path (.word w)
    rw [Trie.child?] at hword
    dsimp only
    by_cases hgoes : GoesAlong es (path ++ [.word w])
    · rw [hword, if_pos hgoes, if_pos hgoes]
      rfl
    · rw [hword, if_neg hgoes, if_neg hgoes]
      cases declared? es path <;> rfl

/-- From the node of what is left behind a path the trie matches like the list. -/
theorem matchFrom_left (captured : Arguments) (last : Position) (terms : List Expr) :
    (Trie.ofPaths (Entry.left path es)).matchFrom captured last terms =
      matchFrom es path captured last terms := by
  induction terms generalizing path captured last with
  | nil =>
    cases hentry : entry? es path <;> rw [Trie.matchFrom, matchFrom, ← entry?_eq, hentry]
  | cons term terms ih =>
    rw [Trie.matchFrom, matchFrom, follow_left]
    cases follow es path captured term with
    | error e => rfl
    | ok next => exact ih (path ++ [next.1]) next.2 term.position

end Naive

/-! ## Captures -/

namespace Arguments

theorem find?_insertEntry (index other : Nat) (value : Value) (entries : List (Nat × Value)) :
    (insertEntry index value entries).find? (·.1 == other) =
      if other = index then some (index, value) else entries.find? (·.1 == other) := by
  induction entries with
  | nil =>
    by_cases heq : other = index
    · simp [insertEntry, heq]
    · simp [insertEntry, heq, Ne.symm heq]
  | cons first later ih =>
    obtain ⟨i, v⟩ := first
    rw [insertEntry]
    split
    · by_cases heq : other = index
      · simp [heq]
      · simp [heq, Ne.symm heq]
    · split
      · next hindex =>
        subst hindex
        by_cases heq : other = index
        · simp [heq]
        · simp [heq, Ne.symm heq]
      · next hindex =>
        rw [List.find?_cons, List.find?_cons, ih]
        by_cases hi : i = other
        · subst hi
          simp [Ne.symm hindex]
        · rw [beq_false_of_ne hi]

/-- A later capture at an index replaces an earlier one, and no other. -/
theorem get?_insert (captured : Arguments) (index other : Nat) (value : Value) :
    (captured.insert index value).get? other =
      if other = index then some value else captured.get? other := by
  rw [get?, insert, find?_insertEntry, get?]
  split <;> rfl

end Arguments

/-- The trie of registered patterns matches every query like a search through the list of
the patterns, where captures at one index replace each other. -/
theorem Trie.matchStatement_eq_naive {rs : List Registration} {t : Trie}
    (h : ofRegistrations rs = .ok t) :
    (∃ es, rs.mapM Registration.entry = .ok es ∧
      ∀ s, t.matchStatement s = Naive.matchStatement es s) ∧
    ∀ (captured : Arguments) (index other : Nat) (value : Value),
      (captured.insert index value).get? other =
        if other = index then some value else captured.get? other := by
  obtain ⟨es, hes, rfl⟩ := ofRegistrations_eq_ok_iff.mp h
  refine ⟨⟨es, hes, fun s => ?_⟩, Arguments.get?_insert⟩
  have hroot : Entry.left [] es = es.map Entry.path := left_nil _
  rw [matchStatement, ← hroot, Naive.matchFrom_left]
  rfl

/-- Two patterns with the same beginning, of which the second declares the slot anew: the
trie of them matches like a search through the two. -/
theorem Trie.matchStatement_eq_naive_of_overlap :
    let rs : List Registration :=
      [⟨"set \x7b0:integer\x7d", "\x7boutput\x7d", "reduce", "", ""⟩,
        ⟨"set \x7b1:expression\x7d now", "\x7b1\x7d", "expand", "", ""⟩]
    let first : Entry :=
      ⟨"reduce", "", "", ⟨[.literal "set", .slot ⟨0, .integer⟩]⟩, ⟨[.output]⟩⟩
    let second : Entry :=
      ⟨"expand", "", "", ⟨[.literal "set", .slot ⟨1, .expression⟩, .literal "now"]⟩,
        ⟨[.argument 1]⟩⟩
    let t : Trie := ⟨none, .word "set" none
      (.slot ⟨1, .expression⟩ (some first) (.word "now" (some second) .none .none)) .none⟩
    ofRegistrations rs = .ok t ∧
      (∃ es, rs.mapM Registration.entry = .ok es ∧
        ∀ s, t.matchStatement s = Naive.matchStatement es s) ∧
      ∀ (captured : Arguments) (index other : Nat) (value : Value),
        (captured.insert index value).get? other =
          if other = index then some value else captured.get? other := by
  intro rs first second t
  have h : ofRegistrations rs = .ok t := by decide +kernel
  exact ⟨h, matchStatement_eq_naive h⟩

end MathQuery
