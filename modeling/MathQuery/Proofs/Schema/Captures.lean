import MathQuery.Proofs.Answer
import MathQuery.Proofs.Schema.Matching
import MathQuery.Query.Parser

/-!
# What a match captures

Patterns with the same beginning share their edges, and the edge of a slot declares what
the last of them declares there.  So a match captures at the indices of the edges that it
follows, which are those of the matched pattern unless a later one redeclared them.

* `Naive.CapturedAlong` – the indices of the slot edges along some marks;
* `Naive.indices_of_matchFrom` – a match captures at these indices;
* `Entry.Undisturbed` – every slot of a pattern is declared last with the index it has there;
* `Trie.captures_of_matchStatement` – what a match captures, and that its template then finds
  all it refers to.
-/

namespace MathQuery

/-! ## Indices of captures -/

namespace Arguments

theorem mem_map_insertEntry_iff {index i : Nat} {value : Value} {entries : List (Nat × Value)} :
    i ∈ (insertEntry index value entries).map Prod.fst ↔
      i = index ∨ i ∈ entries.map Prod.fst := by
  induction entries with
  | nil => simp [insertEntry]
  | cons first later ih =>
    obtain ⟨j, v⟩ := first
    rw [insertEntry]
    split
    · simp
    · split
      · next heq =>
        subst heq
        simp
      · rw [List.map_cons, List.mem_cons, ih, List.map_cons, List.mem_cons]
        exact or_left_comm

theorem mem_indices_insert_iff {captured : Arguments} {index i : Nat} {value : Value} :
    i ∈ (captured.insert index value).indices ↔ i = index ∨ i ∈ captured.indices :=
  mem_map_insertEntry_iff

theorem get?_ne_none_iff {captured : Arguments} {i : Nat} :
    captured.get? i ≠ none ↔ i ∈ captured.indices := by
  rw [get?, indices, ne_eq, Option.map_eq_none_iff, List.find?_eq_none]
  simp

end Arguments

/-! ## Captures along a pattern -/

namespace Naive

variable (es : List Entry)

/-- Some slot along the marks behind a path is declared last with the index `i`. -/
def CapturedAlong (path marks : List Mark) (i : Nat) : Prop :=
  ∃ front declared, front ++ [.slot] <+: marks ∧
    declared? es (path ++ front) = some declared ∧ declared.index = i

variable {es} {path marks : List Mark} {i : Nat}

theorem not_capturedAlong_nil : ¬ CapturedAlong es path [] i := by
  rintro ⟨front, declared, hprefix, -⟩
  simp at hprefix

/-- The first mark captures if it is a slot, the later ones behind it. -/
theorem capturedAlong_cons_iff {m : Mark} :
    CapturedAlong es path (m :: marks) i ↔
      (m = .slot ∧ ∃ declared, declared? es path = some declared ∧ declared.index = i) ∨
        CapturedAlong es (path ++ [m]) marks i := by
  constructor
  · rintro ⟨front, declared, hprefix, hdeclared, hindex⟩
    cases front with
    | nil =>
      rw [List.nil_append, List.cons_prefix_cons] at hprefix
      rw [List.append_nil] at hdeclared
      have hslot : m = .slot := hprefix.1.symm
      exact .inl ⟨hslot, declared, hdeclared, hindex⟩
    | cons first front =>
      rw [List.cons_append, List.cons_prefix_cons] at hprefix
      obtain ⟨rfl, hprefix⟩ := hprefix
      refine .inr ⟨front, declared, hprefix, ?_, hindex⟩
      rwa [List.append_assoc, List.singleton_append]
  · rintro (⟨rfl, declared, hdeclared, hindex⟩ | ⟨front, declared, hprefix, hdeclared, hindex⟩)
    · refine ⟨[], declared, ?_, ?_, hindex⟩
      · simp
      · rwa [List.append_nil]
    · refine ⟨m :: front, declared, ?_, ?_, hindex⟩
      · rwa [List.cons_append, List.cons_prefix_cons, and_iff_right rfl]
      · rwa [List.append_assoc, List.singleton_append] at hdeclared

/-- A step that takes a word captures nothing, and one that takes the slot captures at the
index of the slot declared last. -/
theorem follow_cases {captured longer : Arguments} {term : Expr} {m : Mark}
    (h : follow es path captured term = .ok (m, longer)) :
    (∃ w, m = .word w ∧ longer = captured) ∨
      ∃ declared value, m = .slot ∧ declared? es path = some declared ∧
        longer = captured.insert declared.index value := by
  rw [follow] at h
  split at h
  · next w _ =>
    split at h
    · obtain ⟨rfl, rfl⟩ := Prod.mk.inj (Except.ok.inj h)
      exact .inl ⟨w, rfl, rfl⟩
    · split at h
      · next declared hdeclared =>
        obtain ⟨rfl, rfl⟩ := Prod.mk.inj (Except.ok.inj h)
        exact .inr ⟨declared, .text w, rfl, hdeclared, rfl⟩
      · contradiction
  · split at h
    · next declared hdeclared =>
      obtain ⟨value, -, hvalue⟩ := Except.bind_eq_ok.mp h
      obtain ⟨rfl, rfl⟩ := Prod.mk.inj (Except.ok.inj hvalue)
      exact .inr ⟨declared, value, rfl, hdeclared, rfl⟩
    · contradiction

/-- Behind a step the captured indices are the earlier ones and that of the slot it takes. -/
theorem mem_indices_of_follow {captured longer : Arguments} {term : Expr} {m : Mark}
    (h : follow es path captured term = .ok (m, longer)) :
    i ∈ longer.indices ↔ i ∈ captured.indices ∨
      (m = .slot ∧ ∃ declared, declared? es path = some declared ∧ declared.index = i) := by
  obtain ⟨w, rfl, rfl⟩ | ⟨declared, value, rfl, hdeclared, rfl⟩ := follow_cases h
  · simp
  · rw [Arguments.mem_indices_insert_iff, hdeclared]
    simp [or_comm, eq_comm]

/-- A match ends at a registered pattern, and captures at the indices of the slots along the
rest of it. -/
theorem indices_of_matchFrom {captured : Arguments} {last : Position} {terms : List Expr}
    {m : Match} (h : matchFrom es path captured last terms = .ok m) :
    m.entry ∈ es ∧ ∃ marks, m.entry.pattern.skeleton = path ++ marks ∧
      ∀ i, i ∈ m.arguments.indices ↔ i ∈ captured.indices ∨ CapturedAlong es path marks i := by
  induction terms generalizing path captured last with
  | nil =>
    rw [matchFrom] at h
    split at h
    · next e hentry =>
      obtain rfl := Except.ok.inj h
      refine ⟨by simpa using List.mem_of_find?_eq_some hentry, [], ?_, fun i => ?_⟩
      · simpa using List.find?_some hentry
      · simp [not_capturedAlong_nil]
    · contradiction
  | cons term terms ih =>
    rw [matchFrom] at h
    split at h
    · next mark longer hfollow =>
      obtain ⟨hmem, marks, hskeleton, hindices⟩ := ih h
      refine ⟨hmem, mark :: marks, by simpa using hskeleton, fun i => ?_⟩
      rw [hindices, mem_indices_of_follow hfollow, capturedAlong_cons_iff, or_assoc]
    · contradiction

end Naive

/-! ## Declarations of the matched pattern -/

theorem Pattern.slots_eq_filterMap (p : Pattern) : p.slots = p.steps.filterMap Step.slot? := by
  rw [slots, steps, List.filterMap_filterMap]
  congr 1
  funext piece
  cases piece <;> rfl

theorem Pattern.mem_slots_iff {p : Pattern} {own : Slot} :
    own ∈ p.slots ↔ ∃ front, front ++ [.slot own] <+: p.steps := by
  have hstep (step : Step) : step.slot? = some own ↔ step = .slot own := by
    cases step <;> simp [Step.slot?]
  rw [slots_eq_filterMap, List.mem_filterMap]
  simp only [hstep, exists_eq_right]
  constructor
  · intro h
    obtain ⟨front, rest, hsteps⟩ := List.append_of_mem h
    exact ⟨front, rest, by simp [hsteps]⟩
  · rintro ⟨front, hprefix⟩
    exact hprefix.subset (by simp)

/-- Every slot of an entry's pattern has the index that the last registered pattern with a
slot in this place declares. -/
def Entry.Undisturbed (es : List Entry) (e : Entry) : Prop :=
  ∀ front own, front ++ [.slot own] <+: e.pattern.steps →
    (Naive.declared? es (front.map Step.mark)).map Slot.index = some own.index

/-- The slots along an undisturbed pattern are declared last as it declares them. -/
theorem Entry.Undisturbed.capturedAlong_iff {es : List Entry} {e : Entry} (h : e.Undisturbed es)
    (i : Nat) : Naive.CapturedAlong es [] e.pattern.skeleton i ↔
      i ∈ e.pattern.slots.map Slot.index := by
  rw [List.mem_map]
  constructor
  · rintro ⟨path, declared, hprefix, hdeclared, rfl⟩
    obtain ⟨own, rest, hbehind⟩ := (concat_slot_prefix_iff path _).mp hprefix
    obtain ⟨front, hsteps, rfl⟩ := stepsBehind?_eq_some_iff.mp hbehind
    have hown : front ++ [.slot own] <+: e.pattern.steps := ⟨rest, by simp [hsteps]⟩
    have hindex := h front own hown
    rw [List.nil_append] at hdeclared
    rw [hdeclared, Option.map_some] at hindex
    exact ⟨own, Pattern.mem_slots_iff.mpr ⟨front, hown⟩, (Option.some.inj hindex).symm⟩
  · rintro ⟨own, hown, rfl⟩
    obtain ⟨front, rest, hsteps⟩ := Pattern.mem_slots_iff.mp hown
    obtain ⟨declared, hdeclared, hindex⟩ :=
      Option.map_eq_some_iff.mp (h front own ⟨rest, hsteps⟩)
    refine ⟨front.map Step.mark, declared, ?_, hdeclared, hindex⟩
    exact ⟨rest.map Step.mark, by simp [Pattern.skeleton, ← hsteps, Step.mark]⟩

namespace Registration

/-- Every entry of registrations is one of theirs. -/
theorem exists_of_mem_entries {rs : List Registration} {es : List Entry}
    (h : rs.mapM entry = .ok es) {e : Entry} (he : e ∈ es) : ∃ r ∈ rs, r.entry = .ok e := by
  have hes := Except.mapM_eq_ok_iff.mp h
  obtain ⟨i, hi, rfl⟩ := List.getElem_of_mem he
  have hri : i < rs.length := by rwa [hes.length_eq]
  exact ⟨rs[i], List.getElem_mem hri, hes.get hri hi⟩

/-- The pattern and the template of an entry are read from their texts, and the template refers
to slots of the pattern only. -/
theorem entry_eq_ok {r : Registration} {e : Entry} (h : r.entry = .ok e) :
    Pattern.parse .query r.pattern = .ok e.pattern ∧
      Pattern.parse .template r.template = .ok e.template ∧
        ∀ i ∈ e.template.references, i ∈ e.pattern.slots.map Slot.index := by
  rw [entry] at h
  obtain ⟨pattern, hpattern, h⟩ := Except.bind_eq_ok.mp h
  obtain ⟨template, htemplate, h⟩ := Except.bind_eq_ok.mp h
  dsimp only at h
  split at h
  · contradiction
  · next hfind =>
    obtain rfl := Except.ok.inj h
    refine ⟨hpattern, htemplate, fun i hi => ?_⟩
    have hdeclared := List.find?_eq_none.mp hfind i hi
    simpa using hdeclared

end Registration

namespace Trie

/-- A match captures at the indices of the slots along its pattern, each as the last
registered pattern with a slot in this place declares it.  If these are the indices that the
matched pattern itself declares, then its template misses no argument. -/
theorem captures_of_matchStatement {rs : List Registration} {t : Trie}
    (h : ofRegistrations rs = .ok t) {s : Statement} {m : Match}
    (hmatch : t.matchStatement s = .ok m) :
    ∃ es, rs.mapM Registration.entry = .ok es ∧
      (∀ i, i ∈ m.arguments.indices ↔ Naive.CapturedAlong es [] m.entry.pattern.skeleton i) ∧
      (m.entry.Undisturbed es →
        (∀ i, i ∈ m.arguments.indices ↔ i ∈ m.entry.pattern.slots.map Slot.index) ∧
        ∀ functions style result table name index later,
          Answer.format functions style m.entry.operation m.entry.template m.arguments result
            table ≠ .error (.dispatch (.missingArgument name index)) later) := by
  obtain ⟨es, hes, rfl⟩ := ofRegistrations_eq_ok_iff.mp h
  have hroot : Entry.left [] es = es.map Entry.path := left_nil _
  rw [matchStatement, ← hroot, Naive.matchFrom_left] at hmatch
  obtain ⟨hmem, marks, hskeleton, hindices⟩ := Naive.indices_of_matchFrom hmatch
  obtain rfl : m.entry.pattern.skeleton = marks := hskeleton
  have hcaptured (i : Nat) :
      i ∈ m.arguments.indices ↔ Naive.CapturedAlong es [] m.entry.pattern.skeleton i := by
    rw [hindices]
    simp [Arguments.empty, Arguments.indices]
  refine ⟨es, hes, hcaptured, fun hundisturbed => ?_⟩
  have hdeclared (i : Nat) :
      i ∈ m.arguments.indices ↔ i ∈ m.entry.pattern.slots.map Slot.index :=
    (hcaptured i).trans (hundisturbed.capturedAlong_iff i)
  refine ⟨hdeclared, fun functions style result table name index later => ?_⟩
  refine Answer.avoids_format functions style m.entry.operation result (fun hreference => ?_)
    table later
  obtain ⟨r, -, hentry⟩ := Registration.exists_of_mem_entries hes hmem
  rw [Arguments.get?_ne_none_iff, hdeclared]
  exact (Registration.entry_eq_ok hentry).2.2 _ hreference

/-- A longer pattern that declares the slot with the same index, but another type, does not
disturb the shorter one. -/
theorem captures_of_matchStatement_of_retyped :
    let rs : List Registration :=
      [⟨"set \x7b0:integer\x7d", "\x7b0\x7d", "reduce", "", ""⟩,
        ⟨"set \x7b0:expression\x7d now", "\x7boutput\x7d", "expand", "", ""⟩]
    let five : Expr := .number ⟨"5", ⟨1, 5⟩⟩
    let s : Statement := [[.symbol ⟨"set", ⟨1, 1⟩⟩, five]]
    let first : Entry :=
      ⟨"reduce", "", "", ⟨[.literal "set", .slot ⟨0, .integer⟩]⟩, ⟨[.argument 0]⟩⟩
    let second : Entry :=
      ⟨"expand", "", "", ⟨[.literal "set", .slot ⟨0, .expression⟩, .literal "now"]⟩, ⟨[.output]⟩⟩
    let t : Trie := ⟨none, .word "set" none
      (.slot ⟨0, .expression⟩ (some first) (.word "now" (some second) .none .none)) .none⟩
    let m : Match := ⟨first, ⟨[(0, .expression five)]⟩⟩
    ofRegistrations rs = .ok t ∧ t.matchStatement s = .ok m ∧
      m.entry.Undisturbed [first, second] ∧
      ∃ es, rs.mapM Registration.entry = .ok es ∧
        (∀ i, i ∈ m.arguments.indices ↔ Naive.CapturedAlong es [] m.entry.pattern.skeleton i) ∧
        (m.entry.Undisturbed es →
          (∀ i, i ∈ m.arguments.indices ↔ i ∈ m.entry.pattern.slots.map Slot.index) ∧
          ∀ functions style result table name index later,
            Answer.format functions style m.entry.operation m.entry.template m.arguments result
              table ≠ .error (.dispatch (.missingArgument name index)) later) := by
  intro rs five s first second t m
  have h : ofRegistrations rs = .ok t := by decide +kernel
  have hmatch : t.matchStatement s = .ok m := by decide +kernel
  refine ⟨h, hmatch, fun front own hprefix => ?_, captures_of_matchStatement h hmatch⟩
  -- the only slot of the pattern is the one behind its word
  match front with
  | [] => simp [m, first, Pattern.steps, PatternTerm.step?] at hprefix
  | [step] =>
    obtain ⟨rfl, rfl⟩ : step = .word "set" ∧ own = ⟨0, .integer⟩ := by
      simpa [m, first, Pattern.steps, PatternTerm.step?] using hprefix
    decide +kernel
  | step :: step' :: front => simp [m, first, Pattern.steps, PatternTerm.step?] at hprefix

/-- A longer pattern that declares the slot with another index disturbs the shorter one: a
match of the shorter one captures at the index of the longer one, and the template of the
shorter one misses its argument. -/
theorem captures_of_redeclared :
    let rs : List Registration :=
      [⟨"set \x7b0:integer\x7d", "\x7b0\x7d", "reduce", "", ""⟩,
        ⟨"set \x7b1:expression\x7d now", "\x7boutput\x7d", "expand", "", ""⟩]
    ∃ (t : Trie) (s : Statement) (m : Match),
      ofRegistrations rs = .ok t ∧ parse "set 5" = .ok ⟨[s]⟩ ∧ t.matchStatement s = .ok m ∧
        m.entry.pattern.slots.map Slot.index = [0] ∧ m.arguments.indices = [1] ∧
        Answer.format .standard .plain m.entry.operation m.entry.template m.arguments 0 .empty =
          .error (.dispatch (.missingArgument "reduce" 0)) .empty := by
  let first : Entry :=
    ⟨"reduce", "", "", ⟨[.literal "set", .slot ⟨0, .integer⟩]⟩, ⟨[.argument 0]⟩⟩
  let second : Entry :=
    ⟨"expand", "", "", ⟨[.literal "set", .slot ⟨1, .expression⟩, .literal "now"]⟩, ⟨[.output]⟩⟩
  let five : Expr := .number ⟨"5", ⟨1, 5⟩⟩
  refine ⟨⟨none, .word "set" none
      (.slot ⟨1, .expression⟩ (some first) (.word "now" (some second) .none .none)) .none⟩,
    [[.symbol ⟨"set", ⟨1, 1⟩⟩, five]], ⟨first, ⟨[(1, .expression five)]⟩⟩,
    by decide +kernel, by decide +kernel, by decide +kernel, rfl, rfl, rfl⟩

end Trie

end MathQuery
