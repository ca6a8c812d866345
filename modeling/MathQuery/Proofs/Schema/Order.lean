import Mathlib.Data.List.Perm.Basic
import MathQuery.Proofs.Schema.Entries

/-!
# The order of registrations

Two patterns are compatible if they have different skeletons and declare the same slot
wherever they share one.  Insertions of compatible patterns can be exchanged: at every node
they come by, each of them leaves alone what the other one writes.  So the order in which
compatible patterns are registered does not matter.

* `Trie.Ascending.ext` – a trie in order is known by the entry, the slot and the children of
  its root;
* `Compatible` – patterns that do not overwrite each other;
* `Trie.insert_comm` – two insertions can be exchanged;
* `Trie.foldl_insert_eq_of_perm` – any number of insertions can be performed in any order;
* `Trie.ofRegistrations_eq_of_perm` – so can registrations.
-/

namespace MathQuery

/-! ## Tries with the same children -/

namespace Edges

variable {edges other below later : Edges} {text w : String} {entry : Option Entry}

theorem Ascending.child (h : edges.Ascending) {m : Mark} {node : Trie}
    (hnode : edges.child? m = some node) : node.Ascending := by
  induction h with
  | none => cases m <;> contradiction
  | @slot declared entry below hbelow _ =>
    rw [child?_slot] at hnode
    split at hnode
    · obtain rfl := Option.some.inj hnode
      exact hbelow
    · contradiction
  | @word text entry below later hbelow _ _ _ ih =>
    rw [child?_word] at hnode
    split at hnode
    · obtain rfl := Option.some.inj hnode
      exact hbelow
    · exact ih hnode

/-- The first word is the least one. -/
theorem le_of_word? (hlt : ∀ w, later.word? w ≠ .none → text < w)
    (h : (word text entry below later).word? w ≠ .none) : text ≤ w := by
  by_cases hw : w = text
  · exact hw.ge
  · rw [word?_word_of_ne hw] at h
    exact (hlt w h).le

/-- Edges in order are known by where they lead. -/
theorem Ascending.ext (h : edges.Ascending) (h' : other.Ascending)
    (hword : ∀ w, edges.word? w = other.word? w) (hslot : edges.slot? = other.slot?) :
    edges = other := by
  induction h generalizing other with
  | none =>
    cases h' with
    | none => rfl
    | slot _ => contradiction
    | @word text _ _ _ _ _ _ => simpa [word?] using hword text
  | slot _ _ =>
    cases h' with
    | none => contradiction
    | slot _ => simpa [slot?] using hslot
    | @word text _ _ _ _ _ _ => simpa [word?] using hword text
  | @word text entry below later _ hlater hlt _ ih =>
    cases h' with
    | none => simpa [word?] using hword text
    | slot _ => simpa [word?] using hword text
    | @word text' entry' below' later' _ hlater' hlt' =>
      -- either first word has an edge on the other side, so neither precedes the other
      have hle : text ≤ text' := le_of_word? hlt (by rw [hword]; simp)
      have hge : text' ≤ text := le_of_word? hlt' (by rw [← hword]; simp)
      obtain rfl := le_antisymm hle hge
      obtain ⟨rfl, rfl⟩ : entry = entry' ∧ below = below' := by simpa using hword text
      have hnone {later : Edges} (hlt : ∀ w, later.word? w ≠ .none → text < w) :
          later.word? text = .none := by
        by_contra hsome
        exact lt_irrefl text (hlt text hsome)
      have hlaterWord (w : String) : later.word? w = later'.word? w := by
        by_cases hw : w = text
        · rw [hw, hnone hlt, hnone hlt']
        · simpa [word?_word_of_ne hw] using hword w
      rw [ih hlater' hlaterWord hslot]

end Edges

namespace Trie

variable {t u : Trie}

theorem Ascending.child (h : t.Ascending) {m : Mark} {node : Trie}
    (hnode : t.child? m = some node) : node.Ascending := by
  refine Edges.Ascending.child h (m := m) ?_
  cases m <;> exact hnode

/-- The node that a mark leads to, if need be an empty one, is in order. -/
theorem Ascending.getD_child (h : t.Ascending) (m : Mark) :
    ((t.child? m).getD empty).Ascending := by
  cases hnode : t.child? m with
  | none => exact ascending_empty
  | some node => exact h.child hnode

/-- A trie in order is known by the entry, the slot and the children of its root. -/
theorem Ascending.ext (h : t.Ascending) (h' : u.Ascending) (hentry : t.entry = u.entry)
    (hdeclared : t.declared? = u.declared?) (hchild : ∀ m, t.child? m = u.child? m) : t = u := by
  have hslot : t.slot? = u.slot? := by
    ext ⟨declared, node⟩
    rw [slot?_eq_some_iff, slot?_eq_some_iff, hdeclared, hchild]
  have hedges : t.edges = u.edges :=
    Edges.Ascending.ext h h' (fun w => hchild (.word w)) hslot
  calc t = ⟨t.entry, t.edges⟩ := rfl
    _ = ⟨u.entry, u.edges⟩ := by rw [hentry, hedges]

end Trie

/-! ## Compatible patterns -/

/-- Patterns that do not overwrite each other: their skeletons differ, and where these agree
up to and including a slot, both declare the same slot there. -/
structure Compatible (path path' : List Step) : Prop where
  mark_ne : path.map Step.mark ≠ path'.map Step.mark
  slot_eq : ∀ (n : ℕ) (declared declared' : Slot),
    (path.map Step.mark).take n = (path'.map Step.mark).take n →
    path[n]? = some (.slot declared) → path'[n]? = some (.slot declared') → declared = declared'

namespace Compatible

variable {step step' : Step} {path path' : List Step}

theorem symm (h : Compatible path path') : Compatible path' path where
  mark_ne := h.mark_ne.symm
  slot_eq n declared declared' htake hslot hslot' :=
    (h.slot_eq n declared' declared htake.symm hslot' hslot).symm

theorem not_nil : ¬ Compatible [] [] := fun h => h.mark_ne rfl

theorem nil_cons : Compatible [] (step :: path) := ⟨by simp, by simp⟩

/-- Compatible patterns that begin with the same mark begin with the same step, and behind it
they are compatible. -/
theorem cons_cons_iff : Compatible (step :: path) (step' :: path') ↔
    (step.mark = step'.mark → step = step' ∧ Compatible path path') := by
  constructor
  · intro h hmark
    constructor
    · cases step <;> cases step' <;> simp_all [Step.mark]
      exact h.slot_eq 0 _ _ rfl rfl rfl
    · constructor
      · intro heq
        exact h.mark_ne (by rw [List.map_cons, List.map_cons, hmark, heq])
      · intro n declared declared' htake hslot hslot'
        refine h.slot_eq (n + 1) declared declared' ?_ hslot hslot'
        rw [List.map_cons, List.map_cons, List.take_succ_cons, List.take_succ_cons, hmark, htake]
  · intro h
    constructor
    · intro heq
      obtain ⟨hmark, hmarks⟩ := List.cons.inj heq
      exact (h hmark).2.mark_ne hmarks
    · intro n declared declared' htake hslot hslot'
      cases n with
      | zero =>
        obtain rfl : step = .slot declared := by simpa using hslot
        obtain rfl : step' = .slot declared' := by simpa using hslot'
        exact Step.slot.inj (h rfl).1
      | succ n =>
        rw [List.map_cons, List.map_cons, List.take_succ_cons, List.take_succ_cons] at htake
        obtain ⟨hmark, htake⟩ := List.cons.inj htake
        exact (h hmark).2.slot_eq n declared declared' htake hslot hslot'

/-- Patterns are compared step by step. -/
instance decidable : (path path' : List Step) → Decidable (Compatible path path')
  | [], [] => isFalse not_nil
  | [], _ :: _ => isTrue nil_cons
  | _ :: _, [] => isTrue nil_cons.symm
  | _ :: path, _ :: path' =>
    have := decidable path path'
    decidable_of_iff' _ cons_cons_iff

end Compatible

namespace Trie

variable {t : Trie}

/-! ## Insertions in any order -/

/-- The slot edge of the root declares the same whichever of two paths is put in last. -/
theorem declared?_insert_comm {path path' : List Step} (h : Compatible path path')
    (entry entry' : Entry) (t : Trie) :
    ((t.insert path entry).insert path' entry').declared? =
      ((t.insert path' entry').insert path entry).declared? := by
  simp only [declared?_insert]
  rcases path with _ | ⟨_ | declared, path⟩ <;> rcases path' with _ | ⟨_ | declared', path'⟩
  case cons.slot.cons.slot =>
    rw [(Compatible.cons_cons_iff.mp h rfl).1]
    rfl
  all_goals rfl

/-- Two insertions of compatible patterns can be exchanged. -/
theorem insert_comm {path path' : List Step} (h : Compatible path path') (ht : t.Ascending)
    (entry entry' : Entry) :
    (t.insert path entry).insert path' entry' = (t.insert path' entry').insert path entry := by
  induction path generalizing t path' with
  | nil =>
    cases path' with
    | nil => exact absurd h Compatible.not_nil
    | cons step' path' => rfl
  | cons step path ih =>
    cases path' with
    | nil => rfl
    | cons step' path' =>
      have hfirst := ht.insert (step :: path) entry
      have hsecond := ht.insert (step' :: path') entry'
      refine (hfirst.insert _ _).ext (hsecond.insert _ _) rfl
        (declared?_insert_comm h entry entry' t) fun m => ?_
      simp only [child?_insert hfirst, child?_insert hsecond, child?_insert ht]
      by_cases hstep : step.mark = m <;> by_cases hstep' : step'.mark = m
      · -- both go on behind the same mark, where they can be exchanged
        have hbehind := (Compatible.cons_cons_iff.mp h (hstep.trans hstep'.symm)).2
        simp [hstep, hstep', ih hbehind (ht.getD_child m)]
      all_goals simp [hstep, hstep']

/-- Compatible patterns can be inserted in any order. -/
theorem foldl_insert_eq_of_perm {ps qs : List (List Step × Entry)} (hperm : ps.Perm qs)
    (h : ps.Pairwise fun p q => Compatible p.1 q.1) (ht : t.Ascending) :
    ps.foldl (fun t p => t.insert p.1 p.2) t = qs.foldl (fun t p => t.insert p.1 p.2) t := by
  induction hperm generalizing t with
  | nil => rfl
  | cons p _ ih => exact ih (List.pairwise_cons.mp h).2 (ht.insert p.1 p.2)
  | swap p q ps =>
    have hcompatible : Compatible q.1 p.1 := (List.pairwise_cons.mp h).1 p List.mem_cons_self
    rw [List.foldl_cons, List.foldl_cons, List.foldl_cons, List.foldl_cons,
      insert_comm hcompatible ht]
  | trans hfirst _ ihfirst ihsecond =>
    have hmiddle := (hfirst.pairwise_iff fun hcompatible => hcompatible.symm).mp h
    rw [ihfirst h ht, ihsecond hmiddle ht]

end Trie

/-! ## Registrations in any order -/

namespace Registration

/-- Registrations of compatible patterns. -/
def Compatible (r r' : Registration) : Prop :=
  ∀ e e', r.entry = .ok e → r'.entry = .ok e' →
    MathQuery.Compatible e.pattern.steps e'.pattern.steps

instance (r r' : Registration) : Decidable (r.Compatible r') :=
  match h : r.entry, h' : r'.entry with
  | .error _, _ => isTrue fun _ _ he _ => nomatch h.symm.trans he
  | .ok _, .error _ => isTrue fun _ _ _ he' => nomatch h'.symm.trans he'
  | .ok e, .ok e' =>
    decidable_of_iff (MathQuery.Compatible e.pattern.steps e'.pattern.steps)
      ⟨fun hpaths _ _ he he' => Except.ok.inj (h.symm.trans he) ▸
        Except.ok.inj (h'.symm.trans he') ▸ hpaths, fun hall => hall e e' h h'⟩

/-- The entries of compatible registrations stand at compatible paths. -/
theorem pairwise_compatible {rs : List Registration} {es : List Entry}
    (hes : List.Forall₂ (fun r e => r.entry = .ok e) rs es) (h : rs.Pairwise Compatible) :
    (es.map Entry.path).Pairwise fun p q => MathQuery.Compatible p.1 q.1 := by
  rw [List.pairwise_map, List.pairwise_iff_getElem]
  intro i j hi hj hlt
  have hlength := hes.length_eq
  have hri : i < rs.length := by omega
  have hrj : j < rs.length := by omega
  have hpair : rs[i].Compatible rs[j] := List.pairwise_iff_getElem.mp h i j hri hrj hlt
  exact hpair es[i] es[j] (hes.get hri hi) (hes.get hrj hj)

end Registration

namespace Trie

/-- Registering compatible patterns in any order makes the same trie, with the same list of
entries and the same match for every statement. -/
theorem ofRegistrations_eq_of_perm {rs rs' : List Registration} {t : Trie}
    (h : ofRegistrations rs = .ok t) (hcompatible : rs.Pairwise Registration.Compatible)
    (hperm : rs.Perm rs') :
    ∃ t', ofRegistrations rs' = .ok t' ∧ t' = t ∧ t'.entries = t.entries ∧
      ∀ s, t'.matchStatement s = t.matchStatement s := by
  obtain ⟨es, hes, rfl⟩ := ofRegistrations_eq_ok_iff.mp h
  have hes := Except.mapM_eq_ok_iff.mp hes
  -- the entries in the other order
  obtain ⟨es', hes', hentries⟩ := List.perm_comp_forall₂ hperm.symm hes
  have hpaths := foldl_insert_eq_of_perm (hentries.symm.map Entry.path)
    (Registration.pairwise_compatible hes hcompatible) ascending_empty
  refine ⟨ofPaths (es.map Entry.path), ?_, rfl, rfl, fun _ => rfl⟩
  exact ofRegistrations_eq_ok_iff.mpr ⟨es', Except.mapM_eq_ok_iff.mpr hes', hpaths⟩

/-- Three patterns of which one goes on where another one ends and two share a slot: the last
one can as well be registered first. -/
theorem ofRegistrations_eq_of_perm_of_rotated :
    let bare : Registration := ⟨"reduce", "\x7boutput\x7d", "list", "", ""⟩
    let reduce : Registration := ⟨"reduce \x7b0:expression\x7d", "\x7b0\x7d", "reduce", "", ""⟩
    let named : Registration := ⟨"reduce \x7b0:expression\x7d as \x7b1:string\x7d",
      "\x7b1\x7d is \x7boutput\x7d", "reduce", "", ""⟩
    let t : Trie := ⟨none, .word "reduce"
      (some ⟨"list", "", "", ⟨[.literal "reduce"]⟩, ⟨[.output]⟩⟩)
      (.slot ⟨0, .expression⟩
        (some ⟨"reduce", "", "", ⟨[.literal "reduce", .slot ⟨0, .expression⟩]⟩, ⟨[.argument 0]⟩⟩)
        (.word "as" none
          (.slot ⟨1, .text⟩
            (some ⟨"reduce", "", "", ⟨[.literal "reduce", .slot ⟨0, .expression⟩, .literal "as",
              .slot ⟨1, .text⟩]⟩, ⟨[.argument 1, .literal "is", .output]⟩⟩)
            .none) .none)) .none⟩
    ofRegistrations [bare, reduce, named] = .ok t ∧
      [bare, reduce, named].Pairwise Registration.Compatible ∧
      ∃ t', ofRegistrations [named, bare, reduce] = .ok t' ∧ t' = t ∧ t'.entries = t.entries ∧
        ∀ s, t'.matchStatement s = t.matchStatement s := by
  intro bare reduce named t
  have h : ofRegistrations [bare, reduce, named] = .ok t := by decide +kernel
  have hcompatible : [bare, reduce, named].Pairwise Registration.Compatible := by decide +kernel
  exact ⟨h, hcompatible, ofRegistrations_eq_of_perm h hcompatible (by decide)⟩

end Trie

end MathQuery
