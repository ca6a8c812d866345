import Mathlib.Data.List.Induction
import Mathlib.Data.String.Basic
import MathQuery.Proofs.Except
import MathQuery.Schema.Trie

/-!
# The trie of a list of paths

A trie holds what was inserted into it.  What is found at a node is said here for the
trie of any list of paths: the node that a step leads to is the trie of what is left of
the paths that begin with this step.

* `Mark` – a step without what its slot declares; `Pattern.skeleton` – the marks of a
  pattern;
* `Edges.Ascending` – words ascend, which every insertion keeps;
* `Trie.child?_insert`, `declared?_insert`, `entry_insert` – a node behind an insertion;
* `left` – what is left of paths behind some marks;
* `Trie.child?_ofPaths`, `declared?_ofPaths`, `entry_ofPaths` – a node of a trie of paths;
* `Trie.ofRegistrations_eq_ok_iff` – registered patterns are such paths.
-/

namespace MathQuery

/-! ## Marks -/

/-- What a step asks of a term: to be a certain word, or to be taken by a slot. -/
inductive Mark
  | word (text : String)
  | slot
deriving DecidableEq

namespace Step

/-- A step without what its slot declares. -/
def mark : Step → Mark
  | word text => .word text
  | slot _ => .slot

/-- The slot that a step declares. -/
def slot? : Step → Option Slot
  | word _ => none
  | slot declared => some declared

end Step

/-- The marks of a pattern in order. -/
def Pattern.skeleton (p : Pattern) : List Mark := p.steps.map Step.mark

namespace Trie

/-- The node that a mark leads to. -/
def child? (t : Trie) : Mark → Option Trie
  | .word w => t.word? w
  | .slot => t.slot?.map Prod.snd

/-- The slot that the slot edge declares. -/
def declared? (t : Trie) : Option Slot := t.slot?.map Prod.fst

/-- A slot edge is a declared slot and a child. -/
theorem slot?_eq_some_iff {t node : Trie} {declared : Slot} :
    t.slot? = some (declared, node) ↔
      t.declared? = some declared ∧ t.child? .slot = some node := by
  rw [declared?, child?]
  cases t.slot? with
  | none => simp
  | some edge => simp [Prod.ext_iff]

end Trie

/-! ## Edges in order -/

namespace Edges

/-- The words of every node ascend. -/
inductive Ascending : Edges → Prop
  | none : Ascending .none
  | slot {declared : Slot} {entry : Option Entry} {below : Edges} (hbelow : Ascending below) :
    Ascending (.slot declared entry below)
  | word {text : String} {entry : Option Entry} {below later : Edges}
    (hbelow : Ascending below) (hlater : Ascending later)
    (hlt : ∀ w, later.word? w ≠ .none → text < w) : Ascending (.word text entry below later)

variable {edges : Edges}

/-! ### Insertion, edge by edge -/

section Insertion

variable (path : List Step) (entry : Entry)

/-- A single path is what an insertion into the empty trie makes. -/
theorem fresh_eq :
    fresh entry path =
      ((Trie.empty.insert path entry).entry, (Trie.empty.insert path entry).edges) := by
  cases path with
  | nil => rfl
  | cons step path => cases step <;> rfl

variable (w : String) (declared redeclared : Slot) (old : Option Entry) (below later : Edges)

theorem insert_word_none : none.insert (.word w) path entry =
    word w (Trie.empty.insert path entry).entry (Trie.empty.insert path entry).edges none := by
  simp [insert, fresh_eq]

theorem insert_slot_none : none.insert (.slot declared) path entry =
    slot declared (Trie.empty.insert path entry).entry (Trie.empty.insert path entry).edges := by
  simp [insert, fresh_eq]

theorem insert_word_slot : (slot declared old below).insert (.word w) path entry =
    word w (Trie.empty.insert path entry).entry (Trie.empty.insert path entry).edges
      (slot declared old below) := by
  simp [insert, fresh_eq]

theorem insert_slot_slot : (slot declared old below).insert (.slot redeclared) path entry =
    slot redeclared ((⟨old, below⟩ : Trie).insert path entry).entry
      ((⟨old, below⟩ : Trie).insert path entry).edges := by
  cases path <;> rfl

theorem insert_slot_word : (word w old below later).insert (.slot declared) path entry =
    word w old below (later.insert (.slot declared) path entry) := rfl

theorem insert_word_word : (word w old below later).insert (.word w) path entry =
    word w ((⟨old, below⟩ : Trie).insert path entry).entry
      ((⟨old, below⟩ : Trie).insert path entry).edges later := by
  cases path <;> simp [insert, Trie.insert]

variable {w} {text : String}

theorem insert_word_of_lt (h : w < text) :
    (word text old below later).insert (.word w) path entry =
      word w (Trie.empty.insert path entry).entry (Trie.empty.insert path entry).edges
        (word text old below later) := by
  simp [insert, fresh_eq, h.ne, h]

theorem insert_word_of_gt (h : text < w) :
    (word text old below later).insert (.word w) path entry =
      word text old below (later.insert (.word w) path entry) := by
  simp [insert, h.ne', h.not_gt]

end Insertion

/-! ### Edges behind an insertion -/

section Behind

variable {w text : String} {old : Option Entry} {below later : Edges}

@[simp] theorem word?_word_self : (word w old below later).word? w = some ⟨old, below⟩ := by
  simp [word?]

@[simp] theorem word?_word_of_ne (h : w ≠ text) :
    (word text old below later).word? w = later.word? w := by
  simp [word?, h]

end Behind

/-- Behind an insertion the edge of the first word leads to the node with the rest of the
path in it, and the other words lead where they did. -/
theorem word?_insert (h : edges.Ascending) (step : Step) (path : List Step) (entry : Entry)
    (w : String) : (edges.insert step path entry).word? w =
      if step = .word w then some (((edges.word? w).getD .empty).insert path entry)
      else edges.word? w := by
  induction h with
  | none =>
    cases step with
    | word first =>
      simp only [insert_word_none, word?, Step.word.injEq, eq_comm (a := w)]
      split <;> rfl
    | slot declared => simp [insert_slot_none, word?]
  | slot _ _ =>
    cases step with
    | word first =>
      simp only [insert_word_slot, word?, Step.word.injEq, eq_comm (a := w)]
      split <;> rfl
    | slot redeclared => simp [insert_slot_slot, word?]
  | @word text old below later hbelow hlater hlt _ ih =>
    cases step with
    | slot declared => simp [insert_slot_word, word?, ih]
    | word first =>
      simp only [Step.word.injEq] at ih ⊢
      rcases lt_trichotomy first text with hless | rfl | hgreater
      · rw [insert_word_of_lt path entry old below later hless]
        by_cases hw : w = first
        · -- the word stands before all others, so there was no edge of it
          subst hw
          have hnone : later.word? w = .none := by
            by_contra hsome
            exact lt_asymm hless (hlt w hsome)
          simp [hless.ne, hnone]
        · rw [word?_word_of_ne hw, if_neg (Ne.symm hw)]
      · rw [insert_word_word]
        by_cases hw : w = first
        · subst hw
          simp
        · rw [word?_word_of_ne hw, word?_word_of_ne hw, if_neg (Ne.symm hw)]
      · rw [insert_word_of_gt path entry old below later hgreater]
        by_cases hw : w = text
        · subst hw
          simp [hgreater.ne']
        · rw [word?_word_of_ne hw, word?_word_of_ne hw, ih]

/-- Behind an insertion the slot edge declares the slot of the path, if the path begins
with one, and leads to the node with the rest of the path in it. -/
theorem slot?_insert (edges : Edges) (step : Step) (path : List Step) (entry : Entry) :
    (edges.insert step path entry).slot? =
      match step with
      | .word _ => edges.slot?
      | .slot declared =>
        some (declared, ((edges.slot?.map Prod.snd).getD .empty).insert path entry) := by
  induction edges with
  | none => cases step <;> simp [insert_word_none, insert_slot_none, slot?]
  | slot declared old below => cases step <;> simp [insert_word_slot, insert_slot_slot, slot?]
  | word text old below later _ ih =>
    cases step with
    | slot declared => simpa [insert_slot_word, slot?] using ih
    | word first =>
      simp only at ih
      rcases lt_trichotomy first text with hless | rfl | hgreater
      · simp [insert_word_of_lt path entry old below later hless, slot?]
      · simp [insert_word_word, slot?]
      · simp [insert_word_of_gt path entry old below later hgreater, slot?, ih]

theorem ascending_insert_empty (path : List Step) (entry : Entry) :
    (Trie.empty.insert path entry).edges.Ascending := by
  induction path with
  | nil => exact .none
  | cons step path ih =>
    cases step with
    | word w =>
      rw [Trie.insert, Trie.empty, insert_word_none]
      exact .word ih .none (by simp [word?])
    | slot declared =>
      rw [Trie.insert, Trie.empty, insert_slot_none]
      exact .slot ih

/-- Insertion keeps words in order. -/
theorem Ascending.insert (h : edges.Ascending) (step : Step) (path : List Step) (entry : Entry) :
    (edges.insert step path entry).Ascending := by
  have hnode {old : Option Entry} {below : Edges} {path : List Step} (hbelow : below.Ascending)
      (hinsert : ∀ step path, (below.insert step path entry).Ascending) :
      ((⟨old, below⟩ : Trie).insert path entry).edges.Ascending := by
    cases path with
    | nil => exact hbelow
    | cons step path => exact hinsert step path
  have hempty := ascending_insert_empty path entry
  induction h generalizing step path with
  | none =>
    cases step with
    | word w =>
      rw [insert_word_none]
      exact .word hempty .none (by simp [word?])
    | slot declared =>
      rw [insert_slot_none]
      exact .slot hempty
  | slot hbelow ih =>
    have hinsert (step : Step) (path : List Step) := ih step path (ascending_insert_empty path entry)
    cases step with
    | word w =>
      rw [insert_word_slot]
      exact .word hempty (.slot hbelow) (by simp [word?])
    | slot redeclared =>
      rw [insert_slot_slot]
      exact .slot (hnode hbelow hinsert)
  | @word text old below later hbelow hlater hlt ihbelow ihlater =>
    have hinsert (step : Step) (path : List Step) :=
      ihbelow step path (ascending_insert_empty path entry)
    have hinsertLater := ihlater step path hempty
    cases step with
    | slot declared =>
      rw [insert_slot_word]
      refine .word hbelow hinsertLater fun w hw => hlt w ?_
      simpa [word?_insert hlater] using hw
    | word first =>
      rcases lt_trichotomy first text with hless | rfl | hgreater
      · rw [insert_word_of_lt path entry old below later hless]
        refine .word hempty (.word hbelow hlater hlt) fun w hw => ?_
        by_cases heq : w = text
        · exact heq ▸ hless
        · rw [word?_word_of_ne heq] at hw
          exact lt_trans hless (hlt w hw)
      · rw [insert_word_word]
        exact .word (hnode hbelow hinsert) hlater hlt
      · rw [insert_word_of_gt path entry old below later hgreater]
        refine .word hbelow hinsertLater fun w hw => ?_
        by_cases heq : first = w
        · exact heq ▸ hgreater
        · rw [word?_insert hlater, if_neg (by simpa using heq)] at hw
          exact hlt w hw

end Edges

/-! ## Nodes behind an insertion -/

namespace Trie

variable {t : Trie}

/-- The words of every node of a trie ascend. -/
def Ascending (t : Trie) : Prop := t.edges.Ascending

theorem ascending_empty : empty.Ascending := .none

theorem Ascending.insert (h : t.Ascending) (path : List Step) (entry : Entry) :
    (t.insert path entry).Ascending := by
  cases path with
  | nil => exact h
  | cons step path => exact Edges.Ascending.insert h step path entry

theorem entry_insert (path : List Step) (entry : Entry) (t : Trie) :
    (t.insert path entry).entry = if path = [] then some entry else t.entry := by
  cases path <;> simp [Trie.insert]

theorem declared?_insert (path : List Step) (entry : Entry) (t : Trie) :
    (t.insert path entry).declared? = (path.head?.bind Step.slot?).or t.declared? := by
  cases path with
  | nil => rfl
  | cons step path =>
    rw [Trie.insert, declared?, declared?, slot?, slot?, Edges.slot?_insert]
    cases step <;> rfl

/-- The mark that a path begins with leads to the node with the rest of the path in it, and
the other marks lead where they did. -/
theorem child?_insert (h : t.Ascending) (path : List Step) (entry : Entry) (m : Mark) :
    (t.insert path entry).child? m =
      match path with
      | [] => t.child? m
      | step :: path =>
        if step.mark = m then some (((t.child? m).getD .empty).insert path entry)
        else t.child? m := by
  cases path with
  | nil => cases m <;> rfl
  | cons step path =>
    rw [Trie.insert]
    cases m with
    | word w =>
      rw [child?, child?, word?, word?, Edges.word?_insert h]
      cases step <;> simp [Step.mark]
    | slot =>
      rw [child?, child?, slot?, slot?, Edges.slot?_insert]
      cases step <;> simp [Step.mark]

end Trie

/-! ## Tries of paths -/

/-- The steps behind a succession of marks, if the steps begin with these. -/
def stepsBehind? : List Mark → List Step → Option (List Step)
  | [], steps => some steps
  | _ :: _, [] => none
  | m :: path, step :: steps => if step.mark = m then stepsBehind? path steps else none

theorem stepsBehind?_append (path path' : List Mark) (steps : List Step) :
    stepsBehind? (path ++ path') steps = (stepsBehind? path steps).bind (stepsBehind? path') := by
  induction path generalizing steps with
  | nil => rfl
  | cons m path ih =>
    cases steps with
    | nil => rfl
    | cons step steps =>
      rw [List.cons_append, stepsBehind?, stepsBehind?]
      split
      · exact ih steps
      · rfl

/-- Steps that go along a path begin with steps of its marks. -/
theorem stepsBehind?_eq_some_iff {path : List Mark} {steps rest : List Step} :
    stepsBehind? path steps = some rest ↔
      ∃ front, steps = front ++ rest ∧ front.map Step.mark = path := by
  induction path generalizing steps with
  | nil => simp [stepsBehind?, eq_comm]
  | cons m path ih =>
    cases steps with
    | nil => simp [stepsBehind?]
    | cons step steps =>
      rw [stepsBehind?]
      constructor
      · intro h
        split at h
        · next hmark =>
          obtain ⟨front, rfl, rfl⟩ := ih.mp h
          exact ⟨step :: front, rfl, by rw [List.map_cons, hmark]⟩
        · contradiction
      · rintro ⟨front, hsteps, hpath⟩
        cases front with
        | nil => contradiction
        | cons first front =>
          obtain ⟨rfl, rfl⟩ := List.cons.inj hsteps
          obtain ⟨rfl, rfl⟩ := List.cons.inj hpath
          rw [if_pos rfl]
          exact ih.mpr ⟨front, rfl, rfl⟩

/-- What is left of paths behind a succession of marks, of those that begin with it. -/
def left (path : List Mark) (ps : List (List Step × Entry)) : List (List Step × Entry) :=
  ps.filterMap fun p => (stepsBehind? path p.1).map (·, p.2)

theorem left_nil (ps : List (List Step × Entry)) : left [] ps = ps := by
  simp [left, stepsBehind?]

theorem left_append (path path' : List Mark) (ps : List (List Step × Entry)) :
    left (path ++ path') ps = left path' (left path ps) := by
  rw [left, left, left, List.filterMap_filterMap]
  congr 1
  funext p
  rw [stepsBehind?_append]
  cases stepsBehind? path p.1 <;> rfl

theorem left_concat (path : List Mark) (ps : List (List Step × Entry)) (p : List Step × Entry) :
    left path (ps ++ [p]) = left path ps ++ ((stepsBehind? path p.1).map (·, p.2)).toList := by
  rw [left, List.filterMap_append, left]
  cases h : stepsBehind? path p.1 <;> simp [h]

namespace Trie

/-- The trie of entries at the ends of paths, inserted in order. -/
def ofPaths (ps : List (List Step × Entry)) : Trie :=
  ps.foldl (fun t p => t.insert p.1 p.2) empty

theorem ofPaths_concat (ps : List (List Step × Entry)) (p : List Step × Entry) :
    ofPaths (ps ++ [p]) = (ofPaths ps).insert p.1 p.2 := by
  simp [ofPaths]

theorem ascending_ofPaths (ps : List (List Step × Entry)) : (ofPaths ps).Ascending := by
  induction ps using List.reverseRecOn with
  | nil => exact ascending_empty
  | append_singleton ps p ih =>
    rw [ofPaths_concat]
    exact ih.insert p.1 p.2

/-- The entry of a node is that of the last path that ends there. -/
theorem entry_ofPaths (ps : List (List Step × Entry)) :
    (ofPaths ps).entry = ps.reverse.findSome? fun p => if p.1 = [] then some p.2 else none := by
  induction ps using List.reverseRecOn with
  | nil => rfl
  | append_singleton ps p ih =>
    rw [ofPaths_concat, entry_insert, ih, List.reverse_append, List.reverse_singleton,
      List.singleton_append, List.findSome?_cons]
    split <;> rfl

/-- The slot edge of a node declares what the last path that begins with a slot does. -/
theorem declared?_ofPaths (ps : List (List Step × Entry)) :
    (ofPaths ps).declared? = ps.reverse.findSome? fun p => p.1.head?.bind Step.slot? := by
  induction ps using List.reverseRecOn with
  | nil => rfl
  | append_singleton ps p ih =>
    rw [ofPaths_concat, declared?_insert, ih, List.reverse_append, List.reverse_singleton,
      List.singleton_append, List.findSome?_cons]
    cases p.1.head?.bind Step.slot? <;> rfl

/-- A mark leads to the trie of what is left behind it, if a path begins with it. -/
theorem child?_ofPaths (ps : List (List Step × Entry)) (m : Mark) :
    (ofPaths ps).child? m = if left [m] ps = [] then none else some (ofPaths (left [m] ps)) := by
  induction ps using List.reverseRecOn with
  | nil => cases m <;> rfl
  | append_singleton ps p ih =>
    obtain ⟨path, entry⟩ := p
    -- a mark that no path begins with leads to an empty node
    have hnode : ((ofPaths ps).child? m).getD empty = ofPaths (left [m] ps) := by
      rw [ih]
      split
      · next hnil => rw [hnil]; rfl
      · rfl
    rw [ofPaths_concat, child?_insert (ascending_ofPaths ps), left_concat]
    cases path with
    | nil => simp [stepsBehind?, ih]
    | cons step path =>
      by_cases hmark : step.mark = m
      · simp [stepsBehind?, hmark, hnode, ofPaths_concat]
      · simp [stepsBehind?, hmark, ih]

end Trie

/-! ## Registered patterns -/

/-- The path of an entry: the steps of its pattern. -/
def Entry.path (e : Entry) : List Step × Entry := (e.pattern.steps, e)

namespace Trie

/-- Registering one pattern after the other inserts their entries one after the other. -/
theorem foldlM_register_eq_ok_iff {rs : List Registration} {t later : Trie} :
    rs.foldlM register t = .ok later ↔
      ∃ es, rs.mapM Registration.entry = .ok es ∧
        later = (es.map Entry.path).foldl (fun t p => t.insert p.1 p.2) t := by
  induction rs generalizing t with
  | nil =>
    constructor
    · intro h
      exact ⟨[], rfl, (Except.ok.inj h).symm⟩
    · rintro ⟨es, hes, rfl⟩
      obtain rfl := Except.ok.inj hes
      rfl
  | cons r rs ih =>
    rw [List.foldlM_cons, List.mapM_cons, Except.bind_eq_ok]
    constructor
    · rintro ⟨middle, hfirst, hlater⟩
      obtain ⟨e, he, hmiddle⟩ := Except.bind_eq_ok.mp hfirst
      obtain rfl := Except.ok.inj hmiddle
      obtain ⟨es, hes, rfl⟩ := ih.mp hlater
      refine ⟨e :: es, Except.bind_eq_ok.mpr ⟨e, he, ?_⟩, rfl⟩
      exact Except.bind_eq_ok.mpr ⟨es, hes, rfl⟩
    · rintro ⟨all, hall, rfl⟩
      obtain ⟨e, he, hall⟩ := Except.bind_eq_ok.mp hall
      obtain ⟨es, hes, hall⟩ := Except.bind_eq_ok.mp hall
      obtain rfl := Except.ok.inj hall
      exact ⟨_, Except.bind_eq_ok.mpr ⟨e, he, rfl⟩, ih.mpr ⟨es, hes, rfl⟩⟩

/-- Registrations succeed if all of them can be read, and make the trie of their paths. -/
theorem ofRegistrations_eq_ok_iff {rs : List Registration} {t : Trie} :
    ofRegistrations rs = .ok t ↔
      ∃ es, rs.mapM Registration.entry = .ok es ∧ t = ofPaths (es.map Entry.path) :=
  foldlM_register_eq_ok_iff

end Trie

end MathQuery
