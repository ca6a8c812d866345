import Mathlib.Data.List.Dedup
import MathQuery.Proofs.Schema.Matching
import MathQuery.Proofs.Text.Bytes

/-!
# The entries of a trie

A trie of registered patterns is a map from skeletons to entries.  Listing it gives the
entry of every skeleton once, in the order of the skeletons, and a later registration
replaces an earlier one with the same skeleton.

* `Mark.Precedes`, `Precedes` – the order of marks and of skeletons;
* `Trie.node?` – the node at the end of a path;
* `Trie.places` – the entries with the paths that lead to them;
* `Trie.mem_places_iff`, `Trie.inOrder_places` – a place is a path with an entry at its end, and
  places stand in the order of their paths;
* `Naive.bind_node?_left` – a node of a trie of patterns is known by what is left of them;
* `Trie.entries_lastWriteWins` – the entries of a trie of registrations.
-/

namespace MathQuery

/-! ## The order of skeletons -/

/-- Words are compared by their bytes, and the slot stands behind all words. -/
inductive Mark.Precedes : Mark → Mark → Prop
  | word {v w : String} (h : utf8Bytes v < utf8Bytes w) : Precedes (.word v) (.word w)
  | slot (w : String) : Precedes (.word w) .slot

/-- Skeletons are compared mark by mark, and one that ends precedes those that go on. -/
abbrev Precedes : List Mark → List Mark → Prop := List.Lex Mark.Precedes

instance : Std.Asymm Mark.Precedes where
  asymm
    | _, _, .word h, .word h' => List.lt_asymm h h'

theorem Precedes.ne {path path' : List Mark} (h : Precedes path path') : path ≠ path' := by
  rintro rfl
  exact (List.Lex.asymm Mark.Precedes).asymm _ _ h h

/-! ## Places -/

/-- The child that a mark leads to. -/
def Edges.child? (edges : Edges) : Mark → Option Trie
  | .word w => edges.word? w
  | .slot => edges.slot?.map Prod.snd

/-- A place seen from the node before it. -/
def behind (m : Mark) (place : List Mark × Entry) : List Mark × Entry := (m :: place.1, place.2)

/-- The entries behind edges, each with the path that leads to it. -/
def Edges.places : Edges → List (List Mark × Entry)
  | none => []
  | slot _ entry below => (entry.toList.map ([], ·) ++ below.places).map (behind .slot)
  | word text entry below later =>
    (entry.toList.map ([], ·) ++ below.places).map (behind (.word text)) ++ later.places

namespace Trie

/-- The node at the end of a path. -/
def node? (t : Trie) : List Mark → Option Trie
  | [] => some t
  | m :: path => (t.child? m).bind fun node => node.node? path

/-- The entry at the end of a path. -/
def entry? (t : Trie) (path : List Mark) : Option Entry := (t.node? path).bind Trie.entry

/-- The entries of a trie, each with the path that leads to it. -/
def places (t : Trie) : List (List Mark × Entry) :=
  t.entry.toList.map ([], ·) ++ t.edges.places

theorem entry?_nil (t : Trie) : t.entry? [] = t.entry := rfl

theorem entry?_cons (t : Trie) (m : Mark) (path : List Mark) :
    t.entry? (m :: path) = (t.edges.child? m).bind fun node => node.entry? path := by
  have hchild : t.child? m = t.edges.child? m := by cases m <;> rfl
  show (t.node? (m :: path)).bind entry = _
  rw [node?, hchild]
  cases t.edges.child? m <;> rfl

end Trie

namespace Edges

variable {edges below later : Edges} {declared : Slot} {entry : Option Entry} {text : String}

theorem places_slot : (slot declared entry below).places =
    (⟨entry, below⟩ : Trie).places.map (behind .slot) := rfl

theorem places_word : (word text entry below later).places =
    (⟨entry, below⟩ : Trie).places.map (behind (.word text)) ++ later.places := rfl

theorem child?_slot (m : Mark) : (slot declared entry below).child? m =
    if m = .slot then some ⟨entry, below⟩ else .none := by
  cases m <;> rfl

theorem child?_word (m : Mark) : (word text entry below later).child? m =
    if m = .word text then some ⟨entry, below⟩ else later.child? m := by
  cases m with
  | word w => simp [child?, word?]
  | slot => rfl

/-- Behind the edge of a word stand the edges of greater words and the slot. -/
theorem precedes_of_child? (hlt : ∀ w, later.word? w ≠ .none → text < w) {m : Mark}
    (h : later.child? m ≠ .none) : Mark.Precedes (.word text) m := by
  cases m with
  | slot => exact .slot text
  | word w => exact .word (utf8Bytes_lt_iff.mpr (hlt w h))

theorem entries_eq_map (edges : Edges) : edges.entries = edges.places.map Prod.snd := by
  have hnode (m : Mark) (entry : Option Entry) (below : Edges) :
      ((⟨entry, below⟩ : Trie).places.map (behind m)).map Prod.snd =
        entry.toList ++ below.places.map Prod.snd := by
    simp [Trie.places, behind, Function.comp_def]
  induction edges with
  | none => rfl
  | slot declared entry below ih => rw [entries, places_slot, hnode, ih]
  | word text entry below later ihbelow ihlater =>
    rw [entries, places_word, List.map_append, hnode, ihbelow, ihlater]

end Edges

/-! ### Paths and their entries -/

theorem nil_notMem_map_behind (m : Mark) (places : List (List Mark × Entry)) (e : Entry) :
    ([], e) ∉ places.map (behind m) := by
  simp [behind]

theorem cons_mem_map_behind_iff {m m' : Mark} {places : List (List Mark × Entry)}
    {path : List Mark} {e : Entry} :
    (m' :: path, e) ∈ places.map (behind m) ↔ m' = m ∧ (path, e) ∈ places := by
  constructor
  · intro h
    obtain ⟨⟨path, e⟩, hplace, heq⟩ := List.mem_map.mp h
    obtain ⟨⟨rfl, rfl⟩, rfl⟩ : (m = m' ∧ path = _) ∧ e = _ := by simpa [behind] using heq
    exact ⟨rfl, hplace⟩
  · rintro ⟨rfl, hplace⟩
    exact List.mem_map_of_mem hplace

namespace Edges

theorem nil_notMem_places (edges : Edges) (e : Entry) : ([], e) ∉ edges.places := by
  induction edges with
  | none => exact List.not_mem_nil
  | slot declared entry below _ => exact nil_notMem_map_behind .slot _ e
  | word text entry below later _ ih =>
    rw [places_word, List.mem_append, not_or]
    exact ⟨nil_notMem_map_behind _ _ e, ih⟩

end Edges

/-- Of a node it is known what is at the end of a path if that is known behind its edges. -/
theorem Trie.mem_places_node_iff {edges : Edges} {e : Entry}
    (h : ∀ m path, (m :: path, e) ∈ edges.places ↔
      ((edges.child? m).bind fun node => node.entry? path) = some e)
    (entry : Option Entry) (path : List Mark) :
    (path, e) ∈ (⟨entry, edges⟩ : Trie).places ↔ Trie.entry? ⟨entry, edges⟩ path = some e := by
  rw [places, List.mem_append]
  cases path with
  | nil => simp [entry?_nil, edges.nil_notMem_places, eq_comm]
  | cons m path => simp [entry?_cons, h]

/-- A place behind edges begins with the mark of an edge and is a place behind this edge. -/
theorem Edges.cons_mem_places_iff {edges : Edges} (h : edges.Ascending) {e : Entry} (m : Mark)
    (path : List Mark) : (m :: path, e) ∈ edges.places ↔
      ((edges.child? m).bind fun node => node.entry? path) = some e := by
  induction h generalizing m path with
  | none => cases m <;> simp [places, child?, word?, slot?]
  | @slot declared entry below _ ih =>
    rw [places_slot, cons_mem_map_behind_iff, Trie.mem_places_node_iff ih, child?_slot]
    by_cases hm : m = .slot <;> simp [hm]
  | @word text entry below later _ _ hlt ihbelow ihlater =>
    rw [places_word, List.mem_append, cons_mem_map_behind_iff, Trie.mem_places_node_iff ihbelow,
      ihlater, child?_word]
    by_cases hm : m = .word text
    · -- the edge of a word is the only one of it
      subst hm
      have hnone : later.child? (.word text) = .none := by
        by_contra hsome
        exact lt_irrefl text (hlt text hsome)
      simp [hnone]
    · simp [hm]

namespace Trie

variable {t : Trie}

/-- The places of a trie are the paths with an entry at their end. -/
theorem mem_places_iff (h : t.Ascending) (path : List Mark) (e : Entry) :
    (path, e) ∈ t.places ↔ t.entry? path = some e :=
  mem_places_node_iff (Edges.cons_mem_places_iff h) t.entry path

theorem entries_eq_map (t : Trie) : t.entries = t.places.map Prod.snd := by
  rw [entries, places, List.map_append, t.edges.entries_eq_map]
  simp [Function.comp_def]

end Trie

/-! ### The order of places -/

/-- Places in the order of their paths. -/
def InOrder (places : List (List Mark × Entry)) : Prop :=
  places.Pairwise fun p q => Precedes p.1 q.1

theorem InOrder.map_behind {places : List (List Mark × Entry)} (h : InOrder places) (m : Mark) :
    InOrder (places.map (behind m)) :=
  List.Pairwise.map (behind m) (fun _ _ hlt => .cons hlt) h

/-- The entry of a node stands before those behind its edges. -/
theorem Trie.inOrder_node {edges : Edges} (h : InOrder edges.places) (entry : Option Entry) :
    InOrder (⟨entry, edges⟩ : Trie).places := by
  cases entry with
  | none => exact h
  | some e =>
    refine List.pairwise_cons.mpr ⟨?_, h⟩
    rintro ⟨path, e'⟩ hplace
    cases path with
    | nil => exact absurd hplace (edges.nil_notMem_places e')
    | cons m path => exact .nil

theorem Edges.inOrder_places {edges : Edges} (h : edges.Ascending) : InOrder edges.places := by
  induction h with
  | none => exact .nil
  | @slot declared entry below _ ih => exact (Trie.inOrder_node ih entry).map_behind .slot
  | @word text entry below later _ hlater hlt ihbelow ihlater =>
    refine List.pairwise_append.mpr
      ⟨(Trie.inOrder_node ihbelow entry).map_behind _, ihlater, ?_⟩
    rintro _ hplace ⟨path, e⟩ hplace'
    obtain ⟨place, -, rfl⟩ := List.mem_map.mp hplace
    cases path with
    | nil => exact absurd hplace' (later.nil_notMem_places e)
    | cons m path =>
      -- the other place is behind a later edge
      refine .rel (precedes_of_child? hlt fun hnone => ?_)
      rw [cons_mem_places_iff hlater, hnone] at hplace'
      contradiction

theorem Trie.inOrder_places {t : Trie} (h : t.Ascending) : InOrder t.places :=
  inOrder_node (Edges.inOrder_places h) t.entry

/-! ## Tries of patterns -/

namespace Naive

variable (es : List Entry)

/-- What can be asked of a node, but not of the empty one, is answered by what is left of the
patterns behind the path to it. -/
theorem bind_node?_left {α : Type} {f : Trie → Option α} (hf : f .empty = none)
    (front path : List Mark) :
    ((Trie.ofPaths (Entry.left front es)).node? path).bind f =
      f (Trie.ofPaths (Entry.left (front ++ path) es)) := by
  induction path generalizing front with
  | nil => rw [List.append_nil, Trie.node?, Option.bind_some]
  | cons m path ih =>
    have hfront : front ++ m :: path = (front ++ [m]) ++ path := by simp
    rw [Trie.node?, child?_left, hfront]
    split
    · exact ih (front ++ [m])
    · next hnot =>
      rw [goesAlong_iff, not_not] at hnot
      have hleft : Entry.left ((front ++ [m]) ++ path) es = [] := by
        rw [Entry.left, left_append, ← Entry.left, hnot]
        rfl
      rw [hleft]
      exact hf.symm

theorem entry?_ofPaths (path : List Mark) :
    Trie.entry? (Trie.ofPaths (es.map Entry.path)) path = entry? es path := by
  have hroot : Entry.left [] es = es.map Entry.path := left_nil _
  show ((Trie.ofPaths (es.map Entry.path)).node? path).bind Trie.entry = _
  rw [← hroot, bind_node?_left es rfl, List.nil_append, entry?_eq]

theorem declared?_ofPaths (path : List Mark) :
    ((Trie.ofPaths (es.map Entry.path)).node? path).bind Trie.declared? = declared? es path := by
  have hroot : Entry.left [] es = es.map Entry.path := left_nil _
  rw [← hroot, bind_node?_left es rfl, List.nil_append, declared?_eq]

/-- A pattern with a certain skeleton was registered last if any was registered. -/
theorem exists_entry?_iff (path : List Mark) :
    (∃ e, entry? es path = some e) ↔ path ∈ es.map fun e => e.pattern.skeleton := by
  rw [← Option.isSome_iff_exists, entry?, List.find?_isSome]
  simp

theorem skeleton_of_entry? {path : List Mark} {e : Entry} (h : entry? es path = some e) :
    e.pattern.skeleton = path := by
  simpa using List.find?_some h

end Naive

namespace Trie

section Listing

variable (es : List Entry)

/-- An entry stands at the end of its own skeleton, and of equal ones the last stands there. -/
theorem mem_places_ofPaths_iff (path : List Mark) (e : Entry) :
    (path, e) ∈ (ofPaths (es.map Entry.path)).places ↔ Naive.entry? es path = some e := by
  rw [mem_places_iff (ascending_ofPaths _), Naive.entry?_ofPaths]

theorem mem_entries_ofPaths_iff (e : Entry) :
    e ∈ (ofPaths (es.map Entry.path)).entries ↔
      Naive.entry? es e.pattern.skeleton = some e := by
  rw [entries_eq_map, List.mem_map]
  constructor
  · rintro ⟨⟨path, e⟩, hplace, rfl⟩
    have hlast := (mem_places_ofPaths_iff es path e).mp hplace
    rwa [Naive.skeleton_of_entry? es hlast]
  · intro hlast
    exact ⟨(e.pattern.skeleton, e), (mem_places_ofPaths_iff es _ e).mpr hlast, rfl⟩

theorem map_skeleton_entries :
    ((ofPaths (es.map Entry.path)).entries.map fun e => e.pattern.skeleton) =
      (ofPaths (es.map Entry.path)).places.map Prod.fst := by
  rw [entries_eq_map, List.map_map]
  refine List.map_congr_left fun place hplace => ?_
  exact Naive.skeleton_of_entry? es ((mem_places_ofPaths_iff es place.1 place.2).mp hplace)

theorem pairwise_skeleton_entries :
    ((ofPaths (es.map Entry.path)).entries.map fun e => e.pattern.skeleton).Pairwise
      Precedes := by
  rw [map_skeleton_entries]
  exact List.Pairwise.map Prod.fst (fun _ _ hlt => hlt) (inOrder_places (ascending_ofPaths _))

/-- Every skeleton that was registered is listed once. -/
theorem perm_skeleton_entries :
    ((ofPaths (es.map Entry.path)).entries.map fun e => e.pattern.skeleton).Perm
      (es.map fun e => e.pattern.skeleton).dedup := by
  have hnodup := (pairwise_skeleton_entries es).imp Precedes.ne
  rw [List.perm_ext_iff_of_nodup hnodup (List.nodup_dedup _)]
  intro path
  rw [map_skeleton_entries, List.mem_dedup, ← Naive.exists_entry?_iff]
  simp [mem_places_ofPaths_iff]

end Listing

/-- The trie of registered patterns is a map from skeletons to entries in which the last
write wins.  Listing it gives, for every skeleton that was registered, the entry that was
registered last with it, once, and in the order of the skeletons; the size is the number of
skeletons; and the slot behind a path is the one that the last pattern with a slot there
declares. -/
theorem entries_lastWriteWins {rs : List Registration} {t : Trie}
    (h : ofRegistrations rs = .ok t) :
    ∃ es, rs.mapM Registration.entry = .ok es ∧
      (∀ e, e ∈ t.entries ↔ Naive.entry? es e.pattern.skeleton = some e) ∧
      (t.entries.map fun e => e.pattern.skeleton).Perm
        (es.map fun e => e.pattern.skeleton).dedup ∧
      t.entries.Pairwise (fun a b => Precedes a.pattern.skeleton b.pattern.skeleton) ∧
      t.size = (es.map fun e => e.pattern.skeleton).dedup.length ∧
      ∀ path, (t.node? path).bind declared? = Naive.declared? es path := by
  obtain ⟨es, hes, rfl⟩ := ofRegistrations_eq_ok_iff.mp h
  have hperm := perm_skeleton_entries es
  refine ⟨es, hes, mem_entries_ofPaths_iff es, hperm, ?_, ?_, Naive.declared?_ofPaths es⟩
  · exact List.pairwise_map.mp (pairwise_skeleton_entries es)
  · rw [size, ← hperm.length_eq, List.length_map]

/-- Four registrations with a prefix, an extension and a replacement among them: of the first
pattern, which the last one replaces, neither the entry nor the slot is left. -/
theorem entries_lastWriteWins_of_replaced :
    let rs : List Registration :=
      [⟨"reduce \x7b0:expression\x7d", "\x7b0\x7d", "reduce", "", ""⟩,
        ⟨"reduce", "\x7boutput\x7d", "list", "", ""⟩,
        ⟨"reduce fraction \x7b0:expression\x7d", "\x7b0\x7d", "fraction", "", ""⟩,
        ⟨"reduce \x7b1:string\x7d", "\x7b1\x7d", "name", "", ""⟩]
    let bare : Entry := ⟨"list", "", "", ⟨[.literal "reduce"]⟩, ⟨[.output]⟩⟩
    let fraction : Entry := ⟨"fraction", "", "",
      ⟨[.literal "reduce", .literal "fraction", .slot ⟨0, .expression⟩]⟩, ⟨[.argument 0]⟩⟩
    let named : Entry :=
      ⟨"name", "", "", ⟨[.literal "reduce", .slot ⟨1, .text⟩]⟩, ⟨[.argument 1]⟩⟩
    let t : Trie := ⟨none, .word "reduce" (some bare)
      (.word "fraction" none (.slot ⟨0, .expression⟩ (some fraction) .none)
        (.slot ⟨1, .text⟩ (some named) .none)) .none⟩
    ofRegistrations rs = .ok t ∧ t.entries = [bare, fraction, named] ∧
      ∃ es, rs.mapM Registration.entry = .ok es ∧
        (∀ e, e ∈ t.entries ↔ Naive.entry? es e.pattern.skeleton = some e) ∧
        (t.entries.map fun e => e.pattern.skeleton).Perm
          (es.map fun e => e.pattern.skeleton).dedup ∧
        t.entries.Pairwise (fun a b => Precedes a.pattern.skeleton b.pattern.skeleton) ∧
        t.size = (es.map fun e => e.pattern.skeleton).dedup.length ∧
        ∀ path, (t.node? path).bind declared? = Naive.declared? es path := by
  intro rs bare fraction named t
  have h : ofRegistrations rs = .ok t := by decide +kernel
  exact ⟨h, rfl, entries_lastWriteWins h⟩

end Trie

end MathQuery
