import MathQuery.Failure
import MathQuery.Pattern.Parser

/-!
# The trie of registered patterns

Registered patterns share their common beginnings.  A node has an edge for every
word that continues some pattern, at most one edge for a slot, and the entry of
the pattern that ends there, if one does.

The edges of a node are one chain: words in ascending order first, the slot last.
The node that an edge leads to is stored in the edge, as its entry and its own
edges.  That a node has at most one slot edge, and that it comes last, is thereby
part of the type.

* `Trie.insert` – put an entry at the end of a path;
* `Trie.register` – read a pattern and its template and put them in;
* `Trie.entries` – all entries in the order of their paths.
-/

namespace MathQuery

/-- What is registered at the end of a pattern. -/
structure Entry where
  operation : String
  brief : String
  sample : String
  pattern : Pattern
  template : Pattern
deriving DecidableEq

/-- The edges of a node. -/
inductive Edges
  /-- No edge. -/
  | none
  /-- The slot edge, with the slot declared last and the node it leads to. -/
  | slot (declared : Slot) (entry : Option Entry) (below : Edges)
  /-- A word edge, the node it leads to, and the later edges. -/
  | word (text : String) (entry : Option Entry) (below later : Edges)
deriving DecidableEq

/-- A node: the entry of the pattern that ends here, and the edges. -/
structure Trie where
  entry : Option Entry
  edges : Edges
deriving DecidableEq

namespace Edges

/-- The node behind the edge of a word. -/
def word? (w : String) : Edges → Option Trie
  | none => .none
  | slot _ _ _ => .none
  | word text entry below later => if w = text then some ⟨entry, below⟩ else later.word? w

/-- The slot declared by the slot edge and the node behind it. -/
def slot? : Edges → Option (Slot × Trie)
  | none => .none
  | slot declared entry below => some (declared, ⟨entry, below⟩)
  | word _ _ _ later => later.slot?

/-- A node with a single path below it, which ends at `entry`. -/
def fresh (entry : Entry) : List Step → Option Entry × Edges
  | [] => (some entry, none)
  | .word text :: path =>
    let (end_, below) := fresh entry path
    (.none, word text end_ below none)
  | .slot declared :: path =>
    let (end_, below) := fresh entry path
    (.none, slot declared end_ below)

/-- Put `entry` at the end of the path `step :: path`.  Edges that exist are
followed, missing ones are added, and the slot edge takes the slot declared by
this path. -/
def insert (step : Step) (path : List Step) (entry : Entry) : Edges → Edges
  | none =>
    match step with
    | .word w => let (end_, below) := fresh entry path; word w end_ below none
    | .slot declared => let (end_, below) := fresh entry path; slot declared end_ below
  | slot declared old below =>
    match step with
    | .word w =>
      let (end_, new) := fresh entry path
      word w end_ new (slot declared old below)
    | .slot redeclared =>
      match path with
      | [] => slot redeclared (some entry) below
      | next :: path => slot redeclared old (below.insert next path entry)
  | word text old below later =>
    match step with
    -- the slot stands behind all words
    | .slot _ => word text old below (later.insert step path entry)
    | .word w =>
      if w = text then
        match path with
        | [] => word text (some entry) below later
        | next :: path => word text old (below.insert next path entry) later
      else if w < text then
        let (end_, new) := fresh entry path
        word w end_ new (word text old below later)
      else word text old below (later.insert step path entry)

/-- The entries at and below the nodes that the edges lead to, in order. -/
def entries : Edges → List Entry
  | none => []
  | slot _ entry below => entry.toList ++ below.entries
  | word _ entry below later => entry.toList ++ below.entries ++ later.entries

end Edges

namespace Trie

/-- The trie without any pattern. -/
def empty : Trie := ⟨none, .none⟩

/-- The node behind the edge of a word. -/
def word? (t : Trie) (w : String) : Option Trie := t.edges.word? w

/-- The slot declared by the slot edge and the node behind it. -/
def slot? (t : Trie) : Option (Slot × Trie) := t.edges.slot?

/-- Put `entry` at the end of a path. -/
def insert (path : List Step) (entry : Entry) (t : Trie) : Trie :=
  match path with
  | [] => { t with entry := some entry }
  | step :: path => { t with edges := t.edges.insert step path entry }

/-- All entries: the one that ends at a node before those below it, words in
ascending order, what a slot leads to last. -/
def entries (t : Trie) : List Entry := t.entry.toList ++ t.edges.entries

/-- The number of registered patterns. -/
def size (t : Trie) : Nat := t.entries.length

end Trie

/-- The texts by which a pattern is registered. -/
structure Registration where
  pattern : String
  template : String
  operation : String
  brief : String
  sample : String
deriving DecidableEq

namespace Registration

/-- Read the texts of a registration.  The template may refer only to slots that
the pattern declares. -/
def entry (r : Registration) : Except Failure Entry := do
  let pattern ← Pattern.parse .query r.pattern
  let template ← Pattern.parse .template r.template
  let declared := pattern.slots.map Slot.index
  match template.references.find? (· ∉ declared) with
  | some index => throw (.setup (.undeclaredSlot r.pattern index))
  | none => pure ⟨r.operation, r.brief, r.sample, pattern, template⟩

end Registration

namespace Trie

/-- Register a pattern.  A pattern along the same path replaces the earlier one. -/
def register (t : Trie) (r : Registration) : Except Failure Trie := do
  let entry ← r.entry
  pure (t.insert entry.pattern.steps entry)

/-- Register patterns in order, starting from the empty trie. -/
def ofRegistrations (rs : List Registration) : Except Failure Trie :=
  rs.foldlM register empty

end Trie

end MathQuery
