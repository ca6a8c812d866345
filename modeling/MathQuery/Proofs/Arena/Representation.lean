import MathQuery.Proofs.Algebra.Transformation
import MathQuery.Proofs.Arena.Basic

/-!
# An arena and the table it stands for

An arena stands for a table of terms if they are of one size and every node shows the term
under its handle: the same number, symbol, operator or name, with operands that come before
the node and under whose handles the table has the operands of the term.  Then a walk from a
node ends as soon as it may go deeper than the handle of the node, and it finds what is to be
found in the term.

* `Node.Shows` – a node as the outermost part of a term;
* `Arena.Represents` – an arena stands for a table;
* `Represents.push` – a node can be added with the term that it shows;
* `Represents.term_eq`, `polynomial?_eq`, `render_eq` – what walks find.
-/

namespace MathQuery

open TermTable

/-- A node shows a term: it is the outermost part of the term, and its operands are related to
the operands of the term. -/
inductive Node.Shows (D : Handle → Term → Prop) : Node → Term → Prop
  | number (value : ℚ) : Shows D (.number value) (.number value)
  | symbol (name : String) : Shows D (.symbol name) (.symbol name)
  | operation (op : BinaryOp) {left right : Handle} {l r : Term} (hl : D left l) (hr : D right r) :
    Shows D (.operation op left right) (.operation op l r)
  | application (name : String) {arguments : List Handle} {ts : List Term}
    (h : List.Forall₂ D arguments ts) : Shows D (.application name arguments) (.application name ts)

theorem Node.Shows.imp {D E : Handle → Term → Prop} {node : Node} {t : Term}
    (h : node.Shows D t) (hDE : ∀ handle a, D handle a → E handle a) : node.Shows E t := by
  cases h with
  | number value => exact .number value
  | symbol name => exact .symbol name
  | operation op hl hr => exact .operation op (hDE _ _ hl) (hDE _ _ hr)
  | application name h => exact .application name (h.imp fun _ _ => hDE _ _)

/-- Every operand of a node that shows a term is related to some term. -/
theorem Node.Shows.exists_of_mem {D : Handle → Term → Prop} {node : Node} {t : Term}
    (h : node.Shows D t) {handle : Handle} (hmem : handle ∈ node.references) : ∃ a, D handle a := by
  cases h with
  | number _ | symbol _ => contradiction
  | operation _ hl hr =>
    rcases List.mem_pair.mp hmem with rfl | rfl
    · exact ⟨_, hl⟩
    · exact ⟨_, hr⟩
  | application _ h =>
    change handle ∈ (_ : List Handle) at hmem
    induction h with
    | nil => contradiction
    | cons hfirst _ ih =>
      rcases List.mem_cons.mp hmem with rfl | hmem
      · exact ⟨_, hfirst⟩
      · exact ih hmem

namespace Arena

/-! ## Standing for a table -/

/-- A term stands in a table under a handle that comes before another one. -/
def StandsBefore (table : TermTable) (limit handle : Handle) (t : Term) : Prop :=
  handle < limit ∧ Stands table handle t

/-- The depth that is left behind a node is enough for its operands. -/
theorem StandsBefore.lt {table : TermTable} {limit handle : Handle} {t : Term} {fuel : ℕ}
    (h : StandsBefore table limit handle t) (hfuel : limit < fuel + 1) : handle < fuel :=
  Nat.lt_of_lt_of_le h.1 (Nat.le_of_lt_succ hfuel)

/-- An arena stands for a table of terms. -/
structure Represents (arena : Arena) (table : TermTable) : Prop where
  size_eq : arena.size = table.size
  shows : ∀ handle node, arena.node handle = .ok node →
    ∃ t, Stands table handle t ∧ node.Shows (StandsBefore table handle) t

theorem represents_empty : Represents .empty .empty :=
  ⟨rfl, fun _ _ h => by simp [node, empty] at h⟩

variable {arena : Arena} {table : TermTable} {handle : Handle} {t : Term}

theorem node_eq_ok_iff {node : Node} :
    arena.node handle = .ok node ↔ arena.nodes[handle]? = some node := by
  rw [Arena.node]
  cases arena.nodes[handle]? <;> simp

theorem lt_size_of_stands (h : Stands table handle t) : handle < table.size := by
  have hlt := (List.getElem?_eq_some_iff.mp (term_eq_ok_iff.mp h)).1
  rwa [Array.length_toList] at hlt

theorem exists_stands_of_lt (h : handle < table.size) : ∃ t, Stands table handle t := by
  refine ⟨table.terms[handle], term_eq_ok_iff.mpr ?_⟩
  rw [Array.getElem?_toList]
  exact Array.getElem?_eq_getElem h

namespace Represents

/-- Under the handle of a term stands a node that shows it. -/
theorem exists_node (h : Represents arena table) (ht : Stands table handle t) :
    ∃ node, arena.node handle = .ok node ∧ node.Shows (StandsBefore table handle) t := by
  have hlt : handle < arena.size := by
    rw [h.size_eq]
    exact lt_size_of_stands ht
  have hnode : arena.node handle = .ok arena.nodes[handle] :=
    node_eq_ok_iff.mpr (Array.getElem?_eq_getElem hlt)
  obtain ⟨t', ht', hshows⟩ := h.shows handle _ hnode
  obtain rfl : t' = t := Except.ok.inj (ht'.symm.trans ht)
  exact ⟨_, hnode, hshows⟩

/-- A handle without a term is one without a node. -/
theorem node_eq_error (h : Represents arena table) {e : AlgebraError}
    (he : table.term handle = .error e) : arena.node handle = .error (.failed e) := by
  have hle : table.size ≤ handle := by
    by_contra hlt
    obtain ⟨t, ht⟩ := exists_stands_of_lt (Nat.not_le.mp hlt)
    cases he.symm.trans ht
  have hsize : arena.size ≤ handle := by rwa [h.size_eq]
  have hterm : table.terms[handle]? = none := Array.getElem?_eq_none hle
  have hnode : arena.nodes[handle]? = none := Array.getElem?_eq_none hsize
  rw [TermTable.term, hterm] at he
  rw [node, hnode, Except.error.inj he]

/-- Every node has operands that come before it. -/
theorem lt_of_mem_references (h : Represents arena table) {node : Node}
    (hnode : arena.node handle = .ok node) {operand : Handle} (hmem : operand ∈ node.references) :
    operand < handle := by
  obtain ⟨t, -, hshows⟩ := h.shows handle node hnode
  obtain ⟨a, hlt, -⟩ := hshows.exists_of_mem hmem
  exact hlt

/-- A node can be added together with a term that it shows. -/
theorem push (h : Represents arena table) {node : Node} (hshows : node.Shows (Stands table) t) :
    Represents ⟨arena.nodes.push node⟩ ⟨table.terms.push t⟩ := by
  have hextends : TermTable.Extends ⟨table.terms.push t⟩ table := ⟨[t], by simp⟩
  constructor
  · show (arena.nodes.push node).size = (table.terms.push t).size
    rw [Array.size_push, Array.size_push]
    exact congrArg (· + 1) h.size_eq
  · intro handle node' hnode'
    have hpush := node_eq_ok_iff.mp hnode'
    rw [Array.getElem?_push] at hpush
    split at hpush
    · next hlast =>
      -- the new node is the last one, and its operands were there before
      obtain rfl := Option.some.inj hpush
      have hsize : handle = table.size := hlast.trans h.size_eq
      refine ⟨t, ?_, hshows.imp fun operand a ha => ⟨?_, hextends.term ha⟩⟩
      · simp [Stands, TermTable.term, hsize, TermTable.size]
      · rw [hsize]
        exact lt_size_of_stands ha
    · obtain ⟨t', ht', hshows'⟩ := h.shows handle node' (node_eq_ok_iff.mpr hpush)
      exact ⟨t', hextends.term ht', hshows'.imp fun _ _ ha => ⟨ha.1, hextends.term ha.2⟩⟩

/-! ## Walks -/

/-- The term that a node stands for is the one under its handle. -/
theorem term_eq (h : Represents arena table) {fuel : ℕ} (ht : Stands table handle t)
    (hfuel : handle < fuel) : arena.term fuel handle = .ok t := by
  induction fuel generalizing handle t with
  | zero => exact absurd hfuel (Nat.not_lt_zero handle)
  | succ fuel ih =>
    have hoperand {operand : Handle} {a : Term} (ha : StandsBefore table handle operand a) :
        arena.term fuel operand = .ok a := ih ha.2 (ha.lt hfuel)
    obtain ⟨node, hnode, hshows⟩ := h.exists_node ht
    rw [Arena.term, hnode]
    cases hshows with
    | number value => rfl
    | symbol name => rfl
    | operation op hl hr =>
      show (arena.term fuel _ >>= fun l => arena.term fuel _ >>= fun r => _) = _
      rw [hoperand hl, hoperand hr]
      rfl
    | application name hargs =>
      show (List.mapM (arena.term fuel) _ >>= fun args => _) = _
      rw [Except.mapM_eq_ok_iff.mpr (hargs.imp fun _ _ => hoperand)]
      rfl

/-- A node denotes the polynomial that its term denotes. -/
theorem polynomial?_eq (h : Represents arena table) {fuel : ℕ} (ht : Stands table handle t)
    (hfuel : handle < fuel) : arena.polynomial? fuel handle = t.polynomial?.mapError .failed := by
  induction fuel generalizing handle t with
  | zero => exact absurd hfuel (Nat.not_lt_zero handle)
  | succ fuel ih =>
    have hoperand {operand : Handle} {a : Term} (ha : StandsBefore table handle operand a) :
        arena.polynomial? fuel operand = a.polynomial?.mapError .failed :=
      ih ha.2 (ha.lt hfuel)
    obtain ⟨node, hnode, hshows⟩ := h.exists_node ht
    rw [Arena.polynomial?, hnode]
    cases hshows with
    | number value => rw [Term.polynomial?]; rfl
    | symbol name => rw [Term.polynomial?]; rfl
    | application name _ => rw [Term.polynomial?]; rfl
    | @operation op left right l r hl hr =>
      rw [Term.polynomial?]
      show (if op = .equal then _ else _) = _
      split
      · rfl
      · rw [hoperand hl, hoperand hr]
        cases l.polynomial? with
        | error e => rfl
        | ok p? =>
          cases r.polynomial? with
          | error e => rfl
          | ok q? => cases p? <;> cases q? <;> rfl

theorem isMinusOne_eq (h : Represents arena table) (ht : Stands table handle t) :
    arena.isMinusOne handle = .ok t.isMinusOne := by
  obtain ⟨node, hnode, hshows⟩ := h.exists_node ht
  rw [Arena.isMinusOne, hnode]
  cases hshows <;> rfl

theorem isNegation_eq (h : Represents arena table) (op : BinaryOp) (ht : Stands table handle t) :
    arena.isNegation op handle = .ok (op == .mul && t.isMinusOne) := by
  rw [Arena.isNegation, h.isMinusOne_eq ht]
  cases op == .mul <;> rfl

theorem precedence_eq (h : Represents arena table) (style : Style) (ht : Stands table handle t) :
    arena.precedence style handle = .ok (t.precedence style) := by
  obtain ⟨node, hnode, hshows⟩ := h.exists_node ht
  rw [Arena.precedence, hnode]
  cases hshows with
  | number value => rfl
  | symbol name => rfl
  | application name _ => rfl
  | operation op hl hr =>
    show (arena.isNegation op _ >>= fun minus => _) = _
    rw [h.isNegation_eq op hl.2]
    rfl

theorem startsWithNumber_eq (h : Represents arena table) {fuel : ℕ} (ht : Stands table handle t)
    (hfuel : handle < fuel) : arena.startsWithNumber fuel handle = .ok t.startsWithNumber := by
  induction fuel generalizing handle t with
  | zero => exact absurd hfuel (Nat.not_lt_zero handle)
  | succ fuel ih =>
    obtain ⟨node, hnode, hshows⟩ := h.exists_node ht
    rw [Arena.startsWithNumber, hnode]
    cases hshows with
    | number value => rfl
    | symbol name => rfl
    | application name _ => rfl
    | operation op hl hr =>
      have hleft := ih hl.2 (hl.lt hfuel)
      exact hleft

theorem between_eq (h : Represents arena table) (style : Style) {fuel : ℕ} (op : BinaryOp)
    (ht : Stands table handle t) (hfuel : handle < fuel) :
    arena.between style fuel op handle = .ok (Term.between style op t) := by
  cases op with
  | mul =>
    cases style with
    | plain => rfl
    | latex =>
      rw [Arena.between, h.startsWithNumber_eq ht hfuel]
      rfl
  | add | sub | div | pow | equal => rfl

theorem mapM_eq_renderEach {style : Style} {walk : Handle → Walk String} {handles : List Handle}
    {ts : List Term}
    (h : List.Forall₂ (fun handle t => walk handle = .ok (t.render style)) handles ts) :
    handles.mapM walk = .ok (Term.renderEach style ts) := by
  rw [Except.mapM_eq_ok_iff]
  induction h with
  | nil =>
    rw [Term.renderEach]
    exact .nil
  | cons hfirst _ ih =>
    rw [Term.renderEach]
    exact .cons hfirst ih

/-- A node is written as its term is. -/
theorem render_eq (h : Represents arena table) (style : Style) {fuel : ℕ}
    (ht : Stands table handle t) (hfuel : handle < fuel) :
    arena.render style fuel handle = .ok (t.render style) := by
  induction fuel generalizing handle t with
  | zero => exact absurd hfuel (Nat.not_lt_zero handle)
  | succ fuel ih =>
    have hoperand {operand : Handle} {a : Term} (ha : StandsBefore table handle operand a) :
        arena.render style fuel operand = .ok (a.render style) :=
      ih ha.2 (ha.lt hfuel)
    obtain ⟨node, hnode, hshows⟩ := h.exists_node ht
    rw [Arena.render, hnode]
    cases hshows with
    | number value => rw [Term.render]; rfl
    | symbol name => rw [Term.render]; rfl
    | @application name arguments ts hargs =>
      have htexts := mapM_eq_renderEach (hargs.imp fun _ _ => hoperand)
      rw [Term.render]
      show (List.mapM (arena.render style fuel) _ >>= fun texts => _) = _
      rw [htexts]
      rfl
    | @operation op left right l r hl hr =>
      have hbetween := h.between_eq style op hr.2 (hr.lt hfuel)
      rw [Term.render]
      show (arena.isNegation op left >>= fun minus => _) = _
      rw [h.isNegation_eq op hl.2]
      show (if op == .mul && l.isMinusOne then _ else _) = _
      rw [h.precedence_eq style hl.2, h.precedence_eq style hr.2, hoperand hl, hoperand hr,
        hbetween]
      split
      · rfl
      · split
        · rfl
        · show (if op == .pow && style == .latex then _ else _) = _
          split <;> rfl

end Represents

end Arena

end MathQuery
