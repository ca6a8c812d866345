import MathQuery.Proofs.Algebra.Parts
import MathQuery.Proofs.Algebra.Reduction
import MathQuery.Proofs.Arena.Tracking

/-!
# What requests keep up in an arena

Whatever is asked of an arena, and whether it succeeds or fails, only adds nodes, and a node
names nodes before it only.  So every handle keeps denoting the same finite term: walks from it
end, in this arena and in all later ones, and nothing on them is unknown.

* `Arena.Grounded` – nodes name nodes before them;
* `Arena.Denotes` – all walks from a handle find one term, and reducing it ends;
* `Arena.afterAll`, `Represents.afterAll` – what requests leave, one after the other;
* `Arena.afterAll_disciplined` – what every succession of requests keeps up.
-/

namespace MathQuery

open TermTable ArenaBuilder

namespace Arena

/-- Every node names nodes before it only. -/
def Grounded (arena : Arena) : Prop :=
  ∀ handle node, arena.node handle = .ok node → ∀ operand ∈ node.references, operand < handle

variable {arena : Arena} {table base : TermTable} {handle : Handle} {t : Term}

theorem Represents.grounded (h : Represents arena table) : arena.Grounded :=
  fun _ _ hnode _ => h.lt_of_mem_references hnode

/-! ## The depth of a reduction -/

/-- Two computations on nodes are one on every arena that stands for a table from `base` on. -/
def EqualFrom {α : Type} (base : TermTable) (x x' : ArenaBuilder α) : Prop :=
  ∀ arena table, Represents arena table → table.Extends base → x arena = x' arena

theorem EqualFrom.mono {α : Type} {x x' : ArenaBuilder α} (h : EqualFrom base x x')
    (hextends : table.Extends base) : EqualFrom table x x' :=
  fun arena later hrep hlater => h arena later hrep (hextends.trans hlater)

theorem EqualFrom.bind {α β γ : Type} {R : TermTable → α → β → Prop} {x x' : ArenaBuilder α}
    {y : Builder β} {next next' : α → ArenaBuilder γ} (h : EqualFrom base x x')
    (htracks : Tracks base R x y)
    (hnext : ∀ table a, table.Extends base → EqualFrom table (next a) (next' a)) :
    EqualFrom base (x >>= next) (x' >>= next') := by
  intro arena table hrep hbase
  have hsame := h arena table hrep hbase
  have hrun := htracks arena table hrep hbase
  cases hx : x arena with
  | error e later => rw [bind_of_error hx, bind_of_error (hsame.symm.trans hx)]
  | ok a later =>
    rw [bind_of_ok hx, bind_of_ok (hsame.symm.trans hx)]
    rw [hx] at hrun
    generalize y table = run at hrun
    cases hrun with
    | @ok _ _ _ table' hrep' _ htable _ =>
      exact hnext table' a (hbase.trans htable) later table' hrep' (.refl table')

theorem equalFrom_mapM_reduce {fuel fuel' : ℕ} {handles : List Handle} {ts : List Term}
    (h : List.Forall₂ (fun handle t => EqualFrom base (reduce fuel handle) (reduce fuel' handle) ∧
      Tracks base Points (reduce fuel handle) (Builder.reduce t)) handles ts) :
    EqualFrom base (handles.mapM (reduce fuel)) (handles.mapM (reduce fuel')) := by
  induction h with
  | nil => exact fun _ _ _ _ => rfl
  | cons hfirst hrest ih =>
    have htracks := tracks_reduceAll (hrest.imp fun _ _ => And.right)
    rw [List.mapM_cons, List.mapM_cons]
    apply hfirst.1.bind hfirst.2
    intro table first hbase
    apply (ih.mono hbase).bind (htracks.mono hbase)
    exact fun _ _ _ _ _ _ _ => rfl

/-- It does not matter how much deeper than the handle a reduction may go. -/
theorem equalFrom_reduce {fuel fuel' : ℕ} (ht : Stands base handle t) (hfuel : handle < fuel)
    (hfuel' : handle < fuel') : EqualFrom base (reduce fuel handle) (reduce fuel' handle) := by
  induction fuel generalizing fuel' base handle t with
  | zero => exact absurd hfuel (Nat.not_lt_zero handle)
  | succ fuel ih =>
    obtain ⟨fuel', rfl⟩ := Nat.exists_eq_succ_of_ne_zero (Nat.ne_zero_of_lt hfuel')
    intro arena table hrep hbase
    have hstands := hbase.term ht
    have hwalk := hrep.polynomial?_eq hstands hfuel
    have hwalk' := hrep.polynomial?_eq hstands hfuel'
    have hoperand {operand : Handle} {a : Term} (ha : StandsBefore table handle operand a) :
        EqualFrom table (reduce fuel operand) (reduce fuel' operand) :=
      ih ha.2 (ha.lt hfuel) (ha.lt hfuel')
    have htracks {operand : Handle} {a : Term} (ha : StandsBefore table handle operand a) :
        Tracks table Points (reduce fuel operand) (Builder.reduce a) :=
      tracks_reduce ha.2 (ha.lt hfuel)
    rw [reduce, reduce]
    cases hp : t.polynomial? with
    | error e =>
      rw [hp] at hwalk hwalk'
      rw [look_bind_of_error hwalk, look_bind_of_error hwalk']
    | ok result =>
      rw [hp] at hwalk hwalk'
      rw [look_bind_of_ok hwalk, look_bind_of_ok hwalk']
      cases result with
      | some p => rfl
      | none =>
        obtain ⟨node, hnode, hshows⟩ := hrep.exists_node hstands
        dsimp only
        rw [look_bind_of_ok hnode, look_bind_of_ok hnode]
        cases hshows with
        | number value => rfl
        | symbol name => rfl
        | operation op hl hr =>
          apply (hoperand hl).bind (htracks hl) _ arena table hrep (.refl table)
          intro table' l htable
          apply ((hoperand hr).mono htable).bind ((htracks hr).mono htable)
          exact fun _ _ _ _ _ _ _ => rfl
        | application name hargs =>
          have hall := equalFrom_mapM_reduce (hargs.imp fun _ _ ha => ⟨hoperand ha, htracks ha⟩)
          have htracksAll := tracks_reduceAll (hargs.imp fun _ _ => htracks)
          apply hall.bind htracksAll _ arena table hrep (.refl table)
          exact fun _ _ _ _ _ _ _ => rfl

/-! ## What a handle denotes -/

/-- A handle denotes a term: every walk that may go deeper than the handle finds the term, its
text and its LaTeX.  Reducing it ends in one way, with a handle or because of a division by
zero, no matter how deep it may go. -/
structure Denotes (arena : Arena) (handle : Handle) (t : Term) : Prop where
  term : ∀ fuel, handle < fuel → arena.term fuel handle = .ok t
  render : ∀ style fuel, handle < fuel → arena.render style fuel handle = .ok (t.render style)
  reduce : ∃ run, (∀ fuel, handle < fuel → reduce fuel handle arena = run) ∧
    (∀ name ∈ ["reduce", "expand", "simplify"], transform name [handle] arena = run) ∧
    ((∃ r later, run = .ok r later) ∨ ∃ later, run = .error (.failed .divisionByZero) later)

theorem reduce_eq_error {e : AlgebraError} {later : TermTable}
    (h : Builder.reduce t table = .error e later) : e = .divisionByZero := by
  have hagrees := Builder.gives_reduce t table (.refl table)
  rw [h] at hagrees
  generalize hnormal : t.normalForm? = result at hagrees
  cases hagrees with
  | error _ => exact Term.normalForm?_eq_error hnormal

/-- The term under a handle of a table is denoted in every arena that stands for the table. -/
theorem Represents.denotes (h : Represents arena table) (ht : Stands table handle t) :
    arena.Denotes handle t := by
  have hreduce (fuel : ℕ) (hfuel : handle < fuel) :
      ArenaBuilder.reduce fuel handle arena = ArenaBuilder.reduce (handle + 1) handle arena :=
    equalFrom_reduce ht hfuel (Nat.lt_succ_self handle) arena table h (.refl table)
  refine ⟨fun _ => h.term_eq ht, fun style _ => h.render_eq style ht, _, hreduce, ?_, ?_⟩
  · intro name hname
    have hlt : handle < arena.size := by
      rw [h.size_eq]
      exact lt_size_of_stands ht
    obtain ⟨node, hnode, -⟩ := h.exists_node ht
    have hknown : [handle].mapM known arena = .ok [handle] arena := by
      have hone : known handle arena = .ok handle arena := look_bind_of_ok hnode
      rw [List.mapM_cons, List.mapM_nil, bind_of_ok hone]
      rfl
    rw [transform, bind_of_ok hknown, transformKnown, if_pos hname]
    exact hreduce arena.size hlt
  · have hrun := tracks_reduce ht (Nat.lt_succ_self handle) arena table h (.refl table)
    generalize hstart : Builder.reduce t table = run at hrun
    generalize ArenaBuilder.reduce (handle + 1) handle arena = run' at hrun
    cases hrun with
    | ok _ _ _ _ => exact .inl ⟨_, _, rfl⟩
    | error _ _ _ =>
      obtain rfl := reduce_eq_error hstart
      exact .inr ⟨_, rfl⟩

end Arena

/-! ## Successions of requests -/

/-- The arena that a request leaves, whether it succeeds or fails. -/
def Arena.after (arena : Arena) (request : Request) : Arena :=
  match request.perform arena with
  | .ok _ later => later
  | .error _ later => later

/-- The arena that requests leave, one after the other. -/
def Arena.afterAll (arena : Arena) (requests : List Request) : Arena :=
  requests.foldl after arena

/-- The table that a request leaves, whether it succeeds or fails. -/
def TermTable.after (table : TermTable) (request : Request) : TermTable :=
  match request.issue table with
  | .ok _ later => later
  | .error _ later => later

/-- The table that requests leave, one after the other. -/
def TermTable.afterAll (table : TermTable) (requests : List Request) : TermTable :=
  requests.foldl after table

namespace Arena

variable {arena : Arena} {table : TermTable}

/-- A request leaves a larger arena, which stands for the larger table that it leaves. -/
theorem Represents.after (h : Represents arena table) (request : Request) :
    Represents (arena.after request) (table.after request) ∧
      (arena.after request).Extends arena ∧ (table.after request).Extends table := by
  have htracks : Tracks table Agree request.perform request.issue := tracks_perform request
  have hrun := htracks arena table h (.refl table)
  rw [Arena.after, TermTable.after]
  generalize request.perform arena = run at hrun
  generalize request.issue table = run' at hrun
  cases hrun with
  | ok hrep harena htable _ => exact ⟨hrep, harena, htable⟩
  | error hrep harena htable => exact ⟨hrep, harena, htable⟩

/-- So do requests one after the other. -/
theorem Represents.afterAll (h : Represents arena table) (requests : List Request) :
    Represents (arena.afterAll requests) (table.afterAll requests) ∧
      (arena.afterAll requests).Extends arena ∧ (table.afterAll requests).Extends table := by
  induction requests generalizing arena table with
  | nil => exact ⟨h, .refl arena, .refl table⟩
  | cons request requests ih =>
    obtain ⟨hrep, harena, htable⟩ := h.after request
    obtain ⟨hrep', harena', htable'⟩ := ih hrep
    exact ⟨hrep', harena.trans harena', htable.trans htable'⟩

/-- What any requests leave of an arena that was empty.  Nodes name nodes before them.  The
next request, even one that fails, keeps all nodes and adds others behind them; it ends, and it
ends as it does on whole terms, with a known handle or with the same error.  Every handle
denotes one term, now and after all further requests, and this is the term that the table has
under it and writes. -/
theorem afterAll_disciplined (history : List Request) :
    let arena := Arena.empty.afterAll history
    let table := TermTable.empty.afterAll history
    arena.Grounded ∧
    (∀ request : Request, (arena.after request).Extends arena ∧
      match request.perform arena with
      | .ok handle later => handle < later.size ∧
        request.issue table = .ok handle (table.after request)
      | .error .unfinished _ => False
      | .error (.failed e) _ => request.issue table = .error e (table.after request)) ∧
    ∀ handle < arena.size, ∃ t, ∀ further : List Request,
      let later := table.afterAll further
      (arena.afterAll further).Denotes handle t ∧ later.term handle = .ok t ∧
        ∀ style, Compiler.render style handle later = .ok (t.render style) later := by
  intro arena table
  obtain ⟨hrep, -, -⟩ := represents_empty.afterAll history
  refine ⟨hrep.grounded, fun request => ⟨(hrep.after request).2.1, ?_⟩, fun handle hlt => ?_⟩
  · have htracks : Tracks table Agree request.perform request.issue := tracks_perform request
    have hrun := htracks arena table hrep (.refl table)
    have hafter : table.after request = match request.issue table with
      | .ok _ later => later
      | .error _ later => later := rfl
    rw [hafter]
    generalize request.perform arena = run at hrun
    generalize request.issue table = run' at hrun
    cases hrun with
    | ok hrep' _ _ hagree =>
      obtain ⟨rfl, t, ht⟩ := hagree
      refine ⟨?_, rfl⟩
      rw [hrep'.size_eq]
      exact lt_size_of_stands ht
    | error _ _ _ => rfl
  · obtain ⟨t, ht⟩ := exists_stands_of_lt (hrep.size_eq ▸ hlt)
    refine ⟨t, fun further => ?_⟩
    obtain ⟨hrep', -, htable⟩ := hrep.afterAll further
    have hlater := htable.term ht
    exact ⟨hrep'.denotes hlater, hlater, fun style => Builder.render_of_term style hlater⟩

/-- Reducing `x + x = x/0` adds the three nodes of `2*x` and fails then.  The five nodes that
were there are kept, and the equation denotes what it denoted. -/
theorem afterAll_disciplined_of_failure :
    let history : List Request := [.symbol "x", .number "0", .apply .add 0 0, .apply .div 0 1,
      .apply .equal 2 3]
    let request : Request := .transform "reduce" [4]
    let arena := Arena.empty.afterAll history
    let x := Term.symbol "x"
    arena.size = 5 ∧ (arena.after request).size = 8 ∧
      (match request.perform arena with
        | .error (.failed e) _ => e = .algebra .divisionByZero
        | _ => False) ∧
      arena.Grounded ∧ (arena.after request).Extends arena ∧
      ∀ further, (arena.afterAll further).Denotes 4
        (.operation .equal (.operation .add x x) (.operation .div x (.number 0))) := by
  intro history request arena x
  obtain ⟨hgrounded, hrequest, hdenotes⟩ := afterAll_disciplined history
  obtain ⟨t, hlater⟩ := hdenotes 4 (by decide +kernel)
  have ht : (TermTable.empty.afterAll history).term 4 = .ok t := (hlater []).2.1
  have heq : (TermTable.empty.afterAll history).term 4 =
      .ok (.operation .equal (.operation .add x x) (.operation .div x (.number 0))) := by
    decide +kernel
  obtain rfl := Except.ok.inj (ht.symm.trans heq)
  have hfails : (match request.perform arena with
      | .error (.failed e) _ => some e
      | _ => none) = some (.algebra .divisionByZero) := by decide +kernel
  refine ⟨by decide +kernel, by decide +kernel, ?_, hgrounded, (hrequest request).1,
    fun further => (hlater further).1⟩
  split at hfails
  · exact Option.some.inj hfails
  · contradiction

end Arena

end MathQuery
