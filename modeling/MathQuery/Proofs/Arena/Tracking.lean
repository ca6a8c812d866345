import MathQuery.Proofs.Arena.Representation

/-!
# Nodes are added as terms are issued

Every computation that adds nodes keeps step with the one that issues whole terms.  Started
from an arena and from the table that this stands for, both succeed with the same handle or
fail with the same error, and what they leave behind are again an arena and the table that it
stands for, larger than before.  In particular no walk on the way is left unfinished.

* `Arena.Tracks` – a computation on nodes keeps step with one on terms;
* `Tracks.bind` – computations in succession keep step if each of them does;
* `tracks_polynomial`, `tracks_reduce`, `tracks_transform` – the computations of the algebra;
* `tracks_perform` – all requests.
-/

namespace MathQuery

open TermTable ArenaBuilder

namespace Arena

/-! ## Keeping step -/

/-- All nodes of an earlier arena are in a later one, with their handles. -/
def Extends (later earlier : Arena) : Prop := earlier.nodes.toList <+: later.nodes.toList

theorem Extends.refl (arena : Arena) : arena.Extends arena := List.prefix_rfl

theorem Extends.trans {first second third : Arena} (h : second.Extends first)
    (h' : third.Extends second) : third.Extends first :=
  List.IsPrefix.trans h h'

variable {ε α β γ δ : Type}

/-- A run on an arena and a run on the table it stands for end alike: with values related by
`R` or with the same error, in a larger arena that stands for a larger table. -/
inductive EndAlike (R : TermTable → α → β → Prop) (arena : Arena) (table : TermTable) :
    EStateM.Result (Halt ε) Arena α → EStateM.Result ε TermTable β → Prop
  | ok {a : α} {b : β} {arena' : Arena} {table' : TermTable} (hrep : Represents arena' table')
    (harena : arena'.Extends arena) (htable : table'.Extends table) (hR : R table' a b) :
    EndAlike R arena table (.ok a arena') (.ok b table')
  | error {e : ε} {arena' : Arena} {table' : TermTable} (hrep : Represents arena' table')
    (harena : arena'.Extends arena) (htable : table'.Extends table) :
    EndAlike R arena table (.error (.failed e) arena') (.error e table')

theorem EndAlike.of_later {R : TermTable → α → β → Prop} {arena arena' : Arena}
    {table table' : TermTable} {run : EStateM.Result (Halt ε) Arena α}
    {run' : EStateM.Result ε TermTable β} (h : EndAlike R arena' table' run run')
    (harena : arena'.Extends arena) (htable : table'.Extends table) :
    EndAlike R arena table run run' := by
  cases h with
  | ok hrep harena' htable' hR => exact .ok hrep (harena.trans harena') (htable.trans htable') hR
  | error hrep harena' htable' => exact .error hrep (harena.trans harena') (htable.trans htable')

/-- From every arena that stands for a table which extends `base`, a computation on nodes ends
like one on terms. -/
def Tracks (base : TermTable) (R : TermTable → α → β → Prop) (x : EStateM (Halt ε) Arena α)
    (y : EStateM ε TermTable β) : Prop :=
  ∀ arena table, Represents arena table → table.Extends base →
    EndAlike R arena table (x arena) (y table)

variable {base : TermTable} {R : TermTable → α → β → Prop} {S : TermTable → γ → δ → Prop}
  {x : EStateM (Halt ε) Arena α} {y : EStateM ε TermTable β}
  {next : α → EStateM (Halt ε) Arena γ} {next' : β → EStateM ε TermTable δ}

theorem Tracks.mono (h : Tracks base R x y) {later : TermTable} (hextends : later.Extends base) :
    Tracks later R x y :=
  fun arena table hrep hlater => h arena table hrep (hextends.trans hlater)

theorem tracks_pure {a : α} {b : β} (h : ∀ table, table.Extends base → R table a b) :
    Tracks base R (pure a : EStateM (Halt ε) Arena α) (pure b : EStateM ε TermTable β) :=
  fun arena table hrep hbase => .ok hrep (.refl arena) (.refl table) (h table hbase)

theorem tracks_throw (e : ε) : Tracks base R (throw (.failed e) : EStateM (Halt ε) Arena α)
    (throw e : EStateM ε TermTable β) :=
  fun arena table hrep _ => .error hrep (.refl arena) (.refl table)

/-- Computations in succession keep step. -/
theorem Tracks.bind (h : Tracks base R x y)
    (hnext : ∀ table a b, table.Extends base → R table a b → Tracks table S (next a) (next' b)) :
    Tracks base S (x >>= next) (y >>= next') := by
  intro arena table hrep hbase
  have hfirst := h arena table hrep hbase
  generalize hrun : x arena = run at hfirst
  generalize hrun' : y table = run' at hfirst
  cases hfirst with
  | @ok a b arena' table' hrep' harena htable hR =>
    rw [bind_of_ok hrun, bind_of_ok hrun']
    have hlater := hnext table' a b (hbase.trans htable) hR arena' table' hrep' (.refl table')
    exact hlater.of_later harena htable
  | error hrep' harena htable =>
    rw [bind_of_error hrun, bind_of_error hrun']
    exact .error hrep' harena htable

/-- What a walk finds is looked at, and the arena stays as it is. -/
theorem look_bind_of_ok {walk : Arena → Walk α} {next : α → ArenaBuilder β} {arena : Arena} {a : α}
    (h : walk arena = .ok a) : (look walk >>= next) arena = next a arena :=
  bind_of_ok (by simp [look, h])

theorem look_bind_of_error {walk : Arena → Walk α} {next : α → ArenaBuilder β} {arena : Arena}
    {e : Halt AlgebraError} (h : walk arena = .error e) :
    (look walk >>= next) arena = .error e arena :=
  bind_of_error (by simp [look, h])

/-! ## Adding nodes -/

/-- A handle is that of an issued term, which stands in the table under it. -/
def Points (table : TermTable) (handle : Handle) (issued : Issued) : Prop :=
  handle = issued.handle ∧ Stands table handle issued.term

/-- Several handles are those of issued terms. -/
def PointEach (table : TermTable) (handles : List Handle) (issued : List Issued) : Prop :=
  List.Forall₂ (Points table) handles issued

variable {handle left right : Handle} {issued l r : Issued} {t : Term}

theorem Points.mono {earlier later : TermTable} (h : Points earlier handle issued)
    (hextends : later.Extends earlier) : Points later handle issued :=
  ⟨h.1, hextends.term h.2⟩

theorem PointEach.mono {earlier later : TermTable} {handles : List Handle} {issued : List Issued}
    (h : PointEach earlier handles issued) (hextends : later.Extends earlier) :
    PointEach later handles issued :=
  List.Forall₂.imp (fun _ _ hone => hone.mono hextends) h

theorem PointEach.standEach {handles : List Handle} {issued : List Issued}
    (h : PointEach base handles issued) : StandEach base handles (issued.map Issued.term) :=
  List.forall₂_map_right_iff.mpr (List.Forall₂.imp (fun _ _ hone => hone.2) h)

theorem Points.tracks_pure (h : Points base handle issued) :
    Tracks base Points (pure handle : ArenaBuilder Handle) (pure issued : Builder Issued) :=
  Arena.tracks_pure fun _ hextends => h.mono hextends

theorem tracks_push {node : Node} (h : node.Shows (Stands base) t) :
    Tracks base Points (push node) (Builder.issue t) := by
  intro arena table hrep hbase
  have hshows : node.Shows (Stands table) t := h.imp fun _ _ ha => hbase.term ha
  apply EndAlike.ok (hrep.push hshows)
  · exact ⟨[node], by simp⟩
  · exact ⟨[t], by simp⟩
  · refine ⟨hrep.size_eq, ?_⟩
    rw [hrep.size_eq]
    simp [Stands, TermTable.term, TermTable.size]

theorem tracks_operation (op : BinaryOp) (hl : Points base left l) (hr : Points base right r) :
    Tracks base Points (push (.operation op left right)) (Builder.operation op l r) :=
  tracks_push (.operation op hl.2 hr.2)

theorem tracks_mapM {f : γ → ArenaBuilder Handle} {g : γ → Builder Issued}
    (h : ∀ base c, Tracks base Points (f c) (g c)) (cs : List γ) :
    Tracks base PointEach (cs.mapM f) (cs.mapM g) := by
  induction cs generalizing base with
  | nil => exact tracks_pure fun _ _ => .nil
  | cons c cs ih =>
    rw [List.mapM_cons, List.mapM_cons]
    apply (h base c).bind
    intro table first first' _ hfirst
    have hlater : Tracks table PointEach (cs.mapM f) (cs.mapM g) := ih
    apply hlater.bind
    intro table' later later' htable hlater
    exact tracks_pure fun table'' htable' =>
      .cons ((hfirst.mono htable).mono htable') (hlater.mono htable')

theorem tracks_factor (x : String) (e : ℕ) :
    Tracks base Points (factor x e) (Builder.factor x e) := by
  rw [factor, Builder.factor]
  apply (tracks_push (.symbol x)).bind
  intro table symbol symbol' _ hsymbol
  split
  · exact hsymbol.tracks_pure
  · apply (tracks_push (.number e)).bind
    intro table' exponent exponent' htable hexponent
    exact tracks_operation .pow (hsymbol.mono htable) hexponent

theorem tracks_product (hfirst : Points base handle issued) {handles : List Handle}
    {later : List Issued} (hlater : PointEach base handles later) :
    Tracks base Points (product handle handles) (Builder.product issued later) := by
  induction handles generalizing base handle issued later with
  | nil =>
    cases hlater
    exact hfirst.tracks_pure
  | cons next handles ih =>
    cases hlater with
    | cons hnext hlater =>
      apply (tracks_operation .mul hfirst hnext).bind
      intro table longer longer' htable hlonger
      exact ih hlonger (PointEach.mono hlater htable)

theorem tracks_monomial (m : Monomial) (c : ℚ) :
    Tracks base Points (monomial m c) (Builder.monomial m c) := by
  rw [monomial, Builder.monomial]
  apply (tracks_mapM (fun base s => tracks_factor s.1 s.2) m).bind
  intro table factors factors' _ hfactors
  cases hfactors with
  | nil => exact tracks_push (.number c)
  | cons hfirst hlater =>
    apply (tracks_product hfirst hlater).bind
    intro table' body body' _ hbody
    split
    · exact hbody.tracks_pure
    · apply (tracks_push (.number c)).bind
      intro table'' coefficient coefficient' htable hcoefficient
      exact tracks_operation .mul hcoefficient (hbody.mono htable)

theorem tracks_sum (hfirst : Points base handle issued) (terms : List PolynomialTerm) :
    Tracks base Points (sum handle terms) (Builder.sum issued terms) := by
  induction terms generalizing base handle issued with
  | nil => exact hfirst.tracks_pure
  | cons s terms ih =>
    obtain ⟨m, c⟩ := s
    rw [sum, Builder.sum]
    split
    · apply (tracks_monomial m (-c)).bind
      intro table next next' htable hnext
      apply (tracks_operation .sub (hfirst.mono htable) hnext).bind
      intro table' longer longer' _ hlonger
      exact ih hlonger
    · apply (tracks_monomial m c).bind
      intro table next next' htable hnext
      apply (tracks_operation .add (hfirst.mono htable) hnext).bind
      intro table' longer longer' _ hlonger
      exact ih hlonger

theorem tracks_polynomial (p : Polynomial) :
    Tracks base Points (polynomial p) (Builder.polynomial p) := by
  rw [polynomial, Builder.polynomial]
  rcases p.written with _ | ⟨⟨m, c⟩, later⟩
  · exact tracks_push (.number 0)
  · apply (tracks_monomial m c).bind
    intro table first first' _ hfirst
    exact tracks_sum hfirst later

/-! ## Transformations -/

theorem Tracks.operation (op : BinaryOp) {x y : ArenaBuilder Handle} {x' y' : Builder Issued}
    (hx : Tracks base Points x x') (hy : Tracks base Points y y') :
    Tracks base Points (do let l ← x; let r ← y; push (.operation op l r))
      (do let l ← x'; let r ← y'; Builder.operation op l r) := by
  apply hx.bind
  intro table l l' hbase hl
  apply (hy.mono hbase).bind
  intro table' r r' htable hr
  exact tracks_operation op (hl.mono htable) hr

theorem tracks_application (name : String) {handles : List Handle} {args : List Issued}
    (h : PointEach base handles args) :
    Tracks base Points (push (.application name handles))
      (Builder.issue (.application name (args.map Issued.term))) := by
  have hargs : List.Forall₂ (Stands base) handles (args.map Issued.term) := h.standEach
  exact tracks_push (.application name hargs)

theorem Tracks.application (name : String) {x : ArenaBuilder (List Handle)}
    {y : Builder (List Issued)} (h : Tracks base PointEach x y) :
    Tracks base Points (do let args ← x; push (.application name args))
      (do let args ← y; Builder.issue (.application name (args.map Issued.term))) :=
  h.bind fun _ _ _ _ hargs => tracks_application name hargs

theorem tracks_reduceAll {fuel : ℕ} {handles : List Handle} {ts : List Term}
    (h : List.Forall₂ (fun handle t =>
      Tracks base Points (reduce fuel handle) (Builder.reduce t)) handles ts) :
    Tracks base PointEach (handles.mapM (reduce fuel)) (Builder.reduceAll ts) := by
  induction h with
  | nil =>
    rw [Builder.reduceAll]
    exact tracks_pure fun _ _ => .nil
  | cons hfirst _ ih =>
    rw [List.mapM_cons, Builder.reduceAll]
    apply hfirst.bind
    intro table first first' hbase hpoints
    apply (ih.mono hbase).bind
    intro table' later later' htable hlater
    exact tracks_pure fun table'' htable' =>
      .cons ((hpoints.mono htable).mono htable') (hlater.mono htable')

/-- Reducing a node keeps step with reducing its term, if it may go deeper than the handle. -/
theorem tracks_reduce {fuel : ℕ} (ht : Stands base handle t) (hfuel : handle < fuel) :
    Tracks base Points (reduce fuel handle) (Builder.reduce t) := by
  induction fuel generalizing base handle t with
  | zero => exact absurd hfuel (Nat.not_lt_zero handle)
  | succ fuel ih =>
    intro arena table hrep hbase
    have hstands := hbase.term ht
    have hpolynomial := hrep.polynomial?_eq hstands hfuel
    have hoperand {operand : Handle} {a : Term} (ha : StandsBefore table handle operand a) :
        Tracks table Points (reduce fuel operand) (Builder.reduce a) := ih ha.2 (ha.lt hfuel)
    rw [reduce, Builder.reduce.eq_def]
    cases hp : t.polynomial? with
    | error e =>
      rw [hp] at hpolynomial
      rw [look_bind_of_error hpolynomial]
      exact .error hrep (.refl arena) (.refl table)
    | ok result =>
      rw [hp] at hpolynomial
      rw [look_bind_of_ok hpolynomial]
      cases result with
      | some p => exact tracks_polynomial p arena table hrep hbase
      | none =>
        obtain ⟨node, hnode, hshows⟩ := hrep.exists_node hstands
        dsimp only
        rw [look_bind_of_ok hnode]
        cases hshows with
        | number value => simp [Term.polynomial?] at hp
        | symbol name => simp [Term.polynomial?] at hp
        | operation op hl hr =>
          exact (hoperand hl).operation op (hoperand hr) arena table hrep (.refl table)
        | application name hargs =>
          have hall := tracks_reduceAll (hargs.imp fun _ _ => hoperand)
          exact hall.application name arena table hrep (.refl table)

theorem tracks_derivative {fuel : ℕ} {x : Handle} {a : Term} (ht : Stands base handle t)
    (hfuel : handle < fuel) (hx : Stands base x a) :
    Tracks base Points (derivative fuel handle x) (Builder.derivative t a) := by
  intro arena table hrep hbase
  have hpolynomial := hrep.polynomial?_eq (hbase.term ht) hfuel
  obtain ⟨node, hnode, hshows⟩ := hrep.exists_node (hbase.term hx)
  rw [derivative, look_bind_of_ok hnode]
  cases hshows with
  | number _ | operation _ _ _ | application _ _ => exact tracks_throw _ arena table hrep hbase
  | symbol name =>
    rw [Builder.derivative]
    dsimp only
    cases hp : t.polynomial? with
    | error e =>
      rw [hp] at hpolynomial
      rw [look_bind_of_error hpolynomial]
      exact .error hrep (.refl arena) (.refl table)
    | ok result =>
      rw [hp] at hpolynomial
      rw [look_bind_of_ok hpolynomial]
      cases result with
      | some p => exact tracks_polynomial _ arena table hrep hbase
      | none => exact tracks_throw _ arena table hrep hbase

/-- An arena has more nodes than any of its handles, so that is deep enough. -/
theorem tracks_bounded {f : ℕ → ArenaBuilder Handle} {y : Builder Issued}
    (ht : Stands base handle t) (h : ∀ fuel, handle < fuel → Tracks base Points (f fuel) y) :
    Tracks base Points (bounded f) y := by
  intro arena table hrep hbase
  have hlt : handle < arena.size := by
    rw [hrep.size_eq]
    exact lt_size_of_stands (hbase.term ht)
  exact h arena.size hlt arena table hrep hbase

theorem tracks_transformKnown (name : String) {handles : List Handle} {args : List Issued}
    (h : PointEach base handles args) :
    Tracks base Points (transformKnown name handles)
      (Builder.transformTerms name (args.map Issued.term)) := by
  have hlength : handles.length = (args.map Issued.term).length := h.standEach.length_eq
  unfold transformKnown Builder.transformTerms
  rw [hlength]
  by_cases hreduce : name ∈ ["reduce", "expand", "simplify"]
  · rw [if_pos hreduce, if_pos hreduce]
    rcases h with _ | ⟨hfirst, _ | ⟨_, _⟩⟩
    · exact tracks_throw _
    · exact tracks_bounded hfirst.2 fun fuel hfuel => tracks_reduce hfirst.2 hfuel
    · exact tracks_throw _
  rw [if_neg hreduce, if_neg hreduce]
  by_cases hderivative : name ∈ ["derivative", "diff"]
  · rw [if_pos hderivative, if_pos hderivative]
    rcases h with _ | ⟨hfirst, _ | ⟨hsecond, _ | ⟨_, _⟩⟩⟩
    · exact tracks_throw _
    · exact tracks_throw _
    · exact tracks_bounded hfirst.2 fun fuel hfuel => tracks_derivative hfirst.2 hfuel hsecond.2
    · exact tracks_throw _
  rw [if_neg hderivative, if_neg hderivative]
  cases Builder.elementary.lookup name with
  | none => exact tracks_throw _
  | some expected =>
    dsimp only
    split
    · exact tracks_application name h
    · exact tracks_throw _

/-! ## Requests -/

/-- Handles are the same, and a term stands in the table under it. -/
def Agree (table : TermTable) (handle handle' : Handle) : Prop :=
  handle = handle' ∧ ∃ t, Stands table handle t

/-- Of an issued term the handle alone is kept. -/
theorem Tracks.agree {x : ArenaBuilder Handle} {y : Builder Issued}
    (h : Tracks base Points x y) : Tracks base Agree x (do return (← y).handle) := by
  rw [← bind_pure x]
  apply h.bind
  intro table handle issued _ hpoints
  exact tracks_pure fun later hextends => ⟨hpoints.1, _, hextends.term hpoints.2⟩

/-- A handle is unknown to an arena if it is unknown to the table. -/
theorem tracks_known (handle : Handle) :
    Tracks base Points (known handle) (Builder.issued handle) := by
  intro arena table hrep _
  cases ht : table.term handle with
  | error e =>
    rw [known, look_bind_of_error (hrep.node_eq_error ht), Builder.issued, ht]
    exact .error hrep (.refl arena) (.refl table)
  | ok t =>
    obtain ⟨node, hnode, -⟩ := hrep.exists_node ht
    rw [known, look_bind_of_ok hnode, Builder.issued, ht]
    exact .ok hrep (.refl arena) (.refl table) ⟨rfl, ht⟩

theorem tracks_number (literal : String) :
    Tracks base Agree (number literal) (Builder.number literal) := by
  rw [number.eq_def, Builder.number.eq_def]
  cases rational? literal with
  | none => exact tracks_throw _
  | some value => exact (tracks_push (.number value)).agree

theorem tracks_symbol (name : String) :
    Tracks base Agree (symbol name) (Builder.symbol name) := by
  rw [symbol, Builder.symbol]
  split
  · exact tracks_throw _
  · exact (tracks_push (.symbol name)).agree

theorem tracks_apply (op : BinaryOp) (left right : Handle) :
    Tracks base Agree (apply op left right) (Builder.apply op left right) := by
  apply (tracks_known left).bind
  intro table l l' _ hl
  apply (tracks_known right).bind
  intro table' r r' htable hr
  exact (tracks_operation op (hl.mono htable) hr).agree

theorem tracks_transform (name : String) (handles : List Handle) :
    Tracks base Agree (transform name handles) (Builder.transform name handles) := by
  apply (tracks_mapM (fun _ => tracks_known) handles).bind
  intro table args args' _ hargs
  exact (tracks_transformKnown name hargs).agree

theorem tracks_ofBuilder {R : TermTable → α → β → Prop} {x : ArenaBuilder α} {y : Builder β}
    (h : Tracks base R x y) : Tracks base R (ArenaCompiler.ofBuilder x) (Compiler.ofBuilder y) := by
  intro arena table hrep hbase
  have hrun := h arena table hrep hbase
  rw [ArenaCompiler.ofBuilder, Compiler.ofBuilder]
  generalize x arena = run at hrun
  generalize y table = run' at hrun
  cases hrun with
  | ok hrep' harena htable hR => exact .ok hrep' harena htable hR
  | error hrep' harena htable => exact .error hrep' harena htable

theorem tracks_ofDispatch (result : Except DispatchError α) :
    Tracks base (fun _ a b => a = b) (ArenaCompiler.ofDispatch result)
      (Compiler.ofDispatch result) := by
  cases result with
  | ok value => exact tracks_pure fun _ _ => rfl
  | error e => exact tracks_throw _

mutual

/-- Compiling an expression to nodes keeps step with compiling it to terms. -/
theorem tracks_compile (functions : FunctionTable) {base : TermTable} : (e : Expr) →
    Tracks base Agree (ArenaCompiler.compile functions e) (Compiler.compile functions e)
  | .number literal => by
    rw [ArenaCompiler.compile, Compiler.compile]
    exact tracks_ofBuilder (tracks_number literal.text)
  | .symbol name => by
    rw [ArenaCompiler.compile, Compiler.compile]
    exact tracks_ofBuilder (tracks_symbol name.text)
  | .binary op left right => by
    rw [ArenaCompiler.compile, Compiler.compile]
    apply (tracks_compile functions left).bind
    rintro table l _ _ ⟨rfl, -⟩
    apply (tracks_compile functions right).bind
    rintro table' r _ _ ⟨rfl, -⟩
    exact tracks_ofBuilder (tracks_apply op l r)
  | .call name arguments => by
    rw [ArenaCompiler.compile, Compiler.compile]
    apply (tracks_ofDispatch _).bind
    rintro table definition _ _ rfl
    apply (tracks_compileEach functions arguments).bind
    rintro table' handles _ _ rfl
    exact tracks_ofBuilder (tracks_transform definition.transformation handles)

/-- The same for several expressions. -/
theorem tracks_compileEach (functions : FunctionTable) {base : TermTable} : (es : List Expr) →
    Tracks base (fun _ handles handles' => handles = handles')
      (ArenaCompiler.compileEach functions es) (Compiler.compileEach functions es)
  | [] => by
    rw [ArenaCompiler.compileEach, Compiler.compileEach]
    exact tracks_pure fun _ _ => rfl
  | e :: es => by
    rw [ArenaCompiler.compileEach, Compiler.compileEach]
    apply (tracks_compile functions e).bind
    rintro table first _ _ ⟨rfl, -⟩
    apply (tracks_compileEach functions es).bind
    rintro table' later _ _ rfl
    exact tracks_pure fun _ _ => rfl

end

/-- Every request keeps step, whether it succeeds or fails. -/
theorem tracks_perform (request : Request) : Tracks base Agree request.perform request.issue := by
  cases request with
  | number literal => exact tracks_ofBuilder (tracks_number literal)
  | symbol name => exact tracks_ofBuilder (tracks_symbol name)
  | apply op left right => exact tracks_ofBuilder (tracks_apply op left right)
  | transform name handles => exact tracks_ofBuilder (tracks_transform name handles)
  | compile functions e => exact tracks_compile functions e

end Arena

end MathQuery
