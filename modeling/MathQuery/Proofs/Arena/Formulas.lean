import MathQuery.Proofs.Algebra.Origin
import MathQuery.Proofs.Arena.Discipline
import MathQuery.Proofs.Markup.Formulas

/-!
# The LaTeX of an arena

Whatever is asked of an arena, the functions that are applied in it are elementary ones, so
their names are words.  If the symbols in it have names of letters and digits too, then every
handle is written in LaTeX whose delimiters are well nested and in which factors side by side do
not run into one number.

* `Arena.Elementary` – only elementary functions are applied in an arena;
* `Arena.Keeps` – a computation on nodes that adds no other applications, even if it fails;
* `keeps_perform`, `elementary_afterAll` – all requests, one after the other;
* `Represents.lettered` – the terms of such an arena;
* `Arena.afterAll_formulas` – what every handle is written as.
-/

namespace MathQuery

open TermTable ArenaBuilder Markup

namespace Arena

/-- If a node is an application, then of an elementary function. -/
def AppliesElementary (node : Node) : Prop :=
  ∀ name arguments, node = .application name arguments →
    name ∈ Builder.elementary.map Prod.fst

/-- Only elementary functions are applied in an arena. -/
def Elementary (arena : Arena) : Prop := ∀ node ∈ arena.nodes.toList, AppliesElementary node

theorem elementary_empty : Elementary .empty := fun _ h => absurd h List.not_mem_nil

theorem Elementary.push {arena : Arena} (h : arena.Elementary) {node : Node}
    (hnode : AppliesElementary node) : Elementary ⟨arena.nodes.push node⟩ := by
  intro node' hmem
  rcases Array.mem_push.mp (Array.mem_toList_iff.mp hmem) with hmem | rfl
  · exact h node' (Array.mem_toList_iff.mpr hmem)
  · exact hnode

theorem mem_of_node {arena : Arena} {handle : Handle} {node : Node}
    (h : arena.node handle = .ok node) : node ∈ arena.nodes.toList :=
  Array.mem_toList_iff.mpr (Array.mem_of_getElem? (node_eq_ok_iff.mp h))

/-! ## Computations -/

section Keeping

variable {ε α β : Type}

/-- Only elementary functions are applied in what a run leaves. -/
def LeavesElementary : EStateM.Result ε Arena α → Prop
  | .ok _ later => later.Elementary
  | .error _ later => later.Elementary

/-- A computation, whether it fails or not, adds no other applications than those of elementary
functions. -/
def Keeps (c : EStateM ε Arena α) : Prop :=
  ∀ arena : Arena, arena.Elementary → LeavesElementary (c arena)

theorem keeps_pure (a : α) : Keeps (pure a : EStateM ε Arena α) := fun _ h => h

theorem keeps_throw (e : ε) : Keeps (throw e : EStateM ε Arena α) := fun _ h => h

theorem Keeps.bind {c : EStateM ε Arena α} {next : α → EStateM ε Arena β} (h : Keeps c)
    (hnext : ∀ a, Keeps (next a)) : Keeps (c >>= next) := by
  intro arena harena
  have hrun := h arena harena
  cases hc : c arena with
  | ok a later =>
    rw [hc] at hrun
    rw [bind_of_ok hc]
    exact hnext a later hrun
  | error e later =>
    rw [hc] at hrun
    rw [bind_of_error hc]
    exact hrun

theorem keeps_mapM {f : α → EStateM ε Arena β} (h : ∀ a, Keeps (f a)) (as : List α) :
    Keeps (as.mapM f) := by
  induction as with
  | nil => exact keeps_pure []
  | cons a as ih =>
    rw [List.mapM_cons]
    exact (h a).bind fun _ => ih.bind fun _ => keeps_pure _

end Keeping

theorem keeps_push {node : Node} (h : AppliesElementary node) : Keeps (push node) :=
  fun _ harena => harena.push h

theorem keeps_number (value : ℚ) : Keeps (push (.number value)) := keeps_push nofun

theorem keeps_symbol (name : String) : Keeps (push (.symbol name)) := keeps_push nofun

theorem keeps_operation (op : BinaryOp) (left right : Handle) :
    Keeps (push (.operation op left right)) :=
  keeps_push nofun

theorem keeps_application {name : String} (h : name ∈ Builder.elementary.map Prod.fst)
    (arguments : List Handle) : Keeps (push (.application name arguments)) := by
  refine keeps_push fun name' arguments' heq => ?_
  obtain ⟨rfl, -⟩ := Node.application.inj heq
  exact h

theorem keeps_look {α : Type} (walk : Arena → Walk α) : Keeps (look walk) := by
  intro arena harena
  rw [look]
  cases walk arena <;> exact harena

/-- A node that is looked at is one of the arena. -/
theorem keeps_look_node {α : Type} (handle : Handle) {next : Node → ArenaBuilder α}
    (h : ∀ node, AppliesElementary node → Keeps (next node)) :
    Keeps (look (·.node handle) >>= next) := by
  intro arena harena
  cases hnode : arena.node handle with
  | ok node =>
    rw [look_bind_of_ok hnode]
    exact h node (harena node (mem_of_node hnode)) arena harena
  | error e =>
    rw [look_bind_of_error hnode]
    exact harena

theorem keeps_known (handle : Handle) : Keeps (known handle) :=
  (keeps_look _).bind fun _ => keeps_pure handle

theorem keeps_factor (x : String) (e : ℕ) : Keeps (factor x e) := by
  refine (keeps_symbol x).bind fun base => ?_
  split
  · exact keeps_pure base
  · exact (keeps_number e).bind fun exponent => keeps_operation .pow base exponent

theorem keeps_product (first : Handle) (later : List Handle) : Keeps (product first later) := by
  induction later generalizing first with
  | nil => exact keeps_pure first
  | cons next later ih => exact (keeps_operation .mul first next).bind ih

theorem keeps_monomial (m : Monomial) (c : ℚ) : Keeps (monomial m c) := by
  refine (keeps_mapM (fun s => keeps_factor s.1 s.2) m).bind fun factors => ?_
  cases factors with
  | nil => exact keeps_number c
  | cons first later =>
    refine (keeps_product first later).bind fun body => ?_
    split
    · exact keeps_pure body
    · exact (keeps_number c).bind fun coefficient => keeps_operation .mul coefficient body

theorem keeps_sum (first : Handle) (terms : List PolynomialTerm) : Keeps (sum first terms) := by
  induction terms generalizing first with
  | nil => exact keeps_pure first
  | cons s terms ih =>
    obtain ⟨m, c⟩ := s
    rw [sum]
    split
    · exact (keeps_monomial m (-c)).bind fun next => (keeps_operation .sub first next).bind ih
    · exact (keeps_monomial m c).bind fun next => (keeps_operation .add first next).bind ih

theorem keeps_polynomial (p : Polynomial) : Keeps (polynomial p) := by
  rw [polynomial]
  rcases p.written with _ | ⟨⟨m, c⟩, later⟩
  · exact keeps_number 0
  · exact (keeps_monomial m c).bind fun first => keeps_sum first later

/-- Reducing an application applies the same function again. -/
theorem keeps_reduce (fuel : ℕ) (handle : Handle) : Keeps (reduce fuel handle) := by
  induction fuel generalizing handle with
  | zero => exact keeps_throw _
  | succ fuel ih =>
    rw [reduce]
    refine (keeps_look _).bind fun p? => ?_
    cases p? with
    | some p => exact keeps_polynomial p
    | none =>
      refine keeps_look_node handle fun node hnode => ?_
      cases node with
      | number _ | symbol _ => exact keeps_pure handle
      | operation op left right =>
        exact (ih left).bind fun l => (ih right).bind fun r => keeps_operation op l r
      | application name arguments =>
        exact (keeps_mapM ih arguments).bind (keeps_application (hnode name arguments rfl))

theorem keeps_derivative (fuel : ℕ) (t x : Handle) : Keeps (derivative fuel t x) := by
  refine keeps_look_node x fun node _ => ?_
  cases node with
  | number _ | operation _ _ _ | application _ _ => exact keeps_throw _
  | symbol name =>
    refine (keeps_look _).bind fun p? => ?_
    cases p? with
    | some p => exact keeps_polynomial _
    | none => exact keeps_throw _

theorem keeps_bounded {α : Type} {computation : ℕ → ArenaBuilder α}
    (h : ∀ fuel, Keeps (computation fuel)) : Keeps (bounded computation) :=
  fun arena harena => h arena.size arena harena

theorem keeps_transformKnown (name : String) (arguments : List Handle) :
    Keeps (transformKnown name arguments) := by
  unfold transformKnown
  split
  · split
    · exact keeps_bounded fun fuel => keeps_reduce fuel _
    · exact keeps_throw _
  split
  · split
    · exact keeps_bounded fun fuel => keeps_derivative fuel _ _
    · exact keeps_throw _
  split
  · next expected hlookup =>
    have hmem : name ∈ Builder.elementary.map Prod.fst :=
      List.mem_map_of_mem (Term.mem_elementary_of_lookup hlookup)
    split
    · exact keeps_application hmem arguments
    · exact keeps_throw _
  · exact keeps_throw _

theorem keeps_transform (name : String) (arguments : List Handle) :
    Keeps (transform name arguments) :=
  (keeps_mapM keeps_known arguments).bind (keeps_transformKnown name)

theorem keeps_ofBuilder {α : Type} {builder : ArenaBuilder α} (h : Keeps builder) :
    Keeps (ArenaCompiler.ofBuilder builder) := by
  intro arena harena
  have hrun := h arena harena
  rw [ArenaCompiler.ofBuilder]
  cases hbuilder : builder arena with
  | ok value later => rwa [hbuilder] at hrun
  | error e later => rwa [hbuilder] at hrun

theorem keeps_ofDispatch {α : Type} (result : Except DispatchError α) :
    Keeps (ArenaCompiler.ofDispatch result) := by
  cases result with
  | ok value => exact keeps_pure value
  | error e => exact keeps_throw _

theorem keeps_literal (literal : String) : Keeps (ArenaBuilder.number literal) := by
  rw [ArenaBuilder.number]
  split
  · exact keeps_number _
  · exact keeps_throw _

theorem keeps_name (name : String) : Keeps (ArenaBuilder.symbol name) := by
  rw [ArenaBuilder.symbol]
  split
  · exact keeps_throw _
  · exact keeps_symbol name

theorem keeps_apply (op : BinaryOp) (left right : Handle) : Keeps (apply op left right) :=
  (keeps_known left).bind fun l => (keeps_known right).bind fun r => keeps_operation op l r

mutual

theorem keeps_compile (functions : FunctionTable) :
    (e : Expr) → Keeps (ArenaCompiler.compile functions e)
  | .number literal => by
    rw [ArenaCompiler.compile]
    exact keeps_ofBuilder (keeps_literal literal.text)
  | .symbol name => by
    rw [ArenaCompiler.compile]
    exact keeps_ofBuilder (keeps_name name.text)
  | .binary op left right => by
    rw [ArenaCompiler.compile]
    exact (keeps_compile functions left).bind fun l =>
      (keeps_compile functions right).bind fun r => keeps_ofBuilder (keeps_apply op l r)
  | .call name arguments => by
    rw [ArenaCompiler.compile]
    exact (keeps_ofDispatch _).bind fun definition =>
      (keeps_compileEach functions arguments).bind fun handles =>
        keeps_ofBuilder (keeps_transform definition.transformation handles)

theorem keeps_compileEach (functions : FunctionTable) :
    (es : List Expr) → Keeps (ArenaCompiler.compileEach functions es)
  | [] => by
    rw [ArenaCompiler.compileEach]
    exact keeps_pure []
  | e :: es => by
    rw [ArenaCompiler.compileEach]
    exact (keeps_compile functions e).bind fun _ =>
      (keeps_compileEach functions es).bind fun _ => keeps_pure _

end

theorem keeps_perform (request : Request) : Keeps request.perform := by
  cases request with
  | number literal => exact keeps_ofBuilder (keeps_literal literal)
  | symbol name => exact keeps_ofBuilder (keeps_name name)
  | apply op left right => exact keeps_ofBuilder (keeps_apply op left right)
  | transform name handles => exact keeps_ofBuilder (keeps_transform name handles)
  | compile functions e => exact keeps_compile functions e

/-! ## Requests -/

variable {arena : Arena} {table : TermTable} {handle : Handle} {t : Term}

theorem Elementary.after (h : arena.Elementary) (request : Request) :
    (arena.after request).Elementary := by
  have hrun := keeps_perform request arena h
  rw [Arena.after]
  cases hperform : request.perform arena with
  | ok _ later => rwa [hperform] at hrun
  | error _ later => rwa [hperform] at hrun

theorem elementary_afterAll (history : List Request) :
    (Arena.empty.afterAll history).Elementary :=
  List.foldlRecOn history after elementary_empty fun _ h request _ => h.after request

theorem exists_of_mem_forall₂ {α β : Type} {R : α → β → Prop} {as : List α}
    {bs : List β} (h : List.Forall₂ R as bs) {b : β} (hb : b ∈ bs) : ∃ a, R a b := by
  induction h with
  | nil => contradiction
  | cons hfirst _ ih =>
    rcases List.mem_cons.mp hb with rfl | hb
    · exact ⟨_, hfirst⟩
    · exact ih hb

/-- The terms of an arena have names of letters and digits if its symbols have. -/
theorem Represents.lettered (hrep : Represents arena table) (helementary : arena.Elementary)
    (hnames : ∀ name, Node.symbol name ∈ arena.nodes.toList → IsName name)
    (ht : Stands table handle t) : t.Lettered := by
  -- operands stand before what they are operands of
  induction handle using Nat.strongRecOn generalizing t with
  | ind handle ih =>
    obtain ⟨node, hnode, hshows⟩ := hrep.exists_node ht
    have hmem := mem_of_node hnode
    cases hshows with
    | number value => exact .number value
    | symbol name => exact .symbol (hnames name hmem)
    | operation op hl hr => exact .operation op (ih _ hl.1 hl.2) (ih _ hr.1 hr.2)
    | application name hargs =>
      obtain ⟨f, hf, rfl⟩ := List.mem_map.mp (helementary _ hmem _ _ rfl)
      refine .application (.of_isWord (Term.isWord_of_mem_elementary hf)) fun a ha => ?_
      obtain ⟨operand, hoperand⟩ := exists_of_mem_forall₂ hargs ha
      exact ih operand hoperand.1 hoperand.2

/-- What every handle is written as, in whatever arena requests leave of one that was empty, if
the symbols in it have names of letters and digits that do not begin with a digit.  Braces and
the parentheses `\left(` and `\right)` are properly nested, in one another too, and each product
in it has a sign between its factors, unless the text of its right factor begins with no digit. -/
theorem afterAll_formulas (history : List Request) :
    let arena := Arena.empty.afterAll history
    let table := TermTable.empty.afterAll history
    (∀ name, Node.symbol name ∈ arena.nodes.toList → IsName name) →
    ∀ handle < arena.size, ∃ t, arena.Denotes handle t ∧
      Compiler.render .latex handle table = .ok (t.render .latex) table ∧
      WellNested (brackets (t.render .latex).toList) ∧
      ∀ left right, (Term.operation .mul left right).IsPartOf t →
        Term.ProductText left right ((Term.operation .mul left right).render .latex) := by
  intro arena table hnames handle hlt
  obtain ⟨hrep, -, -⟩ := represents_empty.afterAll history
  obtain ⟨t, ht⟩ := exists_stands_of_lt (hrep.size_eq ▸ hlt)
  have hlettered := hrep.lettered (elementary_afterAll history) hnames ht
  refine ⟨t, hrep.denotes ht, Builder.render_of_term .latex ht, hlettered.closed.wellNested, ?_⟩
  intro left right hpart
  obtain _ | _ | ⟨_, -, hright⟩ := hlettered.of_isPartOf hpart
  exact hright.productText left

/-- The product of `2*(x + 2)` and `2^x` is written with a sign, the first factor without. -/
theorem afterAll_formulas_of_product :
    let history : List Request := [.symbol "x", .number "2", .apply .add 0 1, .apply .mul 1 2,
      .apply .pow 1 0, .apply .mul 3 4]
    let arena := Arena.empty.afterAll history
    let two := Term.number 2
    let sum := Term.operation .add (.symbol "x") two
    (∀ name, Node.symbol name ∈ arena.nodes.toList → IsName name) ∧ 5 < arena.size ∧
      arena.render .latex 6 5 = .ok "2\\left(x + 2\\right) \\cdot 2^\x7bx\x7d" ∧
      WellNested (brackets "2\\left(x + 2\\right) \\cdot 2^\x7bx\x7d".toList) ∧
      (Term.operation .mul two sum).render .latex = "2\\left(x + 2\\right)" ∧
      Term.ProductText two sum "2\\left(x + 2\\right)" := by
  intro history arena two sum
  have hnodes : arena.nodes.toList = [.symbol "x", .number 2, .operation .add 0 1,
      .operation .mul 1 2, .operation .pow 1 0, .operation .mul 3 4] := by decide +kernel
  have hnames : ∀ name, Node.symbol name ∈ arena.nodes.toList → IsName name := by
    intro name hname
    rw [hnodes] at hname
    obtain rfl : name = "x" := by simpa using hname
    exact .of_isWord (by decide +kernel)
  have hsize : 5 < arena.size := by decide +kernel
  obtain ⟨t, hdenotes, -, hnested, hproducts⟩ := afterAll_formulas history hnames 5 hsize
  have hterm : arena.term 6 5 = .ok (.operation .mul (.operation .mul two sum)
      (.operation .pow two (.symbol "x"))) := by decide +kernel
  obtain rfl := Except.ok.inj ((hdenotes.term 6 (by decide)).symm.trans hterm)
  have htext : (Term.operation .mul (.operation .mul two sum)
      (.operation .pow two (.symbol "x"))).render .latex =
        "2\\left(x + 2\\right) \\cdot 2^\x7bx\x7d" := by decide +kernel
  have hfactor : (Term.operation .mul two sum).render .latex = "2\\left(x + 2\\right)" := by
    decide +kernel
  have hproduct := hproducts two sum (.left .refl)
  rw [htext] at hnested
  rw [hfactor] at hproduct
  refine ⟨hnames, hsize, ?_, hnested, hfactor, hproduct⟩
  rw [hdenotes.render .latex 6 (by decide), htext]

end Arena

end MathQuery
