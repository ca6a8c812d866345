import MathQuery.Interpreter
import MathQuery.Proofs.Algebra.Table

/-!
# Answers do not depend on history

An interpreter is set up, asked, stopped and set up again, and any of these requests may
fail.  What it answers next is a matter of the schema in force alone.  The terms that
earlier queries have issued are still in its table when a query begins, and nothing of them
is seen: every query clears the table before it issues its first term.

* `Interpreter.core` – an interpreter without what no answer depends on;
* `Interpreter.lastSetUp` – the last successful setting up that no successful stop follows;
* `Interpreter.Reflects` – having the core of a fresh interpreter with that schema alone;
* `Interpreter.Reflects.after` – one request keeps this up;
* `Interpreter.answers_eq_fresh` – answers after any requests are those of a fresh interpreter.
-/

namespace MathQuery

/-! ## What answers depend on -/

namespace Session

/-- A session without the terms that its queries have issued. -/
def core (s : Session) : Session := { s with table := .empty }

/-- A matched query is answered alike whatever was issued before. -/
theorem answer_table (operations : OperationTable) (functions : FunctionTable) (style : Style)
    (m : Match) (table table' : TermTable) :
    answer operations functions style m table = answer operations functions style m table' := by
  have hclear : ∀ table, Compiler.ofBuilder .clear table = .ok () .empty := fun _ => rfl
  unfold answer
  rw [TermTable.bind_of_ok (hclear table), TermTable.bind_of_ok (hclear table')]

theorem run_core (s : Session) (operations : OperationTable) (style : Style) (query : String) :
    (s.core.run operations style query).1 = (s.run operations style query).1 := by
  unfold run
  cases parse query with
  | error e => rfl
  | ok program =>
    dsimp only [core]
    cases s.schema.matchProgram program with
    | error e => rfl
    | ok matched =>
      cases matched with
      | none => rfl
      | some m =>
        dsimp only
        rw [answer_table operations s.functions style m .empty s.table]

/-- A query changes nothing but the issued terms. -/
theorem core_run (s : Session) (operations : OperationTable) (style : Style) (query : String) :
    (s.run operations style query).2.core = s.core := by
  unfold run
  cases parse query with
  | error e => rfl
  | ok program =>
    dsimp only
    cases s.schema.matchProgram program with
    | error e => rfl
    | ok matched =>
      cases matched with
      | none => rfl
      | some m =>
        dsimp only
        cases answer operations s.functions style m s.table with
        | ok reply table => rfl
        | error e table => rfl

/-- A session starts without terms. -/
theorem core_of_ofConfig {functions : FunctionTable} {config : SchemaConfig} {s : Session}
    (h : ofConfig functions config = .ok s) : s.core = s := by
  unfold ofConfig at h
  cases hschema : Trie.ofRegistrations config.registrations with
  | error e => simp [hschema, bind, Except.bind] at h
  | ok schema =>
    rw [hschema] at h
    obtain rfl := Except.ok.inj h
    rfl

end Session

namespace Interpreter

/-- An interpreter without its culture and without the terms that its queries have issued. -/
def core (i : Interpreter) : Interpreter :=
  { i with culture := defaultCulture, session := i.session.map Session.core }

theorem isSome_session_of_core_eq {i j : Interpreter} (h : i.core = j.core) :
    i.session.isSome = j.session.isSome := by
  have hsession := congrArg (fun k : Interpreter => k.session.isSome) h
  simpa only [core, Option.isSome_map] using hsession

theorem run_core (i : Interpreter) (query : String) : (i.core.run query).1 = (i.run query).1 := by
  unfold run core
  cases i.session with
  | none => rfl
  | some s => exact s.run_core i.operations i.style query

theorem core_run (i : Interpreter) (query : String) : (i.run query).2.core = i.core := by
  unfold run core
  cases hsession : i.session with
  | none => simp [hsession]
  | some s => simp [Session.core_run]

theorem core_respond (i : Interpreter) (query : String) : (i.respond query).2.core = i.core := by
  rw [← i.core_run query]
  unfold respond
  rcases i.run query with ⟨_ | _ | _, _⟩ <;> rfl

/-- The response to a query is a matter of its answer. -/
theorem respond_congr {i j : Interpreter} {query : String} (h : (i.run query).1 = (j.run query).1) :
    (i.respond query).1 = (j.respond query).1 := by
  unfold respond
  generalize i.run query = first at h
  generalize j.run query = second at h
  obtain ⟨result, i⟩ := first
  obtain ⟨_, j⟩ := second
  obtain rfl : result = _ := h
  rcases result with _ | _ | _ <;> rfl

theorem help_core (i : Interpreter) (operation : Option String) :
    i.core.help operation = i.help operation := by
  unfold help core
  cases i.session with
  | none => rfl
  | some s => rfl

/-! ## Requests -/

/-- An interpreter that has not been set up yet. -/
def fresh (operations : OperationTable) (functions : FunctionTable) (culture : String)
    (style : Style) : Interpreter :=
  ⟨operations, functions, culture, style, none⟩

/-- What an interpreter can be asked to do. -/
inductive Request
  | setUp (config : SchemaConfig)
  | stop
  | run (query : String)
  | respond (query : String)
  | help (operation : Option String)

/-- The interpreter after a request, which may have failed. -/
def after (i : Interpreter) : Request → Interpreter
  | .setUp config => (i.setUp config).2
  | .stop => i.stop.2
  | .run query => (i.run query).2
  | .respond query => (i.respond query).2
  | .help _ => i

/-- The interpreter after several requests. -/
def afterAll (i : Interpreter) (requests : List Request) : Interpreter :=
  requests.foldl after i

/-- What is in force after a request to an interpreter, given what was in force before: a
successful setting up replaces it and a successful stop ends it. -/
def inForce (i : Interpreter) (current : Option SchemaConfig) : Request → Option SchemaConfig
  | .setUp config =>
    match (i.setUp config).1 with
    | .ok () => some config
    | .error _ => current
  | .stop =>
    match i.stop.1 with
    | .ok () => none
    | .error _ => current
  | .run _ | .respond _ | .help _ => current

/-- The last successful setting up among requests to an interpreter, unless a successful
stop follows it. -/
def lastSetUp (i : Interpreter) (current : Option SchemaConfig) :
    List Request → Option SchemaConfig
  | [] => current
  | request :: requests => (i.after request).lastSetUp (i.inForce current request) requests

/-- An interpreter on which nothing but at most one setting up is performed. -/
def withOnly (i : Interpreter) : Option SchemaConfig → Interpreter
  | none => i
  | some config => (i.setUp config).2

/-! ## One request after the other -/

/-- Up to what no answer depends on, `i` is the interpreter `base` with nothing done to it
but setting up what is in force. -/
structure Reflects (base i : Interpreter) (current : Option SchemaConfig) : Prop where
  core : i.core = (base.withOnly current).core
  session : i.session.isSome = current.isSome

variable {base i : Interpreter} {current : Option SchemaConfig}

theorem core_setUp_of_ok {config : SchemaConfig} {s : Session}
    (h : Session.ofConfig i.functions config = .ok s) :
    (i.setUp config).2.core = { i.core with session := some s } := by
  unfold setUp
  rw [h]
  simp [core, Session.core_of_ofConfig h]

/-- Setting up changes nothing but the session. -/
theorem setUp_eq (i : Interpreter) (config : SchemaConfig) :
    ∃ session, (i.setUp config).2 = { i with session } := by
  unfold setUp
  cases Session.ofConfig i.functions config with
  | ok s => exact ⟨some s, rfl⟩
  | error e => exact ⟨i.session, rfl⟩

theorem withOnly_eq (base : Interpreter) (current : Option SchemaConfig) :
    ∃ session, base.withOnly current = { base with session } := by
  cases current with
  | none => exact ⟨base.session, rfl⟩
  | some config => exact base.setUp_eq config

namespace Reflects

theorem functions (h : base.Reflects i current) : i.functions = base.functions := by
  obtain ⟨session, hbase⟩ := base.withOnly_eq current
  have hcore := congrArg Interpreter.functions h.core
  rw [hbase] at hcore
  exact hcore

/-- Apart from the session the cores are those of the interpreters. -/
theorem core_with (h : base.Reflects i current) (session : Option Session) :
    { i.core with session } = { base.core with session } := by
  obtain ⟨session', hbase⟩ := base.withOnly_eq current
  rw [h.core, hbase]
  rfl

theorem setUp (h : base.Reflects i current) (config : SchemaConfig) :
    base.Reflects (i.setUp config).2 (i.inForce current (.setUp config)) := by
  cases hopen : Session.ofConfig i.functions config with
  | error e =>
    -- the interpreter stays as it was
    have hsetUp : i.setUp config = (.error e, i) := by rw [Interpreter.setUp, hopen]
    simpa only [inForce, hsetUp] using h
  | ok s =>
    have hsetUp : i.setUp config = (.ok (), { i with session := some s }) := by
      rw [Interpreter.setUp, hopen]
    have hbase : Session.ofConfig base.functions config = .ok s := h.functions ▸ hopen
    constructor
    · calc (i.setUp config).2.core
          = { i.core with session := some s } := core_setUp_of_ok hopen
        _ = { base.core with session := some s } := h.core_with _
        _ = (base.setUp config).2.core := (core_setUp_of_ok hbase).symm
        _ = (base.withOnly (i.inForce current (.setUp config))).core := by
          simp only [inForce, hsetUp, withOnly]
    · simp only [inForce, hsetUp, Option.isSome_some]

theorem stop (hbase : base.session = none) (h : base.Reflects i current) :
    base.Reflects i.stop.2 (i.inForce current .stop) := by
  cases hsession : i.session with
  | none =>
    have hstop : i.stop = (.error (.setup .notInitialized), i) := by
      rw [Interpreter.stop, hsession]
    simpa only [inForce, hstop] using h
  | some s =>
    have hstop : i.stop = (.ok (), { i with session := none }) := by
      rw [Interpreter.stop, hsession]
    simp only [inForce, hstop]
    constructor
    · calc ({ i with session := none } : Interpreter).core
          = { i.core with session := none } := rfl
        _ = { base.core with session := none } := h.core_with _
        _ = (base.withOnly none).core := by simp only [Interpreter.core, withOnly, hbase]; rfl
    · rfl

/-- Queries and help leave what is in force as it is. -/
theorem of_core {j : Interpreter} (h : base.Reflects i current) (hcore : j.core = i.core) :
    base.Reflects j current where
  core := hcore.trans h.core
  session := (isSome_session_of_core_eq hcore).trans h.session

/-- One request keeps the interpreter the same as a fresh one with what is in force then. -/
theorem after (hbase : base.session = none) (h : base.Reflects i current) (request : Request) :
    base.Reflects (i.after request) (i.inForce current request) := by
  cases request with
  | setUp config => exact h.setUp config
  | stop => exact h.stop hbase
  | run query => exact h.of_core (i.core_run query)
  | respond query => exact h.of_core (i.core_respond query)
  | help operation => exact h

/-- Any requests do so, in any order. -/
theorem afterAll (hbase : base.session = none) (h : base.Reflects i current)
    (requests : List Request) :
    base.Reflects (i.afterAll requests) (i.lastSetUp current requests) := by
  induction requests generalizing i current with
  | nil => exact h
  | cons request requests ih => exact ih (h.after hbase request)

end Reflects

/-! ## The answers -/

/-- Interpreters with the same core give the same answers. -/
theorem answers_of_core_eq {i j : Interpreter} (h : i.core = j.core) :
    (∀ query, (i.run query).1 = (j.run query).1) ∧
      (∀ query, (i.respond query).1 = (j.respond query).1) ∧
        ∀ operation, i.help operation = j.help operation := by
  have hrun : ∀ query, (i.run query).1 = (j.run query).1 := fun query => by
    rw [← i.run_core, h, j.run_core]
  refine ⟨hrun, fun query => respond_congr (hrun query), fun operation => ?_⟩
  rw [← i.help_core, h, j.help_core]

/-- Without a schema in force there are no answers. -/
theorem answers_of_session_eq_none (h : i.session = none) :
    (∀ query, (i.run query).1 = .error (.setup .notInitialized)) ∧
      (∀ query, (i.respond query).1 = .error (Failure.setup .notInitialized).diagnostic) ∧
        ∀ operation, i.help operation = .error (.setup .notInitialized) := by
  have hrun : ∀ query, i.run query = (.error (.setup .notInitialized), i) := fun query => by
    rw [run, h]
  refine ⟨fun query => by rw [hrun], fun query => by rw [respond, hrun], fun operation => ?_⟩
  rw [help, h]

theorem stop_eq_ok_iff (i : Interpreter) : i.stop.1 = .ok () ↔ i.session.isSome := by
  unfold stop
  cases i.session <;> simp

/-- Answers do not depend on history.  After any requests to an interpreter, the next query
and the next help give what they give on a fresh interpreter with the same operations,
functions and style on which only the last successful setting up was performed, if no
successful stop follows it.  That setting up succeeds there too.  With none in force there
is nothing but the error that says so, and stopping succeeds just if one is in force. -/
theorem answers_eq_fresh (operations : OperationTable) (functions : FunctionTable)
    (culture culture' : String) (style : Style) (requests : List Request) :
    let i := (fresh operations functions culture style).afterAll requests
    let last := (fresh operations functions culture style).lastSetUp none requests
    let j := (fresh operations functions culture' style).withOnly last
    ((∀ query, (i.run query).1 = (j.run query).1) ∧
      (∀ query, (i.respond query).1 = (j.respond query).1) ∧
        ∀ operation, i.help operation = j.help operation) ∧
    (last = none →
      (∀ query, (i.run query).1 = .error (.setup .notInitialized)) ∧
        (∀ query, (i.respond query).1 = .error (Failure.setup .notInitialized).diagnostic) ∧
          ∀ operation, i.help operation = .error (.setup .notInitialized)) ∧
    (i.stop.1 = .ok () ↔ last.isSome) ∧ j.session.isSome = last.isSome := by
  intro i last j
  let base := fresh operations functions culture' style
  have hstart : base.Reflects (fresh operations functions culture style) none := ⟨rfl, rfl⟩
  have hreflects : base.Reflects i last := hstart.afterAll rfl requests
  have hcore : i.core = j.core := hreflects.core
  have hsession : i.session.isSome = last.isSome := hreflects.session
  refine ⟨answers_of_core_eq hcore, fun hlast => ?_, ?_, ?_⟩
  · apply answers_of_session_eq_none
    rw [hlast] at hsession
    exact Option.isNone_iff_eq_none.mp (Option.isSome_eq_false_iff.mp hsession)
  · rw [stop_eq_ok_iff, hsession]
  · rw [← isSome_session_of_core_eq hcore, hsession]

/-- Neither a query that divides by zero nor a schema with an empty pattern changes what
the interpreter answers by the schema before, and it can still be stopped. -/
theorem answers_eq_fresh_of_failures :
    let base := fresh .standard .standard defaultCulture .plain
    let reduce : SchemaConfig := ⟨[⟨"reduce \x7b0:expression\x7d", "\x7boutput\x7d", "reduce", "",
      ""⟩], []⟩
    let empty : SchemaConfig := ⟨[⟨"", "\x7boutput\x7d", "reduce", "", ""⟩], []⟩
    let i := base.afterAll [.setUp reduce, .run "reduce x/0", .setUp empty, .help none]
    (∀ query, (i.run query).1 = ((base.setUp reduce).2.run query).1) ∧ i.stop.1 = .ok () := by
  intro base reduce empty i
  have hlast : base.lastSetUp none
      [.setUp reduce, .run "reduce x/0", .setUp empty, .help none] = some reduce := by
    decide +kernel
  have hanswers := answers_eq_fresh .standard .standard defaultCulture defaultCulture .plain
    [.setUp reduce, .run "reduce x/0", .setUp empty, .help none]
  obtain ⟨⟨hrun, -, -⟩, -, hstop, -⟩ := hanswers
  constructor
  · intro query
    rw [hrun query]
    show ((base.withOnly (base.lastSetUp none _)).run query).1 = _
    rw [hlast]
    rfl
  · refine hstop.mpr ?_
    show (base.lastSetUp none _).isSome
    rw [hlast]
    rfl

end Interpreter

end MathQuery
