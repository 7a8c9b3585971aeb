import Abacus.Proofs.Eval.Hazards
import Abacus.Proofs.Session.Composition
import Abacus.Proofs.Session.Tracing

/-!
# Statements that fail

Statements change the scopes of a store in place, and nothing is undone when one of them fails. Still, a
failing statement leaves all scopes that there were as they were. A definition is the only statement that
changes one, and it does so after everything in it that can fail but the line of the trace; what the
statements of a block define is in a scope of its own.

The line of a definition shows the name and the value. It can be written if the value is in range and the name
is no integer of too many digits. A document can be built that defines such a name. From level two on, which
shows definitions, the definition then fails after the name is bound. No source and no text of a document
holds such a name.

So a source that fails while it runs leaves the bindings of its statements before the one that fails, and
one that cannot be read leaves all bindings as they were.

## Main definitions

* `Action.AtomicAt` — where an action fails with an error, all scopes are as they were
* `Node.Showable` — the line of a statement that is a definition can be written
* `Node.FailsAfter` — some statements succeed, the next one fails and is the last that runs

## Main results

* `Node.atomicAt_execute` — statements are atomic
* `Node.exists_failsAfter` — a run that fails does so in one statement
* `Session.perform_source` — a source that is read is run, and one that is not changes nothing
* `Session.execute_atomic` — statements and sources that fail
* `Session.execute_longName_not_atomic` — a definition of a name that is a long integer
-/

namespace Abacus

open Abacus.Action

/-! ### Actions that fail -/

namespace Action

variable {α β : Type}

/-- If an action fails with the error, all scopes that there were are as they were. -/
def AtomicAt (store : Store) (e : Halt) (action : Action α) : Prop :=
  (action.on store).1 = .error e → store.forest.cells <+: (action.on store).2.forest.cells

theorem atomicAt_of_forest_eq {store : Store} {e : Halt} {action : Action α}
    (h : (action.on store).2.forest = store.forest) : AtomicAt store e action :=
  fun _ => h ▸ List.prefix_refl _

/-- An action can come after others that leave the scopes as they are. -/
theorem AtomicAt.after {store : Store} {e : Halt} {action : Action α} {next : α → Action β}
    (h : (action.on store).2.forest = store.forest)
    (hnext : ∀ a store', action.on store = (.ok a, store') → store'.forest = store.forest →
      AtomicAt store' e (next a)) :
    AtomicAt store e (action >>= next) := by
  intro he
  rw [on_bind] at he ⊢
  rcases hon : action.on store with ⟨e' | a, store'⟩
  · rw [hon] at h
    exact h ▸ List.prefix_refl _
  · rw [hon] at h he
    exact h ▸ hnext a store' hon h he

theorem forest_raise {ε : Type} (kind : ε → Halt) (result : Except ε α) (store : Store) :
    ((raise kind result).on store).2.forest = store.forest := by
  cases result <;> rfl

/-- Writing a line fails only if the line cannot be written. -/
theorem eq_unwritable_of_write {level : Int} {event : Event} {store : Store} {e : Halt}
    (h : ((write level event).on store).1 = .error e) : e = .unwritable := by
  unfold write at h
  by_cases hlevel : event.level ≤ level
  · by_cases hwritable : event.Writable
    · simp only [if_pos hlevel, if_pos hwritable] at h
      cases h
    · simp only [if_pos hlevel, if_neg hwritable] at h
      cases h
      rfl
  · simp only [if_neg hlevel] at h
    cases h

/-- Once a name is bound, only the line about it can fail. -/
theorem atomicAt_put {level : Int} {i : Nat} {x : Json} {v : Value} {store : Store} {e : Halt}
    (hline : e = .unwritable → ∀ key, x.key? = some key → (Event.bound x v).level ≤ level →
      (Event.bound x v).Writable) :
    AtomicAt store e (do put i x v; write level (.bound x v); return (none : Option Value)) := by
  cases hkey : x.key? with
  | none =>
    have hput : (put i x v).on store = (.error (.eval (.compoundName x)), store) := by
      simp only [put, hkey]
      rfl
    apply atomicAt_of_forest_eq
    rw [on_bind, hput]
  | some key =>
    intro he
    have hput : ((put i x v).on store).1 = .ok () := by
      simp only [put, hkey]
      rfl
    rw [on_bind_of_ok hput, on_bind] at he
    rcases hwrite : (write level (.bound x v)).on ((put i x v).on store).2 with ⟨e' | _, store'⟩
    · -- the line cannot be written, against what is assumed
      rw [hwrite] at he
      cases he
      have hunwritable := eq_unwritable_of_write (congrArg Prod.fst hwrite)
      rw [on_write (hline hunwritable key hkey)] at hwrite
      cases hwrite
    · rw [hwrite] at he
      cases he

/-- Where all lines can be written, an action that refines an outcome fails only as an evaluation does. -/
theorem Refines.eval_of_error {level : Int} {i : Nat} {outer : List Table} {action : Action α}
    {outcome : Table → Outcome α} (h : Refines level i outer action outcome) {store : Store}
    {table : Table} (hscope : store.forest.Holds i table outer) (hwritable : (outcome table).Writable)
    {e : Halt} (he : (action.on store).1 = .error e) : ∃ err, e = .eval err := by
  have hyields := h store table hscope fun event hevent _ => hwritable event hevent
  rw [hyields.result_eq, mapError_eq_error_iff] at he
  obtain ⟨err, -, rfl⟩ := he
  exact ⟨err, rfl⟩

end Action

namespace Node

/-! ### Statements -/

/-- A statement can be traced in scope `i` at a level of detail: literals and bindings are in range, and if
definitions are shown, the names that it defines there are short. -/
structure Showable (level : Int) (i : Nat) (s : Node) (forest : Forest) : Prop where
  lt : i < forest.cells.length
  linked : forest.Linked
  literals : s.LiteralsInRange
  names : 2 ≤ level → ∀ x ∈ s.definitions, x.IsShortName
  values : ∀ table ∈ forest.tables i, table.InRange

/-- What an expression gives in a scope where all bindings are in range is in range. -/
theorem inRange_of_evaluate {i : Nat} {e : Node} {store store' : Store} {v : Value}
    (he : e.LiteralsInRange) (hscope : store.forest.Holds i (store.forest.scope i).own
      (store.forest.scope i).outer) (hvalues : ∀ table ∈ store.forest.tables i, table.InRange)
    (h : (evaluate i e).on store = (.ok v, store')) : v.InRange := by
  have hreads : (evaluate i e).on store = _ := reads_evaluate store i e
  rw [h] at hreads
  have heval : eval (store.forest.scope i) e = .ok v :=
    mapError_eq_ok_iff.1 (congrArg Prod.fst hreads).symm
  rw [hscope.tables, List.forall_mem_cons] at hvalues
  exact eval_inRange hvalues.2 hvalues.1 he heval

/-- A statement that fails leaves all scopes as they were, at every level of detail. If a line cannot be
written, it is not the one of a definition. -/
theorem atomicAt_execute {level : Int} {i : Nat} {halt : Halt} : (s : Node) → {store : Store} →
    (halt = .unwritable → s.Showable level i store.forest) → AtomicAt store halt (execute level i s)
  | .expr e, store, _ => by
    rw [execute]
    exact .after (forest_evaluate i e store) fun v _ _ _ => atomicAt_of_forest_eq rfl
  | .define x e, store, hshow => by
    rw [execute]
    refine .after (forest_evaluate i e store) fun v store' hv _ => atomicAt_put ?_
    intro hhalt key hkey hlevel
    obtain ⟨hi, hlinked, hliterals, hnames, hvalues⟩ := hshow hhalt
    have he : e.LiteralsInRange := hliterals
    have hvalue := inRange_of_evaluate he (hlinked.holds_scope hi) hvalues hv
    exact Event.writable_bound (hnames hlevel x (List.mem_singleton_self x)) hkey hvalue
  | .branch test yes no, store, hshow => by
    rw [execute]
    refine .after (forest_evaluate i test store) fun v store₁ _ hforest₁ =>
      .after (forest_raise _ _ _) fun truth store₂ _ hforest₂ =>
      .after (forest_write level _ _) fun _ store₃ _ hforest₃ => ?_
    -- everything but the branch that is taken leaves the scopes as they are
    have hforest : store₃.forest = store.forest := hforest₃.trans (hforest₂.trans hforest₁)
    by_cases htruth : truth = true
    · rw [if_pos htruth]
      refine atomicAt_execute yes fun hhalt => ?_
      obtain ⟨hi, hlinked, hliterals, hnames, hvalues⟩ := hforest ▸ hshow hhalt
      exact ⟨hi, hlinked, hliterals.2.1, fun h x hx => hnames h x (List.mem_append_left _ hx), hvalues⟩
    · rw [if_neg htruth]
      by_cases hgap : no.isGap = true
      · rw [if_pos hgap]
        exact atomicAt_of_forest_eq rfl
      · rw [if_neg hgap]
        refine atomicAt_execute no fun hhalt => ?_
        obtain ⟨hi, hlinked, hliterals, hnames, hvalues⟩ := hforest ▸ hshow hhalt
        exact ⟨hi, hlinked, hliterals.2.2, fun h x hx => hnames h x (List.mem_append_right _ hx), hvalues⟩
  | .block body, store, _ => fun _ => execute_block_isPrefix level i body store
  | .gap, _, _ | .many _, _, _ | .int _, _, _ | .unread _, _, _ | .bool _, _, _ | .name _, _, _
  | .list _, _, _ | .unary _ _, _, _ | .binary _ _ _, _, _ | .logical _ _ _, _, _
  | .relational _ _ _, _, _ => by
    rw [execute]
    · exact atomicAt_of_forest_eq rfl
    all_goals simp

/-- A definition of an integer with too many digits binds the name and fails when it is shown. -/
theorem on_execute_define_longName {level : Int} (hlevel : 2 ≤ level) {n : Int}
    (hn : digitLimit < (Nat.toDigits 10 n.natAbs).length) {i : Nat} {e : Node} {v : Value} {store : Store}
    (he : (evaluate i e).on store = (.ok v, store)) :
    (execute level i (.define (.int n) e)).on store =
      (.error .unwritable,
        { store with forest := (store.forest.put i (.number n) (.int n) (some v)).1 }) := by
  have hlong : ¬(Event.bound (.int n) v).Writable := fun hwritable =>
    Nat.not_lt.2 (hwritable n (List.mem_cons_self ..)) hn
  have hwrite (store : Store) :
      (write level (.bound (.int n) v)).on store = (.error .unwritable, store) := by
    have hshown : (Event.bound (.int n) v).level ≤ level := hlevel
    rw [write, if_pos hshown, if_neg hlong]
    rfl
  have hput : (put i (.int n) v).on store =
      (.ok (), { store with forest := (store.forest.put i (.number n) (.int n) (some v)).1 }) := rfl
  rw [execute]
  simp only [on_bind, he, hput, hwrite]

/-! ### Statements one after the other -/

/-- Statements run one after the other in scope `i` and succeed; the next one fails, leaves all scopes as
they are then, and is the last that runs. -/
def FailsAfter (level : Int) (i : Nat) (before : List Node) (s : Node) (start final : Store)
    (e : Halt) : Prop :=
  ∃ vs middle, (executeAll level i before).on start = (.ok vs, middle) ∧
    (execute level i s).on middle = (.error e, final) ∧
    middle.forest.cells <+: final.forest.cells ∧
    (final.forest.scope i).own = (middle.forest.scope i).own

/-- A run that fails does so in one statement. -/
theorem exists_last_of_executeAll {level : Int} {i : Nat} {body : List Node} {store final : Store}
    {e : Halt} (h : (executeAll level i body).on store = (.error e, final)) :
    ∃ before s after vs middle, body = before ++ s :: after ∧
      (executeAll level i before).on store = (.ok vs, middle) ∧
      (execute level i s).on middle = (.error e, final) := by
  induction body generalizing store with
  | nil => cases h
  | cons s ss ih =>
    rw [executeAll, on_bind] at h
    rcases hs : (execute level i s).on store with ⟨e' | v, store'⟩
    · rw [hs] at h
      cases h
      exact ⟨[], s, ss, [], store, rfl, rfl, hs⟩
    · -- the first statement succeeds, and the others run in the store that it leaves
      simp only [hs, on_bind] at h
      rcases hss : (executeAll level i ss).on store' with ⟨e' | vs, store''⟩
      · rw [hss] at h
        cases h
        obtain ⟨before, t, after, vs, middle, rfl, hbefore, ht⟩ := ih hss
        refine ⟨s :: before, t, after, v :: vs, middle, rfl, ?_, ht⟩
        rw [executeAll, on_bind, hs]
        simp only [on_bind, hbefore]
        rfl
      · rw [hss] at h
        cases h

theorem exists_failsAfter {level : Int} {i : Nat} {body : List Node} {store final : Store} {e : Halt}
    (hi : i < store.forest.cells.length)
    (h : (executeAll level i body).on store = (.error e, final)) (he : e ≠ .unwritable) :
    ∃ before s after, body = before ++ s :: after ∧ FailsAfter level i before s store final e := by
  obtain ⟨before, s, after, vs, middle, hbody, hbefore, hs⟩ := exists_last_of_executeAll h
  refine ⟨before, s, after, hbody, vs, middle, hbefore, hs, ?_⟩
  have hcells := atomicAt_execute s (fun hline => absurd hline he) (congrArg Prod.fst hs)
  rw [hs] at hcells
  refine ⟨hcells, ?_⟩
  -- the scope was there before, so that it is one of those that stay as they are
  have hsize := (keeps_executeAll level before i store hi).size
  rw [hbefore] at hsize
  have hlt : i < middle.forest.cells.length := Nat.lt_of_lt_of_le hi hsize
  rw [Forest.own_scope, Forest.own_scope, List.prefix_iff_getElem?.1 hcells i hlt,
    List.getElem?_eq_getElem hlt]

end Node

theorem Stmt.toNodes_eq_append {program : List Stmt} {before after : List Node} {node : Node}
    (h : Stmt.toNodes program = before ++ node :: after) :
    ∃ pre s rest, program = pre ++ s :: rest ∧ Stmt.toNodes pre = before ∧ s.toNode = node := by
  induction program generalizing before with
  | nil => simp [Stmt.toNodes] at h
  | cons s ss ih =>
    rw [Stmt.toNodes] at h
    cases before with
    | nil =>
      cases h
      exact ⟨[], s, ss, rfl, rfl, rfl⟩
    | cons first before =>
      obtain ⟨hfirst, hrest⟩ := List.cons.inj h
      obtain ⟨pre, t, rest, rfl, rfl, rfl⟩ := ih hrest
      exact ⟨s :: pre, t, rest, rfl, by rw [Stmt.toNodes, hfirst], rfl⟩

/-! ### Sources -/

namespace Session

section Source

variable {level : Int} {frontEnd : FrontEnd} {text : List Char}

/-- Announcing statements whose lines can be written writes them. -/
theorem on_announce (level : Int) {nodes : List Node}
    (h : ∀ node ∈ nodes, (Event.statement node).Writable) (store : Store) :
    ∃ lines, (announce level nodes).on store = (.ok (), ⟨store.forest, lines⟩) := by
  induction nodes generalizing store with
  | nil => exact ⟨store.lines, rfl⟩
  | cons node nodes ih =>
    obtain ⟨hnode, hnodes⟩ := List.forall_mem_cons.1 h
    obtain ⟨lines, hrest⟩ := ih hnodes
      ⟨store.forest, store.lines ++ trace level [.statement node]⟩
    refine ⟨lines, ?_⟩
    rw [announce, on_bind, on_write (fun _ => hnode)]
    exact hrest

/-- A source that cannot be read changes no scope, and one that is read runs in the scopes that there
are. -/
theorem perform_source (level : Int) (frontEnd : FrontEnd) (text : List Char) (store : Store) :
    ∃ lines, ((Entry.input (.source frontEnd text)).perform level).on store =
      match readSource frontEnd text with
      | .error e => (.error (.source e), ⟨store.forest, lines⟩)
      | .ok program =>
        (Node.executeAll level 0 (Stmt.toNodes program)).on ⟨store.forest, lines⟩ := by
  -- what comes after reading is the same for both front ends
  have hprogram {program : List Stmt} (h : readSource frontEnd text = .ok program) (store : Store) :
      ∃ lines, (do
        announce level (Stmt.toNodes program)
        Node.executeAll level 0 (Stmt.toNodes program)).on store =
          (Node.executeAll level 0 (Stmt.toNodes program)).on ⟨store.forest, lines⟩ := by
    have hwritable := writable_statements (wellFormed_of_readSource h)
    obtain ⟨lines, hlines⟩ := on_announce level hwritable store
    exact ⟨lines, by rw [on_bind, hlines]⟩
  cases frontEnd with
  | automaton =>
    rw [Entry.perform, on_bind]
    cases hread : readSource .automaton text with
    | error e => exact ⟨store.lines, rfl⟩
    | ok program => exact hprogram hread store
  | descent =>
    rw [Entry.perform, on_bind]
    cases htokens : tokenize text with
    | error e =>
      have hread : readSource .descent text = .error (.lexical e) := by rw [readSource, htokens]
      rw [hread]
      exact ⟨store.lines, rfl⟩
    | ok tokens =>
      -- the tokens are traced before they are read
      have hread : readSource .descent text = readTokens tokens := by rw [readSource, htokens]
      have htraced : (Event.tokens tokens).level ≤ level → (Event.tokens tokens).Writable :=
        fun _ => Event.writable_tokens htokens
      change ∃ lines, Action.on (do
        write level (.tokens tokens)
        let program ← raise .source (readTokens tokens)
        announce level (Stmt.toNodes program)
        Node.executeAll level 0 (Stmt.toNodes program)) store = _
      rw [on_bind, on_write htraced, hread]
      cases hbody : readTokens tokens with
      | error e => exact ⟨_, rfl⟩
      | ok program => exact hprogram (hread.trans hbody) _

/-- With the bindings in range, a program that is read fails only as an evaluation does. -/
theorem eval_of_executeAll_error {program : List Stmt} {store : Store} {table : Table} {e : Halt}
    (hread : readSource frontEnd text = .ok program) (hscope : store.forest.Holds 0 table [])
    (ht : table.InRange)
    (h : ((Node.executeAll level 0 (Stmt.toNodes program)).on store).1 = .error e) :
    ∃ err, e = .eval err := by
  have hwf := wellFormed_of_readSource hread
  have hwritable := writable_tree ht (Stmt.allLiteralsInRange_toNodes program hwf)
    (Stmt.hasTextName_toNodes program hwf)
  exact (Node.refines_executeAll level 0 [] (Stmt.toNodes program)).eval_of_error hscope hwritable h

/-- What a source leaves of the bindings when it fails, where they are a table. -/
theorem table_of_runSource_error {table : Table} {e : RunError}
    (h : (runSource (.known frontEnd) text table).result = .error e) :
    (∃ err, readSource frontEnd text = .error err ∧ e = .source err ∧
        (runSource (.known frontEnd) text table).table = table) ∨
      ∃ pre s rest vs err, readSource frontEnd text = .ok (pre ++ s :: rest) ∧ e = .eval err ∧
        (runTree (Stmt.toNodes pre) table).result = .ok vs ∧
        (Node.exec [] s.toNode (runTree (Stmt.toNodes pre) table).table).result = .error err ∧
        (runSource (.known frontEnd) text table).table =
          (runTree (Stmt.toNodes pre) table).table := by
  cases hread : readSource frontEnd text with
  | error err =>
    obtain ⟨events, hrun⟩ := runSource_of_unread hread table
    rw [hrun] at h ⊢
    cases h
    exact .inl ⟨err, rfl, rfl, rfl⟩
  | ok program =>
    obtain ⟨hresult, htable⟩ := runSource_eq_runTree hread table
    obtain ⟨err, hrun, rfl⟩ := mapError_eq_error_iff.1 (hresult.symm.trans h)
    obtain ⟨before, node, after, vs, hparts, hbefore, hfails, hkeeps⟩ := Node.exists_failing hrun
    obtain ⟨pre, s, rest, rfl, rfl, rfl⟩ := Stmt.toNodes_eq_append hparts
    exact .inr ⟨pre, s, rest, vs, err, rfl, rfl, mapError_eq_ok_iff.2 hbefore, hfails,
      htable.trans hkeeps⟩

end Source

/-- A statement with literals in range which fails in a scope of a store where all bindings are in range
leaves all scopes of the store as they were, at every level of detail. At a level that shows definitions this
asks that no name which the statement defines outside of blocks is an integer of too many digits.

A source that fails in the outermost scope cannot be read, and then all scopes are as they were; or it is
read as some statements that succeed, one that fails and others. The run ends with the one that fails, and
leaves the bindings that the statements before it have made. Running a source on a table says the same. -/
theorem execute_atomic (level : Int) (store : Store) (hlinked : store.forest.Linked) :
    (∀ (s : Node) (i : Nat) (e : Halt), i < store.forest.cells.length → s.LiteralsInRange →
      (2 ≤ level → ∀ x ∈ s.definitions, x.IsShortName) →
      (∀ table ∈ store.forest.tables i, table.InRange) →
      ((s.execute level i).on store).1 = .error e →
      store.forest.cells <+: ((s.execute level i).on store).2.forest.cells) ∧
    (∀ (frontEnd : FrontEnd) (text : List Char) (table : Table) (e : Halt),
      store.forest.tables 0 = [table] → table.InRange →
      let final := ((Entry.input (.source frontEnd text)).perform level).on store
      final.1 = .error e →
      (∃ err, readSource frontEnd text = .error err ∧ e = .source err ∧
        final.2.forest = store.forest) ∨
      ∃ pre s rest lines err, readSource frontEnd text = .ok (pre ++ s :: rest) ∧ e = .eval err ∧
        Node.FailsAfter level 0 (Stmt.toNodes pre) s.toNode ⟨store.forest, lines⟩ final.2 e) ∧
    ∀ (frontEnd : FrontEnd) (text : List Char) (table : Table) (e : RunError),
      let report := runSource (.known frontEnd) text table
      report.result = .error e →
      (∃ err, readSource frontEnd text = .error err ∧ e = .source err ∧ report.table = table) ∨
      ∃ pre s rest vs err, readSource frontEnd text = .ok (pre ++ s :: rest) ∧ e = .eval err ∧
        (runTree (Stmt.toNodes pre) table).result = .ok vs ∧
        (Node.exec [] s.toNode (runTree (Stmt.toNodes pre) table).table).result = .error err ∧
        report.table = (runTree (Stmt.toNodes pre) table).table := by
  refine ⟨?_, ?_, fun frontEnd text table e => table_of_runSource_error⟩
  · intro s i e hi hliterals hnames hvalues h
    exact Node.atomicAt_execute s (fun _ => ⟨hi, hlinked, hliterals, hnames, hvalues⟩) h
  · intro frontEnd text table e htables ht final h
    obtain ⟨lines, hperform⟩ := perform_source level frontEnd text store
    have hfinal : final = _ := hperform
    cases hread : readSource frontEnd text with
    | error err =>
      rw [hfinal, hread] at h ⊢
      cases h
      exact .inl ⟨err, rfl, rfl, rfl⟩
    | ok program =>
      -- the scopes are those that there were when the statements begin to run
      rw [hfinal, hread] at h ⊢
      have hscope : Forest.Holds (Store.forest ⟨store.forest, lines⟩) 0 table [] := ⟨hlinked, htables⟩
      obtain ⟨err, rfl⟩ := eval_of_executeAll_error hread hscope ht h
      have hends : (Node.executeAll level 0 (Stmt.toNodes program)).on ⟨store.forest, lines⟩ =
          (.error (.eval err), _) := Prod.ext h rfl
      obtain ⟨before, node, after, hbody, hfails⟩ := Node.exists_failsAfter hscope.lt hends nofun
      obtain ⟨pre, s, rest, rfl, rfl, rfl⟩ := Stmt.toNodes_eq_append hbody
      exact .inr ⟨pre, s, rest, lines, err, rfl, rfl, hfails⟩

/-- The condition on names cannot be left out: where definitions are shown, one of a name with a digit too
many binds the name before it fails. -/
theorem execute_longName_not_atomic :
    let x : Json := .int (Int.pow 10 digitLimit)
    let s : Node := .define x (.int 1)
    let store : Store := ⟨Forest.root, []⟩
    store.forest.Linked ∧ 0 < store.forest.cells.length ∧ s.LiteralsInRange ∧
      (∀ table ∈ store.forest.tables 0, table.InRange) ∧
      ((s.execute 2 0).on store).1 = .error .unwritable ∧
      ¬store.forest.cells <+: ((s.execute 2 0).on store).2.forest.cells := by
  intro x s store
  -- a power of ten has a digit more than its exponent says
  have hlong {k : Nat} (hk : 0 < k) : k < (Nat.toDigits 10 (Int.pow 10 k).natAbs).length := by
    rw [← Nat.not_le, Nat.length_toDigits_le_iff (by decide) hk]
    exact (Int.natAbs_pow 10 k).not_lt
  have hone : (Node.evaluate 0 (.int 1)).on store = (.ok (.int 1), store) := rfl
  have hrun : (s.execute 2 0).on store = _ :=
    Node.on_execute_define_longName (Int.le_refl 2) (hlong (by decide)) hone
  have hliterals : s.LiteralsInRange := by
    simp [s, Node.LiteralsInRange, InRange, minInt, maxInt]
  have hvalues : ∀ table ∈ store.forest.tables 0, table.InRange :=
    List.forall_mem_singleton.2 (List.forall_mem_nil _)
  refine ⟨Forest.holds_root.linked, Nat.zero_lt_one, hliterals, hvalues, congrArg Prod.fst hrun, ?_⟩
  intro hprefix
  -- there is one scope before and after, which binds nothing before and the name after
  rw [hrun] at hprefix
  cases hprefix.eq_of_length rfl

/-- In the inner one of two scopes, a block in a branch defines a name and then fails; and a source fails
after a definition. -/
theorem execute_atomic_branch :
    let x : Binding := ⟨.text "x", .str "x", some (.int 1)⟩
    let store : Store := ⟨⟨[⟨none, [x]⟩, ⟨some 0, []⟩]⟩, []⟩
    let s : Node := .branch (.bool true)
      (.block [.define (.str "x") (.int 2), .expr (.name (.str "y"))]) .gap
    let text : List Char := ['l', 'e', 't', ' ', 'x', '=', '2', ';', 'y']
    let final := ((Entry.input (.source .automaton text)).perform 3).on store
    store.forest.Linked ∧
    (((s.execute 3 1).on store).1 = .error (.eval (.unknownName (.str "y"))) ∧
      store.forest.cells <+: ((s.execute 3 1).on store).2.forest.cells) ∧
    final.1 = .error (.eval (.unknownName (.str "y"))) ∧
      ∃ pre s rest lines, readSource .automaton text = .ok (pre ++ s :: rest) ∧
        Node.FailsAfter 3 0 (Stmt.toNodes pre) s.toNode ⟨store.forest, lines⟩ final.2
          (.eval (.unknownName (.str "y"))) := by
  intro x store s text final
  have hlinked : store.forest.Linked := by
    intro j cell hcell p hp
    match j, hcell with
    | 0, hcell =>
      cases hcell
      cases hp
    | 1, hcell =>
      cases hcell
      cases hp
      decide
  have hliterals : s.LiteralsInRange := by
    simp [s, Node.LiteralsInRange, Node.AllLiteralsInRange, InRange, minInt, maxInt]
  have hnames : (2 : Int) ≤ 3 → ∀ x ∈ s.definitions, x.IsShortName := by
    simp [s, Node.definitions]
  have hx : Table.InRange [x] := by
    simp [x, Table.InRange, Value.InRange, InRange, minInt, maxInt]
  have hvalues : ∀ table ∈ store.forest.tables 1, table.InRange :=
    List.forall_mem_cons.2 ⟨List.forall_mem_nil _, List.forall_mem_singleton.2 hx⟩
  have htokens : tokenize text =
      .ok [⟨.kwLet, none, ⟨1, 1⟩⟩, ⟨.ident, some (.text "x"), ⟨1, 5⟩⟩, ⟨.assign, none, ⟨1, 6⟩⟩,
        ⟨.integer, some (.int 2), ⟨1, 7⟩⟩, ⟨.semicolon, none, ⟨1, 8⟩⟩,
        ⟨.ident, some (.text "y"), ⟨1, 9⟩⟩] :=
    tokensFrom_lexeme rfl rfl (tokensFrom_lexeme rfl rfl (tokensFrom_lexeme rfl rfl
      (tokensFrom_lexeme rfl rfl (tokensFrom_lexeme rfl rfl (tokensFrom_lexeme rfl rfl
        (tokensFrom_ending rfl))))))
  have hread := (readSource_automaton_of_tokenize htokens).2 rfl
  have hfinal : final.1 = .error (.eval (.unknownName (.str "y"))) := by
    obtain ⟨lines, hperform⟩ := perform_source 3 .automaton text store
    rw [show final = _ from hperform, hread]
    rfl
  obtain ⟨hstatement, hsource, -⟩ := execute_atomic 3 store hlinked
  have hfails : ((s.execute 3 1).on store).1 = .error (.eval (.unknownName (.str "y"))) := rfl
  refine ⟨hlinked, ⟨hfails, hstatement s 1 _ (by decide) hliterals hnames hvalues hfails⟩, hfinal, ?_⟩
  rcases hsource .automaton text [x] _ rfl hx hfinal with ⟨err, hunread, -⟩ |
    ⟨pre, t, rest, lines, err, hsplit, -, hafter⟩
  · cases hread.symm.trans hunread
  · exact ⟨pre, t, rest, lines, hsplit, hafter⟩

end Session

end Abacus
