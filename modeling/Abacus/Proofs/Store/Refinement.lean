import Abacus.Proofs.Eval.Outcome
import Abacus.Proofs.Store.Frame

/-!
# Running in place and running on tables

Running statements in a scope of a store gives what running them on the tables of that scope gives. The
tables are a copy: a block gets a table of its own that is dropped at the end, and a failing statement
returns the table that it had. Here the same is read off the store, where nothing is dropped or returned.

The trace that is written in place is the one that is recorded, up to the level of detail, as long as all
of its lines can be written.

## Main definitions

* `Forest.Holds` — a scope of a linked tree has a table and tables around it
* `Action.Yields` — what an action gives, leaves and writes in a store
* `Action.Refines` — an action does on a store what an outcome says of tables

## Main results

* `Action.Refines.bind` — actions one after the other
* `Node.refines_execute`, `Node.refines_executeAll` — statements in place and on tables
* `Node.executeAll_frame` — what statements leave alone, in place and on tables
-/

namespace Abacus

/-! ### The tables of a scope -/

namespace Forest

variable {forest after : Forest} {i : Nat} {table : Table} {outer : List Table}

/-- Once there are as many steps as scopes on the way outward, more of them make no difference. -/
theorem tablesFrom_eq_tables (h : forest.Linked) {fuel : Nat} (hi : i < fuel) :
    forest.tablesFrom fuel i = forest.tables i := by
  have hfuel : ∀ (fuel fuel' i : Nat), i < fuel → i < fuel' →
      forest.tablesFrom fuel i = forest.tablesFrom fuel' i := by
    intro fuel
    induction fuel with
    | zero => exact fun _ _ hlt => absurd hlt (Nat.not_lt_zero _)
    | succ fuel ih =>
      intro fuel' i hi hi'
      obtain ⟨fuel', rfl⟩ : ∃ n, fuel' = n + 1 := ⟨fuel' - 1, by omega⟩
      rw [tablesFrom, tablesFrom]
      cases hcell : forest.cells[i]? with
      | none => rfl
      | some cell =>
        cases hparent : cell.parent with
        | none => simp only [hparent]
        | some j =>
          have hj := h i cell hcell j hparent
          simp only [hparent, ih fuel' j (by omega) (by omega)]
  exact hfuel fuel (i + 1) i hi (Nat.lt_succ_self i)

/-- The tables of a scope depend on the scopes up to its number only. -/
theorem tablesFrom_congr (h : forest.Linked) (fuel : Nat)
    (hsame : ∀ j ≤ i, after.cells[j]? = forest.cells[j]?) :
    after.tablesFrom fuel i = forest.tablesFrom fuel i := by
  induction fuel generalizing i with
  | zero => rfl
  | succ fuel ih =>
    rw [tablesFrom, tablesFrom, hsame i (Nat.le_refl i)]
    cases hcell : forest.cells[i]? with
    | none => rfl
    | some cell =>
      cases hparent : cell.parent with
      | none => simp only [hparent]
      | some j =>
        have hj := h i cell hcell j hparent
        have hrest := ih (i := j) fun k hk => hsame k (by omega)
        simp only [hparent, hrest]

/-- In a linked tree, scope `i` has the given table, and around it the given tables. -/
structure Holds (forest : Forest) (i : Nat) (table : Table) (outer : List Table) : Prop where
  linked : forest.Linked
  tables : forest.tables i = table :: outer

namespace Holds

theorem scope_eq (h : forest.Holds i table outer) : forest.scope i = ⟨table, outer⟩ := by
  rw [scope, h.tables]

theorem depth_eq (h : forest.Holds i table outer) : forest.depth i = outer.length := by
  rw [depth, h.scope_eq]
  rfl

theorem exists_cell (h : forest.Holds i table outer) :
    ∃ cell, forest.cells[i]? = some cell ∧ cell.table = table := by
  have htables := h.tables
  rw [Forest.tables, tablesFrom] at htables
  cases hcell : forest.cells[i]? with
  | none => simp [hcell] at htables
  | some cell =>
    refine ⟨cell, rfl, ?_⟩
    cases hparent : cell.parent <;> simp_all

theorem lt (h : forest.Holds i table outer) : i < forest.cells.length := by
  obtain ⟨cell, hcell, -⟩ := h.exists_cell
  exact (List.getElem?_eq_some_iff.1 hcell).1

/-- A scope is as it was when all scopes are. -/
theorem of_isPrefix (h : forest.Holds i table outer) (hcells : forest.cells <+: after.cells)
    (hlinked : after.Linked) : after.Holds i table outer := by
  refine ⟨hlinked, ?_⟩
  rw [← h.tables]
  refine tablesFrom_congr h.linked (i + 1) fun j hj => ?_
  have hlt : j < forest.cells.length := Nat.lt_of_le_of_lt hj h.lt
  rw [List.prefix_iff_getElem?.1 hcells j hlt, List.getElem?_eq_getElem hlt]

/-- Replacing the table of a scope leaves those around it as they are. -/
theorem setTable (h : forest.Holds i table outer) (table' : Table)
    (hlinked : (forest.setTable i table').Linked) :
    (forest.setTable i table').Holds i table' outer := by
  refine ⟨hlinked, ?_⟩
  obtain ⟨cell, hcell, -⟩ := h.exists_cell
  have htables := h.tables
  rw [Forest.tables, tablesFrom] at htables ⊢
  rw [getElem?_setTable_self, hcell]
  cases hparent : cell.parent with
  | none => simp_all
  | some j =>
    have hj := h.linked i cell hcell j hparent
    -- all scopes on the way outward have smaller numbers
    have hsame : (forest.setTable i table').tablesFrom i j = forest.tablesFrom i j :=
      tablesFrom_congr h.linked i fun k hk => getElem?_setTable_of_ne _ _ _ (by omega)
    simp_all

theorem put (h : forest.Holds i table outer) (key : Key) (x : Json) (v : Option Value) :
    (forest.put i key x v).1.Holds i (table.set key x v) outer := by
  have hown : (forest.put i key x v).1 = forest.setTable i (table.set key x v) := by
    rw [Forest.put, h.scope_eq]
  have hframe : Frame i [key] forest (forest.put i key x v).1 :=
    frame_put List.mem_cons_self forest i x v
  rw [hown] at hframe ⊢
  exact h.setTable _ (hframe.linked h.linked)

/-- A new scope has no bindings, and around it what its parent has. -/
theorem child (h : forest.Holds i table outer) :
    (forest.child i).1.Holds forest.cells.length [] (table :: outer) := by
  have hframe : Frame i [] forest (forest.child i).1 := (Frame.refl _ [] _).of_child h.lt []
  refine ⟨hframe.linked h.linked, ?_⟩
  have hcell : (forest.child i).1.cells[forest.cells.length]? = some ⟨some i, []⟩ := by
    simp [Forest.child]
  have houter : (forest.child i).1.tablesFrom forest.cells.length i = table :: outer := by
    rw [← h.tables, ← tablesFrom_eq_tables h.linked h.lt]
    refine tablesFrom_congr h.linked _ fun j hj => ?_
    exact List.getElem?_append_left (Nat.lt_of_le_of_lt hj h.lt)
  rw [Forest.tables, tablesFrom, hcell]
  simp only [houter]

end Holds

/-- Every scope of a linked tree has a table and tables around it. -/
theorem Linked.holds_scope (h : forest.Linked) (hi : i < forest.cells.length) :
    forest.Holds i (forest.scope i).own (forest.scope i).outer := by
  obtain ⟨cell, hcell⟩ : ∃ cell, forest.cells[i]? = some cell := ⟨_, List.getElem?_eq_getElem hi⟩
  refine ⟨h, ?_⟩
  rw [scope, tables, tablesFrom, hcell]
  cases hparent : cell.parent <;> simp only [hparent]

theorem linked_root : Linked root := by
  intro i cell hcell j hj
  cases i with
  | zero =>
    cases hcell
    cases hj
  | succ i => cases hcell

theorem holds_root : Holds root 0 [] [] :=
  ⟨linked_root, rfl⟩

end Forest

/-! ### Actions and outcomes -/

/-- An event, the table staying as it is. -/
def Outcome.tell (event : Event) (table : Table) : Outcome Unit :=
  ⟨.ok (), table, [event]⟩

/-- A binding without an event. -/
def Outcome.bind (x : Json) (v : Value) (table : Table) : Outcome Unit :=
  match x.key? with
  | none => .fail (.compoundName x) table
  | some key => .done () (table.set key x (some v))

theorem trace_append (level : Int) (events events' : List Event) :
    trace level (events ++ events') = trace level events ++ trace level events' := by
  simp [trace]

namespace Action

variable {α β : Type} {level : Int} {i : Nat} {outer : List Table}

/-- The lines of all events that are shown can be written. -/
def AllWritable (level : Int) (events : List Event) : Prop :=
  ∀ event ∈ events, event.level ≤ level → event.Writable

instance (level : Int) (events : List Event) : Decidable (AllWritable level events) :=
  inferInstanceAs (Decidable (∀ event ∈ events, _ → _))

/-- In a store, an action gives a result, leaves a table in scope `i`, with the given tables around it, and
writes the trace of some events. -/
structure Yields (level : Int) (i : Nat) (outer : List Table) (store : Store) (action : Action α)
    (result : Except Halt α) (table : Table) (events : List Event) : Prop where
  result_eq : (action.on store).1 = result
  holds : (action.on store).2.forest.Holds i table outer
  lines_eq : (action.on store).2.lines = store.lines ++ trace level events

section Yields

variable {store : Store} {action : Action α} {next : α → Action β} {left table : Table}
  {events events' : List Event}

/-- An action that leaves the store as it is writes nothing. -/
theorem yields_of_on {result : Except Halt α} (h : action.on store = (result, store))
    (hscope : store.forest.Holds i table outer) :
    Yields level i outer store action result table [] := by
  refine ⟨?_, ?_, ?_⟩ <;> rw [h]
  · exact hscope
  · simp [trace]

theorem Yields.bind {a : α} {result : Except Halt β}
    (h : Yields level i outer store action (.ok a) left events)
    (hnext : Yields level i outer (action.on store).2 (next a) result table events') :
    Yields level i outer store (action >>= next) result table (events ++ events') := by
  refine ⟨?_, ?_, ?_⟩ <;> rw [on_bind_of_ok h.result_eq]
  · exact hnext.result_eq
  · exact hnext.holds
  · rw [hnext.lines_eq, h.lines_eq, trace_append, List.append_assoc]

theorem Yields.bind_error {e : Halt} (h : Yields level i outer store action (.error e) left events) :
    Yields level i outer store (action >>= next) (.error e) left events := by
  refine ⟨?_, ?_, ?_⟩ <;> rw [on_bind_of_error h.result_eq]
  · exact h.holds
  · exact h.lines_eq

end Yields

/-- An action does in scope `i` what an outcome says of the table of that scope, with the given tables
around it, as long as the trace can be written. -/
def Refines (level : Int) (i : Nat) (outer : List Table) (action : Action α)
    (outcome : Table → Outcome α) : Prop :=
  ∀ store table, store.forest.Holds i table outer → AllWritable level (outcome table).events →
    Yields level i outer store action ((outcome table).result.mapError .eval) (outcome table).table
      (outcome table).events

theorem Refines.congr {action : Action α} {outcome outcome' : Table → Outcome α}
    (h : Refines level i outer action outcome) (heq : ∀ table, outcome' table = outcome table) :
    Refines level i outer action outcome' := by
  rwa [funext heq]

/-- Actions one after the other refine outcomes one after the other. -/
theorem Refines.bind {action : Action α} {outcome : Table → Outcome α} {next : α → Action β}
    {f : α → Table → Outcome β} (h : Refines level i outer action outcome)
    (hnext : ∀ a, Refines level i outer (next a) (f a)) :
    Refines level i outer (action >>= next) fun table => (outcome table).andThen f := by
  intro store table hscope hwritable
  have hfirst := h store table hscope
  rcases houtcome : outcome table with ⟨e | a, left, events⟩
  · -- the first action fails, and nothing follows
    simp only [houtcome, Outcome.andThen] at hwritable hfirst ⊢
    exact (hfirst hwritable).bind_error
  · simp only [houtcome, Outcome.andThen] at hwritable hfirst ⊢
    obtain ⟨hevents, hrest⟩ := List.forall_mem_append.1 hwritable
    exact (hfirst hevents).bind (hnext a _ left (hfirst hevents).holds hrest)

/-- An action that gives a result or an error of evaluation and leaves the store as it is. -/
theorem refines_of_reads {action : Action α} (result : Table → Except EvalError α)
    (h : ∀ store table, store.forest.Holds i table outer → Reads store action (result table)) :
    Refines level i outer action fun table => .lift (result table) table := by
  intro store table hscope _
  exact yields_of_on (h store table hscope) hscope

theorem refines_pure (a : α) : Refines level i outer (pure a) (.done a) :=
  refines_of_reads (fun _ => .ok a) fun _ _ _ => reads_pure a

theorem refines_raise (result : Except EvalError α) :
    Refines level i outer (raise .eval result) (.lift result) :=
  refines_of_reads (fun _ => result) fun _ _ _ => reads_raise result

theorem refines_throw (e : EvalError) :
    Refines level i outer (throw (.eval e) : Action α) (.fail e) :=
  refines_raise (.error e)

theorem refines_depth : Refines level i outer (depth i) (.done outer.length) := by
  refine refines_of_reads (fun _ => .ok outer.length) fun store table hscope => ?_
  have hon : (depth i).on store = (.ok (store.forest.depth i), store) := rfl
  rw [Reads, hon, hscope.depth_eq]
  rfl

/-- The line of an event is written if the event is shown. -/
theorem on_write {event : Event} (h : event.level ≤ level → event.Writable) (store : Store) :
    (write level event).on store =
      (.ok (), { store with lines := store.lines ++ trace level [event] }) := by
  by_cases hlevel : event.level ≤ level
  · have htrace : trace level [event] = [event.text] := by simp [trace, hlevel]
    rw [htrace, write, if_pos hlevel, if_pos (h hlevel)]
    rfl
  · have htrace : trace level [event] = [] := by simp [trace, hlevel]
    rw [htrace, List.append_nil, write, if_neg hlevel]
    rfl

theorem refines_write (event : Event) :
    Refines level i outer (write level event) (.tell event) := by
  intro store table hscope hwritable
  have hon := on_write (hwritable event List.mem_cons_self) store
  refine ⟨?_, ?_, ?_⟩ <;> rw [hon]
  · rfl
  · exact hscope
  · rfl

theorem refines_put (x : Json) (v : Value) :
    Refines level i outer (put i x v) (.bind x v) := by
  intro store table hscope hwritable
  cases hkey : x.key? with
  | none =>
    simp only [put, Outcome.bind, hkey] at hwritable ⊢
    exact refines_throw (.compoundName x) store table hscope hwritable
  | some key =>
    simp only [put, Outcome.bind, hkey]
    refine ⟨rfl, hscope.put key x (some v), ?_⟩
    -- a binding alone writes nothing
    exact (List.append_nil _).symm

end Action

namespace Node

open Abacus.Action

theorem refines_evaluate {level : Int} {i : Nat} {outer : List Table} (e : Node) :
    Refines level i outer (evaluate i e) fun table => .lift (eval ⟨table, outer⟩ e) table := by
  refine refines_of_reads _ fun store table hscope => ?_
  rw [← hscope.scope_eq]
  exact reads_evaluate store i e

/-! ### Statements -/

theorem bindName_eq (x : Json) (v : Value) (table : Table) :
    bindName x v table = (Outcome.bind x v table).andThen fun _ table =>
      (Outcome.tell (.bound x v) table).andThen fun _ table => .done none table := by
  rw [bindName, Outcome.bind]
  cases x.key? <;> rfl

/-- What a block does in the scope that it opens. -/
def blockOutcome (outer : List Table) (body : List Node) (table : Table) :
    Outcome (Option Value) :=
  (Outcome.tell (.entered outer.length) table).andThen fun _ table =>
    (execBody outer none body table).andThen fun v table =>
      (Outcome.tell (.left outer.length) table).andThen fun _ table => .done v table

theorem enclose_eq (table : Table) (outer : List Table) (body : List Node) :
    enclose table (outer.length + 1) (execBody (table :: outer) none body []) =
      { blockOutcome (table :: outer) body [] with table } := by
  rw [enclose, blockOutcome]
  rcases hbody : execBody (table :: outer) none body [] with ⟨_ | v, inner, events⟩
  · simp [Outcome.andThen, Outcome.tell, hbody]
  · simp [Outcome.andThen, Outcome.tell, Outcome.done, hbody]

/-- A block does in the store what its outcome says, if its body does. -/
theorem refines_block {level : Int} {body : List Node}
    (hbody : ∀ j outer, Refines level j outer (executeBody level j none body)
      (execBody outer none body)) (i : Nat) (outer : List Table) :
    Refines level i outer (execute level i (.block body)) (exec outer (.block body)) := by
  intro store table hscope hwritable
  by_cases hempty : body.isEmpty = true
  · rw [exec, if_pos hempty] at hwritable ⊢
    rw [execute, if_pos hempty]
    exact refines_throw .emptyBlock store table hscope hwritable
  · -- all scopes but that of the block are as they were
    have hcells := execute_block_isPrefix level i body store
    have hlinked := (keeps_execute level (.block body) i store hscope.lt).linked hscope.linked
    rw [exec, if_neg hempty, enclose_eq] at hwritable ⊢
    rw [execute, if_neg hempty] at hcells hlinked ⊢
    -- in it, the body runs between the two events of the block
    have hinside (j : Nat) : Refines level j (table :: outer) _ _ :=
      refines_depth.bind fun depth => (refines_write (.entered depth)).bind fun _ =>
        (hbody j (table :: outer)).bind fun v => refines_depth.bind fun depth =>
          (refines_write (.left depth)).bind fun _ => refines_pure v
    obtain ⟨hresult, -, hlines⟩ := hinside store.forest.cells.length
      { store with forest := (store.forest.child i).1 } [] hscope.child (by
        simpa [blockOutcome] using hwritable)
    simp only [Outcome.done_andThen] at hresult hlines
    refine ⟨?_, hscope.of_isPrefix hcells hlinked, ?_⟩ <;> rw [on_child_bind]
    · exact hresult
    · exact hlines

mutual

/-- A statement does in a scope of a store what its outcome says. -/
theorem refines_execute (level : Int) : (s : Node) → (i : Nat) → (outer : List Table) →
    Refines level i outer (execute level i s) (exec outer s)
  | .expr e, i, outer => by
    rw [execute]
    refine ((refines_evaluate e).bind fun v => refines_pure (some v)).congr fun table => ?_
    rw [exec]
    cases eval ⟨table, outer⟩ e <;> rfl
  | .define x e, i, outer => by
    rw [execute]
    refine ((refines_evaluate e).bind fun v => (refines_put x v).bind fun _ =>
      (refines_write (.bound x v)).bind fun _ => refines_pure none).congr fun table => ?_
    rw [exec]
    simp only [bindName_eq]
  | .branch test yes no, i, outer => by
    have hbranch (truth : Bool) : Refines level i outer
        (if truth then execute level i yes
          else if no.isGap then pure none
          else execute level i no)
        (fun table => if truth then exec outer yes table
          else if no.isGap then .done none table
          else exec outer no table) := by
      by_cases htruth : truth = true
      · simp only [if_pos htruth]
        exact refines_execute level yes i outer
      · simp only [if_neg htruth]
        by_cases hgap : no.isGap = true
        · simp only [if_pos hgap]
          exact refines_pure none
        · simp only [if_neg hgap]
          exact refines_execute level no i outer
    rw [execute]
    refine ((refines_evaluate test).bind fun v => (refines_raise v.asTruth).bind fun truth =>
      (refines_write (.decided v truth)).bind fun _ => hbranch truth).congr fun table => ?_
    rw [exec]
    rfl
  | .block body, i, outer =>
    refines_block (fun j outer => refines_executeBody level body j outer none) i outer
  | .gap, _, _ | .many _, _, _ | .int _, _, _ | .unread _, _, _ | .bool _, _, _ | .name _, _, _
  | .list _, _, _ | .unary _ _, _, _ | .binary _ _ _, _, _ | .logical _ _ _, _, _
  | .relational _ _ _, _, _ => by
    rw [execute]
    · refine (refines_throw _).congr fun table => ?_
      rw [exec]
      all_goals nofun
    all_goals nofun

theorem refines_executeBody (level : Int) : (body : List Node) → (i : Nat) →
    (outer : List Table) → (last : Option Value) →
    Refines level i outer (executeBody level i last body) (execBody outer last body)
  | [], i, outer, last => by
    rw [executeBody]
    refine (refines_pure last).congr fun table => ?_
    rw [execBody]
  | s :: ss, i, outer, last => by
    rw [executeBody]
    refine ((refines_execute level s i outer).bind fun v =>
      refines_executeBody level ss i outer v).congr fun table => ?_
    rw [execBody]

end

/-- Statements one after the other do in a scope of a store what a run of them says. -/
theorem refines_executeAll (level : Int) (i : Nat) (outer : List Table) (body : List Node) :
    Refines level i outer (executeAll level i body) (run outer body) := by
  induction body with
  | nil => exact refines_pure []
  | cons s ss ih =>
    exact (refines_execute level s i outer).bind fun v => ih.bind fun vs => refines_pure (v :: vs)

/-! ### The frame of a run -/

/-- Statements run in a scope of a linked tree. Whether they succeed or fail, all other scopes are as they
were, no scope is inside another one than before, and in the scope itself all bindings are as they were
but those of the names that the statements define outside of all blocks. An expression leaves the store
as it is, and a block all scopes that there were. As long as the trace can be written, the scope is left
with the table that running on tables gives, and so is the result. -/
theorem executeAll_frame (level : Int) (body : List Node) (store : Store) (i : Nat)
    (hi : i < store.forest.cells.length) (hlinked : store.forest.Linked) :
    let before := store.forest
    let after := ((executeAll level i body).on store).2.forest
    let report := runIn (before.scope i).outer body (before.scope i).own
    (∀ j < before.cells.length, j ≠ i → after.cells[j]? = before.cells[j]?) ∧
    (∀ j < before.cells.length,
      (after.cells[j]?).map Forest.Cell.parent = (before.cells[j]?).map Forest.Cell.parent) ∧
    (after.scope i).own.without (definedKeys body) =
      (before.scope i).own.without (definedKeys body) ∧
    (∀ e, ((evaluate i e).on store).2 = store) ∧
    (∀ block, before.cells <+: ((execute level i (.block block)).on store).2.forest.cells) ∧
    (AllWritable level report.events →
      ((executeAll level i body).on store).1 = report.result.mapError .ofRun ∧
      (before.setTable i report.table).cells <+: after.cells) := by
  intro before after report
  have hframe : Forest.Frame i (definedKeys body) before after :=
    keeps_executeAll level body i store hi
  refine ⟨hframe.others, fun j hj => ?_, hframe.own, fun e => ?_, fun block => ?_,
    fun hwritable => ?_⟩
  · by_cases hne : j = i
    · rw [hne]
      exact hframe.parent
    · rw [hframe.others j hj hne]
  · have hreads : (evaluate i e).on store = _ := reads_evaluate store i e
    rw [hreads]
  · exact execute_block_isPrefix level i block store
  · obtain ⟨hresult, hscope, -⟩ := refines_executeAll level i (before.scope i).outer body store
      (before.scope i).own (hlinked.holds_scope hi) hwritable
    refine ⟨?_, ?_⟩
    · rw [hresult]
      exact (Halt.mapError_ofRun _).symm
    · have hown : (after.scope i).own = report.table := by
        rw [hscope.scope_eq]
        rfl
      rw [← hown]
      exact hframe.setTable_isPrefix

/-- In the inner one of two scopes, a definition in a branch binds its name, a definition in a block does
not, and the statement that fails at the end undoes neither. -/
theorem executeAll_frame_branch :
    let x (n : Int) : Binding := ⟨.text "x", .str "x", some (.int n)⟩
    let y (n : Int) : Binding := ⟨.text "y", .str "y", some (.int n)⟩
    let store : Store := ⟨⟨[⟨none, [x 1, y 1]⟩, ⟨some 0, [x 2, y 2]⟩]⟩, []⟩
    let body : List Node := [.branch (.bool true) (.define (.str "y") (.int 3)) .gap,
      .block [.define (.str "x") (.int 4)], .expr (.name (.str "z"))]
    let after := ((executeAll 3 1 body).on store).2.forest
    (1 < store.forest.cells.length ∧ store.forest.Linked) ∧
      after.cells[0]? = some ⟨none, [x 1, y 1]⟩ ∧
      (after.cells[1]?).map Forest.Cell.parent = some (some 0) ∧
      (after.scope 1).own.without [.text "y"] = [x 2] ∧
      [⟨none, [x 1, y 1]⟩, ⟨some 0, [x 2, y 3]⟩] <+: after.cells := by
  intro x y store body after
  have hi : 1 < store.forest.cells.length := by decide
  have hlinked : store.forest.Linked := by
    intro j cell hcell p hp
    match j, hcell with
    | 0, hcell =>
      cases hcell
      cases hp
    | 1, hcell =>
      cases hcell
      cases hp
      decide
  have hwritable : AllWritable 3
      (runIn (store.forest.scope 1).outer body (store.forest.scope 1).own).events := by
    decide
  obtain ⟨hothers, hparents, hown, -, -, htable⟩ := executeAll_frame 3 body store 1 hi hlinked
  exact ⟨⟨hi, hlinked⟩, hothers 0 (by decide) (by decide), hparents 1 (by decide), hown,
    (htable hwritable).2⟩

end Node

end Abacus
