import Abacus.Proofs.Eval.Hazards
import Abacus.Proofs.Store.Refinement
import Abacus.Proofs.Store.Writable

/-!
# Blocks in a trace

A trace marks where blocks are entered and left, with the depths of their scopes. The marks of a run that
succeeds are well nested: every block that is entered is left, the blocks inside it first, and its depth is
that of the scope around it and one more. The marks of a run that fails are the beginning of such marks: what
is entered and not left are the blocks that were being executed when the error was raised.

Which blocks these are is said without the trace, by going down from a statement that raises an error to the
place where the error comes from.

## Main definitions

* `Event.isMark`, `isBlockLine` — the events and the lines of blocks
* `openAfter` — the blocks that are open after some marks, if the marks are well nested
* `Node.RaisedIn`, `Node.RaisedAmong` — an error is raised inside some blocks

## Main results

* `Node.exec_nested`, `Node.run_nested` — the marks of statements that succeed
* `Node.exists_raisedIn` — every error is raised inside some blocks
* `Node.RaisedIn.opens` — the marks of a statement that fails
* `Node.blocks_nested` — the marks of a run, in its trace and in place
-/

namespace Abacus

/-! ### Marks of blocks -/

/-- Whether an event marks that a block is entered or left. -/
def Event.isMark : Event → Bool
  | .entered _ | .left _ => true
  | _ => false

/-- Whether a line of a trace says that a block is entered or left. -/
def isBlockLine (line : String) : Bool :=
  "enter block".toList.isPrefixOf line.toList || "leave block".toList.isPrefixOf line.toList

/-- The depths of the blocks that are open after some marks, innermost first, where those in `stack` are open
before. The marks are made in a scope of the given depth. A block that is entered has to be marked with the
depth of its scope; a block is left when all blocks inside it are, with the depth with which it was
entered. -/
def openAfter (depth : Nat) (stack : List Nat) : List Event → Option (List Nat)
  | [] => some stack
  | .entered d :: marks =>
    if d = depth + stack.length + 1 then openAfter depth (d :: stack) marks else none
  | .left d :: marks =>
    match stack with
    | [] => none
    | top :: stack => if d = top then openAfter depth stack marks else none
  | _ :: _ => none

theorem openAfter_append (depth : Nat) (stack : List Nat) (marks marks' : List Event) :
    openAfter depth stack (marks ++ marks') =
      (openAfter depth stack marks).bind fun stack => openAfter depth stack marks' := by
  induction marks generalizing stack with
  | nil => rfl
  | cons mark marks ih =>
    cases mark with
    | entered d =>
      simp only [List.cons_append, openAfter]
      split
      · exact ih _
      · rfl
    | left d =>
      cases stack with
      | nil => rfl
      | cons top stack =>
        simp only [List.cons_append, openAfter]
        split
        · exact ih _
        · rfl
    | _ => rfl

/-- Leaving all blocks that are open, the innermost first, leaves none open. -/
theorem openAfter_map_left (depth : Nat) (stack : List Nat) :
    openAfter depth stack (stack.map .left) = some [] := by
  induction stack with
  | nil => rfl
  | cons d stack ih => simpa [openAfter] using ih

/-- In a scope of the given depth, some events open blocks of the given depths, outermost first, and leave
all others as they are. -/
def Opens (depth : Nat) (events : List Event) (depths : List Nat) : Prop :=
  ∀ base stack, depth = base + stack.length →
    openAfter base stack (events.filter Event.isMark) = some (depths.reverse ++ stack)

section Opens

variable {depth : Nat} {events events' : List Event} {depths : List Nat}

theorem opens_of_unmarked (h : ∀ event ∈ events, event.isMark = false) : Opens depth events [] := by
  intro base stack _
  rw [List.filter_eq_nil_iff.2 (by simpa using h)]
  rfl

theorem Opens.append (h : Opens depth events []) (h' : Opens depth events' depths) :
    Opens depth (events ++ events') depths := by
  intro base stack hdepth
  rw [List.filter_append, openAfter_append, h base stack hdepth]
  exact h' base stack hdepth

theorem Opens.cons {event : Event} (hevent : event.isMark = false) (h : Opens depth events depths) :
    Opens depth (event :: events) depths :=
  (opens_of_unmarked (List.forall_mem_singleton.2 hevent)).append h

/-- A block is entered with the depth of its scope. -/
theorem Opens.entered (h : Opens (depth + 1) events depths) :
    Opens depth (.entered (depth + 1) :: events) ((depth + 1) :: depths) := by
  intro base stack hdepth
  rw [List.filter_cons_of_pos rfl, openAfter, if_pos (by omega), List.reverse_cons,
    List.append_assoc, List.singleton_append]
  exact h base _ (by rw [List.length_cons]; omega)

theorem Opens.closed (h : Opens (depth + 1) events []) :
    Opens depth (.entered (depth + 1) :: events ++ [.left (depth + 1)]) [] := by
  intro base stack hdepth
  rw [List.filter_append, openAfter_append, h.entered base stack hdepth]
  change openAfter base ((depth + 1) :: stack) [.left (depth + 1)] = some stack
  rw [openAfter, if_pos rfl, openAfter]

end Opens

/-! ### Lines of blocks -/

section Lines

theorem isBlockLine_bound (x : Json) (v : Value) : isBlockLine (Event.bound x v).text = false := by
  change isBlockLine ("let " ++ _ ++ _ ++ _ ++ _ ++ _) = false
  simp [isBlockLine, List.isPrefixOf]

theorem isBlockLine_decided (v : Value) (truth : Bool) :
    isBlockLine (Event.decided v truth).text = false := by
  change isBlockLine ("if condition " ++ _ ++ _ ++ _) = false
  simp [isBlockLine, List.isPrefixOf]

theorem isBlockLine_entered (d : Nat) : isBlockLine (Event.entered d).text = true := by
  change isBlockLine ("enter block (depth " ++ _ ++ _) = true
  simp [isBlockLine, List.isPrefixOf]

theorem isBlockLine_left (d : Nat) : isBlockLine (Event.left d).text = true := by
  change isBlockLine ("leave block (depth " ++ _ ++ _) = true
  simp [isBlockLine, List.isPrefixOf]

/-- If the lines of some events tell whether they are marks, the lines of blocks in a trace of all details
are those of the marks. -/
theorem filter_trace {level : Int} (hlevel : 3 ≤ level) {events : List Event}
    (h : ∀ event ∈ events, isBlockLine event.text = event.isMark) :
    (trace level events).filter isBlockLine = (events.filter Event.isMark).map Event.text := by
  have hall : events.filter (fun event => event.level ≤ level) = events := by
    refine List.filter_eq_self.2 fun event _ => decide_eq_true ?_
    cases event <;> simp only [Event.level] <;> omega
  rw [trace, hall, List.filter_map]
  exact congrArg _ (List.filter_congr h)

end Lines

/-! ### Statements that succeed -/

/-- The lines of an outcome tell which events are marks, and where it has a result, all blocks that are
entered in a scope of the given depth are left. -/
structure Outcome.Nested {α : Type} (depth : Nat) (o : Outcome α) : Prop where
  lines : ∀ event ∈ o.events, isBlockLine event.text = event.isMark
  closed : ∀ a, o.result = .ok a → Opens depth o.events []

namespace Outcome

variable {α β : Type} {depth : Nat}

theorem nested_of_events_eq_nil {o : Outcome α} (h : o.events = []) : o.Nested depth := by
  refine ⟨?_, fun _ _ => opens_of_unmarked ?_⟩ <;> rw [h] <;> exact List.forall_mem_nil _

theorem Nested.andThen {o : Outcome α} (h : o.Nested depth) {f : α → Table → Outcome β}
    (hf : ∀ a, o.result = .ok a → (f a o.table).Nested depth) : (o.andThen f).Nested depth := by
  obtain ⟨result, table, events⟩ := o
  cases result with
  | error e => exact ⟨h.lines, nofun⟩
  | ok a =>
    have hnext := hf a rfl
    exact ⟨List.forall_mem_append.2 ⟨h.lines, hnext.lines⟩,
      fun b hb => (h.closed a rfl).append (hnext.closed b hb)⟩

theorem Nested.decided {o : Outcome α} (h : o.Nested depth) (v : Value) (truth : Bool) :
    (o.after (.decided v truth)).Nested depth :=
  ⟨List.forall_mem_cons.2 ⟨isBlockLine_decided v truth, h.lines⟩,
    fun a ha => (h.closed a ha).cons rfl⟩

end Outcome

namespace Node

theorem bindName_nested {depth : Nat} (x : Json) (v : Value) (table : Table) :
    (bindName x v table).Nested depth := by
  rw [bindName]
  split
  · exact Outcome.nested_of_events_eq_nil rfl
  · exact ⟨List.forall_mem_singleton.2 (isBlockLine_bound x v),
      fun _ _ => opens_of_unmarked (List.forall_mem_singleton.2 rfl)⟩

theorem enclose_nested {depth : Nat} {o : Outcome (Option Value)} (h : o.Nested (depth + 1))
    (table : Table) : (enclose table (depth + 1) o).Nested depth := by
  obtain ⟨result, inner, events⟩ := o
  have hlines : ∀ event ∈ Event.entered (depth + 1) :: events,
      isBlockLine event.text = event.isMark :=
    List.forall_mem_cons.2 ⟨isBlockLine_entered _, h.lines⟩
  cases result with
  | error e =>
    refine ⟨?_, nofun⟩
    rw [enclose]
    exact List.forall_mem_append.2 ⟨hlines, List.forall_mem_nil _⟩
  | ok v =>
    refine ⟨List.forall_mem_append.2 ⟨hlines, ?_⟩, fun _ _ => (h.closed v rfl).closed⟩
    exact List.forall_mem_singleton.2 (isBlockLine_left _)

/-- The body of a block runs as statements do, and has the last of their results. -/
theorem execBody_eq_run (outer : List Table) (last : Option Value) (body : List Node) (table : Table) :
    execBody outer last body table =
      (run outer body table).andThen fun vs table => .done (vs.getLastD last) table := by
  induction body generalizing last table with
  | nil => simp [execBody, run]
  | cons s ss ih =>
    simp only [execBody, run, ih, Outcome.andThen_assoc, Outcome.done_andThen, List.getLastD_cons]

theorem run_nested {body : List Node} {outer : List Table}
    (h : ∀ s ∈ body, ∀ table, (exec outer s table).Nested outer.length) (table : Table) :
    (run outer body table).Nested outer.length := by
  induction body generalizing table with
  | nil => exact Outcome.nested_of_events_eq_nil rfl
  | cons s ss ih =>
    obtain ⟨hs, hss⟩ := List.forall_mem_cons.1 h
    rw [run]
    exact (hs table).andThen fun v _ => (ih hss _).andThen fun _ _ => Outcome.nested_of_events_eq_nil rfl

/-- The blocks that a statement enters are left, if it succeeds. -/
theorem exec_nested (s : Node) :
    ∀ (outer : List Table) (table : Table), (exec outer s table).Nested outer.length := by
  induction s using induction_children with
  | _ s ih =>
    intro outer table
    cases s with
    | expr e =>
      rw [exec]
      exact Outcome.nested_of_events_eq_nil rfl
    | define x e =>
      rw [exec]
      exact (Outcome.nested_of_events_eq_nil rfl).andThen fun v _ => bindName_nested x v _
    | branch test yes no =>
      rw [exec]
      refine (Outcome.nested_of_events_eq_nil rfl).andThen fun v _ =>
        (Outcome.nested_of_events_eq_nil rfl).andThen fun truth _ => Outcome.Nested.decided ?_ v truth
      split
      · exact ih yes (by simp [children]) outer _
      · split
        · exact Outcome.nested_of_events_eq_nil rfl
        · exact ih no (by simp [children]) outer _
    | block body =>
      rw [exec]
      split
      · exact Outcome.nested_of_events_eq_nil rfl
      · -- the body runs in a scope that is one deeper
        have hbody : (run (table :: outer) body []).Nested (outer.length + 1) :=
          run_nested (fun s hs table' => ih s hs (table :: outer) table') []
        rw [execBody_eq_run]
        exact enclose_nested (hbody.andThen fun _ _ => Outcome.nested_of_events_eq_nil rfl) table
    | _ =>
      rw [exec]
      · exact Outcome.nested_of_events_eq_nil rfl
      all_goals simp

/-! ### Statements that fail -/

/-- A block that is being executed: its statements and the depth of its scope. -/
structure OpenBlock where
  body : List Node
  depth : Nat

/-- In a scope given by its own table and the tables around it, a statement raises an error while some
blocks are being executed, outermost first. -/
inductive RaisedIn : List Table → Node → Table → EvalError → List OpenBlock → Prop
  /-- The statement is no conditional and no block, and raises the error itself. -/
  | plain {outer : List Table} {s : Node} {table : Table} {e : EvalError}
      (hbranch : ∀ test yes no, s ≠ .branch test yes no) (hblock : ∀ body, s ≠ .block body)
      (h : (exec outer s table).result = .error e) : RaisedIn outer s table e []
  /-- The test has no value, or none that is a truth value. -/
  | test {outer : List Table} {test yes no : Node} {table : Table} {e : EvalError}
      (h : (eval ⟨table, outer⟩ test >>= Value.asTruth) = .error e) :
      RaisedIn outer (.branch test yes no) table e []
  /-- The branch that is taken raises the error. -/
  | branch {outer : List Table} {test yes no : Node} {table : Table} {v : Value} {truth : Bool}
      {e : EvalError} {nest : List OpenBlock} (hv : eval ⟨table, outer⟩ test = .ok v)
      (htruth : v.asTruth = .ok truth) (hgap : truth = false → no.isGap = false)
      (h : RaisedIn outer (if truth then yes else no) table e nest) :
      RaisedIn outer (.branch test yes no) table e nest
  /-- A block without statements is not executed. -/
  | empty {outer : List Table} {table : Table} : RaisedIn outer (.block []) table .emptyBlock []
  /-- A statement of a block raises the error, after those before it have run. -/
  | block {outer : List Table} {done rest : List Node} {s : Node} {table : Table}
      {vs : List (Option Value)} {e : EvalError} {nest : List OpenBlock}
      (hdone : (run (table :: outer) done []).result = .ok vs)
      (h : RaisedIn (table :: outer) s (run (table :: outer) done []).table e nest) :
      RaisedIn outer (.block (done ++ s :: rest)) table e
        (⟨done ++ s :: rest, outer.length + 1⟩ :: nest)

/-- One of several statements raises an error while some blocks are being executed, after those before it
have run. -/
def RaisedAmong (outer : List Table) (body : List Node) (table : Table) (e : EvalError)
    (nest : List OpenBlock) : Prop :=
  ∃ done s rest vs, body = done ++ s :: rest ∧ (run outer done table).result = .ok vs ∧
    RaisedIn outer s (run outer done table).table e nest

section Branch

variable {outer : List Table} {test yes no : Node} {table : Table}

theorem exec_branch_of_error {e : EvalError}
    (h : (eval ⟨table, outer⟩ test >>= Value.asTruth) = .error e) :
    exec outer (.branch test yes no) table = .fail e table := by
  rw [exec]
  rcases bind_eq_error_iff.1 h with h | ⟨v, hv, h⟩
  · rw [h]
    rfl
  · rw [hv]
    simp [Outcome.lift, Outcome.andThen, h, Outcome.fail]

theorem exec_branch_of_ok {v : Value} {truth : Bool} (hv : eval ⟨table, outer⟩ test = .ok v)
    (htruth : v.asTruth = .ok truth) :
    exec outer (.branch test yes no) table = .after (.decided v truth)
      (if truth then exec outer yes table
        else if no.isGap then .done none table else exec outer no table) := by
  rw [exec, hv]
  simp [Outcome.lift, Outcome.andThen, htruth]

end Branch

section Raised

variable {outer : List Table} {table : Table} {e : EvalError}

/-- Every error of a statement is raised inside some blocks. -/
theorem exists_raisedIn (s : Node) : ∀ (outer : List Table) (table : Table) (e : EvalError),
    (exec outer s table).result = .error e → ∃ nest, RaisedIn outer s table e nest := by
  induction s using induction_children with
  | _ s ih =>
    intro outer table e h
    cases s with
    | branch test yes no =>
      cases htest : (eval ⟨table, outer⟩ test >>= Value.asTruth) with
      | error e' =>
        rw [exec_branch_of_error htest] at h
        cases h
        exact ⟨[], .test htest⟩
      | ok truth =>
        obtain ⟨v, hv, htruth⟩ := bind_eq_ok_iff.1 htest
        rw [exec_branch_of_ok hv htruth] at h
        cases truth with
        | true =>
          obtain ⟨nest, hnest⟩ := ih yes (by simp [children]) outer table e h
          exact ⟨nest, .branch hv htruth (by simp) hnest⟩
        | false =>
          by_cases hgap : no.isGap = true
          · simp [hgap, Outcome.after, Outcome.done] at h
          · simp only [Bool.false_eq_true, if_false, hgap] at h
            obtain ⟨nest, hnest⟩ := ih no (by simp [children]) outer table e h
            exact ⟨nest, .branch hv htruth (fun _ => by simpa using hgap) hnest⟩
    | block body =>
      rw [exec] at h
      split at h
      · rename_i hempty
        obtain rfl := List.isEmpty_iff.1 hempty
        cases h
        exact ⟨[], .empty⟩
      · -- the error comes from one of the statements in the block
        have hrun : (run (table :: outer) body []).result = .error e := by
          rw [execBody_eq_run] at h
          cases hbody : (run (table :: outer) body []).result with
          | error e' => simpa [enclose, Outcome.andThen, hbody] using h
          | ok vs => simp [enclose, Outcome.andThen, hbody, Outcome.done] at h
        obtain ⟨done, s, rest, vs, rfl, hdone, hs, -⟩ := exists_failing hrun
        obtain ⟨nest, hnest⟩ := ih s (by simp [children]) _ _ e hs
        exact ⟨_, .block hdone hnest⟩
    | _ => exact ⟨[], .plain (by simp) (by simp) h⟩

/-- A statement that is no conditional and no block makes no marks. -/
theorem isMark_of_plain {s : Node} (hbranch : ∀ test yes no, s ≠ .branch test yes no)
    (hblock : ∀ body, s ≠ .block body) :
    ∀ event ∈ (exec outer s table).events, event.isMark = false := by
  cases s with
  | expr e =>
    rw [exec]
    exact List.forall_mem_nil _
  | define x e =>
    rw [exec]
    cases eval ⟨table, outer⟩ e with
    | error e => exact List.forall_mem_nil _
    | ok v =>
      change ∀ event ∈ (bindName x v table).events, event.isMark = false
      rw [bindName]
      cases x.key? with
      | none => exact List.forall_mem_nil _
      | some key => exact List.forall_mem_singleton.2 rfl
  | branch test yes no => exact absurd rfl (hbranch test yes no)
  | block body => exact absurd rfl (hblock body)
  | _ =>
    rw [exec]
    · exact List.forall_mem_nil _
    all_goals simp

/-- Statements run up to the first that fails. -/
theorem run_of_failing {done : List Node} {s : Node} {vs : List (Option Value)}
    (hdone : (run outer done table).result = .ok vs)
    (hs : (exec outer s (run outer done table).table).result = .error e) (rest : List Node) :
    (run outer (done ++ s :: rest) table).result = .error e ∧
      (run outer (done ++ s :: rest) table).events =
        (run outer done table).events ++ (exec outer s (run outer done table).table).events := by
  rw [run_append]
  simp [run, Outcome.andThen, hdone, hs]

/-- The marks of a statement that fails: the blocks that it enters and does not leave are those in which the
error is raised. -/
theorem RaisedIn.opens {s : Node} {nest : List OpenBlock} (h : RaisedIn outer s table e nest) :
    (exec outer s table).result = .error e ∧
      Opens outer.length (exec outer s table).events (nest.map OpenBlock.depth) := by
  induction h with
  | plain hbranch hblock h => exact ⟨h, opens_of_unmarked (isMark_of_plain hbranch hblock)⟩
  | test h =>
    rw [exec_branch_of_error h]
    exact ⟨rfl, opens_of_unmarked (List.forall_mem_nil _)⟩
  | @branch outer test yes no table v truth e nest hv htruth hgap h ih =>
    have hexec : exec outer (.branch test yes no) table =
        .after (.decided v truth) (exec outer (if truth then yes else no) table) := by
      rw [exec_branch_of_ok hv htruth]
      cases truth with
      | true => rfl
      | false => simp [hgap rfl]
    rw [hexec]
    exact ⟨ih.1, ih.2.cons rfl⟩
  | @empty outer table =>
    have hexec : exec outer (.block []) table = .fail .emptyBlock table := by
      rw [exec]
      rfl
    rw [hexec]
    exact ⟨rfl, opens_of_unmarked (List.forall_mem_nil _)⟩
  | @block outer done rest s table vs e nest hdone h ih =>
    obtain ⟨hresult, hevents⟩ := run_of_failing hdone ih.1 rest
    -- the block is entered, the statements before run to their end, and nothing is left
    have hexec : exec outer (.block (done ++ s :: rest)) table =
        ⟨.error e, table, .entered (outer.length + 1) ::
          (run (table :: outer) (done ++ s :: rest) []).events⟩ := by
      rw [exec, if_neg (by simp), execBody_eq_run]
      simp [enclose, Outcome.andThen, hresult]
    rw [hexec, hevents]
    refine ⟨rfl, Opens.entered (Opens.append ?_ ih.2)⟩
    exact (run_nested (fun s _ table => exec_nested s _ table) []).closed vs hdone

theorem RaisedIn.body_ne_nil {s : Node} {nest : List OpenBlock} (h : RaisedIn outer s table e nest) :
    ∀ block ∈ nest, block.body ≠ [] := by
  induction h with
  | plain _ _ _ | test _ | empty => exact List.forall_mem_nil _
  | branch _ _ _ _ ih => exact ih
  | block _ _ ih => exact List.forall_mem_cons.2 ⟨by simp, ih⟩

/-- The marks of statements of which one fails. -/
theorem RaisedAmong.opens {body : List Node} {nest : List OpenBlock}
    (h : RaisedAmong outer body table e nest) :
    Opens outer.length (run outer body table).events (nest.map OpenBlock.depth) ∧
      ∀ block ∈ nest, block.body ≠ [] := by
  obtain ⟨done, s, rest, vs, rfl, hdone, hraised⟩ := h
  obtain ⟨hresult, hopens⟩ := hraised.opens
  rw [(run_of_failing hdone hresult rest).2]
  have hnested : (run outer done table).Nested outer.length :=
    run_nested (fun s _ table => exec_nested s outer table) table
  exact ⟨(hnested.closed vs hdone).append hopens, hraised.body_ne_nil⟩

theorem exists_raisedAmong {body : List Node} (h : (run outer body table).result = .error e) :
    ∃ nest, RaisedAmong outer body table e nest := by
  obtain ⟨done, s, rest, vs, hbody, hdone, hs, -⟩ := exists_failing h
  obtain ⟨nest, hnest⟩ := exists_raisedIn s _ _ _ hs
  exact ⟨nest, done, s, rest, vs, hbody, hdone, hnest⟩

end Raised

/-- Statements run in a scope of a tree of scopes, traced in all details. The lines of blocks in the trace are
those of the marks. If the run succeeds, the marks are well nested: each block is entered with the depth of
the scope of the run, the number of blocks that are open, and one more, and left with the same depth. If it
fails, the marks can be continued to such marks, and the blocks that are entered and not left are those that
were being executed when the error was raised, outermost first; none of them is empty. In a linked tree the
same lines are written in place, if literals and bindings are in range and no name that is defined is an
integer of too many digits. -/
theorem blocks_nested (forest : Forest) (i : Nat) (body : List Node) {level : Int}
    (hlevel : 3 ≤ level) :
    let scope := forest.scope i
    let outcome := run scope.outer body scope.own
    let marks := outcome.events.filter Event.isMark
    (trace level outcome.events).filter isBlockLine = marks.map Event.text ∧
    (∀ results, outcome.result = .ok results → openAfter (forest.depth i) [] marks = some []) ∧
    (∀ e, outcome.result = .error e →
      (∃ more, openAfter (forest.depth i) [] (marks ++ more) = some []) ∧
      (∃ nest, RaisedAmong scope.outer body scope.own e nest) ∧
      ∀ nest, RaisedAmong scope.outer body scope.own e nest →
        openAfter (forest.depth i) [] marks = some (nest.map OpenBlock.depth).reverse ∧
        ∀ block ∈ nest, block.body ≠ []) ∧
    (i < forest.cells.length → forest.Linked → AllLiteralsInRange body →
      (∀ part ∈ subtreesAll body, part.BindsShortName) →
      (∀ table ∈ scope.own :: scope.outer, table.InRange) →
      ∀ lines, ((executeAll level i body).on ⟨forest, lines⟩).2.lines =
        lines ++ trace level outcome.events) := by
  intro scope outcome marks
  have hnested : outcome.Nested scope.outer.length :=
    run_nested (fun s _ table => exec_nested s scope.outer table) scope.own
  have hdepth : scope.outer.length = forest.depth i + ([] : List Nat).length := rfl
  refine ⟨filter_trace hlevel hnested.lines, fun results h => ?_, fun e h => ?_, ?_⟩
  · exact hnested.closed results h _ [] hdepth
  · have hopens (nest : List OpenBlock) (hnest : RaisedAmong scope.outer body scope.own e nest) :
        openAfter (forest.depth i) [] marks = some (nest.map OpenBlock.depth).reverse := by
      rw [hnest.opens.1 _ [] hdepth, List.append_nil]
    obtain ⟨nest, hnest⟩ := exists_raisedAmong h
    refine ⟨⟨(nest.map OpenBlock.depth).reverse.map .left, ?_⟩, ⟨nest, hnest⟩,
      fun nest hnest => ⟨hopens nest hnest, hnest.opens.2⟩⟩
    rw [openAfter_append, hopens nest hnest]
    exact openAfter_map_left _ _
  · intro hi hlinked hliterals hnames htables lines
    obtain ⟨hown, houter⟩ := List.forall_mem_cons.1 htables
    have hwritable : outcome.Writable := run_writable houter hliterals hnames hown
    exact (refines_executeAll level i scope.outer body ⟨forest, lines⟩ scope.own
      (hlinked.holds_scope hi) fun event hevent _ => hwritable event hevent).lines_eq

/-- In the inner one of two scopes, the second block of a program fails in a block inside it. The two are
open at the end, the first block is not. -/
theorem blocks_nested_inner :
    let forest := (Forest.root.child 0).1
    let inner : List Node := [.expr (.name (.str "z"))]
    let body : List Node := [.block [.expr (.int 1)], .branch (.bool true) (.block [.block inner]) .gap]
    let outcome := run (forest.scope 1).outer body (forest.scope 1).own
    (3 : Int) ≤ 3 ∧
      RaisedAmong (forest.scope 1).outer body (forest.scope 1).own (.unknownName (.str "z"))
        [⟨[.block inner], 2⟩, ⟨inner, 3⟩] ∧
      (trace 3 outcome.events).filter isBlockLine =
        [Event.entered 2, .left 2, .entered 2, .entered 3].map Event.text ∧
      openAfter 1 [] (outcome.events.filter Event.isMark) = some [3, 2] ∧
      ((executeAll 3 1 body).on ⟨forest, []⟩).2.lines = trace 3 outcome.events := by
  intro forest inner body outcome
  have hlevel : (3 : Int) ≤ 3 := by decide
  have hresult : outcome.result = .error (.unknownName (.str "z")) := rfl
  have hraised : RaisedAmong (forest.scope 1).outer body (forest.scope 1).own
      (.unknownName (.str "z")) [⟨[.block inner], 2⟩, ⟨inner, 3⟩] := by
    refine ⟨[.block [.expr (.int 1)]], _, [], _, rfl, rfl, .branch rfl rfl nofun ?_⟩
    -- in both blocks the first statement fails
    apply @RaisedIn.block _ [] _ _ _ [] _ _ rfl
    apply @RaisedIn.block _ [] _ _ _ [] _ _ rfl
    exact .plain nofun nofun rfl
  have hlinked : forest.Linked := Forest.holds_root.child.linked
  have hliterals : AllLiteralsInRange body := by
    simp [body, inner, AllLiteralsInRange, LiteralsInRange, InRange, minInt, maxInt]
  have hnames : ∀ part ∈ subtreesAll body, part.BindsShortName := by
    simp [body, inner, subtreesAll, Node.inner, BindsShortName]
  have htables : ∀ table ∈ (forest.scope 1).own :: (forest.scope 1).outer, table.InRange := by
    -- neither of the two scopes binds a name
    have hempty : (forest.scope 1).own :: (forest.scope 1).outer = [[], []] := rfl
    rw [hempty]
    simp [Table.InRange]
  obtain ⟨hlines, -, hfails, hwritten⟩ := blocks_nested forest 1 body hlevel
  obtain ⟨-, -, hopen⟩ := hfails _ hresult
  exact ⟨hlevel, hraised, hlines.trans rfl, (hopen _ hraised).1,
    hwritten (by decide) hlinked hliterals hnames htables []⟩

end Node

end Abacus
