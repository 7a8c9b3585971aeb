import Abacus.Eval.Statement
import Abacus.Program.Reading

/-!
# Sessions

A session runs sources and trees one after the other. The bindings of each run are there for the next,
also those that a failing run made before it failed. A session is described by its table of bindings;
what it shows of the events is for the caller to choose.

## Main definitions

* `RunError` — why a run has no results
* `Report` — results or an error, the bindings after the run, and its events
* `runTree`, `runSource` — runs a tree, runs a source
-/

namespace Abacus

/-- Why a run has no results. -/
inductive RunError
  | source (error : SourceError)
  | eval (error : EvalError)

namespace RunError

/-- The wording of an error. -/
def message : RunError → String
  | .source error => error.message
  | .eval error => error.message

/-- Whether an error is about the program. Such errors are reported to a user; all others end the
program that runs the session. -/
def isLanguage : RunError → Bool
  | .source error => error.isLanguage
  | .eval error => !error.isMisuse

end RunError

/-- What is known after a run. -/
structure Report where
  result : Except RunError (List (Option Value))
  table : Table
  events : List Event

namespace Report

/-- The report about a source that cannot be read: the bindings stay as they are. -/
def unread (error : SourceError) (table : Table) (events : List Event) : Report :=
  ⟨.error (.source error), table, events⟩

/-- The report with events before all others. -/
def after (events : List Event) (report : Report) : Report :=
  { report with events := events ++ report.events }

/-- The lines that a report prints for its results. -/
def lines (results : List (Option Value)) : List String :=
  results.filterMap fun v => v.map Value.toText

end Report

/-- Runs statements in a scope. -/
def runIn (outer : List Table) (body : List Node) (table : Table) : Report :=
  let outcome := Node.run outer body table
  ⟨outcome.result.mapError .eval, outcome.table, outcome.events⟩

/-- Runs the statements of a tree. -/
def runTree (body : List Node) (table : Table) : Report :=
  runIn [] body table

/-- Runs a program that has been read; each statement is an event first. -/
def runProgram (program : List Stmt) (table : Table) : Report :=
  let body := Stmt.toNodes program
  (runTree body table).after (body.map .statement)

/-- Runs a source that is read by descent; its tokens are an event. -/
def runByDescent (source : List Char) (table : Table) : Report :=
  match tokenize source with
  | .error e => .unread (.lexical e) table []
  | .ok tokens =>
    match readTokens tokens with
    | .error e => .unread e table [.tokens tokens]
    | .ok program => (runProgram program table).after [.tokens tokens]

/-- Runs a source that is read in the way that is chosen. -/
def runSource (choice : FrontEnd.Choice) (source : List Char) (table : Table) : Report :=
  match choice with
  | .known .descent => runByDescent source table
  | _ =>
    match readSourceAs choice source with
    | .error e => .unread e table []
    | .ok program => runProgram program table

end Abacus
