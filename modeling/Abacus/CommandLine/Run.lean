import Abacus.CommandLine.Invocation
import Abacus.Files.Basic
import Abacus.Json.Reader
import Abacus.Json.Writer
import Abacus.Shell
import Abacus.Text.Utf8
import Abacus.Tree.Document

/-!
# Running commands

A command prints results to one stream and reports to another, and ends with an exit code. Errors
about the program that it runs are reported; other errors end it. The trace goes to a file, which is
opened before anything else is done, or among the results if that file has no name.

## Main definitions

* `Failure`, `Ending` — how a command ends
* `Outcome` — what a command leaves
* `Invocation.evaluate` — runs a program, given the contents of its file
* `Invocation.emission` — the document of a program, given the contents of its file
* `Invocation.perform` — runs an invocation on files
* `call` — runs the program with arguments
-/

namespace Abacus.CommandLine

/-- An error that ends a command without a report. -/
inductive Failure
  | run (error : RunError)
  | document (error : DocumentError)
  | encoding (fault : Utf8.Fault)
  | file (error : FileError)

/-- The wording of a failure. -/
def Failure.message : Failure → String
  | .run error => error.message
  | .document error => error.message
  | .encoding fault => fault.message
  | .file error => error.message

/-- How a command ends. -/
inductive Ending
  | exit (code : Nat)
  | failure (failure : Failure)

/-- What a command leaves: what it printed, its reports, the lines of its trace file, and how it
ended. -/
structure Outcome where
  out : String
  err : String
  traced : List String
  ending : Ending

namespace Outcome

/-- The command has done its work. -/
def done (out : String) (traced : List String) : Outcome :=
  ⟨out, "", traced, .exit 0⟩

/-- The command reports why it cannot do its work. -/
def refused (report : String) : Outcome :=
  ⟨"", report ++ "\n", [], .exit 1⟩

/-- The command ends early. -/
def failed (failure : Failure) : Outcome :=
  ⟨"", "", [], .failure failure⟩

end Outcome

/-- The report on an error about the program that is run. -/
def errorReport (message : String) : String :=
  "error: " ++ message

/-- Where a trace goes. -/
inductive TraceTarget
  | output
  | file (name : String)
  deriving DecidableEq

namespace Settings

/-- Where the trace goes. -/
def traceTarget (s : Settings) : TraceTarget :=
  if 0 < s.verbosity ∧ s.traceFile ≠ "" then .file s.traceFile else .output

/-- The outcome of a run: the trace, then the results, or a report on an error. -/
def outcome (s : Settings) (report : Report) : Outcome :=
  let lines := trace s.verbosity report.events
  let (out, traced) := match s.traceTarget with
    | .output => (Text.unlines lines, [])
    | .file _ => ("", lines)
  match report.result with
  | .ok results => .done (out ++ Text.unlines (Report.lines results)) traced
  | .error e =>
    if e.isLanguage then ⟨out, errorReport e.message ++ "\n", traced, .exit 1⟩
    else ⟨out, "", traced, .failure (.run e)⟩

/-- The outcome of the shell on an input. -/
def shellOutcome (s : Settings) (input : List Char) : Outcome :=
  let echo := s.traceTarget = .output
  let t := Shell.transcript s.frontEnd s.verbosity echo input
  let ending : Ending := match t.failure with
    | none => .exit 0
    | some e => .failure (.run e)
  ⟨t.out, "", if echo then [] else t.traced, ending⟩

end Settings

/-- The text of a file, with line feeds at all line ends. -/
def fileText (contents : List UInt8) : Except Utf8.Fault (List Char) :=
  (Utf8.decode contents).map Text.unifyNewlines

/-- The outcome for a file that cannot be opened. A file that is not there is reported. -/
def unopened : FileError → Outcome
  | .notFound name => .refused ("Error: file " ++ name ++ " not found")
  | e => .failed (.file e)

/-- The statements of the tree in a document. A document that describes no tree is reported under the
name of its file; a literal out of range is an error about the program. -/
def documentTree (name : String) (contents : List UInt8) : Except Outcome (List Node) :=
  let invalid (message : String) : Except Outcome (List Node) :=
    .error (.refused (errorReport ("invalid AST file " ++ name ++ ": " ++ message)))
  match fileText contents with
  | .error fault => invalid fault.message
  | .ok text =>
    match Json.read text with
    | .error e => invalid e.message
    | .ok document =>
      match Node.ofProgramJson document with
      | .ok body => .ok body
      | .error (.outOfRange n) => .error (.refused (errorReport (DocumentError.outOfRange n).message))
      | .error .infinite => .error (.failed (.document .infinite))
      | .error e => invalid e.message

namespace Invocation

/-- The file that a command reads. -/
def input? (i : Invocation) : Option Path :=
  match i.command with
  | .run | .emit | .tree => some (.ofString i.operand)
  | .eval | .repl => none

/-- The file that receives the trace. -/
def traceFile? (i : Invocation) : Option String :=
  match i.command, i.settings.traceTarget with
  | .emit, _ | _, .output => none
  | _, .file name => some name

/-- Runs a source. -/
def runText (i : Invocation) (source : List Char) : Outcome :=
  i.settings.outcome (runSource i.settings.frontEnd source [])

/-- The outcome of a command that runs a program, given the contents of the file it reads, if it
reads one, and the input of the shell. -/
def evaluate (i : Invocation) (contents : Except FileError (List UInt8)) (input : List Char) :
    Outcome :=
  match i.command, contents with
  | .eval, _ => i.runText i.operand.toList
  | .repl, _ => i.settings.shellOutcome input
  | _, .error e => unopened e
  | .tree, .ok bytes =>
    match documentTree i.operand bytes with
    | .error outcome => outcome
    | .ok body => i.settings.outcome (runTree body [])
  | _, .ok bytes =>
    match fileText bytes with
    | .error fault => .failed (.encoding fault)
    | .ok source => i.runText source

/-- The path of the document for the program in a file. -/
def documentPath (i : Invocation) : Path :=
  (Path.ofString i.operand).addSuffix ".ast.json"

/-- The document for a program, given the contents of its file, or the outcome if there is none. -/
def emission (i : Invocation) (contents : Except FileError (List UInt8)) :
    Except Outcome (List Char) :=
  match contents with
  | .error e => .error (unopened e)
  | .ok bytes =>
    match fileText bytes with
    | .error fault => .error (.failed (.encoding fault))
    | .ok source =>
      match readSourceAs i.settings.frontEnd source with
      | .ok program => .ok (Node.programJson (Stmt.toNodes program)).pretty
      | .error e =>
        if e.isLanguage then .error (.refused (errorReport e.message))
        else .error (.failed (.run (.source e)))

/-- The contents of the file that a command reads; nothing if it reads none. -/
def load (i : Invocation) (files : Files) : Except FileError (List UInt8) :=
  match i.input? with
  | some path => files.load path
  | none => .ok []

/-- Writes the document for a program beside its file. -/
def performEmit (i : Invocation) (files : Files) : Outcome × Files :=
  match i.emission (i.load files) with
  | .error outcome => (outcome, files)
  | .ok document =>
    let name := i.documentPath.toText
    match files.target name with
    | .error e => (.failed (.file e), files)
    | .ok place => (.done (name ++ "\n") [], files.set place (Utf8.encode document))

/-- Runs a program; its trace file is opened first. -/
def performRun (i : Invocation) (input : List Char) (files : Files) : Outcome × Files :=
  match i.traceFile? with
  | none => (i.evaluate (i.load files) input, files)
  | some name =>
    match files.target name with
    | .error e => (.failed (.file e), files)
    | .ok place =>
      let opened := files.set place []
      let outcome := i.evaluate (i.load opened) input
      (outcome, opened.set place (Utf8.encode (Text.unlines outcome.traced).toList))

/-- Runs an invocation on files. -/
def perform (i : Invocation) (input : List Char) (files : Files) : Outcome × Files :=
  match i.command with
  | .emit => i.performEmit files
  | _ => i.performRun input files

end Invocation

/-- The outcome if there is no invocation. -/
def Stop.outcome : Stop → Outcome
  | .help command => .done (usage command) []
  | .fault command cause =>
    ⟨"", usage command ++ callName command ++ ": error: " ++ cause.message ++ "\n", [], .exit 2⟩

/-- Runs the program with arguments, an input and files. -/
def call (args : List String) (input : List Char) (files : Files) : Outcome × Files :=
  match Invocation.ofArgs args with
  | .error stop => (stop.outcome, files)
  | .ok invocation => invocation.perform input files

end Abacus.CommandLine
