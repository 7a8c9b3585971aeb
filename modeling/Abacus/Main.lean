import Abacus.CommandLine.Run

/-!
# The program

Connects invocations with the files, the input and the output of the system. What is printed and
written is decided elsewhere; the shell answers each line when it has been read.

## Main definitions

* `respond` — runs an invocation
* `main` — runs the program with the arguments of the system
-/

namespace Abacus.CommandLine

/-- The error on opening a file of the given name. Systems report the number of an error with either
sign. -/
def systemError (name : String) (e : IO.Error) : FileError :=
  match e with
  | .inappropriateType _ code _ | .invalidArgument _ code _ =>
    match code.toInt32.toInt.natAbs with
    | 20 => .notDirectory name
    | 21 => .isDirectory name
    | 36 => .tooLong name
    | _ => .notFound name
  | _ => .notFound name

/-- Reads the file at a path. -/
def readContents (path : Path) : IO (Except FileError (List UInt8)) := do
  let name := path.toText
  try
    let contents ← IO.FS.readBinFile name
    return .ok contents.toList
  catch e =>
    match systemError name e with
    | .notDirectory name => return .error (.notFound name)
    | error => return .error error

/-- Reads the file of an invocation; nothing if it reads none. -/
def readInput (i : Invocation) : IO (Except FileError (List UInt8)) :=
  match i.input? with
  | some path => readContents path
  | none => return .ok []

/-- Opens a file for writing. -/
def openTarget (name : String) : IO (Except FileError IO.FS.Handle) := do
  try
    let handle ← IO.FS.Handle.mk name .write
    return .ok handle
  catch e => return .error (systemError name e)

/-- Prints what a command leaves and returns its exit code. -/
def present (outcome : Outcome) : IO UInt32 := do
  IO.print outcome.out
  IO.eprint outcome.err
  match outcome.ending with
  | .exit code => return code.toUInt32
  | .failure failure =>
    IO.eprintln failure.message
    return 1

/-- Writes the document for a program beside its file. -/
def respondEmit (i : Invocation) : IO UInt32 := do
  match i.emission (← readInput i) with
  | .error outcome => present outcome
  | .ok document =>
    let name := i.documentPath.toText
    match ← openTarget name with
    | .error e => present (.failed (.file e))
    | .ok handle =>
      handle.putStr (String.ofList document)
      present (.done (name ++ "\n") [])

/-- Answers lines until the shell stops; `record` receives the lines of the trace file. -/
partial def shellLoop (s : Settings) (record : List String → IO Unit) (table : Table) :
    IO UInt32 := do
  let output ← IO.getStdout
  output.putStr Shell.prompt
  output.flush
  let line ← (← IO.getStdin).getLine
  let line := if line.isEmpty then "EOF" else line
  let reply := Shell.answer s.frontEnd s.verbosity table line.toList
  let echo := s.traceTarget = .output
  unless echo do record reply.traced
  output.putStr (reply.shown echo)
  match reply.stop with
  | .ok true => return 0
  | .ok false => shellLoop s record reply.table
  | .error e => present (.failed (.run e))

/-- Runs a program or the shell; `record` receives the lines of the trace file. -/
def respondRun (i : Invocation) (record : List String → IO Unit) : IO UInt32 := do
  match i.command with
  | .repl =>
    IO.println Shell.intro
    shellLoop i.settings record []
  | _ =>
    let outcome := i.evaluate (← readInput i) []
    record outcome.traced
    present outcome

/-- Runs an invocation; its trace file is opened first. -/
def respond (i : Invocation) : IO UInt32 := do
  match i.command, i.traceFile? with
  | .emit, _ => respondEmit i
  | _, none => respondRun i fun _ => return
  | _, some name =>
    match ← openTarget name with
    | .error e => present (.failed (.file e))
    | .ok handle =>
      respondRun i fun lines => do
        handle.putStr (Text.unlines lines)
        handle.flush

end Abacus.CommandLine

/-- Runs the program with the arguments of the system. -/
def main (args : List String) : IO UInt32 :=
  match Abacus.CommandLine.Invocation.ofArgs args with
  | .error stop => Abacus.CommandLine.present stop.outcome
  | .ok invocation => Abacus.CommandLine.respond invocation
