import Abacus.Session
import Abacus.Text.Basic

/-!
# The interactive shell

The shell reads lines. A few words are commands; every other line is run in one session. Errors about
a line are printed and the session goes on.

## Main definitions

* `Shell.Command`, `Shell.parseLine` — what a line asks for
* `Shell.Reply` — what a line prints and does
* `Shell.answer` — the reply to a line
* `Shell.Transcript`, `Shell.transcript` — the shell on a whole input
-/

namespace Abacus.Shell

/-- What a line asks for. -/
inductive Command
  | empty
  | help
  | exit
  | endOfFile
  | run (source : List Char)

/-- Characters of a command word. -/
def isCommandChar (c : Char) : Bool :=
  isWordChar c

/-- What a line asks for. A question mark asks for help, an exclamation mark is no command; otherwise
the first word decides, whatever follows it. -/
def parseLine (line : List Char) : Command :=
  match Text.strip Text.isLineBlank line with
  | [] => .empty
  | '?' :: _ => .help
  | '!' :: cs => .run ('!' :: cs)
  | cs =>
    match String.ofList (cs.takeWhile isCommandChar) with
    | "help" => .help
    | "exit" => .exit
    | "EOF" => .endOfFile
    | _ => .run cs

/-- The text that greets a user. -/
def intro : String :=
  "Inty interpreter\nType 'help' for more information, 'exit' to leave."

/-- The text before each line that is read. -/
def prompt : String := ">> "

/-- The text about the language. -/
def helpText : String :=
  "Inty evaluates integer, boolean and list expressions.\n\n" ++
    "Try 'let x = 2 ^ 3' followed by 'x * 2'. Statements on one line are\n" ++
    "separated by ';', blocks '\x7b ... \x7d' open a new scope, and\n" ++
    "'if <test> <stmt> else <stmt>' picks a branch."

/-- The reply to a line: whether the shell stops, or an error that it does not handle; the trace; what
is printed after the trace; and the bindings after the line. -/
structure Reply where
  stop : Except RunError Bool
  traced : List String
  output : String
  table : Table

/-- The reply to a line that is run: the results, or an error about the line. -/
def replyTo (level : Int) (report : Report) : Reply :=
  let traced := trace level report.events
  match report.result with
  | .ok results => ⟨.ok false, traced, Text.unlines (Report.lines results), report.table⟩
  | .error e =>
    if e.isLanguage then ⟨.ok false, traced, "error: " ++ e.message ++ "\n", report.table⟩
    else ⟨.error e, traced, "", report.table⟩

/-- The reply to a line. -/
def answer (choice : FrontEnd.Choice) (level : Int) (table : Table) (line : List Char) : Reply :=
  match parseLine line with
  | .empty => ⟨.ok false, [], "", table⟩
  | .help => ⟨.ok false, [], helpText ++ "\n", table⟩
  | .exit => ⟨.ok true, [], "", table⟩
  | .endOfFile => ⟨.ok true, [], "\n", table⟩
  | .run source => replyTo level (runSource choice source table)

/-- What the shell leaves after a whole input: what it printed, its trace, and the error that ended it,
if it did not handle one. -/
structure Transcript where
  out : String
  traced : List String
  failure : Option RunError

/-- What is printed for a line: the trace too, unless it goes elsewhere. -/
def Reply.shown (reply : Reply) (echo : Bool) : String :=
  (if echo then Text.unlines reply.traced else "") ++ reply.output

/-- The transcript of a reply that comes before another transcript. -/
def Reply.followedBy (reply : Reply) (echo : Bool) (rest : Transcript) : Transcript :=
  ⟨prompt ++ reply.shown echo ++ rest.out, reply.traced ++ rest.traced, rest.failure⟩

/-- The transcript after the greeting. The shell asks for each line; the end of the input is a line of
its own. With `echo` the trace is printed. -/
def transcriptFrom (choice : FrontEnd.Choice) (level : Int) (echo : Bool) (table : Table) :
    List (List Char) → Transcript
  | [] => (answer choice level table "EOF".toList).followedBy echo ⟨"", [], none⟩
  | line :: lines =>
    let reply := answer choice level table line
    match reply.stop with
    | .error e => reply.followedBy echo ⟨"", [], some e⟩
    | .ok true => reply.followedBy echo ⟨"", [], none⟩
    | .ok false => reply.followedBy echo (transcriptFrom choice level echo reply.table lines)

/-- The transcript of a whole input. -/
def transcript (choice : FrontEnd.Choice) (level : Int) (echo : Bool) (input : List Char) : Transcript :=
  let rest := transcriptFrom choice level echo [] (Text.lines input)
  { rest with out := intro ++ "\n" ++ rest.out }

end Abacus.Shell
