import Abacus.CommandLine.Argument
import Abacus.Program.Reading

/-!
# Invocations

The first value on the command line is a command. It has options and at most one operand, which come
in any order. Arguments that are not recognized are collected and refused only when all others have
been accepted.

## Main definitions

* `Command` — the commands
* `Settings` — what the options set
* `Invocation` — a command with its settings and its operand
* `Stop` — why there is no invocation: a fault, or a call for help
* `Invocation.ofArgs` — the invocation that arguments ask for
-/

namespace Abacus.CommandLine

/-- The commands. -/
inductive Command
  /-- Runs the program in a file. -/
  | run
  /-- Runs the program on the command line. -/
  | eval
  /-- Starts the shell. -/
  | repl
  /-- Writes the tree of a program as a document. -/
  | emit
  /-- Runs the tree in a document. -/
  | tree
  deriving DecidableEq

namespace Command

/-- All commands. -/
def all : List Command := [.run, .eval, .repl, .emit, .tree]

/-- The name of a command. -/
def name : Command → String
  | .run => "run"
  | .eval => "eval"
  | .repl => "repl"
  | .emit => "emit-ast"
  | .tree => "ast"

/-- The command of a name. -/
def ofName? (name : String) : Option Command :=
  all.find? (·.name = name)

/-- What the operand of a command is called. -/
def operandName? : Command → Option String
  | .run | .emit => some "program"
  | .eval => some "source"
  | .repl => none
  | .tree => some "ast_file"

end Command

/-- The name of the program. -/
def programName : String := "inty"

/-- The name of the program together with a command. -/
def callName : Option Command → String
  | none => programName
  | some command => programName ++ " " ++ command.name

/-- One line on how the program, or one of its commands, is called. -/
def usage : Option Command → String
  | none =>
    "usage: " ++ programName ++ " [-h] \x7b" ++ ",".intercalate (Command.all.map Command.name) ++
      "\x7d ...\n"
  | some command =>
    "usage: " ++ callName (some command) ++ " [-h] [-v] [--parser \x7b" ++
      ",".intercalate (FrontEnd.all.map FrontEnd.name) ++ "\x7d] [--debug-file DEBUG_FILE]" ++
      String.join (command.operandName?.toList.map (" " ++ ·)) ++ "\n"

/-- Why there is no invocation. Both are about the program or about one of its commands. -/
inductive Stop
  | help (command : Option Command)
  | fault (command : Option Command) (fault : Fault)

/-- What the options set. -/
structure Settings where
  verbosity : Nat
  frontEnd : FrontEnd.Choice
  traceFile : String
  deriving DecidableEq

/-- The settings without options. -/
def Settings.default : Settings := ⟨0, .known .descent, "debug.txt"⟩

/-- A command with its settings and its operand, which is empty if the command has none. -/
structure Invocation where
  command : Command
  settings : Settings
  operand : String
  deriving DecidableEq

/-- What the next argument of a command may belong to. -/
inductive Waiting
  | nothing
  /-- An option came last, and its value is next. -/
  | value (flag : Flag)
  /-- The operand came last, and a divider after it belongs to it. -/
  | divider
  /-- A divider came last, and the operand after it belongs to it. -/
  | operand
  deriving DecidableEq

/-- What has been learnt from the arguments of a command. -/
structure Progress where
  settings : Settings
  operand : Option String
  extras : List String
  waiting : Waiting

namespace Progress

/-- The start: nothing has been learnt. -/
def start : Progress := ⟨.default, none, [], .nothing⟩

/-- Sets an argument aside that is not recognized. -/
def setAside (p : Progress) (arg : String) : Progress :=
  { p with extras := p.extras ++ [arg] }

/-- Whether the operand of a command is still to come. -/
def wantsOperand (p : Progress) (command : Command) : Bool :=
  command.operandName?.isSome && p.operand.isNone

/-- Applies an option that has no value. -/
def apply (command : Command) (p : Progress) : Flag → Except Stop Progress
  | .help => .error (.help (some command))
  | .verbose => .ok { p with settings.verbosity := p.settings.verbosity + 1 }
  | .frontEnd | .traceFile => .ok p

/-- Applies an option that has a value. -/
def applyValue (command : Command) (p : Progress) (flag : Flag) (value : String) :
    Except Stop Progress :=
  match flag with
  | .frontEnd =>
    match FrontEnd.ofName? value with
    | some frontEnd => .ok { p with settings.frontEnd := .known frontEnd }
    | none =>
      .error (.fault (some command)
        (.badChoice flag.title value (FrontEnd.all.map FrontEnd.name)))
  | .traceFile => .ok { p with settings.traceFile := value }
  | .help | .verbose => .ok p

/-- Applies an option that has an attached value. The divider stands for no value at all: then no way
to read is chosen, and the trace file has no name. -/
def applyAttached (command : Command) (p : Progress) (flag : Flag) (value : String) :
    Except Stop Progress :=
  if value = "--" then
    match flag with
    | .frontEnd => .ok { p with settings.frontEnd := .unknown "[]" }
    | .traceFile => .ok { p with settings.traceFile := "" }
    | .help | .verbose => .ok p
  else p.applyValue command flag value

end Progress

/-- The options of every command. -/
def commandFlags : List Flag := [.help, .verbose, .frontEnd, .traceFile]

namespace Progress

/-- Takes an argument that names an option or stands for itself. The first value is the operand. -/
def takeFresh (command : Command) (p : Progress) (arg : String) : Role → Except Stop Progress
  | .value =>
    if p.wantsOperand command then .ok { p with operand := some arg, waiting := .divider }
    else .ok (p.setAside arg)
  | .divider =>
    if p.wantsOperand command then .ok { p with waiting := .operand } else .ok (p.setAside arg)
  | .unknown => .ok (p.setAside arg)
  | .short flag tail =>
    match cluster commandFlags flag tail with
    | .error fault => .error (.fault (some command) fault)
    | .ok flags => flags.foldlM (apply command) p
  | .long flag attached =>
    match flag.takesValue, attached with
    | false, none => p.apply command flag
    | false, some value => .error (.fault (some command) (.needless flag value))
    | true, some value => p.applyAttached command flag value
    | true, none => .ok { p with waiting := .value flag }

/-- Takes one argument of a command. -/
def take (command : Command) (p : Progress) (item : String × Role) : Except Stop Progress :=
  let rested := { p with waiting := .nothing }
  match p.waiting, item with
  | .value flag, (arg, .value) => rested.applyValue command flag arg
  | .value flag, _ => .error (.fault (some command) (.valueless flag))
  | .operand, (arg, _) => .ok { rested with operand := some arg }
  | .divider, (_, .divider) => .ok rested
  | _, (arg, role) => rested.takeFresh command arg role

/-- What is known after the last argument of a command: no option may lack its value, and a divider
with nothing after it is not recognized. -/
def finish (command : Command) (p : Progress) : Except Stop Progress :=
  match p.waiting with
  | .value flag => .error (.fault (some command) (.valueless flag))
  | .operand => .ok (p.setAside "--")
  | .nothing | .divider => .ok p

end Progress

/-- Reads the arguments of a command: the invocation, and what was not recognized. -/
def readCommand (command : Command) (args : List String) :
    Except Stop (Invocation × List String) := do
  let roles ← (classifyAll commandFlags args).mapError (.fault (some command))
  let p ← (← roles.foldlM (Progress.take command) .start).finish command
  match command.operandName?, p.operand with
  | some name, none => .error (.fault (some command) (.required name))
  | _, operand => return (⟨command, p.settings, operand.getD ""⟩, p.extras)

/-- Reads the command of the given name. -/
def readNamed (name : String) (args extras : List String) :
    Except Stop (Invocation × List String) :=
  match Command.ofName? name with
  | none => .error (.fault none (.badChoice "command" name (Command.all.map Command.name)))
  | some command => do
    let (invocation, others) ← readCommand command args
    return (invocation, extras ++ others)

/-- Goes through the arguments up to the command. Only the call for help is an option here. A divider
does not count as one, but as the name of a command. -/
def seekCommand (extras : List String) : List String → Except Stop (Invocation × List String)
  | [] => .error (.fault none (.required "command"))
  | arg :: args =>
    if arg = "--" ∧ args = [] then seekCommand (extras ++ [arg]) args
    else if arg = "--" then readNamed arg args extras
    else
      match classify [.help] arg.toList with
      | .error fault => .error (.fault none fault)
      | .ok .value => readNamed arg args extras
      | .ok (.long flag (some value)) => .error (.fault none (.needless flag value))
      | .ok (.long _ none) => .error (.help none)
      | .ok (.short flag tail) =>
        match cluster [.help] flag tail with
        | .error fault => .error (.fault none fault)
        | .ok _ => .error (.help none)
      | .ok .unknown | .ok .divider => seekCommand (extras ++ [arg]) args

/-- The invocation that arguments ask for. -/
def Invocation.ofArgs (args : List String) : Except Stop Invocation := do
  match ← seekCommand [] args with
  | (invocation, []) => return invocation
  | (_, extras) => .error (.fault none (.unrecognized extras))

end Abacus.CommandLine
