import Abacus.Text.Basic
import Abacus.Text.Str

/-!
# Arguments of the command line

An argument is a value or names an option. Options have long names, of which a beginning is enough if
no other name begins so, and letters, which may stand together after one dash. A value may be attached
to a long name with an equals sign. After the first letter an equals sign says nothing: `-v=v` is the
same as `-vv`. What looks like a negative number or has a blank in it is a value, and so is everything
after the first `--`.

## Main definitions

* `Flag` — the options
* `Role` — what an argument is
* `Fault` — why a list of arguments is refused
* `classify`, `classifyAll` — the role of one argument, of all
* `cluster` — the options of letters that stand together
-/

namespace Abacus.CommandLine

/-- The options. -/
inductive Flag
  | help
  | verbose
  | frontEnd
  | traceFile
  deriving DecidableEq

namespace Flag

/-- The long name of an option. -/
def long? : Flag → Option String
  | .help => some "--help"
  | .verbose => none
  | .frontEnd => some "--parser"
  | .traceFile => some "--debug-file"

/-- The letter of an option. An option with a letter takes no value. -/
def letter? : Flag → Option Char
  | .help => some 'h'
  | .verbose => some 'v'
  | .frontEnd | .traceFile => none

/-- Whether an option has a value. -/
def takesValue : Flag → Bool
  | .help | .verbose => false
  | .frontEnd | .traceFile => true

/-- All names of an option, the letter first. -/
def title (f : Flag) : String :=
  let short := f.letter?.map fun c => String.ofList ['-', c]
  "/".intercalate (short.toList ++ f.long?.toList)

/-- The option with the given letter, among some. -/
def ofLetter? (flags : List Flag) (c : Char) : Option Flag :=
  flags.find? (·.letter? = some c)

/-- The options whose long names begin in the given way, with these names. -/
def beginning (flags : List Flag) (start : List Char) : List (Flag × String) :=
  flags.filterMap fun f => (f.long?.filter fun name => start.isPrefixOf name.toList).map (f, ·)

end Flag

/-- Why arguments are refused. -/
inductive Fault
  /-- An argument is the beginning of several long names. -/
  | ambiguous (arg : String) (names : List String)
  /-- An option that has no value is given one. -/
  | needless (flag : Flag) (value : String)
  /-- An option has no value. -/
  | valueless (flag : Flag)
  /-- A value is none of those that are allowed. -/
  | badChoice (title : String) (value : String) (choices : List String)
  | required (name : String)
  | unrecognized (args : List String)

/-- The wording of a fault. -/
def Fault.message : Fault → String
  | .ambiguous arg names =>
    "ambiguous option: " ++ arg ++ " could match " ++ ", ".intercalate names
  | .needless flag value =>
    "argument " ++ flag.title ++ ": ignored explicit argument " ++ Text.quote value
  | .valueless flag => "argument " ++ flag.title ++ ": expected one argument"
  | .badChoice title value choices =>
    "argument " ++ title ++ ": invalid choice: " ++ Text.quote value ++ " (choose from " ++
      ", ".intercalate (choices.map Text.quote) ++ ")"
  | .required name => "the following arguments are required: " ++ name
  | .unrecognized args => "unrecognized arguments: " ++ " ".intercalate args

/-- What an argument is. -/
inductive Role
  | value
  /-- A long name, and the value attached to it. -/
  | long (flag : Flag) (attached : Option String)
  /-- A letter, and the rest of the argument. -/
  | short (flag : Flag) (tail : List Char)
  /-- An option that is not known. -/
  | unknown
  /-- The mark after which all arguments are values. -/
  | divider
  deriving DecidableEq

/-- Whether a text is made of digits of any script. -/
def isDigits (cs : List Char) : Bool :=
  cs.all fun c => (Text.digit? c).isSome

/-- Whether an argument looks like a negative number: a dash and digits, or a dash, any number of
digits, a point and digits. One line feed at the end does not count. -/
def isNegativeNumeral (arg : List Char) : Bool :=
  match if arg.getLast? = some '\n' then arg.dropLast else arg with
  | '-' :: cs =>
    match cs.span (· ≠ '.') with
    | (whole, []) => !whole.isEmpty && isDigits whole
    | (whole, _ :: places) => isDigits whole && !places.isEmpty && isDigits places
  | _ => false

/-- The role of an argument that begins like an option and is none. -/
def stranger (arg : List Char) : Role :=
  if isNegativeNumeral arg || arg.contains ' ' then .value else .unknown

/-- The role of an argument before the divider, where some options are known. -/
def classify (flags : List Flag) (arg : List Char) : Except Fault Role :=
  match arg with
  | '-' :: '-' :: _ =>
    let (name, rest) := arg.span (· ≠ '=')
    let attached := match rest with
      | [] => none
      | _ :: value => some (String.ofList value)
    match Flag.beginning flags name with
    | [] => .ok (stranger arg)
    | [(flag, _)] => .ok (.long flag attached)
    | several => .error (.ambiguous (String.ofList arg) (several.map (·.2)))
  | '-' :: c :: tail =>
    match Flag.ofLetter? flags c with
    | some flag => .ok (.short flag tail)
    | none => .ok (stranger arg)
  | _ => .ok .value

/-- The arguments with their roles. -/
def classifyAll (flags : List Flag) : List String → Except Fault (List (String × Role))
  | [] => .ok []
  | arg :: args =>
    if arg = "--" then .ok ((arg, .divider) :: args.map (·, .value))
    else do
      let role ← classify flags arg.toList
      return (arg, role) :: (← classifyAll flags args)

/-- The options of letters that stand together: a first option and the letters after it. A rest that
does not begin with the letter of an option is a value that the option before it does not have. -/
def letters (flags : List Flag) (first : Flag) : List Char → Except Fault (List Flag)
  | [] => .ok [first]
  | c :: cs =>
    match Flag.ofLetter? flags c with
    | some flag => return first :: (← letters flags flag cs)
    | none => .error (.needless first (String.ofList (c :: cs)))

/-- The options of an argument with one dash: a first option and the rest of the argument. An equals
sign right after the first letter is passed over, but something has to come after it. -/
def cluster (flags : List Flag) (first : Flag) : List Char → Except Fault (List Flag)
  | ['='] => .error (.needless first "")
  | '=' :: rest => letters flags first rest
  | rest => letters flags first rest

end Abacus.CommandLine
