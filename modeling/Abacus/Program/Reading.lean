import Abacus.Program.Automaton
import Abacus.Program.Descent
import Abacus.Token.Terminal

/-!
# Reading sources

There are two ways to read a source text, which build the same programs. The descent reads the tokens
of the whole text; every fault of a token is found before the grammar is looked at. The automaton takes
one lexeme at a time and stops at the first that fits nowhere, so that a fault of grammar hides the
faults of tokens after it, and it looks at the size of literals only when the whole text has been read
or when a message is about one.

## Main definitions

* `FrontEnd` — the two ways to read
* `FrontEnd.Choice` — which of them is chosen
* `SourceError` — why a source text is no program
* `Automaton.read` — reads a source with the automaton
* `readSource`, `readSourceAs` — reads a source either way, reads it in the way that is chosen
-/

namespace Abacus

/-- The ways to read a source. -/
inductive FrontEnd
  | descent
  | automaton
  deriving DecidableEq

namespace FrontEnd

/-- The name under which a way to read is chosen. -/
def name : FrontEnd → String
  | .descent => "descent"
  | .automaton => "lark"

/-- All ways to read. -/
def all : List FrontEnd := [.descent, .automaton]

/-- The way to read with the given name. -/
def ofName? (name : String) : Option FrontEnd :=
  all.find? (·.name = name)

/-- The choice of a way to read. A choice of something else is kept in the form that messages show. -/
inductive Choice
  | known (frontEnd : FrontEnd)
  | unknown (shown : String)
  deriving DecidableEq

/-- The choice of the way to read with the given name. -/
def Choice.ofName (name : String) : Choice :=
  match ofName? name with
  | some frontEnd => .known frontEnd
  | none => .unknown (Text.quote name)

end FrontEnd

/-- Why a source text is no program. -/
inductive SourceError
  | lexical (error : LexError)
  | grammar (error : ParseError)
  /-- The automaton read a program with a literal of too many digits. -/
  | longLiteral (digits : Nat)
  /-- What was chosen is no way to read. -/
  | unknownFrontEnd (shown : String)

namespace SourceError

/-- The wording of an error. -/
def message : SourceError → String
  | .lexical error => error.message
  | .grammar error => error.message
  | .longLiteral digits =>
    "Error trying to process rule \"integer\":\n\n" ++ digitLimitMessage digits
  | .unknownFrontEnd shown =>
    "unknown parser " ++ shown ++ "; expected one of (" ++
      ", ".intercalate (FrontEnd.all.map fun f => Text.quote f.name) ++ ")"

/-- Whether an error is about the text, and not about a limit on numerals or the choice of a way to
read. -/
def isLanguage : SourceError → Bool
  | .lexical (.tooManyDigits _) => false
  | .lexical _ => true
  | .grammar _ => true
  | .longLiteral _ => false
  | .unknownFrontEnd _ => false

end SourceError

namespace Automaton

/-- The token of a lexeme that a message is about. The literal is checked as if it stood alone. -/
def tokenFor (l : Lexeme) : Except SourceError Token :=
  match { l with pos := .start }.token with
  | .ok t => .ok { t with pos := l.pos }
  | .error e => .error (.lexical e)

/-- The error at the end of a text that is no program yet. -/
def endOfInput (last : Option Lexeme) : SourceError :=
  match last with
  | none => .grammar (.endOfInput none)
  | some l =>
    match tokenFor l with
    | .ok t => .grammar (.endOfInput (some t))
    | .error e => e

/-- The error about a lexeme that the automaton cannot take. -/
def refuse (state : State) (l : Lexeme) : SourceError :=
  match tokenFor l with
  | .ok t => .grammar (blame state t)
  | .error e => e

/-- Takes the lexemes of a text one by one, `last` being the one before. Returns the program and its
lexemes. -/
def readFrom (state : State) (last : Option Lexeme) (pos : Position) (text : List Char) :
    Except SourceError (List Stmt × List Lexeme) :=
  match _h : scan pos text with
  | .ending =>
    match finish state with
    | some body => .ok (body, [])
    | none => .error (endOfInput last)
  | .fault c start => .error (.lexical (.ofFault c start))
  | .lexeme l rest =>
    match step state l.bare with
    | none => .error (refuse state l)
    | some state => do
      let (body, ls) ← readFrom state (some l) l.stop rest
      return (body, l :: ls)
termination_by text.length
decreasing_by exact scan_shorter _h

/-- The error about the first literal that is too large or too long. -/
def literalError? : List Lexeme → Option SourceError
  | [] => none
  | l :: ls =>
    match l.token with
    | .ok _ => literalError? ls
    | .error (.tooManyDigits digits) => some (.longLiteral digits)
    | .error e => some (.lexical e)

/-- Reads a source with the automaton. -/
def read (source : List Char) : Except SourceError (List Stmt) := do
  let (body, ls) ← readFrom initial none .start source
  match literalError? ls with
  | some e => .error e
  | none => return body

/-- The error that a source would raise if it were no program yet. -/
def endOfSource (source : List Char) : SourceError :=
  match lexemes source with
  | .ok ls => endOfInput ls.getLast?
  | .error (c, pos) => .lexical (.ofFault c pos)

end Automaton

/-- Reads the tokens of a source by descent. -/
def readTokens (tokens : List Token) : Except SourceError (List Stmt) :=
  (parse tokens).mapError .grammar

/-- Reads a source. -/
def readSource (frontEnd : FrontEnd) (source : List Char) : Except SourceError (List Stmt) :=
  match frontEnd with
  | .automaton => Automaton.read source
  | .descent =>
    match tokenize source with
    | .ok tokens => readTokens tokens
    | .error e => .error (.lexical e)

/-- Reads a source in the way that is chosen. -/
def readSourceAs (choice : FrontEnd.Choice) (source : List Char) :
    Except SourceError (List Stmt) :=
  match choice with
  | .known frontEnd => readSource frontEnd source
  | .unknown shown => .error (.unknownFrontEnd shown)

end Abacus
