import Abacus.Tree.Basic
import Abacus.Value

/-!
# Events of a run

While a program runs, events are recorded. Each kind of event has a level of detail, and a trace shows
the events up to a chosen level.

The line of an event is here for every event, and streams and files take every line. Lines that cannot be
put together because of an integer of too many digits are told apart where statements run in place. What an
encoding or a device refuses is left out; half of a pair in a name is written by number.

## Main definitions

* `Event` — what can happen
* `Event.level`, `Event.text` — the level of detail and the line of a trace
* `trace` — the lines of a trace at a level of detail
-/

namespace Abacus

/-- What can happen while a program is read and run. -/
inductive Event
  /-- The source was cut into tokens. -/
  | tokens (tokens : List Token)
  /-- A statement was read. -/
  | statement (node : Node)
  /-- A name was bound. -/
  | bound (x : Json) (value : Value)
  /-- A condition was decided. -/
  | decided (value : Value) (truth : Bool)
  /-- A block was entered; its scope is inside so many others. -/
  | entered (depth : Nat)
  /-- A block was left. -/
  | left (depth : Nat)
  /-- The user of the library left a note. -/
  | note (text : String)

namespace Event

/-- The level of detail at which an event is shown first. -/
def level : Event → Int
  | .tokens _ | .note _ => 1
  | .statement _ | .bound _ _ => 2
  | .decided _ _ | .entered _ | .left _ => 3

/-- The line of an event in a trace. -/
def text : Event → String
  | .tokens ts => "tokens: " ++ " ".intercalate (ts.map Token.text)
  | .statement node => "ast: " ++ node.display
  | .bound x value =>
    "let " ++ x.shown ++ ": " ++ value.type.name ++ " = " ++ value.toText
  | .decided value truth =>
    "if condition " ++ value.toText ++ " -> " ++ (if truth then "true" else "false")
  | .entered depth => "enter block (depth " ++ toString depth ++ ")"
  | .left depth => "leave block (depth " ++ toString depth ++ ")"
  | .note s => s

end Event

/-- The lines of a trace at a level of detail; there are none at level zero and below. -/
def trace (level : Int) (events : List Event) : List String :=
  (events.filter fun event => event.level ≤ level).map Event.text

end Abacus
