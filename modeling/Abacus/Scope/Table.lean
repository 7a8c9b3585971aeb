import Abacus.Json.Basic
import Abacus.Value

/-!
# Tables of bindings

A scope keeps its bindings in a table. Names that come from a source are strings; names that come from
a document may also be null, truth values or numbers, and two numbers that are equal are one name.
Lists and objects are no names.

## Main definitions

* `Key`, `Json.key?` — what a name is compared by
* `Table` — bindings in the order in which the names were first bound
* `Table.get?`, `Table.set` — the value of a name, a new value for a name
* `Table.listing` — the bindings as text, sorted by name
* `Scope` — a table and the tables around it
* `Scope.lookup` — the value that a name has in a scope
-/

namespace Abacus

/-- What a name is compared by. -/
inductive Key
  | null
  | number (q : Rat)
  | infinity (negative : Bool)
  | nan
  | text (s : Str)
  deriving DecidableEq

/-- What a document is compared by where it is used as a name. Truth values count as one and
zero. -/
def Json.key? : Json → Option Key
  | .null => some .null
  | .bool b => some (.number (if b then 1 else 0))
  | .int n => some (.number n)
  | .float .nan => some .nan
  | .float (.infinity negative) => some (.infinity negative)
  | .float x => x.toRat?.map .number
  | .str s => some (.text s)
  | .arr _ => none
  | .obj _ => none

/-- A binding: the name as it was first written, and its value. A name may be bound to no value. -/
structure Binding where
  key : Key
  name : Json
  value : Option Value

/-- Bindings in the order in which the names were first bound, no name twice. -/
abbrev Table := List Binding

namespace Table

/-- What a name is bound to in a table. -/
def get? (table : Table) (key : Key) : Option (Option Value) :=
  (table.find? (·.key = key)).map (·.value)

/-- Binds a name. A name that is bound already keeps its place. -/
def set (table : Table) (key : Key) (name : Json) (value : Option Value) : Table :=
  match table with
  | [] => [⟨key, name, value⟩]
  | b :: table => if b.key = key then { b with value } :: table else b :: set table key name value

/-- The bindings as names and printed values, sorted by name. Different names that look alike are
sorted by their values. -/
def listing (table : Table) : List (String × String) :=
  let entries := table.map fun b => (b.name.shown, (b.value.map Value.toText).getD "None")
  entries.mergeSort fun a b => a.1 < b.1 || (a.1 = b.1 && a.2 ≤ b.2)

end Table

/-- The value of a name in the nearest of several tables that binds it. -/
def lookup (key : Key) : List Table → Option Value
  | [] => none
  | table :: tables =>
    match table.get? key with
    | some value => value
    | none => lookup key tables

/-- A scope: its own table and the tables of the scopes around it, nearest first. -/
structure Scope where
  own : Table
  outer : List Table

namespace Scope

/-- How many scopes are around a scope. -/
def depth (scope : Scope) : Nat := scope.outer.length

/-- The value that a name has in a scope. -/
def lookup (scope : Scope) (key : Key) : Option Value :=
  Abacus.lookup key (scope.own :: scope.outer)

end Scope

end Abacus
