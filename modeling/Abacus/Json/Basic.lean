import Abacus.Number.Binary64
import Abacus.Text.Str

/-!
# Documents

A program can be stored as a document and read back. Documents are data in JSON notation; a number
without fraction and exponent is an integer of any size, every other number is binary. Messages show all
digits of an integer; a document that is read from a text holds none with so many that they could not be
shown.

## Main definitions

* `Json` — a document
* `Json.typeName` — the kind of a document, as messages name it
* `Json.isTruthy` — what a document counts as where a truth value is wanted
* `Json.shown`, `Json.display` — a document as text, strings bare or quoted at the top
* `Json.field?` — the value of an object under a key
-/

namespace Abacus

/-- A document. The fields of an object are in order of first appearance and have different
keys. -/
inductive Json
  | null
  | bool (b : Bool)
  | int (n : Int)
  | float (x : Binary64)
  | str (s : Str)
  | arr (items : List Json)
  | obj (fields : List (Str × Json))

namespace Json

/-- The kind of a document, as messages name it. -/
def typeName : Json → String
  | .null => "NoneType"
  | .bool _ => "bool"
  | .int _ => "int"
  | .float _ => "float"
  | .str _ => "str"
  | .arr _ => "list"
  | .obj _ => "dict"

/-- Null, zero and whatever is empty count as false, all else as true. -/
def isTruthy : Json → Bool
  | .null => false
  | .bool b => b
  | .int n => n ≠ 0
  | .float x => !x.isZero
  | .str s => s ≠ .text ""
  | .arr items => !items.isEmpty
  | .obj fields => !fields.isEmpty

/-- The value under `key` in a list of fields. -/
def lookup (key : Str) : List (Str × Json) → Option Json
  | [] => none
  | (k, v) :: fields => if k = key then some v else lookup key fields

/-- The value of an object under a key. -/
def field? (key : Str) : Json → Option Json
  | .obj fields => lookup key fields
  | _ => none

/-- Sets a field: a key that is already there keeps its place, a new one goes to the end. -/
def setField (key : Str) (value : Json) : List (Str × Json) → List (Str × Json)
  | [] => [(key, value)]
  | (k, v) :: fields => if k = key then (k, value) :: fields else (k, v) :: setField key value fields

mutual

/-- A document as messages show it: strings in quotes, lists in brackets, objects in braces. -/
def display : Json → String
  | .null => "None"
  | .bool b => if b then "True" else "False"
  | .int n => toString n
  | .float x => x.toText
  | .str s => s.quote
  | .arr items => "[" ++ ", ".intercalate (displayItems items) ++ "]"
  | .obj fields => "\x7b" ++ ", ".intercalate (displayFields fields) ++ "\x7d"

/-- The items of a list as messages show them. -/
def displayItems : List Json → List String
  | [] => []
  | item :: items => item.display :: displayItems items

/-- The fields of an object as messages show them. -/
def displayFields : List (Str × Json) → List String
  | [] => []
  | (key, value) :: fields => (key.quote ++ ": " ++ value.display) :: displayFields fields

end

/-- A document as messages show it where a name is expected: a string is bare. -/
def shown : Json → String
  | .str s => s.shown
  | other => other.display

end Json

end Abacus
