import Abacus.Json.Basic

/-!
# Writing documents

Documents are written on one line or, for people, with one item or field a line and two blanks of
indentation a level. Quotes, backslashes, control characters and halves of pairs are escaped; all other
characters are written as they are.

## Main definitions

* `Json.quoted` — a string in double quotes
* `Json.compact` — a document on one line
* `Json.pretty` — an indented document
-/

namespace Abacus.Json

/-- One character of a string: short escapes where there are any, numbers for other control
characters. -/
def escape (c : Char) : List Char :=
  if c = '"' ∨ c = '\\' then ['\\', c]
  else if c = '\n' then ['\\', 'n']
  else if c = '\r' then ['\\', 'r']
  else if c = '\t' then ['\\', 't']
  else if c = '\x08' then ['\\', 'b']
  else if c = '\x0c' then ['\\', 'f']
  else if c.toNat < 0x20 then '\\' :: 'u' :: Text.hex 4 c.toNat
  else [c]

/-- One code of a string. -/
def escapeCode : Code → List Char
  | .char c => escape c
  | .half n => Text.halfChars n

/-- A string in double quotes. -/
def quoted (s : Str) : List Char :=
  '"' :: s.codes.flatMap escapeCode ++ ['"']

/-- An integer in decimal. -/
def integerChars : Int → List Char
  | .ofNat n => Nat.toDigits 10 n
  | .negSucc n => '-' :: Nat.toDigits 10 (n + 1)

/-- A binary number; the ones that are not finite have names. -/
def floatChars : Binary64 → List Char
  | .nan => "NaN".toList
  | .infinity negative => (if negative then "-Infinity" else "Infinity").toList
  | x => x.toText.toList

/-- The line end before a part at the given depth. -/
def newline (depth : Nat) : List Char :=
  '\n' :: List.replicate (2 * depth) ' '

/-- What is written for a document without parts. -/
def atomChars : Json → List Char
  | .null => "null".toList
  | .bool b => (if b then "true" else "false").toList
  | .int n => integerChars n
  | .float x => floatChars x
  | .str s => quoted s
  | .arr _ => ['[', ']']
  | .obj _ => ['{', '}']

/-- A key with the colon after it. -/
def keyChars (key : Str) : List Char :=
  quoted key ++ [':', ' ']

mutual

/-- A document on one line, in front of a text. -/
def compactOnto (rest : List Char) : Json → List Char
  | .arr (item :: items) => '[' :: compactOnto (compactItems (']' :: rest) items) item
  | .obj ((key, value) :: fields) =>
    '{' :: keyChars key ++ compactOnto (compactFields ('}' :: rest) fields) value
  | atom => atomChars atom ++ rest

/-- The items after the first one, in front of a text. -/
def compactItems (rest : List Char) : List Json → List Char
  | [] => rest
  | item :: items => ',' :: ' ' :: compactOnto (compactItems rest items) item

/-- The fields after the first one, in front of a text. -/
def compactFields (rest : List Char) : List (Str × Json) → List Char
  | [] => rest
  | (key, value) :: fields =>
    ',' :: ' ' :: keyChars key ++ compactOnto (compactFields rest fields) value

end

/-- A document on one line. -/
def compact (value : Json) : List Char :=
  compactOnto [] value

mutual

/-- A document whose inner lines are indented for `depth`, in front of a text. -/
def prettyOnto (depth : Nat) (rest : List Char) : Json → List Char
  | .arr (item :: items) =>
    '[' :: newline (depth + 1) ++
      prettyOnto (depth + 1) (prettyItems (depth + 1) (newline depth ++ ']' :: rest) items) item
  | .obj ((key, value) :: fields) =>
    '{' :: newline (depth + 1) ++ keyChars key ++
      prettyOnto (depth + 1) (prettyFields (depth + 1) (newline depth ++ '}' :: rest) fields)
        value
  | atom => atomChars atom ++ rest

/-- The items after the first one, each on a line of its own, in front of a text. -/
def prettyItems (depth : Nat) (rest : List Char) : List Json → List Char
  | [] => rest
  | item :: items =>
    ',' :: newline depth ++ prettyOnto depth (prettyItems depth rest items) item

/-- The fields after the first one, each on a line of its own, in front of a text. -/
def prettyFields (depth : Nat) (rest : List Char) : List (Str × Json) → List Char
  | [] => rest
  | (key, value) :: fields =>
    ',' :: newline depth ++ keyChars key ++ prettyOnto depth (prettyFields depth rest fields) value

end

/-- An indented document. -/
def pretty (value : Json) : List Char :=
  prettyOnto 0 [] value

end Abacus.Json
