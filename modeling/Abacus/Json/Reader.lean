import Abacus.Json.Basic
import Abacus.Number.Numeral
import Abacus.Text.Basic

/-!
# Reading documents

A reader of JSON notation over a list of characters. Each reading function takes the text that is
left and returns a document and the text after it, or a fault. A fault records how many characters
were left where it was found, and becomes a line and a column at the end.

The numbers `NaN`, `Infinity` and `-Infinity` are accepted. A key that occurs twice has the last
value, at the place of the first. An integer with more than `digitLimit` digits is refused. Two halves of a
pair side by side make one character, and all other halves stay as they are. Lists and objects nest as deep as
they like.

## Main definitions

* `Json.Cause` — what is wrong with a text that is no document
* `Json.ReadError` — a cause with its place, or an integer that is too long
* `Json.read` — reads a whole text
-/

namespace Abacus

namespace Json

/-- What is wrong with a text that is no document. -/
inductive Cause
  | byteOrderMark
  | value
  | extraData
  | propertyName
  | colon
  | comma
  | unterminated
  | controlCharacter
  | escape
  | unicodeEscape
  deriving DecidableEq

/-- The wording of a cause. -/
def Cause.message : Cause → String
  | .byteOrderMark => "Unexpected UTF-8 BOM (decode using utf-8-sig)"
  | .value => "Expecting value"
  | .extraData => "Extra data"
  | .propertyName => "Expecting property name enclosed in double quotes"
  | .colon => "Expecting ':' delimiter"
  | .comma => "Expecting ',' delimiter"
  | .unterminated => "Unterminated string starting at"
  | .controlCharacter => "Invalid control character at"
  | .escape => "Invalid \\escape"
  | .unicodeEscape => "Invalid \\uXXXX escape"

/-- A fault while reading. `left` counts the characters from the faulty one to the end. -/
inductive Fault
  | malformed (cause : Cause) (left : Nat)
  | tooManyDigits (digits : Nat)

/-- The four characters that may stand between the parts of a document. -/
def isBlank (c : Char) : Bool :=
  c = ' ' || c = '\t' || c = '\n' || c = '\r'

/-- The text after the blanks at its front. -/
def skipBlanks (cs : List Char) : List Char :=
  cs.dropWhile isBlank

/-- The text after `word`, if it begins with `word`. -/
def after? : List Char → List Char → Option (List Char)
  | [], cs => some cs
  | _ :: _, [] => none
  | w :: word, c :: cs => if w = c then after? word cs else none

/-! ### Strings -/

/-- The character that a letter after a backslash stands for. -/
def escaped? (c : Char) : Option Char :=
  if c = '"' ∨ c = '\\' ∨ c = '/' then some c
  else if c = 'b' then some '\x08'
  else if c = 'f' then some '\x0c'
  else if c = 'n' then some '\n'
  else if c = 'r' then some '\r'
  else if c = 't' then some '\t'
  else none

/-- The value of a hexadecimal digit. -/
def hexDigit? (c : Char) : Option Nat :=
  if '0' ≤ c ∧ c ≤ '9' then some (c.toNat - '0'.toNat)
  else if 'a' ≤ c ∧ c ≤ 'f' then some (c.toNat - 'a'.toNat + 10)
  else if 'A' ≤ c ∧ c ≤ 'F' then some (c.toNat - 'A'.toNat + 10)
  else none

/-- The number that four hexadecimal digits stand for. -/
def hexFour? (a b c d : Char) : Option Nat := do
  let a ← hexDigit? a
  let b ← hexDigit? b
  let c ← hexDigit? c
  let d ← hexDigit? d
  return ((a * 16 + b) * 16 + c) * 16 + d

/-- Whether a number is the first half of a pair. -/
def isHighSurrogate (n : Nat) : Bool := 0xd800 ≤ n && n ≤ 0xdbff

/-- Whether a number is the second half of a pair. -/
def isLowSurrogate (n : Nat) : Bool := 0xdc00 ≤ n && n ≤ 0xdfff

/-- The codes with the given numbers; two halves of a pair make one character. -/
def joinPairs : List Nat → List Code
  | [] => []
  | [n] => [.ofNat n]
  | high :: low :: codes =>
    if isHighSurrogate high && isLowSurrogate low then
      .char (Char.ofNat (0x10000 + (high - 0xd800) * 0x400 + (low - 0xdc00))) :: joinPairs codes
    else .ofNat high :: joinPairs (low :: codes)

/-- Reads the numbers of the characters of a string after its opening quote, from which `opened`
characters are left. An escape by number is never the last thing in a text. -/
def readCodes (opened : Nat) : List Char → Except Fault (List Nat × List Char)
  | [] => .error (.malformed .unterminated opened)
  | '"' :: cs => .ok ([], cs)
  | ['\\'] => .error (.malformed .unterminated opened)
  | '\\' :: 'u' :: a :: b :: c :: d :: cs =>
    match cs.isEmpty, hexFour? a b c d with
    | false, some code => do
      let (codes, rest) ← readCodes opened cs
      return (code :: codes, rest)
    | _, _ => .error (.malformed .unicodeEscape (cs.length + 5))
  | '\\' :: c :: cs =>
    match escaped? c with
    | some c => do
      let (codes, rest) ← readCodes opened cs
      return (c.toNat :: codes, rest)
    | none =>
      if c = 'u' then .error (.malformed .unicodeEscape (cs.length + 1))
      else .error (.malformed .escape (cs.length + 2))
  | c :: cs =>
    if c.toNat ≤ 0x1f then .error (.malformed .controlCharacter (cs.length + 1))
    else do
      let (codes, rest) ← readCodes opened cs
      return (c.toNat :: codes, rest)

/-- Reads a string after its opening quote. -/
def readString (cs : List Char) : Except Fault (Str × List Char) := do
  let (codes, rest) ← readCodes (cs.length + 1) cs
  return (.ofCodes (joinPairs codes), rest)

/-! ### Numbers -/

/-- Splits a text after the digits at its front. -/
def spanDigits (cs : List Char) : List Char × List Char :=
  (cs.takeWhile Char.isDigit, cs.dropWhile Char.isDigit)

/-- The digits before the point: a zero, or any number of digits that begin with another. -/
def wholePart? : List Char → Option (List Char × List Char)
  | '0' :: cs => some (['0'], cs)
  | c :: cs => if c.isDigit then some (spanDigits (c :: cs)) else none
  | [] => none

/-- The digits after the point, if there is a point with a digit after it. -/
def fractionPart? : List Char → Option (List Char × List Char)
  | '.' :: c :: cs => if c.isDigit then some (spanDigits (c :: cs)) else none
  | _ => none

/-- The exponent, if there is a mark with a digit after it or after its sign. -/
def exponentPart? : List Char → Option (Int × List Char)
  | [] => none
  | mark :: cs =>
    if mark = 'e' ∨ mark = 'E' then
      let (negative, cs) := match cs with
        | '-' :: cs => (true, cs)
        | '+' :: cs => (false, cs)
        | cs => (false, cs)
      let (digits, rest) := spanDigits cs
      if digits.isEmpty then none
      else
        let size : Int := Nat.ofDigitChars 10 digits 0
        some (if negative then -size else size, rest)
    else none

/-- Reads a number. Without fraction and exponent it is an integer. -/
def readNumber (cs : List Char) : Except Fault (Json × List Char) :=
  let (negative, body) := match cs with
    | '-' :: rest => (true, rest)
    | rest => (false, rest)
  match wholePart? body with
  | none => .error (.malformed .value cs.length)
  | some (whole, rest) =>
    let fraction := fractionPart? rest
    let (places, rest) := fraction.getD ([], rest)
    let exponent := exponentPart? rest
    let (power, rest) := exponent.getD (0, rest)
    if fraction.isSome || exponent.isSome then
      let digits := Nat.ofDigitChars 10 (whole ++ places) 0
      .ok (.float (Binary64.ofDecimal negative digits (power - places.length)), rest)
    else if digitLimit < whole.length then .error (.tooManyDigits whole.length)
    else
      let size : Int := Nat.ofDigitChars 10 whole 0
      .ok (.int (if negative then -size else size), rest)

/-- The words that stand for a document. -/
def words : List (String × Json) :=
  [("null", .null), ("true", .bool true), ("false", .bool false), ("NaN", .float .nan),
    ("Infinity", .float (.infinity false)), ("-Infinity", .float (.infinity true))]

/-- Reads a word or a number. -/
def readScalar (cs : List Char) : Except Fault (Json × List Char) :=
  match words.findSome? fun (word, value) => (after? word.toList cs).map (value, ·) with
  | some result => .ok result
  | none => readNumber cs

/-! ### Values -/

mutual

/-- Reads a value at the front of a text. The bracket of a list takes two units of fuel, one to read it
and one to begin with the items; everything else takes no more units than it has characters. So fuel above
twice the length of the text is never used up. -/
def readValue : Nat → List Char → Except Fault (Json × List Char)
  | 0, cs => .error (.malformed .value cs.length)
  | _ + 1, '"' :: cs => do
    let (s, rest) ← readString cs
    return (.str s, rest)
  | fuel + 1, '{' :: cs =>
    match skipBlanks cs with
    | '}' :: rest => .ok (.obj [], rest)
    | rest => readFields fuel [] rest
  | fuel + 1, '[' :: cs =>
    match skipBlanks cs with
    | ']' :: rest => .ok (.arr [], rest)
    | rest => readItems fuel [] rest
  | _ + 1, cs => readScalar cs

/-- Reads the fields of an object from a key on; `done` holds those before it. -/
def readFields : Nat → List (Str × Json) → List Char → Except Fault (Json × List Char)
  | 0, _, cs => .error (.malformed .propertyName cs.length)
  | fuel + 1, done, '"' :: cs => do
    let (key, rest) ← readString cs
    match skipBlanks rest with
    | ':' :: rest =>
      let (value, rest) ← readValue fuel (skipBlanks rest)
      let done := setField key value done
      match skipBlanks rest with
      | '}' :: rest => return (.obj done, rest)
      | ',' :: rest => readFields fuel done (skipBlanks rest)
      | rest => .error (.malformed .comma rest.length)
    | rest => .error (.malformed .colon rest.length)
  | _ + 1, _, cs => .error (.malformed .propertyName cs.length)

/-- Reads the items of a list from an item on; `done` holds those before it, last first. -/
def readItems : Nat → List Json → List Char → Except Fault (Json × List Char)
  | 0, _, cs => .error (.malformed .value cs.length)
  | fuel + 1, done, cs => do
    let (item, rest) ← readValue fuel cs
    match skipBlanks rest with
    | ']' :: rest => return (.arr (item :: done).reverse, rest)
    | ',' :: rest => readItems fuel (item :: done) (skipBlanks rest)
    | rest => .error (.malformed .comma rest.length)

end

/-! ### Whole texts -/

/-- Why a text cannot be read as a document. -/
inductive ReadError
  | malformed (cause : Cause) (pos : Position) (offset : Nat)
  | tooManyDigits (digits : Nat)

/-- The wording of an error: the cause and its place, or the digit limit. -/
def ReadError.message : ReadError → String
  | .malformed cause pos offset =>
    cause.message ++ ": line " ++ toString pos.line ++ " column " ++ toString pos.column ++
      " (char " ++ toString offset ++ ")"
  | .tooManyDigits digits => digitLimitMessage digits

/-- A fault with its place in the whole text. -/
def Fault.locate (text : List Char) : Fault → ReadError
  | .malformed cause left =>
    let offset := text.length - left
    .malformed cause (Position.start.after (text.take offset)) offset
  | .tooManyDigits digits => .tooManyDigits digits

/-- Reads a value with nothing but blanks around it. -/
def readWhole (text : List Char) : Except Fault Json := do
  if text.head? = some '\ufeff' then .error (.malformed .byteOrderMark text.length)
  let (value, rest) ← readValue (2 * text.length + 1) (skipBlanks text)
  match skipBlanks rest with
  | [] => return value
  | rest => .error (.malformed .extraData rest.length)

/-- Reads a text as a document. -/
def read (text : List Char) : Except ReadError Json :=
  (readWhole text).mapError (Fault.locate text)

end Json

end Abacus
