import Abacus.Text.Basic
import Abacus.Text.Str

/-!
# Integers and numerals

The integers of the language are those of 32 bits with a sign. Literals, documents and the results of
arithmetic are checked against the range.

A document may give an integer as text. Blanks around it, a sign, digits of any script and single
underscores between digits are allowed.

## Main definitions

* `minInt`, `maxInt`, `InRange` — the ends of the range, membership in the range
* `digitLimit` — numerals with more digits are refused wherever numerals are read
* `NumeralError` — why a text is no integer
* `Numeral.read` — the integer that a text denotes
-/

namespace Abacus

/-! ### The range of integers -/

/-- The least integer, `-2 ^ 31`. -/
def minInt : Int := -2147483648

/-- The largest integer, `2 ^ 31 - 1`. -/
def maxInt : Int := 2147483647

/-- Whether a number is an integer of the language. -/
def InRange (n : Int) : Prop := minInt ≤ n ∧ n ≤ maxInt

instance (n : Int) : Decidable (InRange n) :=
  inferInstanceAs (Decidable (minInt ≤ n ∧ n ≤ maxInt))

/-! ### Numerals -/

/-- Numerals with more digits than this are refused wherever numerals are read. -/
def digitLimit : Nat := 4300

/-- The message about a numeral with too many digits. -/
def digitLimitMessage (digits : Nat) : String :=
  "Exceeds the limit (" ++ toString digitLimit ++
    " digits) for integer string conversion: value has " ++ toString digits ++
    " digits; use sys.set_int_max_str_digits() to increase the limit"

/-- Why a text is no integer. -/
inductive NumeralError
  | malformed (text : Str)
  | tooManyDigits (digits : Nat)

namespace NumeralError

/-- The wording of an error; at most two hundred characters of the quoted text are shown. -/
def message : NumeralError → String
  | .malformed text =>
    "invalid literal for int() with base 10: " ++ String.ofList ((Text.quoteCodes text.codes).take 200)
  | .tooManyDigits digits => digitLimitMessage digits

end NumeralError

namespace Numeral

/-- Whether every underscore stands between two digits. -/
def wellSpaced : List Char → Bool
  | [] => true
  | ['_'] => false
  | '_' :: '_' :: _ => false
  | _ :: cs => wellSpaced cs

/-- The value of a list of digits. -/
def valueOf (digits : List Nat) : Nat :=
  digits.foldl (fun n d => 10 * n + d) 0

/-- Splits a sign off the front of a text. -/
def splitSign : List Char → Bool × List Char
  | '-' :: cs => (true, cs)
  | '+' :: cs => (false, cs)
  | cs => (false, cs)

/-- Whether a character may stand in the body of a numeral. -/
def isBody (c : Char) : Bool :=
  c = '_' || (Text.digit? c).isSome

/-- The integer that a text denotes. The digits are counted before what follows them is looked at. Half of
a pair is neither a digit nor a blank, and nor is the character in its place. -/
def read (text : Str) : Except NumeralError Int :=
  let (negative, cs) := splitSign ((text.codes.map Code.toChar).dropWhile Text.isNumeralBlank)
  let body := cs.takeWhile isBody
  let digits := body.filterMap Text.digit?
  if body.head? = some '_' ∨ wellSpaced body = false then .error (.malformed text)
  else if digitLimit < digits.length then .error (.tooManyDigits digits.length)
  else if digits.isEmpty ∨ (cs.dropWhile isBody).all Text.isNumeralBlank = false then
    .error (.malformed text)
  else .ok (if negative then -(valueOf digits : Int) else valueOf digits)

end Numeral

end Abacus
