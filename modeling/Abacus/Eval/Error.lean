import Abacus.Tree.Basic
import Abacus.Value

/-!
# Errors of evaluation

Each error has a message, which shows names and nodes with all digits of their integers. The program cannot
put together a message with an integer of more digits than numerals may have: where such an integer is an
unknown name, or stands in a misplaced node, it fails on the message in place of the error. No source holds
such an integer, and no document that is read from a text. The messages here leave this failure out.

## Main definitions

* `EvalError` — why a statement or an expression has no result
* `EvalError.message` — the wording of an error
* `EvalError.isMisuse` — the errors that only malformed trees can raise
-/

namespace Abacus

/-- Why a statement or an expression has no result. -/
inductive EvalError
  /-- No scope binds the name. Where the name is an integer of too many digits to be shown, the program fails
  on the message instead. -/
  | unknownName (x : Json)
  /-- An integer is wanted. -/
  | notInteger (found : Value)
  /-- A truth value is wanted. -/
  | notTruth (found : Value)
  /-- Arithmetic is on integers only. -/
  | unsupported (op : BinaryOp) (left right : ValueType)
  /-- Values of different types are not compared. -/
  | incomparable (left right : ValueType)
  /-- Only integers are ordered. -/
  | unordered (op : RelOp) (type : ValueType)
  | divideByZero
  | negativePower
  | overflow
  | emptyBlock
  /-- A name is a list or an object. -/
  | compoundName (x : Json)
  /-- A node that is no statement stands in the place of one. -/
  | misplacedStatement (found : Node)
  /-- A node that is no expression stands in the place of one. -/
  | misplacedExpression (found : Node)

namespace EvalError

/-- The wording of an error. -/
def message : EvalError → String
  | .unknownName x => "unknown identifier: " ++ x.shown
  | .notInteger found => "type error: " ++ found.toText ++ " is not an integer"
  | .notTruth found => "type error: " ++ found.toText ++ " cannot be used as a boolean"
  | .unsupported op left right =>
    "type error: unsupported " ++ Operator.symbol op ++ " for " ++ left.name ++ " and " ++ right.name
  | .incomparable left right =>
    "type error: cannot compare " ++ left.name ++ " with " ++ right.name
  | .unordered op type =>
    "type error: " ++ Operator.symbol op ++ " is not supported for " ++ type.name
  | .divideByZero => "cannot divide by zero"
  | .negativePower => "logic error: power must be a non-negative integer"
  | .overflow => "logic error: integer overflow"
  | .emptyBlock => "logic error: block contained no return value"
  | .compoundName x => "unhashable type: '" ++ x.typeName ++ "'"
  | .misplacedStatement found => "unknown statement node " ++ found.display
  | .misplacedExpression found => "unknown expression node " ++ found.display

/-- Whether an error is about the shape of a tree and not about the meaning of a program. Trees of
source texts never raise such an error, and sessions with a user do not report it. -/
def isMisuse : EvalError → Bool
  | .compoundName _ | .misplacedStatement _ | .misplacedExpression _ => true
  | _ => false

end EvalError

end Abacus
