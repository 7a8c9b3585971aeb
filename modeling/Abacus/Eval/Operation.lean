import Abacus.Eval.Error
import Abacus.Number.Numeral

/-!
# Operators on values

Arithmetic is exact and its results are checked against the range of integers. Division rounds
toward zero. Powers are never computed when they are known to be out of range.

## Main definitions

* `checked` — a number that has to be in range
* `quotient?` — division rounding toward zero
* `power` — a power that has to be in range
* `Value.asInt`, `Value.asTruth` — a value where an integer or a truth value is wanted
* `UnaryOp.apply`, `BinaryOp.apply`, `LogicOp.apply`, `RelOp.apply` — operators on values
-/

namespace Abacus

/-! ### Arithmetic -/

/-- A number that has to be in the range of integers. -/
def checked (n : Int) : Except EvalError Int :=
  if InRange n then .ok n else .error .overflow

/-- The quotient rounded toward zero; there is none for the divisor zero. -/
def quotient? (a b : Int) : Option Int :=
  if b = 0 then none else some (a.tdiv b)

/-- A power that has to be in range. The powers of zero, one and minus one are all in range; those of
other bases with an exponent above 31 never are. -/
def power (base exponent : Int) : Except EvalError Int :=
  if base = 0 ∨ base = 1 then .ok (if exponent = 0 then 1 else base)
  else if base = -1 then .ok (if exponent % 2 = 0 then 1 else -1)
  else if 31 < exponent then .error .overflow
  else checked (Int.pow base exponent.toNat)

/-! ### Operators -/

/-- A value where an integer is wanted. -/
def Value.asInt : Value → Except EvalError Int
  | .int n => .ok n
  | other => .error (.notInteger other)

/-- A value where a truth value is wanted. Positive integers count as true, others as false. -/
def Value.asTruth : Value → Except EvalError Bool
  | .int n => .ok (0 < n)
  | .bool b => .ok b
  | other => .error (.notTruth other)

/-- An operator on one value. The plus sign leaves every value as it is. -/
def UnaryOp.apply : UnaryOp → Value → Except EvalError Value
  | .plus, v => .ok v
  | .minus, v => do return .int (← checked (-(← v.asInt)))
  | .not, v => do return .bool (!(← v.asTruth))

/-- An arithmetic operator on two integers. -/
def BinaryOp.compute : BinaryOp → Int → Int → Except EvalError Int
  | .add, x, y => checked (x + y)
  | .sub, x, y => checked (x - y)
  | .mul, x, y => checked (x * y)
  | .div, x, y =>
    match quotient? x y with
    | some q => checked q
    | none => .error .divideByZero
  | .pow, x, y => if y < 0 then .error .negativePower else power x y

/-- An arithmetic operator on two values, which have to be integers. -/
def BinaryOp.apply (op : BinaryOp) : Value → Value → Except EvalError Value
  | .int x, .int y => do return .int (← op.compute x y)
  | v, w => .error (.unsupported op v.type w.type)

/-- A logical operator on two truth values. -/
def LogicOp.apply : LogicOp → Bool → Bool → Bool
  | .or, b, c => b || c
  | .and, b, c => b && c

/-- The order of integers, for the relational operators that need it. -/
def RelOp.order? : RelOp → Option (Int → Int → Bool)
  | .eq | .ne => none
  | .gt => some fun x y => y < x
  | .lt => some fun x y => x < y
  | .ge => some fun x y => y ≤ x
  | .le => some fun x y => x ≤ y

/-- A relational operator on two values of one type. All values can be equal or not; only integers
are ordered. -/
def RelOp.apply (op : RelOp) (v w : Value) : Except EvalError Value :=
  if v.type ≠ w.type then .error (.incomparable v.type w.type)
  else match op.order?, v, w with
    | some holds, .int x, .int y => .ok (.bool (holds x y))
    | some _, _, _ => .error (.unordered op v.type)
    | none, _, _ => .ok (.bool (if op = .eq then v = w else v ≠ w))

end Abacus
