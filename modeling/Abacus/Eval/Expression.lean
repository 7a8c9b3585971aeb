import Abacus.Eval.Operation
import Abacus.Scope.Table

/-!
# Evaluating expressions

Operands are evaluated from left to right, and all of them: there is no short cut for the logical
operators. An arithmetic or relational operator looks at its operands when it has both; a logical
operator takes the truth of its left operand before it evaluates the right one. Trees and values nest as deep
as they like.

## Main definitions

* `Scope.valueOf` — the value of a name
* `Node.eval` — the value of an expression
-/

namespace Abacus

/-- The value of a name in a scope. -/
def Scope.valueOf (scope : Scope) (x : Json) : Except EvalError Value :=
  match x.key? with
  | none => .error (.compoundName x)
  | some key =>
    match scope.lookup key with
    | some v => .ok v
    | none => .error (.unknownName x)

namespace Node

mutual

/-- The value of an expression in a scope. -/
def eval (scope : Scope) : Node → Except EvalError Value
  | .int n => .ok (.int n)
  | .bool b => .ok (.bool b)
  | .name x => scope.valueOf x
  | .list items => do return .list (← evalAll scope items)
  | .unary op e => do op.apply (← eval scope e)
  | .binary op l r => do
    let v ← eval scope l
    let w ← eval scope r
    op.apply v w
  | .logical op l r => do
    let b ← (← eval scope l).asTruth
    let c ← (← eval scope r).asTruth
    return .bool (op.apply b c)
  | .relational op l r => do
    let v ← eval scope l
    let w ← eval scope r
    op.apply v w
  | other => .error (.misplacedExpression other)

/-- The values of several expressions in a scope. -/
def evalAll (scope : Scope) : List Node → Except EvalError (List Value)
  | [] => .ok []
  | e :: es => do
    let v ← eval scope e
    let vs ← evalAll scope es
    return v :: vs

end

end Node

end Abacus
