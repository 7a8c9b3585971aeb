import Abacus.Eval.Statement

/-!
# Evaluation with unbounded integers

Programs are run here as they are elsewhere, but on integers of any size: arithmetic gives its exact
result and nothing is checked. The results of all arithmetic operations are kept, in the order in which
the operations are reached; an error ends the run, so none is reached after it.

## Main definitions

* `Exact`, `ExactOutcome` — a result or an outcome, with the arithmetic that led to it
* `UnaryOp.exact`, `BinaryOp.exact` — operators with their exact results
* `Node.exactEval`, `Node.exactExec`, `Node.exactRun` — expressions, statements and programs
-/

namespace Abacus

/-- A result or an error, and the exact results of the arithmetic operations that were reached. -/
structure Exact (α : Type) where
  result : Except EvalError α
  reached : List Int

namespace Exact

variable {α β : Type}

/-- A result or an error that takes no arithmetic. -/
def lift (result : Except EvalError α) : Exact α := ⟨result, []⟩

/-- The result of an arithmetic operation. -/
def reach (n : Int) : Exact Int := ⟨.ok n, [n]⟩

/-- Goes on with a result; an error ends the computation. -/
def andThen (x : Exact α) (next : α → Exact β) : Exact β where
  result := x.result >>= fun a => (next a).result
  reached := x.reached ++
    match x.result with
    | .ok a => (next a).reached
    | .error _ => []

instance : Monad Exact where
  pure a := lift (.ok a)
  bind := andThen

end Exact

/-- An outcome, and the exact results of the arithmetic operations that were reached. -/
structure ExactOutcome (α : Type) where
  outcome : Outcome α
  reached : List Int

namespace ExactOutcome

variable {α β : Type}

/-- An outcome that takes no arithmetic. -/
def plain (outcome : Outcome α) : ExactOutcome α := ⟨outcome, []⟩

/-- An error or a result, the table staying as it is. -/
def lift (x : Exact α) (table : Table) : ExactOutcome α := ⟨.lift x.result table, x.reached⟩

/-- Goes on with a result and the table; an error ends the run. -/
def andThen (x : ExactOutcome α) (next : α → Table → ExactOutcome β) : ExactOutcome β where
  outcome := x.outcome.andThen fun a table => (next a table).outcome
  reached := x.reached ++
    match x.outcome.result with
    | .ok a => (next a x.outcome.table).reached
    | .error _ => []

/-- The outcome changed in a way that takes no arithmetic. -/
def map (f : Outcome α → Outcome β) (x : ExactOutcome α) : ExactOutcome β :=
  ⟨f x.outcome, x.reached⟩

end ExactOutcome

/-! ### Operators -/

/-- An operator on one value. Only the minus sign is arithmetic. -/
def UnaryOp.exact : UnaryOp → Value → Exact Value
  | .plus, v => return v
  | .minus, v => do return .int (← Exact.reach (-(← Exact.lift v.asInt)))
  | .not, v => do return .bool (!(← Exact.lift v.asTruth))

/-- The exact result of an arithmetic operator on two integers. Division rounds toward zero. -/
def BinaryOp.exactInt : BinaryOp → Int → Int → Except EvalError Int
  | .add, x, y => .ok (x + y)
  | .sub, x, y => .ok (x - y)
  | .mul, x, y => .ok (x * y)
  | .div, x, y => if y = 0 then .error .divideByZero else .ok (x.tdiv y)
  | .pow, x, y => if y < 0 then .error .negativePower else .ok (Int.pow x y.toNat)

/-- An arithmetic operator on two values, which have to be integers. -/
def BinaryOp.exact (op : BinaryOp) : Value → Value → Exact Value
  | .int x, .int y => do return .int (← Exact.reach (← Exact.lift (op.exactInt x y)))
  | v, w => .lift (.error (.unsupported op v.type w.type))

namespace Node

/-! ### Expressions -/

mutual

/-- The value of an expression in a scope. -/
def exactEval (scope : Scope) : Node → Exact Value
  | .int n => return .int n
  | .bool b => return .bool b
  | .name x => .lift (scope.valueOf x)
  | .list items => do return .list (← exactEvalAll scope items)
  | .unary op e => do op.exact (← exactEval scope e)
  | .binary op l r => do
    let v ← exactEval scope l
    let w ← exactEval scope r
    op.exact v w
  | .logical op l r => do
    let b ← Exact.lift (← exactEval scope l).asTruth
    let c ← Exact.lift (← exactEval scope r).asTruth
    return .bool (op.apply b c)
  | .relational op l r => do
    let v ← exactEval scope l
    let w ← exactEval scope r
    Exact.lift (op.apply v w)
  | other => .lift (.error (.misplacedExpression other))

/-- The values of several expressions in a scope. -/
def exactEvalAll (scope : Scope) : List Node → Exact (List Value)
  | [] => return []
  | e :: es => do
    let v ← exactEval scope e
    let vs ← exactEvalAll scope es
    return v :: vs

end

/-! ### Statements -/

mutual

/-- Runs a statement in a scope given by its own table and the tables around it. -/
def exactExec (outer : List Table) : Node → Table → ExactOutcome (Option Value)
  | .expr e, table => .lift (some <$> exactEval ⟨table, outer⟩ e) table
  | .define x e, table =>
    (ExactOutcome.lift (exactEval ⟨table, outer⟩ e) table).andThen fun v table =>
      .plain (bindName x v table)
  | .branch test yes no, table =>
    (ExactOutcome.lift (exactEval ⟨table, outer⟩ test) table).andThen fun v table =>
      (ExactOutcome.lift (.lift v.asTruth) table).andThen fun truth table =>
        ExactOutcome.map (.after (.decided v truth)) <|
          if truth then exactExec outer yes table
          else if no.isGap then .plain (.done none table)
          else exactExec outer no table
  | .block body, table =>
    if body.isEmpty then .plain (.fail .emptyBlock table)
    else (exactExecBody (table :: outer) none body []).map (enclose table (outer.length + 1))
  | other, table => .plain (.fail (.misplacedStatement other) table)

/-- Runs the statements of a block; the last one gives the result, `last` if there is none. -/
def exactExecBody (outer : List Table) (last : Option Value) :
    List Node → Table → ExactOutcome (Option Value)
  | [], table => .plain (.done last table)
  | s :: ss, table =>
    (exactExec outer s table).andThen fun v table => exactExecBody outer v ss table

end

/-- Runs statements one after the other, up to the first that fails. -/
def exactRun (outer : List Table) : List Node → Table → ExactOutcome (List (Option Value))
  | [], table => .plain (.done [] table)
  | s :: ss, table =>
    (exactExec outer s table).andThen fun v table =>
      (exactRun outer ss table).andThen fun vs table => .plain (.done (v :: vs) table)

end Node

end Abacus
