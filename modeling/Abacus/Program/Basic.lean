import Abacus.Operator

/-!
# Programs

A program is a list of statements. The binary operators are arranged in levels, from the loosest to
the tightest; every level but the last groups to the left. Literals and names hold what their tokens
carry: in the programs of source texts these are numbers and words.

## Main definitions

* `Expr`, `Stmt` — expressions and statements
* `Level` — the levels of binary operators
* `Level.join?` — what an operator of a level does with two operands
* `ParseError` — why a text is no program
-/

namespace Abacus

/-- An expression. -/
inductive Expr
  | int (value : Option Payload)
  | bool (b : Bool)
  | name (x : Option Payload)
  | unary (op : UnaryOp) (operand : Expr)
  | binary (op : BinaryOp) (left right : Expr)
  | logical (op : LogicOp) (left right : Expr)
  | relational (op : RelOp) (left right : Expr)
  | list (items : List Expr)

/-- A statement. -/
inductive Stmt
  | expr (e : Expr)
  | define (x : Option Payload) (e : Expr)
  | ifThen (test : Expr) (yes : Stmt)
  | ifElse (test : Expr) (yes no : Stmt)
  | block (body : List Stmt)

/-- The levels of binary operators, loosest first. -/
inductive Level
  | or
  | and
  | relational
  | additive
  | multiplicative
  | power
  deriving DecidableEq

namespace Level

/-- The next tighter level; operands of powers are not on a level of their own. -/
def tighter : Level → Level
  | .or => .and
  | .and => .relational
  | .relational => .additive
  | .additive => .multiplicative
  | .multiplicative => .power
  | .power => .power

/-- What a token of the given kind does with two operands, if it is an operator of the level. -/
def join? : Level → Kind → Option (Expr → Expr → Expr)
  | .or, .or => some (.logical .or)
  | .and, .and => some (.logical .and)
  | .relational, .eq => some (.relational .eq)
  | .relational, .ne => some (.relational .ne)
  | .relational, .gt => some (.relational .gt)
  | .relational, .lt => some (.relational .lt)
  | .relational, .ge => some (.relational .ge)
  | .relational, .le => some (.relational .le)
  | .additive, .plus => some (.binary .add)
  | .additive, .minus => some (.binary .sub)
  | .multiplicative, .star => some (.binary .mul)
  | .multiplicative, .slash => some (.binary .div)
  | .power, .caret => some (.binary .pow)
  | _, _ => none

end Level

/-- The operator on one operand that a token of the given kind spells. -/
def UnaryOp.ofKind? : Kind → Option UnaryOp
  | .plus => some .plus
  | .minus => some .minus
  | .bang => some .not
  | _ => none

/-- Why a text is no program. -/
inductive ParseError
  /-- More tokens are needed after the last one. -/
  | endOfInput (last : Option Token)
  /-- No construct goes on with this token. -/
  | unexpected (found : Token)
  /-- Another kind of token has to stand here. -/
  | expected (kind : Kind) (found : Token)
  /-- A statement is complete and no semicolon follows it. -/
  | leftover (found : Token)
  /-- A block has no statement. -/
  | emptyBlock (brace : Token)
  deriving DecidableEq

namespace ParseError

/-- The token that an error is about. -/
def token : ParseError → Option Token
  | .endOfInput last => last
  | .unexpected found | .expected _ found | .leftover found => some found
  | .emptyBlock brace => some brace

/-- The wording of an error. -/
def message : ParseError → String
  | .endOfInput none => "syntax error: unexpected end of input"
  | .endOfInput (some last) => "syntax error: unexpected end of input after '" ++ last.text ++ "'"
  | .unexpected found => "syntax error: unexpected token " ++ found.text
  | .expected kind found => "expected " ++ kind.spelling ++ ", found " ++ found.text
  | .leftover _ => "invalid expression: tokens remaining after parsing"
  | .emptyBlock _ => "syntax error: block must contain at least one statement"

end ParseError

end Abacus
