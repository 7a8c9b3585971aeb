import Abacus.Text.Str
import Abacus.Token.Basic

/-!
# Operators

There are four families of operators: on one operand, arithmetic, logical and relational. A symbol
may belong to several families, and means one operator in each.

## Main definitions

* `UnaryOp`, `BinaryOp`, `LogicOp`, `RelOp` — the families
* `Operator` — what the families have in common: a name, their members, symbols and labels
* `Operator.ofSymbol?` — the operator of a family with a given symbol
* `Operator.display` — an operator as messages show it
-/

namespace Abacus

/-- Operators on one operand. -/
inductive UnaryOp
  | plus
  | minus
  | not
  deriving DecidableEq

/-- Arithmetic operators. -/
inductive BinaryOp
  | add
  | sub
  | mul
  | div
  | pow
  deriving DecidableEq

/-- Logical operators. -/
inductive LogicOp
  | or
  | and
  deriving DecidableEq

/-- Relational operators. -/
inductive RelOp
  | eq
  | ne
  | gt
  | lt
  | ge
  | le
  deriving DecidableEq

/-- A family of operators. -/
class Operator (α : Type) where
  /-- The name of the family. -/
  family : String
  /-- The members of the family, in order. -/
  members : List α
  /-- How an operator is written in a source. -/
  symbol : α → String
  /-- The name of an operator within its family. -/
  label : α → String

namespace Operator

variable {α : Type} [Operator α]

/-- The operator of a family that is written as the given symbol. -/
def ofSymbol? (s : String) : Option α :=
  members.find? fun op : α => symbol op = s

/-- An operator as messages show it. -/
def display (op : α) : String :=
  "<" ++ family α ++ "." ++ label op ++ ": " ++ Text.quote (symbol op) ++ ">"

/-- The message about a text that is no operator of the family; the text is given as shown. -/
def unknownMessage (α : Type) [Operator α] (shown : String) : String :=
  shown ++ " is not a valid " ++ family α

end Operator

instance : Operator UnaryOp where
  family := "UnOp"
  members := [.plus, .minus, .not]
  symbol
    | .plus => "+"
    | .minus => "-"
    | .not => "!"
  label
    | .plus => "PLUS"
    | .minus => "MINUS"
    | .not => "NEGATE"

instance : Operator BinaryOp where
  family := "BinOp"
  members := [.add, .sub, .mul, .div, .pow]
  symbol
    | .add => "+"
    | .sub => "-"
    | .mul => "*"
    | .div => "/"
    | .pow => "^"
  label
    | .add => "ADD"
    | .sub => "SUB"
    | .mul => "MUL"
    | .div => "DIV"
    | .pow => "POW"

instance : Operator LogicOp where
  family := "LogOp"
  members := [.or, .and]
  symbol
    | .or => "||"
    | .and => "&&"
  label
    | .or => "OR"
    | .and => "AND"

instance : Operator RelOp where
  family := "RelOp"
  members := [.eq, .ne, .gt, .lt, .ge, .le]
  symbol
    | .eq => "=="
    | .ne => "!="
    | .gt => ">"
    | .lt => "<"
    | .ge => ">="
    | .le => "<="
  label
    | .eq => "EQ"
    | .ne => "NE"
    | .gt => "GT"
    | .lt => "LT"
    | .ge => "GTE"
    | .le => "LTE"

end Abacus
