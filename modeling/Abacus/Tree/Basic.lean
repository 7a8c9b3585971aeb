import Abacus.Json.Basic
import Abacus.Program.Basic

/-!
# Trees

Programs are run, stored and shown as trees. A tree that comes from a source text is well formed; one
that comes from a document may have any node in any place, a gap or a list where a node should be,
and names that are no strings. Such a tree only fails when the misplaced node is run. Tokens that are
not from a text may leave literals without a number in a tree.

## Main definitions

* `Node` — a tree
* `Payload.toJson`, `Node.ofLiteral` — what a token carries, as a name and as a literal
* `Expr.toNode`, `Stmt.toNode` — programs as trees
* `Node.display` — a tree as messages and traces show it
* `Node.toJson` — a tree as a document
-/

namespace Abacus

/-- A tree. `gap` stands where a node is missing, `many` where there are several, and `unread` where a
literal has a text or nothing in place of a number. -/
inductive Node
  | gap
  | many (nodes : List Node)
  | expr (e : Node)
  | define (x : Json) (e : Node)
  | branch (test yes no : Node)
  | block (body : List Node)
  | int (n : Int)
  | unread (text : Option String)
  | bool (b : Bool)
  | name (x : Json)
  | list (items : List Node)
  | unary (op : UnaryOp) (operand : Node)
  | binary (op : BinaryOp) (left right : Node)
  | logical (op : LogicOp) (left right : Node)
  | relational (op : RelOp) (left right : Node)

/-! ### Programs as trees -/

/-- What a token carries, as a document. -/
def Payload.toJson : Option Payload → Json
  | none => .null
  | some (.int n) => .int n
  | some (.text s) => .str s

/-- The literal of a token that carries the given payload. -/
def Node.ofLiteral : Option Payload → Node
  | none => .unread none
  | some (.int n) => .int n
  | some (.text s) => .unread (some s)

mutual

/-- An expression as a tree. -/
def Expr.toNode : Expr → Node
  | .int value => .ofLiteral value
  | .bool b => .bool b
  | .name x => .name (Payload.toJson x)
  | .unary op e => .unary op e.toNode
  | .binary op l r => .binary op l.toNode r.toNode
  | .logical op l r => .logical op l.toNode r.toNode
  | .relational op l r => .relational op l.toNode r.toNode
  | .list items => .list (Expr.toNodes items)

/-- Expressions as trees. -/
def Expr.toNodes : List Expr → List Node
  | [] => []
  | e :: es => e.toNode :: Expr.toNodes es

end

mutual

/-- A statement as a tree. -/
def Stmt.toNode : Stmt → Node
  | .expr e => .expr e.toNode
  | .define x e => .define (Payload.toJson x) e.toNode
  | .ifThen test yes => .branch test.toNode yes.toNode .gap
  | .ifElse test yes no => .branch test.toNode yes.toNode no.toNode
  | .block body => .block (Stmt.toNodes body)

/-- Statements as trees. -/
def Stmt.toNodes : List Stmt → List Node
  | [] => []
  | s :: ss => s.toNode :: Stmt.toNodes ss

end

namespace Node

/-! ### Trees as text -/

/-- A node with its fields, as messages show it. -/
def displayWith (kind : String) (fields : List (String × String)) : String :=
  kind ++ "(" ++ ", ".intercalate (fields.map fun (key, value) => key ++ "=" ++ value) ++ ")"

/-- A sequence of nodes in round brackets; a single one is followed by a comma. -/
def displayRow : List String → String
  | [item] => "(" ++ item ++ ",)"
  | items => "(" ++ ", ".intercalate items ++ ")"

mutual

/-- A tree as messages and traces show it. -/
def display : Node → String
  | .gap => "None"
  | .many nodes => "[" ++ ", ".intercalate (displayAll nodes) ++ "]"
  | .expr e => displayWith "ExprStmt" [("expr", e.display)]
  | .define x e => displayWith "Let" [("ident", x.display), ("expr", e.display)]
  | .branch test yes no =>
    displayWith "If" [("test", test.display), ("branch", yes.display), ("else_branch", no.display)]
  | .block body => displayWith "Block" [("statements", displayRow (displayAll body))]
  | .int n => displayWith "Integer" [("value", toString n)]
  | .unread text => displayWith "Integer" [("value", (text.map Text.quote).getD "None")]
  | .bool b => displayWith "Bool" [("value", if b then "True" else "False")]
  | .name x => displayWith "Ident" [("name", x.display)]
  | .list items => displayWith "ListLit" [("elements", displayRow (displayAll items))]
  | .unary op e =>
    displayWith "Unary" [("operator", Operator.display op), ("operand", e.display)]
  | .binary op l r =>
    displayWith "Binary" [("operator", Operator.display op), ("lhs", l.display), ("rhs", r.display)]
  | .logical op l r =>
    displayWith "Logical"
      [("operator", Operator.display op), ("lhs", l.display), ("rhs", r.display)]
  | .relational op l r =>
    displayWith "Relational"
      [("operator", Operator.display op), ("lhs", l.display), ("rhs", r.display)]

/-- Trees as messages and traces show them. -/
def displayAll : List Node → List String
  | [] => []
  | node :: nodes => node.display :: displayAll nodes

end

/-! ### Trees as documents -/

/-- An object of the given type. -/
def object (type : String) (fields : List (Str × Json)) : Json :=
  .obj (("type", .str type) :: fields)

/-- The symbol of an operator as a document. -/
def symbolJson {α : Type} [Operator α] (op : α) : Json :=
  .str (Operator.symbol op)

mutual

/-- A tree as a document. -/
def toJson : Node → Json
  | .gap => .null
  | .many nodes => .arr (toJsons nodes)
  | .expr e => object "ExprStmt" [("expr", e.toJson)]
  | .define x e => object "Let" [("ident", x), ("expr", e.toJson)]
  | .branch test yes no =>
    object "If" [("test", test.toJson), ("branch", yes.toJson), ("else_branch", no.toJson)]
  | .block body => object "Block" [("statements", .arr (toJsons body))]
  | .int n => object "Integer" [("value", .int n)]
  | .unread text => object "Integer" [("value", (text.map fun s => Json.str s).getD .null)]
  | .bool b => object "Bool" [("value", .bool b)]
  | .name x => object "Ident" [("name", x)]
  | .list items => object "ListLit" [("elements", .arr (toJsons items))]
  | .unary op e => object "Unary" [("operator", symbolJson op), ("operand", e.toJson)]
  | .binary op l r =>
    object "Binary" [("operator", symbolJson op), ("lhs", l.toJson), ("rhs", r.toJson)]
  | .logical op l r =>
    object "Logical" [("operator", symbolJson op), ("lhs", l.toJson), ("rhs", r.toJson)]
  | .relational op l r =>
    object "Relational" [("operator", symbolJson op), ("lhs", l.toJson), ("rhs", r.toJson)]

/-- Trees as documents. -/
def toJsons : List Node → List Json
  | [] => []
  | node :: nodes => node.toJson :: toJsons nodes

end

/-- A whole program as a document. -/
def programJson (body : List Node) : Json :=
  object "Program" [("body", .arr (toJsons body))]

end Node

end Abacus
