import Abacus.Number.Numeral
import Abacus.Token.Lexeme
import Abacus.Tree.Basic

/-!
# Reading trees from documents

A document describes a tree when every object in it names the type of its node and has the fields of
that type. Otherwise reading is lenient: null and lists may stand for any node, a literal may be
given as text or as a binary number, a truth value as anything, and other fields are ignored. The
fields of a node are read in a fixed order, the operator before the operands, and the first fault is
reported.

## Main definitions

* `DocumentError` — why a document describes no tree
* `Json.toInteger` — the integer that a document denotes
* `Node.ofJson` — the tree that a document describes
* `Node.ofProgramJson` — the statements of a whole program
-/

namespace Abacus

/-- Why a document describes no tree. -/
inductive DocumentError
  | notProgram (found : Json)
  | notNode (found : Json)
  | missing (key : String)
  | unknownType (type : Json)
  | compoundType (type : Json)
  | unknownOperator (family : String) (found : Json)
  | notIterable (found : Json)
  | notNumber (found : Json)
  | numeral (error : NumeralError)
  | notANumber
  | infinite
  | outOfRange (n : Int)
  | unsupported (found : Json)

namespace DocumentError

/-- The wording of an error. -/
def message : DocumentError → String
  | .notProgram found => "Expected a Program object, got " ++ found.display
  | .notNode found => "Invalid AST object: " ++ found.display
  | .missing key => Text.quote key
  | .unknownType type => "Unknown AST node type: " ++ type.shown
  | .compoundType type => "unhashable type: '" ++ type.typeName ++ "'"
  | .unknownOperator family found => found.display ++ " is not a valid " ++ family
  | .notIterable found => "'" ++ found.typeName ++ "' object is not iterable"
  | .notNumber found =>
    "int() argument must be a string, a bytes-like object or a real number, not '" ++
      found.typeName ++ "'"
  | .numeral error => error.message
  | .notANumber => "cannot convert float NaN to integer"
  | .infinite => "cannot convert float infinity to integer"
  | .outOfRange n => (LexError.tooLarge (toString n) ⟨0, 0⟩).message
  | .unsupported found => "Unsupported node for serialization: " ++ found.typeName

end DocumentError

/-- The integer that a document denotes: truth values count as one and zero, binary numbers lose
their fraction, texts are read as numerals. -/
def Json.toInteger : Json → Except DocumentError Int
  | .bool b => .ok (if b then 1 else 0)
  | .int n => .ok n
  | .float .nan => .error .notANumber
  | .float (.infinity _) => .error .infinite
  | .float x => .ok (x.truncate?.getD 0)
  | .str s => (Numeral.read s).mapError .numeral
  | other => .error (.notNumber other)

/-- The integer that a document denotes, if it is in the range of integers. -/
def Json.toLiteral (j : Json) : Except DocumentError Int := do
  let n ← j.toInteger
  if InRange n then return n else .error (.outOfRange n)

/-- The operator whose symbol a document is. -/
def Json.toOperator {α : Type} [Operator α] (j : Json) : Except DocumentError α :=
  let found : Option α := match j with
    | .str (.text s) => Operator.ofSymbol? s
    | _ => none
  match found with
  | some op => .ok op
  | none => .error (.unknownOperator (Operator.family α) j)

namespace Node

/-- A field of an object: its key, its value, and the tree that its value describes. -/
abbrev Field := Str × Json × Except DocumentError Node

/-- The value of a field, which has to be there. -/
def fieldValue (fields : List Field) (key : String) : Except DocumentError Json :=
  match fields.lookup (.text key) with
  | some (value, _) => .ok value
  | none => .error (.missing key)

/-- The tree in a field, which has to be there. -/
def fieldNode (fields : List Field) (key : String) : Except DocumentError Node :=
  match fields.lookup (.text key) with
  | some (_, node) => node
  | none => .error (.missing key)

/-- The trees that a value holds, given the tree that it describes as a whole. The parts of a text
are its characters and those of an object its keys, none of which is a tree. -/
def parts (value : Json) (whole : Except DocumentError Node) : Except DocumentError (List Node) :=
  match value with
  | .arr _ => do
    match ← whole with
    | .many nodes => return nodes
    | node => return [node]
  | .str s =>
    match s.codes with
    | [] => .ok []
    | c :: _ => .error (.notNode (.str (.ofCodes [c])))
  | .obj [] => .ok []
  | .obj ((key, _) :: _) => .error (.notNode (.str key))
  | other => .error (.notIterable other)

/-- The trees in a field, which has to be there and to hold any number of them. -/
def fieldNodes (fields : List Field) (key : String) : Except DocumentError (List Node) :=
  match fields.lookup (.text key) with
  | some (value, whole) => parts value whole
  | none => .error (.missing key)

/-- The node of an object with the given fields. -/
def ofFields (whole : Json) (fields : List Field) : Except DocumentError Node :=
  match fields.lookup (.text "type") with
  | none => .error (.notNode whole)
  | some (.str (.text "ExprStmt"), _) => return .expr (← fieldNode fields "expr")
  | some (.str (.text "Let"), _) =>
    return .define (← fieldValue fields "ident") (← fieldNode fields "expr")
  | some (.str (.text "If"), _) => do
    let test ← fieldNode fields "test"
    let yes ← fieldNode fields "branch"
    match fields.lookup (.text "else_branch") with
    | some (_, no) => return .branch test yes (← no)
    | none => return .branch test yes .gap
  | some (.str (.text "Block"), _) => return .block (← fieldNodes fields "statements")
  | some (.str (.text "Integer"), _) => return .int (← (← fieldValue fields "value").toLiteral)
  | some (.str (.text "Bool"), _) => return .bool (← fieldValue fields "value").isTruthy
  | some (.str (.text "Ident"), _) => return .name (← fieldValue fields "name")
  | some (.str (.text "ListLit"), _) => return .list (← fieldNodes fields "elements")
  | some (.str (.text "Unary"), _) =>
    return .unary (← (← fieldValue fields "operator").toOperator) (← fieldNode fields "operand")
  | some (.str (.text "Binary"), _) =>
    return .binary (← (← fieldValue fields "operator").toOperator) (← fieldNode fields "lhs")
      (← fieldNode fields "rhs")
  | some (.str (.text "Logical"), _) =>
    return .logical (← (← fieldValue fields "operator").toOperator) (← fieldNode fields "lhs")
      (← fieldNode fields "rhs")
  | some (.str (.text "Relational"), _) =>
    return .relational (← (← fieldValue fields "operator").toOperator) (← fieldNode fields "lhs")
      (← fieldNode fields "rhs")
  | some (.arr items, _) => .error (.compoundType (.arr items))
  | some (.obj fields, _) => .error (.compoundType (.obj fields))
  | some (type, _) => .error (.unknownType type)

mutual

/-- The tree that a document describes. -/
def ofJson : Json → Except DocumentError Node
  | .null => .ok .gap
  | .arr items => return .many (← ofJsons items)
  | .obj fields => ofFields (.obj fields) (ofJsonFields fields)
  | other => .error (.notNode other)

/-- The trees that documents describe, up to the first one that does not. -/
def ofJsons : List Json → Except DocumentError (List Node)
  | [] => .ok []
  | item :: items => do
    let node ← ofJson item
    let nodes ← ofJsons items
    return node :: nodes

/-- The fields of an object with the trees that they describe. -/
def ofJsonFields : List (Str × Json) → List Field
  | [] => []
  | (key, value) :: fields => (key, value, ofJson value) :: ofJsonFields fields

end

/-- The statements of the program that a document describes. -/
def ofProgramJson (j : Json) : Except DocumentError (List Node) :=
  match j.field? "type" with
  | some (.str (.text "Program")) =>
    match j.field? "body" with
    | some body => parts body (ofJson body)
    | none => .error (.missing "body")
  | _ => .error (.notProgram j)

mutual

/-- A document that describes no node stands for itself only if it is null or a list of such
documents. -/
def plain : Json → Except DocumentError Json
  | .null => .ok .null
  | .arr items => return .arr (← plains items)
  | other => .error (.unsupported other)

/-- Documents that stand for themselves. -/
def plains : List Json → Except DocumentError (List Json)
  | [] => .ok []
  | item :: items => do
    let item ← plain item
    let items ← plains items
    return item :: items

end

end Node

end Abacus
