/-!
# Values

Running an expression gives an integer, a truth value or a list of values. Lists may mix kinds.

## Main definitions

* `Value`, `ValueType` — values and their types
* `Value.toText` — a value as it is printed
* `Value.display` — a value as messages describe it
-/

namespace Abacus

/-- A value. -/
inductive Value
  | int (n : Int)
  | bool (b : Bool)
  | list (items : List Value)

/-- The types of values. -/
inductive ValueType
  | integer
  | bool
  | list
  deriving DecidableEq

/-- The name of a type. -/
def ValueType.name : ValueType → String
  | .integer => "Integer"
  | .bool => "Bool"
  | .list => "List"

namespace Value

/-- The type of a value. -/
def type : Value → ValueType
  | .int _ => .integer
  | .bool _ => .bool
  | .list _ => .list

mutual

/-- Values are compared part by part. -/
def decEq : (v w : Value) → Decidable (v = w)
  | .int m, .int n =>
    if h : m = n then .isTrue (by rw [h]) else .isFalse fun e => h (by injection e)
  | .bool b, .bool c =>
    if h : b = c then .isTrue (by rw [h]) else .isFalse fun e => h (by injection e)
  | .list vs, .list ws =>
    match decEqAll vs ws with
    | .isTrue h => .isTrue (by rw [h])
    | .isFalse h => .isFalse fun e => h (by injection e)
  | .int _, .bool _ => .isFalse nofun
  | .int _, .list _ => .isFalse nofun
  | .bool _, .int _ => .isFalse nofun
  | .bool _, .list _ => .isFalse nofun
  | .list _, .int _ => .isFalse nofun
  | .list _, .bool _ => .isFalse nofun

/-- Lists of values are compared item by item. -/
def decEqAll : (vs ws : List Value) → Decidable (vs = ws)
  | [], [] => .isTrue rfl
  | [], _ :: _ => .isFalse nofun
  | _ :: _, [] => .isFalse nofun
  | v :: vs, w :: ws =>
    match decEq v w, decEqAll vs ws with
    | .isTrue h, .isTrue h' => .isTrue (by rw [h, h'])
    | .isFalse h, _ => .isFalse fun e => h (by injection e)
    | _, .isFalse h => .isFalse fun e => h (by injection e)

end

instance : DecidableEq Value := decEq

mutual

/-- A value as it is printed, which is also how it is written in a source. -/
def toText : Value → String
  | .int n => toString n
  | .bool b => if b then "true" else "false"
  | .list items => "[" ++ ", ".intercalate (toTexts items) ++ "]"

/-- Values as they are printed. -/
def toTexts : List Value → List String
  | [] => []
  | v :: vs => v.toText :: toTexts vs

end

mutual

/-- A value as messages describe it. -/
def display : Value → String
  | .int n => "IntegerVal(value=" ++ toString n ++ ")"
  | .bool b => "BoolVal(value=" ++ (if b then "True" else "False") ++ ")"
  | .list [item] => "ListVal(items=(" ++ item.display ++ ",))"
  | .list items => "ListVal(items=(" ++ ", ".intercalate (displayAll items) ++ "))"

/-- Values as messages describe them. -/
def displayAll : List Value → List String
  | [] => []
  | v :: vs => v.display :: displayAll vs

end

/-- The result of a statement as it is printed; a statement without a result prints nothing. -/
def optionText : Option Value → String
  | none => ""
  | some v => v.toText

end Value

end Abacus
