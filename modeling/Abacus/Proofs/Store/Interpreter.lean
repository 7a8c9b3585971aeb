import Abacus.Proofs.Tree.Subtree
import Abacus.Scope.Forest
import Abacus.Session
import Abacus.Tree.Document

/-!
# Running statements in place

A tree of scopes can be changed in place while statements run in one of its scopes. A definition changes the
table of that scope, a block opens a scope inside it and leaves it behind, and a name is looked up along
the scopes that are around. Nothing is copied and nothing is undone when a statement fails.

The trace is written in place too, line by line. A line is put together only when the level of detail asks
for it, and it cannot be written if it holds a number of too many digits. Such a line ends the run.

## Main definitions

* `Store` — a tree of scopes and the lines of a trace
* `Event.Writable` — the line of an event can be written
* `Action` — a computation on a store, which keeps its changes when it fails
* `Node.evaluate`, `Node.execute`, `Node.executeAll` — expressions, statements and programs in a scope of a
  store

## Main results

* `Action.on_bind` — actions one after the other
* `Node.reads_evaluate` — evaluating an expression leaves the store as it is
-/

namespace Abacus

/-! ### Lines that can be written -/

mutual

/-- The integers in a value. -/
def Value.integers : Value → List Int
  | .int n => [n]
  | .bool _ => []
  | .list items => Value.integersAll items

/-- The integers in several values. -/
def Value.integersAll : List Value → List Int
  | [] => []
  | v :: vs => v.integers ++ Value.integersAll vs

end

mutual

/-- The integers in a document. -/
def Json.integers : Json → List Int
  | .int n => [n]
  | .arr items => Json.integersItems items
  | .obj fields => Json.integersFields fields
  | _ => []

/-- The integers in the items of a list. -/
def Json.integersItems : List Json → List Int
  | [] => []
  | item :: items => item.integers ++ Json.integersItems items

/-- The integers in the fields of an object. -/
def Json.integersFields : List (Str × Json) → List Int
  | [] => []
  | (_, value) :: fields => value.integers ++ Json.integersFields fields

end

/-- The integers that a token shows. -/
def Token.integers (t : Token) : List Int :=
  match t.kind, t.payload with
  | .integer, some (.int n) | .ident, some (.int n) => [n]
  | _, _ => []

/-- The integers that a node holds itself: a literal, or what is in its name. -/
def Node.ownIntegers : Node → List Int
  | .int n => [n]
  | node => (node.label?.map Json.integers).getD []

namespace Event

/-- The integers in the line of an event, apart from depths, which are never too long. -/
def integers : Event → List Int
  | .tokens ts => ts.flatMap Token.integers
  | .statement node => node.subtrees.flatMap Node.ownIntegers
  | .bound x v => x.integers ++ v.integers
  | .decided v _ => v.integers
  | .entered _ | .left _ | .note _ => []

/-- Whether the line of an event can be written: no integer in it has more digits than numerals may
have. -/
def Writable (event : Event) : Prop :=
  ∀ n ∈ event.integers, (Nat.toDigits 10 n.natAbs).length ≤ digitLimit

instance (event : Event) : Decidable event.Writable :=
  inferInstanceAs (Decidable (∀ n ∈ event.integers, _))

end Event

/-! ### Actions -/

/-- A tree of scopes, and the lines of the trace that have been written. -/
structure Store where
  forest : Forest
  lines : List String

/-- Why an action fails: as a run does, or because a line of the trace cannot be written. -/
inductive Halt
  | document (error : DocumentError)
  | source (error : SourceError)
  | eval (error : EvalError)
  | unwritable

/-- Runs fail in two of these ways. -/
def Halt.ofRun : RunError → Halt
  | .source e => .source e
  | .eval e => .eval e

theorem Halt.mapError_ofRun {α : Type} (result : Except EvalError α) :
    (result.mapError RunError.eval).mapError ofRun = result.mapError .eval := by
  cases result <;> rfl

/-- A computation on a store. What it has changed before it fails stays changed. -/
abbrev Action := ExceptT Halt (StateM Store)

namespace Action

variable {α β : Type}

/-- What an action gives in a store, and the store that it leaves. -/
def on (action : Action α) (store : Store) : Except Halt α × Store :=
  (ExceptT.run action).run store

/-- A result or an error, which is a failure of the given kind. -/
def raise {ε : Type} (kind : ε → Halt) : Except ε α → Action α
  | .ok a => pure a
  | .error e => throw (kind e)

/-- Writes the line of an event if it is shown at a level of detail. -/
def write (level : Int) (event : Event) : Action Unit := do
  if event.level ≤ level then
    if event.Writable then
      modify fun store => { store with lines := store.lines ++ [event.text] }
    else
      throw .unwritable

/-- The value of a name in scope `i`. -/
def value (i : Nat) (x : Json) : Action Value := do
  match x.key? with
  | none => throw (.eval (.compoundName x))
  | some key =>
    match (← get).forest.get i key with
    | some v => return v
    | none => throw (.eval (.unknownName x))

/-- Binds a name in scope `i`. -/
def put (i : Nat) (x : Json) (v : Value) : Action Unit := do
  match x.key? with
  | none => throw (.eval (.compoundName x))
  | some key =>
    modify fun store => { store with forest := (store.forest.put i key x (some v)).1 }

/-- Opens a scope inside scope `i`, and returns its number. -/
def child (i : Nat) : Action Nat :=
  modifyGet fun store =>
    ((store.forest.child i).2, { store with forest := (store.forest.child i).1 })

/-- How many scopes are around scope `i`. -/
def depth (i : Nat) : Action Nat := do
  return (← get).forest.depth i

end Action

open Abacus.Action

namespace Node

/-! ### Expressions and statements -/

mutual

/-- The value of an expression in scope `i`. -/
def evaluate (i : Nat) : Node → Action Value
  | .int n => return .int n
  | .bool b => return .bool b
  | .name x => value i x
  | .list items => do return .list (← evaluateAll i items)
  | .unary op e => do raise .eval (op.apply (← evaluate i e))
  | .binary op l r => do
    let v ← evaluate i l
    let w ← evaluate i r
    raise .eval (op.apply v w)
  | .logical op l r => do
    let b ← raise .eval (← evaluate i l).asTruth
    let c ← raise .eval (← evaluate i r).asTruth
    return .bool (op.apply b c)
  | .relational op l r => do
    let v ← evaluate i l
    let w ← evaluate i r
    raise .eval (op.apply v w)
  | other => throw (.eval (.misplacedExpression other))

/-- The values of several expressions in scope `i`. -/
def evaluateAll (i : Nat) : List Node → Action (List Value)
  | [] => return []
  | e :: es => do
    let v ← evaluate i e
    let vs ← evaluateAll i es
    return v :: vs

end

mutual

/-- Runs a statement in scope `i`. A definition binds its name before it is traced, and the events of a
block are traced around its body. -/
def execute (level : Int) (i : Nat) : Node → Action (Option Value)
  | .expr e => do return some (← evaluate i e)
  | .define x e => do
    let v ← evaluate i e
    put i x v
    write level (.bound x v)
    return none
  | .branch test yes no => do
    let v ← evaluate i test
    let truth ← raise .eval v.asTruth
    write level (.decided v truth)
    if truth then execute level i yes
    else if no.isGap then return none
    else execute level i no
  | .block body =>
    if body.isEmpty then throw (.eval .emptyBlock)
    else do
      let j ← child i
      write level (.entered (← depth j))
      let v ← executeBody level j none body
      write level (.left (← depth j))
      return v
  | other => throw (.eval (.misplacedStatement other))

/-- Runs the statements of a block in its scope; the last one gives the result. -/
def executeBody (level : Int) (i : Nat) (last : Option Value) :
    List Node → Action (Option Value)
  | [] => return last
  | s :: ss => do
    let v ← execute level i s
    executeBody level i v ss

end

/-- Runs statements one after the other in scope `i`. -/
def executeAll (level : Int) (i : Nat) : List Node → Action (List (Option Value))
  | [] => return []
  | s :: ss => do
    let v ← execute level i s
    let vs ← executeAll level i ss
    return v :: vs

end Node

/-! ### What actions do -/

namespace Action

variable {α β : Type}

/-- An action that follows another runs in the store that is left, unless the first one fails. -/
theorem on_bind (action : Action α) (next : α → Action β) (store : Store) :
    (action >>= next).on store =
      match action.on store with
      | (.ok a, store') => (next a).on store'
      | (.error e, store') => (.error e, store') := by
  rw [on, ExceptT.run_bind, StateT.run_bind]
  -- the first action is run once, on both sides
  cases hfirst : (ExceptT.run action).run store with
  | mk result store' =>
    have hon : action.on store = (result, store') := hfirst
    rw [hon]
    cases result <;> rfl

theorem on_bind_of_ok {action : Action α} {store : Store} {a : α} (h : (action.on store).1 = .ok a)
    (next : α → Action β) : (action >>= next).on store = (next a).on (action.on store).2 := by
  rw [on_bind]
  rcases hon : action.on store with ⟨result, store'⟩
  rw [hon] at h
  cases h
  rfl

theorem on_bind_of_error {action : Action α} {store : Store} {e : Halt}
    (h : (action.on store).1 = .error e) (next : α → Action β) :
    (action >>= next).on store = (.error e, (action.on store).2) := by
  rw [on_bind]
  rcases hon : action.on store with ⟨result, store'⟩
  rw [hon] at h
  cases h
  rfl

/-- What runs in a new scope. -/
theorem on_child_bind (inside : Nat → Action α) (i : Nat) (store : Store) :
    (child i >>= inside).on store =
      (inside store.forest.cells.length).on { store with forest := (store.forest.child i).1 } := by
  have hchild : (child i).on store =
      (.ok store.forest.cells.length, { store with forest := (store.forest.child i).1 }) := rfl
  rw [on_bind, hchild]

/-- An action reads from a store: it gives the result or the error of an evaluation and changes
nothing. -/
def Reads (store : Store) (action : Action α) (result : Except EvalError α) : Prop :=
  action.on store = (result.mapError .eval, store)

variable {store : Store}

theorem reads_pure (a : α) : Reads store (pure a) (.ok a) :=
  rfl

theorem reads_raise (result : Except EvalError α) : Reads store (raise .eval result) result := by
  cases result <;> rfl

theorem Reads.bind {action : Action α} {result : Except EvalError α} {next : α → Action β}
    {f : α → Except EvalError β} (h : Reads store action result)
    (hnext : ∀ a, Reads store (next a) (f a)) : Reads store (action >>= next) (result >>= f) := by
  have hfirst : action.on store = (result.mapError .eval, store) := h
  rw [Reads, on_bind, hfirst]
  cases result with
  | error e => rfl
  | ok a => exact hnext a

end Action

/-- Looking up a name along the scopes of a tree is looking it up in the tables of one scope. -/
theorem Forest.get_eq_lookup (forest : Forest) (i : Nat) (key : Key) :
    forest.get i key = (forest.scope i).lookup key := by
  unfold get scope Scope.lookup
  cases forest.tables i <;> rfl

theorem Action.reads_value (store : Store) (i : Nat) (x : Json) :
    Reads store (value i x) ((store.forest.scope i).valueOf x) := by
  unfold Reads value Scope.valueOf
  cases x.key? with
  | none => rfl
  | some key =>
    have hget : (get : Action Store).on store = (.ok store, store) := rfl
    simp only [on_bind, hget, Forest.get_eq_lookup]
    cases (store.forest.scope i).lookup key <;> rfl

namespace Node

mutual

/-- Evaluating an expression in a scope of a store gives what the tables of the scope say, and leaves the
store as it is. -/
theorem reads_evaluate (store : Store) (i : Nat) : (e : Node) →
    Reads store (evaluate i e) (eval (store.forest.scope i) e)
  | .int _ | .bool _ => by
    rw [evaluate, eval]
    exact reads_pure _
  | .name x => by
    rw [evaluate, eval]
    exact reads_value store i x
  | .list items => by
    rw [evaluate, eval]
    exact (reads_evaluateAll store i items).bind fun vs => reads_pure _
  | .unary op e => by
    rw [evaluate, eval]
    exact (reads_evaluate store i e).bind fun v => reads_raise _
  | .binary op l r | .relational op l r => by
    rw [evaluate, eval]
    exact (reads_evaluate store i l).bind fun v =>
      (reads_evaluate store i r).bind fun w => reads_raise _
  | .logical op l r => by
    rw [evaluate, eval]
    -- the truth of the left operand is taken before the right one is evaluated
    exact (reads_evaluate store i l).bind fun v => (reads_raise v.asTruth).bind fun b =>
      (reads_evaluate store i r).bind fun w => (reads_raise w.asTruth).bind fun c => reads_pure _
  | .gap | .many _ | .expr _ | .define _ _ | .branch _ _ _ | .block _ | .unread _ => by
    rw [evaluate, eval]
    · rfl
    all_goals nofun

theorem reads_evaluateAll (store : Store) (i : Nat) : (es : List Node) →
    Reads store (evaluateAll i es) (evalAll (store.forest.scope i) es)
  | [] => by
    rw [evaluateAll, evalAll]
    exact reads_pure _
  | e :: es => by
    rw [evaluateAll, evalAll]
    exact (reads_evaluate store i e).bind fun v =>
      (reads_evaluateAll store i es).bind fun vs => reads_pure _

end

end Node

end Abacus
