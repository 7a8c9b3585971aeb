import Abacus.Eval.Event
import Abacus.Eval.Expression

/-!
# Running statements

A statement runs in a scope: it may bind names in the scope's own table, it has a value or none, and it
leaves events. A failing statement keeps the bindings and events that it made before it failed.

## Main definitions

* `Outcome` — a result or an error, with the table and the events
* `Node.exec` — runs a statement
* `Node.run` — runs statements one after the other, with all their results
-/

namespace Abacus

/-- What is left when a statement has run or failed: the result or the error, the table of the scope,
and the events in order. -/
structure Outcome (α : Type) where
  result : Except EvalError α
  table : Table
  events : List Event

namespace Outcome

variable {α β : Type}

/-- A result without events. -/
def done (a : α) (table : Table) : Outcome α := ⟨.ok a, table, []⟩

/-- An error without events. -/
def fail (e : EvalError) (table : Table) : Outcome α := ⟨.error e, table, []⟩

/-- An error or a result, the table staying as it is. -/
def lift (result : Except EvalError α) (table : Table) : Outcome α := ⟨result, table, []⟩

/-- Goes on with a result and the table; an error ends the run. -/
def andThen (o : Outcome α) (next : α → Table → Outcome β) : Outcome β :=
  match o.result with
  | .error e => ⟨.error e, o.table, o.events⟩
  | .ok a =>
    let o' := next a o.table
    ⟨o'.result, o'.table, o.events ++ o'.events⟩

/-- The outcome with an event before all others. -/
def after (event : Event) (o : Outcome α) : Outcome α :=
  { o with events := event :: o.events }

end Outcome

namespace Node

/-- Whether there is no node. -/
def isGap : Node → Bool
  | .gap => true
  | _ => false

/-- Binds a name in a table. -/
def bindName (x : Json) (v : Value) (table : Table) : Outcome (Option Value) :=
  match x.key? with
  | none => .fail (.compoundName x) table
  | some key => ⟨.ok none, table.set key x (some v), [.bound x v]⟩

/-- Runs a body in a new scope inside others, and forgets the bindings that it made. -/
def enclose (table : Table) (depth : Nat) (body : Outcome (Option Value)) :
    Outcome (Option Value) :=
  let closing := match body.result with
    | .ok _ => [Event.left depth]
    | .error _ => []
  ⟨body.result, table, .entered depth :: body.events ++ closing⟩

mutual

/-- Runs a statement in a scope given by its own table and the tables around it. -/
def exec (outer : List Table) : Node → Table → Outcome (Option Value)
  | .expr e, table => .lift ((eval ⟨table, outer⟩ e).map some) table
  | .define x e, table =>
    (Outcome.lift (eval ⟨table, outer⟩ e) table).andThen fun v table => bindName x v table
  | .branch test yes no, table =>
    (Outcome.lift (eval ⟨table, outer⟩ test) table).andThen fun v table =>
      (Outcome.lift v.asTruth table).andThen fun truth table =>
        Outcome.after (.decided v truth) <|
          if truth then exec outer yes table
          else if no.isGap then .done none table
          else exec outer no table
  | .block body, table =>
    if body.isEmpty then .fail .emptyBlock table
    else enclose table (outer.length + 1) (execBody (table :: outer) none body [])
  | other, table => .fail (.misplacedStatement other) table

/-- Runs the statements of a block; the last one gives the result, `last` if there is none. -/
def execBody (outer : List Table) (last : Option Value) :
    List Node → Table → Outcome (Option Value)
  | [], table => .done last table
  | s :: ss, table => (exec outer s table).andThen fun v table => execBody outer v ss table

end

/-- Runs statements one after the other, up to the first that fails. -/
def run (outer : List Table) : List Node → Table → Outcome (List (Option Value))
  | [], table => .done [] table
  | s :: ss, table =>
    (exec outer s table).andThen fun v table =>
      (run outer ss table).andThen fun vs table => .done (v :: vs) table

end Node

end Abacus
