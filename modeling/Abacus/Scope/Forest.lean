import Abacus.Scope.Table

/-!
# A tree of scopes

Scopes can be opened inside each other in any order and used at any time. They are numbered in the
order in which they were opened; the scope around all others is number zero.

## Main definitions

* `Forest` — all scopes with their bindings
* `Forest.child`, `Forest.put` — a new scope inside another, a new binding
* `Forest.get`, `Forest.has`, `Forest.depth` — what can be asked about a scope
-/

namespace Abacus

/-- A scope of a tree: the number of the scope around it, if any, and its bindings. The scope around
another was opened before it. -/
structure Forest.Cell where
  parent : Option Nat
  table : Table

/-- A tree of scopes, in the order in which they were opened. -/
structure Forest where
  cells : List Forest.Cell

namespace Forest

/-- One scope without bindings. -/
def root : Forest := ⟨[⟨none, []⟩]⟩

/-- The tables from a scope outward, its own one first; at most `fuel` of them. Each scope was opened
after the one around it, so that one more than the number of the scope is enough. -/
def tablesFrom (forest : Forest) : Nat → Nat → List Table
  | 0, _ => []
  | fuel + 1, i =>
    match forest.cells[i]? with
    | none => []
    | some cell =>
      match cell.parent with
      | none => [cell.table]
      | some j => cell.table :: tablesFrom forest fuel j

/-- The tables from a scope outward, its own one first. -/
def tables (forest : Forest) (i : Nat) : List Table :=
  forest.tablesFrom (i + 1) i

/-- A scope with the tables around it. -/
def scope (forest : Forest) (i : Nat) : Scope :=
  match forest.tables i with
  | [] => ⟨[], []⟩
  | own :: outer => ⟨own, outer⟩

/-- Opens a scope inside scope `i`, and returns its number. -/
def child (forest : Forest) (i : Nat) : Forest × Nat :=
  (⟨forest.cells ++ [⟨some i, []⟩]⟩, forest.cells.length)

/-- Replaces the bindings of scope `i`. -/
def setTable (forest : Forest) (i : Nat) (table : Table) : Forest :=
  ⟨forest.cells.modify i fun cell => { cell with table }⟩

/-- The value of a name in scope `i` or the nearest scope around it that binds the name. -/
def get (forest : Forest) (i : Nat) (key : Key) : Option Value :=
  lookup key (forest.tables i)

/-- Whether scope `i` itself binds a name. -/
def has (forest : Forest) (i : Nat) (key : Key) : Bool :=
  ((forest.scope i).own.get? key).isSome

/-- Binds a name in scope `i`, and returns the value that it had there before. -/
def put (forest : Forest) (i : Nat) (key : Key) (name : Json) (value : Option Value) :
    Forest × Option Value :=
  let own := (forest.scope i).own
  (forest.setTable i (own.set key name value), (own.get? key).getD none)

/-- How many scopes are around scope `i`. -/
def depth (forest : Forest) (i : Nat) : Nat :=
  (forest.scope i).depth

end Forest

end Abacus
