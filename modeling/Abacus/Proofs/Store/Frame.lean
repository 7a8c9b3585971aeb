import Abacus.Proofs.Store.Interpreter

/-!
# What a run leaves alone

A statement that runs in a scope changes the table of that scope and no other, and there only the names that
it defines itself or in its branches. What a block defines goes into the scope that the block opens. The
scopes that were there before stay linked as they are, and every new scope is inside an older one.

The frame is a relation between the trees of scopes before and after. It holds of each action and passes
from one action to the next, whether or not the action succeeds.

## Main definitions

* `Node.definitions`, `Node.definedKeys` — the names that statements define outside of all blocks
* `Forest.Linked` — every scope is inside an older one
* `Forest.Frame` — what may change when statements run in a scope
* `Action.Keeps` — an action stays within a frame

## Main results

* `Node.keeps_execute`, `Node.keeps_executeAll` — statements stay within their frame
* `Node.execute_block_isPrefix` — a block leaves all scopes as they are
-/

namespace Abacus

/-! ### Names that are defined -/

namespace Node

/-- The names that a statement defines in the scope that it stands in: its own or those of its branches. A
block defines its names in a scope of its own. -/
def definitions : Node → List Json
  | .define x _ => [x]
  | .branch _ yes no => definitions yes ++ definitions no
  | _ => []

/-- What the names that statements define are compared by. -/
def definedKeys (body : List Node) : List Key :=
  (body.flatMap definitions).filterMap Json.key?

end Node

/-- The bindings of the names that are not listed, in their order. -/
def Table.without (keys : List Key) (table : Table) : Table :=
  table.filter fun b => b.key ∉ keys

/-- Binding a listed name leaves all other bindings as they are. -/
theorem Table.without_set {keys : List Key} {key : Key} (h : key ∈ keys) (table : Table) (x : Json)
    (v : Option Value) : (table.set key x v).without keys = table.without keys := by
  induction table with
  | nil => simp [set, without, h]
  | cons b table ih =>
    rw [set]
    by_cases hb : b.key = key
    · rw [if_pos hb]
      simp [without, hb, h]
    · rw [if_neg hb]
      have hcons (table : Table) : Table.without keys (b :: table) =
          if b.key ∉ keys then b :: table.without keys else table.without keys := by
        simp [without, List.filter_cons]
      rw [hcons, hcons, ih]

theorem Table.without_mono {keys keys' : List Key} (h : keys ⊆ keys') {table table' : Table}
    (heq : table.without keys = table'.without keys) :
    table.without keys' = table'.without keys' := by
  have hfilter (table : Table) : (table.without keys).without keys' = table.without keys' := by
    rw [without, without, List.filter_filter]
    refine List.filter_congr fun b _ => ?_
    by_cases hb : b.key ∈ keys'
    · simp [hb]
    · have hb' : b.key ∉ keys := fun hmem => hb (h hmem)
      simp [hb, hb']
  rw [← hfilter table, heq, hfilter]

/-! ### Trees of scopes that change -/

namespace Forest

/-- Every scope is inside an older one, or inside none. -/
def Linked (forest : Forest) : Prop :=
  ∀ (i : Nat) (cell : Cell), forest.cells[i]? = some cell → ∀ j ∈ cell.parent, j < i

theorem own_scope (forest : Forest) (i : Nat) :
    (forest.scope i).own = ((forest.cells[i]?).map Cell.table).getD [] := by
  rw [scope, tables, tablesFrom]
  cases forest.cells[i]? with
  | none => rfl
  | some cell =>
    cases hparent : cell.parent with
    | none => simp [hparent]
    | some j => simp [hparent]

section SetTable

variable (forest : Forest) (i : Nat) (table : Table)

@[simp] theorem length_setTable : (forest.setTable i table).cells.length = forest.cells.length := by
  simp [setTable]

theorem getElem?_setTable_self :
    (forest.setTable i table).cells[i]? = (forest.cells[i]?).map fun cell => { cell with table } := by
  simp [setTable]

theorem getElem?_setTable_of_ne {j : Nat} (h : j ≠ i) :
    (forest.setTable i table).cells[j]? = forest.cells[j]? := by
  rw [setTable, List.getElem?_modify_ne _ _ (Ne.symm h)]

end SetTable

/-- What may change when statements run in scope `i` and define the listed names there: the bindings of these
names in scope `i`, and new scopes inside older ones. -/
structure Frame (i : Nat) (keys : List Key) (before after : Forest) : Prop where
  size : before.cells.length ≤ after.cells.length
  /-- All other scopes are as they were. -/
  others : ∀ j < before.cells.length, j ≠ i → after.cells[j]? = before.cells[j]?
  /-- The scope stays inside the one that it was inside. -/
  parent : (after.cells[i]?).map Cell.parent = (before.cells[i]?).map Cell.parent
  /-- All other names of the scope are bound as they were. -/
  own : (after.scope i).own.without keys = (before.scope i).own.without keys
  /-- New scopes are inside older ones. -/
  fresh : ∀ j cell, before.cells.length ≤ j → after.cells[j]? = some cell → ∀ p ∈ cell.parent, p < j

namespace Frame

variable {i : Nat} {keys : List Key} {before middle after : Forest}

theorem refl (i : Nat) (keys : List Key) (forest : Forest) : Frame i keys forest forest where
  size := Nat.le_refl _
  others _ _ _ := rfl
  parent := rfl
  own := rfl
  fresh j cell hj hcell := by
    rw [List.getElem?_eq_none hj] at hcell
    cases hcell

theorem trans (hi : i < before.cells.length) (h : Frame i keys before middle)
    (h' : Frame i keys middle after) : Frame i keys before after where
  size := Nat.le_trans h.size h'.size
  others j hj hne := (h'.others j (Nat.lt_of_lt_of_le hj h.size) hne).trans (h.others j hj hne)
  parent := h'.parent.trans h.parent
  own := h'.own.trans h.own
  fresh j cell hj hcell := by
    by_cases hmiddle : j < middle.cells.length
    · -- the scope was opened by the first run, and the second one has left it alone
      have hne : j ≠ i := by omega
      rw [h'.others j hmiddle hne] at hcell
      exact h.fresh j cell hj hcell
    · exact h'.fresh j cell (by omega) hcell

theorem mono {keys' : List Key} (hkeys : keys ⊆ keys') (h : Frame i keys before after) :
    Frame i keys' before after :=
  { h with own := Table.without_mono hkeys h.own }

/-- Links stay, and new ones go to older scopes. -/
theorem linked (h : Frame i keys before after) (hlinked : before.Linked) : after.Linked := by
  intro j cell hcell p hp
  by_cases hj : j < before.cells.length
  · by_cases hne : j = i
    · subst hne
      have hparent := h.parent
      rw [hcell] at hparent
      obtain ⟨old, hold, hsame⟩ := Option.map_eq_some_iff.1 hparent.symm
      exact hlinked j old hold p (hsame ▸ hp)
    · rw [h.others j hj hne] at hcell
      exact hlinked j cell hcell p hp
  · exact h.fresh j cell (by omega) hcell p hp

/-- Up to new scopes, nothing but the table of the scope has changed. -/
theorem setTable_isPrefix (h : Frame i keys before after) :
    (before.setTable i (after.scope i).own).cells <+: after.cells := by
  rw [List.prefix_iff_getElem?]
  intro j hj
  rw [← List.getElem?_eq_getElem hj]
  rw [length_setTable] at hj
  by_cases hne : j = i
  · subst hne
    have hlt : j < after.cells.length := Nat.lt_of_lt_of_le hj h.size
    have hparent := h.parent
    rw [List.getElem?_eq_getElem hj, List.getElem?_eq_getElem hlt] at hparent
    have hsame : (after.cells[j]).parent = (before.cells[j]).parent := Option.some.inj hparent
    rw [getElem?_setTable_self, own_scope, List.getElem?_eq_getElem hj, List.getElem?_eq_getElem hlt]
    simp only [Option.map_some, Option.getD_some, ← hsame]
  · rw [getElem?_setTable_of_ne _ _ _ hne, h.others j hj hne]

end Frame

/-- Binding a listed name stays within the frame. -/
theorem frame_put {keys : List Key} {key : Key} (h : key ∈ keys) (forest : Forest) (i : Nat) (x : Json)
    (v : Option Value) : Frame i keys forest (forest.put i key x v).1 where
  size := by simp [put]
  others j _ hne := by rw [put, getElem?_setTable_of_ne _ _ _ hne]
  parent := by
    rw [put, getElem?_setTable_self]
    cases forest.cells[i]? <;> rfl
  own := by
    rw [put]
    by_cases hi : i < forest.cells.length
    · have hown : ((forest.setTable i ((forest.scope i).own.set key x v)).scope i).own =
          (forest.scope i).own.set key x v := by
        rw [own_scope, getElem?_setTable_self, List.getElem?_eq_getElem hi]
        rfl
      rw [hown, Table.without_set h]
    · have hnone : forest.cells[i]? = none := List.getElem?_eq_none (by omega)
      rw [own_scope, getElem?_setTable_self, own_scope, hnone]
      rfl
  fresh j cell hj hcell := by
    have hnone : (forest.put i key x v).1.cells[j]? = none :=
      List.getElem?_eq_none (by simpa [put] using hj)
    rw [hnone] at hcell
    cases hcell

/-- Where all scopes are as they were, only new scopes have to be looked at. -/
theorem Frame.of_isPrefix {before after : Forest} (h : before.cells <+: after.cells) {i : Nat}
    (hi : i < before.cells.length) (keys : List Key)
    (hfresh : ∀ (j : Nat) (cell : Cell), before.cells.length ≤ j → after.cells[j]? = some cell →
      ∀ p ∈ cell.parent, p < j) :
    Frame i keys before after := by
  have hsame : ∀ j < before.cells.length, after.cells[j]? = before.cells[j]? := by
    intro j hj
    rw [List.prefix_iff_getElem?.1 h j hj, List.getElem?_eq_getElem hj]
  refine ⟨h.length_le, fun j hj _ => hsame j hj, ?_, ?_, hfresh⟩
  · rw [hsame i hi]
  · rw [own_scope, own_scope, hsame i hi]

/-- What happens in the frame of a new scope leaves all older ones as they are. -/
theorem Frame.isPrefix_of_child {forest after : Forest} {i : Nat} {keys : List Key}
    (h : Frame forest.cells.length keys (forest.child i).1 after) :
    forest.cells <+: after.cells := by
  rw [List.prefix_iff_getElem?]
  intro j hj
  have hlength : (forest.child i).1.cells.length = forest.cells.length + 1 := by simp [child]
  rw [h.others j (by omega) (by omega)]
  simp [child, List.getElem?_append_left hj]

theorem Frame.of_child {forest after : Forest} {i : Nat} (hi : i < forest.cells.length)
    {keys : List Key} (h : Frame forest.cells.length keys (forest.child i).1 after)
    (keys' : List Key) : Frame i keys' forest after := by
  refine .of_isPrefix h.isPrefix_of_child hi keys' fun j cell hj hcell p hp => ?_
  have hlength : (forest.child i).1.cells.length = forest.cells.length + 1 := by simp [child]
  by_cases hnew : j = forest.cells.length
  · -- the new scope itself is inside scope `i`
    subst hnew
    have hparent := h.parent
    rw [hcell] at hparent
    have hsome : some cell.parent = some (some i) := by simpa [child] using hparent
    cases Option.some.inj hsome ▸ hp
    exact hi
  · exact h.fresh j cell (by omega) hcell p hp

end Forest

/-! ### Actions within a frame -/

namespace Action

variable {α β : Type} {i : Nat} {keys : List Key}

/-- Whatever store an action runs in, it stays within the frame of a scope and some names. -/
def Keeps (i : Nat) (keys : List Key) (action : Action α) : Prop :=
  ∀ store, i < store.forest.cells.length →
    Forest.Frame i keys store.forest (action.on store).2.forest

theorem keeps_of_forest_eq {action : Action α}
    (h : ∀ store, (action.on store).2.forest = store.forest) : Keeps i keys action := by
  intro store _
  rw [h store]
  exact .refl i keys store.forest

theorem Keeps.mono {action : Action α} (h : Keeps i keys action) {keys' : List Key}
    (hkeys : keys ⊆ keys') : Keeps i keys' action :=
  fun store hi => (h store hi).mono hkeys

theorem keeps_throw (e : Halt) : Keeps i keys (throw e : Action α) :=
  keeps_of_forest_eq fun _ => rfl

theorem keeps_pure (a : α) : Keeps i keys (pure a : Action α) :=
  keeps_of_forest_eq fun _ => rfl

theorem keeps_raise (result : Except EvalError α) : Keeps i keys (raise .eval result) := by
  cases result with
  | ok a => exact keeps_pure a
  | error e => exact keeps_throw (.eval e)

/-- Actions one after the other stay within the frame that each of them stays in. -/
theorem Keeps.bind {action : Action α} {next : α → Action β} (h : Keeps i keys action)
    (hnext : ∀ a, Keeps i keys (next a)) : Keeps i keys (action >>= next) := by
  intro store hi
  have hfirst := h store hi
  rw [on_bind]
  rcases hon : action.on store with ⟨_ | a, store'⟩
  · rwa [hon] at hfirst
  · rw [hon] at hfirst
    exact hfirst.trans hi (hnext a store' (Nat.lt_of_lt_of_le hi hfirst.size))

theorem forest_write (level : Int) (event : Event) (store : Store) :
    ((write level event).on store).2.forest = store.forest := by
  unfold write
  by_cases hlevel : event.level ≤ level
  · by_cases hwritable : event.Writable
    · simp only [if_pos hlevel, if_pos hwritable]
      rfl
    · simp only [if_pos hlevel, if_neg hwritable]
      rfl
  · simp only [if_neg hlevel]
    rfl

theorem keeps_write (level : Int) (event : Event) : Keeps i keys (write level event) :=
  keeps_of_forest_eq (forest_write level event)

theorem keeps_depth (j : Nat) : Keeps i keys (depth j) :=
  keeps_of_forest_eq fun _ => rfl

theorem keeps_put {x : Json} (h : ∀ key ∈ x.key?, key ∈ keys) (v : Value) :
    Keeps i keys (put i x v) := by
  intro store hi
  unfold put
  cases hkey : x.key? with
  | none => exact keeps_throw (.eval (.compoundName x)) store hi
  | some key => exact Forest.frame_put (h key hkey) store.forest i x (some v)

/-- What runs in a new scope, and stays within its frame there, leaves all older scopes as they are. -/
theorem frame_child {inside : Nat → Action α} (h : ∀ j, Keeps j keys (inside j)) (i : Nat)
    (store : Store) :
    Forest.Frame store.forest.cells.length keys (store.forest.child i).1
      ((child i >>= inside).on store).2.forest := by
  rw [on_child_bind]
  exact h store.forest.cells.length ⟨(store.forest.child i).1, store.lines⟩ (by simp [Forest.child])

end Action

namespace Node

open Abacus.Action

/-! ### Statements -/

theorem forest_evaluate (i : Nat) (e : Node) (store : Store) :
    ((evaluate i e).on store).2.forest = store.forest := by
  have hreads : (evaluate i e).on store = _ := reads_evaluate store i e
  rw [hreads]

theorem keeps_evaluate {i : Nat} {keys : List Key} (j : Nat) (e : Node) :
    Keeps i keys (evaluate j e) :=
  keeps_of_forest_eq (forest_evaluate j e)

theorem definedKeys_cons (s : Node) (ss : List Node) :
    definedKeys (s :: ss) = definedKeys [s] ++ definedKeys ss := by
  simp [definedKeys]

theorem definedKeys_branch (test yes no : Node) :
    definedKeys [branch test yes no] = definedKeys [yes] ++ definedKeys [no] := by
  simp [definedKeys, definitions]

/-- A block stays within the frame of the scope that it opens. -/
theorem frame_block {level : Int} {body : List Node}
    (hbody : ∀ j, Keeps j (definedKeys body) (executeBody level j none body))
    (hempty : ¬body.isEmpty = true) (i : Nat) (store : Store) :
    Forest.Frame store.forest.cells.length (definedKeys body) (store.forest.child i).1
      ((execute level i (.block body)).on store).2.forest := by
  rw [execute, if_neg hempty]
  refine frame_child (fun j => ?_) i store
  exact (keeps_depth j).bind fun _ => (keeps_write level _).bind fun _ =>
    (hbody j).bind fun v => (keeps_depth j).bind fun _ =>
      (keeps_write level _).bind fun _ => keeps_pure v

mutual

/-- A statement stays within the frame of its scope and of the names that it defines. -/
theorem keeps_execute (level : Int) : (s : Node) → (i : Nat) →
    Keeps i (definedKeys [s]) (execute level i s)
  | .expr e, i => by
    rw [execute]
    exact (keeps_evaluate i e).bind fun v => keeps_pure _
  | .define x e, i => by
    rw [execute]
    have hx : ∀ key ∈ x.key?, key ∈ definedKeys [define x e] := by
      intro key hkey
      simp [definedKeys, definitions, Option.mem_def.1 hkey]
    exact (keeps_evaluate i e).bind fun v => (keeps_put hx v).bind fun _ =>
      (keeps_write level _).bind fun _ => keeps_pure _
  | .branch test yes no, i => by
    rw [execute, definedKeys_branch]
    refine (keeps_evaluate i test).bind fun v => (keeps_raise _).bind fun truth =>
      (keeps_write level _).bind fun _ => ?_
    by_cases htruth : truth = true
    · rw [if_pos htruth]
      exact (keeps_execute level yes i).mono (List.subset_append_left _ _)
    · rw [if_neg htruth]
      by_cases hgap : no.isGap = true
      · rw [if_pos hgap]
        exact keeps_pure _
      · rw [if_neg hgap]
        exact (keeps_execute level no i).mono (List.subset_append_right _ _)
  | .block body, i => by
    by_cases hempty : body.isEmpty = true
    · rw [execute, if_pos hempty]
      exact keeps_throw _
    · intro store hi
      have hbody := fun j => keeps_executeBody level body j none
      exact (frame_block hbody hempty i store).of_child hi _
  | .gap, _ | .many _, _ | .int _, _ | .unread _, _ | .bool _, _ | .name _, _ | .list _, _
  | .unary _ _, _ | .binary _ _ _, _ | .logical _ _ _, _ | .relational _ _ _, _ => by
    rw [execute]
    · exact keeps_throw _
    all_goals nofun

theorem keeps_executeBody (level : Int) : (body : List Node) → (i : Nat) → (last : Option Value) →
    Keeps i (definedKeys body) (executeBody level i last body)
  | [], i, last => by
    rw [executeBody]
    exact keeps_pure _
  | s :: ss, i, last => by
    rw [executeBody, definedKeys_cons]
    exact ((keeps_execute level s i).mono (List.subset_append_left _ _)).bind fun v =>
      (keeps_executeBody level ss i v).mono (List.subset_append_right _ _)

end

/-- A block leaves all scopes as they are, and new ones behind. -/
theorem execute_block_isPrefix (level : Int) (i : Nat) (body : List Node) (store : Store) :
    store.forest.cells <+: ((execute level i (.block body)).on store).2.forest.cells := by
  by_cases hempty : body.isEmpty = true
  · rw [execute, if_pos hempty]
    exact List.prefix_refl _
  · have hbody := fun j => keeps_executeBody level body j none
    exact (frame_block hbody hempty i store).isPrefix_of_child

/-- Statements one after the other stay within the frame of their scope and of the names that they
define. -/
theorem keeps_executeAll (level : Int) (body : List Node) (i : Nat) :
    Keeps i (definedKeys body) (executeAll level i body) := by
  induction body with
  | nil => exact keeps_pure _
  | cons s ss ih =>
    rw [executeAll, definedKeys_cons]
    exact ((keeps_execute level s i).mono (List.subset_append_left _ _)).bind fun v =>
      (ih.mono (List.subset_append_right _ _)).bind fun vs => keeps_pure _

end Node

end Abacus
