import Abacus.Proofs.Eval.Agreement
import Abacus.Proofs.Store.Refinement

/-!
# The history of a tree of scopes

A tree of scopes grows from one scope by two operations: a scope is opened inside another, and a name is bound
in a scope. What can be asked about a scope can be told from the history of these operations alone. The
scopes around a scope are those that it was opened in, one inside the other. A scope binds the names that
were put there, each to the value that was put last. A name has the value that it has in the nearest scope
that binds it, and none if that scope binds it to no value.

The history is compared with the tree operation by operation. What has been done to a scope that is not on
the way outward is never asked for, so that nothing which happens elsewhere can be noticed.

## Main definitions

* `Forest.Step`, `Forest.grown` — an operation, the tree after some operations
* `Forest.Feasible` — every operation is on a scope that is there by then
* `Forest.Around` — the scopes around a scope
* `Forest.puts` — the values that were put under a name in a scope
* `Forest.Records` — a history tells the links and bindings of a tree

## Main results

* `Forest.Around.unique`, `Forest.exists_around` — there is one way outward from every scope
* `Forest.Records.perform`, `Forest.records_grown` — one operation, all operations
* `Forest.Records.tables_eq` — the tables from a scope outward
* `Forest.answers_grown` — what a scope answers after any history
-/

namespace Abacus

theorem lookup_eq_findSome? (key : Key) (tables : List Table) :
    lookup key tables = (tables.findSome? fun table => table.get? key).getD none := by
  induction tables with
  | nil => rfl
  | cons table tables ih =>
    rw [lookup, List.findSome?_cons]
    cases table.get? key with
    | none => exact ih
    | some value => rfl

namespace Forest

/-! ### Histories -/

/-- An operation on a tree of scopes. A name is given by what it is compared by and as it is written. -/
inductive Step
  | child (i : Nat)
  | put (i : Nat) (key : Key) (name : Json) (value : Option Value)

namespace Step

/-- The scope that an operation is on. -/
def scope : Step → Nat
  | .child i => i
  | .put i _ _ _ => i

/-- The scope inside which an operation opens a scope. -/
def opening? : Step → Option Nat
  | .child i => some i
  | .put _ _ _ _ => none

/-- The value that an operation puts under a name in scope `i`. -/
def value? (i : Nat) (key : Key) : Step → Option (Option Value)
  | .child _ => none
  | .put j k _ value => if j = i ∧ k = key then some value else none

/-- The tree after an operation. -/
def perform (forest : Forest) : Step → Forest
  | .child i => (forest.child i).1
  | .put i key name value => (forest.put i key name value).1

end Step

/-- The tree that some operations grow from one scope. -/
def grown (history : List Step) : Forest :=
  history.foldl Step.perform root

/-- The scopes inside which scopes were opened, in this order. -/
def openings (history : List Step) : List Nat :=
  history.filterMap Step.opening?

/-- How many scopes there are. -/
def population (history : List Step) : Nat :=
  (openings history).length + 1

/-- The values that were put under a name in scope `i`, in this order. -/
def puts (history : List Step) (i : Nat) (key : Key) : List (Option Value) :=
  history.filterMap (Step.value? i key)

/-- Every operation is on a scope that is there by then. -/
inductive Feasible : List Step → Prop
  | nil : Feasible []
  | concat {history : List Step} {step : Step} (h : Feasible history)
      (there : step.scope < population history) : Feasible (history ++ [step])

/-- The scope inside which scope `i` was opened. Scope zero was there at the beginning. -/
def parent? (history : List Step) : Nat → Option Nat
  | 0 => none
  | i + 1 => (openings history)[i]?

/-- The scopes around a scope, nearest first. -/
inductive Around (history : List Step) : Nat → List Nat → Prop
  | outermost : Around history 0 []
  | inside {i j : Nat} {above : List Nat} (opened : parent? history i = some j)
      (h : Around history j above) : Around history i (j :: above)

section History

variable {history more : List Step} {i j : Nat} {key : Key} {above : List Nat}

theorem grown_concat (history : List Step) (step : Step) :
    grown (history ++ [step]) = step.perform (grown history) := by
  simp [grown]

theorem openings_append (history more : List Step) :
    openings (history ++ more) = openings history ++ openings more :=
  List.filterMap_append

theorem puts_append (history more : List Step) (i : Nat) (key : Key) :
    puts (history ++ more) i key = puts history i key ++ puts more i key :=
  List.filterMap_append

theorem mem_puts_iff {value : Option Value} :
    value ∈ puts history i key ↔ ∃ name, .put i key name value ∈ history := by
  constructor
  · intro h
    obtain ⟨step, hstep, hvalue⟩ := List.mem_filterMap.1 h
    cases step with
    | child j => cases hvalue
    | put j k name w =>
      rw [Step.value?] at hvalue
      split at hvalue
      · rename_i hsame
        cases hvalue
        exact ⟨name, hsame.1 ▸ hsame.2 ▸ hstep⟩
      · cases hvalue
  · rintro ⟨name, h⟩
    exact List.mem_filterMap.2 ⟨_, h, if_pos ⟨rfl, rfl⟩⟩

/-- Later operations do not change what a scope was opened in. -/
theorem parent?_append (h : parent? history i = some j) : parent? (history ++ more) i = some j := by
  cases i with
  | zero => cases h
  | succ i =>
    rw [parent?] at h ⊢
    rw [openings_append, List.getElem?_append_left (List.getElem?_eq_some_iff.1 h).1, h]

theorem lt_population (h : parent? history i = some j) : i < population history := by
  cases i with
  | zero => cases h
  | succ i =>
    have hlt := (List.getElem?_eq_some_iff.1 h).1
    rw [population]
    omega

/-- A scope is opened in one that was there before it. -/
theorem Feasible.parent_lt (h : Feasible history) (hparent : parent? history i = some j) : j < i := by
  induction h generalizing i j with
  | nil => cases i <;> cases hparent
  | @concat history step h there ih =>
    by_cases hold : i < population history
    · -- the scope was there before the last operation
      refine ih (Eq.trans ?_ hparent)
      cases i with
      | zero => rfl
      | succ i =>
        rw [population] at hold
        rw [parent?, parent?, openings_append, List.getElem?_append_left (by omega)]
    · cases i with
      | zero => cases hparent
      | succ i =>
        rw [population] at hold there
        rw [parent?, openings_append, List.getElem?_append_right (by omega)] at hparent
        -- the last operation has opened the scope
        cases step with
        | put => cases hparent
        | child k =>
          have hj : j = k := List.mem_singleton.1 (List.mem_of_getElem? hparent)
          rw [Step.scope] at there
          omega

theorem Around.append (h : Around history i above) (more : List Step) :
    Around (history ++ more) i above := by
  induction h with
  | outermost => exact .outermost
  | inside opened _ ih => exact .inside (parent?_append opened) ih

/-- Around a scope that is opened inside another are that one and the scopes around it. -/
theorem Around.child (h : Around history i above) :
    Around (history ++ [.child i]) (population history) (i :: above) := by
  refine .inside ?_ (h.append _)
  rw [population, parent?, openings_append, List.getElem?_append_right (Nat.le_refl _), Nat.sub_self]
  rfl

/-- There is one way outward from every scope. -/
theorem Around.unique {above' : List Nat} (h : Around history i above)
    (h' : Around history i above') : above = above' := by
  induction h generalizing above' with
  | outermost =>
    cases h' with
    | outermost => rfl
    | inside opened _ => cases opened
  | inside opened _ ih =>
    cases h' with
    | outermost => cases opened
    | inside opened' h' =>
      cases Option.some.inj (opened.symm.trans opened')
      rw [ih h']

/-- The scopes around a scope were there before it. -/
theorem Around.lt (hfeasible : Feasible history) (h : Around history i above) :
    ∀ a ∈ above, a < i := by
  induction h with
  | outermost => exact List.forall_mem_nil _
  | inside opened _ ih =>
    have hj := hfeasible.parent_lt opened
    exact List.forall_mem_cons.2 ⟨hj, fun a ha => Nat.lt_trans (ih a ha) hj⟩

/-- What is around one of the scopes around a scope is around the scope itself. -/
theorem Around.of_mem (h : Around history i above) {a : Nat} (ha : a ∈ above) :
    ∃ far, Around history a far ∧ a :: far ⊆ above := by
  induction h with
  | outermost => cases ha
  | @inside i j above opened h ih =>
    rcases List.mem_cons.1 ha with rfl | ha
    · exact ⟨above, h, fun b hb => hb⟩
    · obtain ⟨far, hfar, hsub⟩ := ih ha
      exact ⟨far, hfar, fun b hb => List.mem_cons_of_mem _ (hsub hb)⟩

/-- What was opened inside the same scope, what is inside the scope itself and what is opened later is not
around it. -/
theorem Around.not_mem (hfeasible : Feasible history) (h : Around history i above)
    (hi : i < population history)
    (hj : parent? history j = parent? history i ∨ (∃ outside, Around history j outside ∧ i ∈ outside) ∨
      population history ≤ j) : j ∉ above := by
  intro hmem
  have hlt := h.lt hfeasible j hmem
  rcases hj with hsibling | ⟨outside, houtside, hin⟩ | hlater
  · -- a scope that is opened inside the same one would be before that one or be it
    cases h with
    | outermost => cases hmem
    | inside opened h =>
      have hparent := hfeasible.parent_lt (hsibling.trans opened)
      rcases List.mem_cons.1 hmem with rfl | hmem
      · exact Nat.lt_irrefl _ hparent
      · exact Nat.lt_asymm hparent (h.lt hfeasible j hmem)
  · exact Nat.lt_asymm hlt (houtside.lt hfeasible i hin)
  · omega

theorem exists_around (h : Feasible history) (hi : i < population history) :
    ∃ above, Around history i above := by
  -- scopes are numbered in the order in which they are opened, so that the way outward goes down
  induction i using Nat.strongRecOn with
  | ind i ih =>
    cases i with
    | zero => exact ⟨[], .outermost⟩
    | succ i =>
      rw [population] at hi
      have hparent : parent? history (i + 1) = some ((openings history)[i]) :=
        List.getElem?_eq_getElem (by omega)
      have hlt := h.parent_lt hparent
      obtain ⟨above, habove⟩ := ih _ hlt (by rw [population]; omega)
      exact ⟨_, .inside hparent habove⟩

end History

/-! ### The tree of a history -/

/-- A history tells where the scopes of a tree are and what each of them binds. -/
structure Records (history : List Step) (forest : Forest) : Prop where
  parents : forest.cells.map Cell.parent = none :: (openings history).map some
  bindings : ∀ i key, (forest.scope i).own.get? key = (puts history i key).getLast?

section Records

variable {history : List Step} {forest : Forest} {i : Nat}

theorem own_child (forest : Forest) (i j : Nat) :
    ((forest.child i).1.scope j).own = (forest.scope j).own := by
  rw [own_scope, own_scope, child]
  by_cases hj : j < forest.cells.length
  · rw [List.getElem?_append_left hj]
  · -- a new scope binds as little as one that is not there
    rw [List.getElem?_append_right (by omega), List.getElem?_eq_none (by omega : _ ≤ j)]
    cases j - forest.cells.length <;> rfl

theorem own_put (hi : i < forest.cells.length) (key : Key) (x : Json) (v : Option Value) (j : Nat) :
    ((forest.put i key x v).1.scope j).own =
      if j = i then (forest.scope i).own.set key x v else (forest.scope j).own := by
  rw [own_scope, put]
  by_cases hj : j = i
  · subst hj
    rw [if_pos rfl, getElem?_setTable_self, List.getElem?_eq_getElem hi]
    rfl
  · rw [if_neg hj, getElem?_setTable_of_ne _ _ _ hj, ← own_scope]

theorem parents_setTable (forest : Forest) (i : Nat) (table : Table) :
    (forest.setTable i table).cells.map Cell.parent = forest.cells.map Cell.parent := by
  refine List.ext_getElem? fun j => ?_
  rw [List.getElem?_map, List.getElem?_map]
  by_cases hj : j = i
  · subst hj
    rw [getElem?_setTable_self, Option.map_map]
    rfl
  · rw [getElem?_setTable_of_ne _ _ _ hj]

theorem Records.length_cells (h : Records history forest) :
    forest.cells.length = population history := by
  have hlength := congrArg List.length h.parents
  simpa [population] using hlength

theorem records_root : Records [] root := by
  refine ⟨rfl, fun i key => ?_⟩
  rw [own_scope]
  cases i <;> rfl

/-- One more operation is recorded by a history that is longer by it. -/
theorem Records.perform (h : Records history forest) {step : Step}
    (hstep : step.scope < population history) :
    Records (history ++ [step]) (step.perform forest) := by
  cases step with
  | child i =>
    refine ⟨?_, fun j key => ?_⟩
    · simp [Step.perform, child, h.parents, openings, Step.opening?]
    · rw [Step.perform, own_child, h.bindings, puts_append]
      simp [puts, Step.value?]
  | put i k x v =>
    -- the new value is the last one under its name in its scope, and is under no other
    have hi : i < forest.cells.length := by rwa [h.length_cells]
    refine ⟨?_, fun j key => ?_⟩
    · rw [Step.perform, put, parents_setTable, h.parents]
      simp [openings, Step.opening?]
    · rw [Step.perform, own_put hi, puts_append]
      by_cases hj : j = i
      · subst hj
        rw [if_pos rfl, Table.get?_set]
        by_cases hk : k = key
        · simp [puts, Step.value?, hk]
        · simp [puts, Step.value?, hk, h.bindings]
      · have hne : ¬(i = j ∧ k = key) := fun hsame => hj hsame.1.symm
        rw [if_neg hj, h.bindings]
        simp [puts, Step.value?, hne]

/-- A history records the tree that it grows. -/
theorem records_grown (h : Feasible history) : Records history (grown history) := by
  induction h with
  | nil => exact records_root
  | concat _ there ih =>
    rw [grown_concat]
    exact ih.perform there

/-- Links go where the history says. -/
theorem Records.getElem?_parent (h : Records history forest) (hi : i < population history) :
    (forest.cells[i]?).map Cell.parent = some (parent? history i) := by
  rw [← List.getElem?_map, h.parents]
  cases i with
  | zero => rfl
  | succ i =>
    rw [population] at hi
    have hlt : i < (openings history).length := by omega
    rw [List.getElem?_cons_succ, List.getElem?_map, parent?, List.getElem?_eq_getElem hlt]
    rfl

theorem Records.linked (h : Records history forest) (hfeasible : Feasible history) :
    forest.Linked := by
  intro i cell hcell j hj
  have hi : i < population history := h.length_cells ▸ (List.getElem?_eq_some_iff.1 hcell).1
  have hparent := h.getElem?_parent hi
  rw [hcell] at hparent
  exact hfeasible.parent_lt ((Option.some.inj hparent).symm.trans hj)

/-- The tables from a scope outward are its own and those of the scopes around it. -/
theorem Records.tables_eq (h : Records history forest) (hfeasible : Feasible history) {above : List Nat}
    (habove : Around history i above) :
    forest.tables i = (i :: above).map fun j => (forest.scope j).own := by
  have hlinked := h.linked hfeasible
  induction habove with
  | outermost =>
    have hparent := h.getElem?_parent (Nat.succ_pos _ : 0 < population history)
    obtain ⟨cell, hcell, hnone⟩ := Option.map_eq_some_iff.1 hparent
    rw [tables, tablesFrom, List.map_singleton, own_scope, hcell]
    simp [hnone, parent?]
  | @inside i j above opened _ ih =>
    have hparent := h.getElem?_parent (lt_population opened)
    rw [opened] at hparent
    obtain ⟨cell, hcell, hsome⟩ := Option.map_eq_some_iff.1 hparent
    rw [tables, tablesFrom, hcell, List.map_cons, ← ih, own_scope, hcell]
    -- the number of the scope bounds the search from the one around it, which is lower
    simp [hsome, tablesFrom_eq_tables hlinked (hfeasible.parent_lt opened)]

end Records

/-! ### What a scope answers -/

section Answers

variable {history : List Step} {i : Nat} {above : List Nat}

theorem get_grown (h : Feasible history) (habove : Around history i above) (key : Key) :
    (grown history).get i key =
      ((i :: above).findSome? fun j => (puts history j key).getLast?).getD none := by
  have hrecords := records_grown h
  rw [get, hrecords.tables_eq h habove, lookup_eq_findSome?, List.findSome?_map]
  simp only [Function.comp_def, hrecords.bindings]

theorem has_grown (h : Feasible history) (i : Nat) (key : Key) :
    (grown history).has i key = true ↔ ∃ name value, .put i key name value ∈ history := by
  rw [has, (records_grown h).bindings, List.getLast?_isSome]
  constructor
  · intro hne
    obtain ⟨value, hvalue⟩ := List.exists_mem_of_ne_nil _ hne
    obtain ⟨name, hname⟩ := mem_puts_iff.1 hvalue
    exact ⟨name, value, hname⟩
  · rintro ⟨name, value, hname⟩
    exact List.ne_nil_of_mem (mem_puts_iff.2 ⟨name, hname⟩)

theorem put_grown (h : Feasible history) (i : Nat) (key : Key) (x : Json) (v : Option Value) :
    ((grown history).put i key x v).2 = (puts history i key).getLast?.getD none := by
  rw [put, (records_grown h).bindings]

theorem depth_grown (h : Feasible history) (habove : Around history i above) :
    (grown history).depth i = above.length := by
  rw [depth, scope, (records_grown h).tables_eq h habove]
  exact List.length_map _

/-- Two trees answer alike about a scope, whatever is asked or put there. -/
structure Alike (forest forest' : Forest) (i : Nat) : Prop where
  get : ∀ key, forest.get i key = forest'.get i key
  has : ∀ key, forest.has i key = forest'.has i key
  put : ∀ key x v, (forest.put i key x v).2 = (forest'.put i key x v).2
  depth : forest.depth i = forest'.depth i

/-- What is put neither in a scope nor in one around it does not change what the scope answers. -/
theorem alike_append {more : List Step} (h : Feasible history) (h' : Feasible (history ++ more))
    (habove : Around history i above)
    (hmore : ∀ j key x v, .put j key x v ∈ more → j ∉ i :: above) :
    Alike (grown (history ++ more)) (grown history) i := by
  have hputs : ∀ j ∈ i :: above, ∀ key, puts (history ++ more) j key = puts history j key := by
    intro j hj key
    have hnil : puts more j key = [] := by
      refine List.eq_nil_iff_forall_not_mem.2 fun v hv => ?_
      obtain ⟨x, hx⟩ := mem_puts_iff.1 hv
      exact hmore j key x v hx hj
    rw [puts_append, hnil, List.append_nil]
  have habove' := habove.append more
  refine ⟨fun key => ?_, fun key => ?_, fun key x v => ?_, ?_⟩
  · have hmap : (i :: above).map (puts (history ++ more) · key) = (i :: above).map (puts history · key) :=
      List.map_congr_left fun j hj => hputs j hj key
    have hfind := congrArg (List.findSome? List.getLast?) hmap
    rw [List.findSome?_map, List.findSome?_map] at hfind
    rw [get_grown h' habove', get_grown h habove]
    exact congrArg (Option.getD · none) hfind
  · rw [has, has, (records_grown h').bindings, (records_grown h).bindings, hputs i List.mem_cons_self]
  · rw [put_grown h', put_grown h, hputs i List.mem_cons_self]
  · rw [depth_grown h' habove', depth_grown h habove]

end Answers

/-- After any operations on a tree of scopes that is grown from one scope, and for every scope: its depth is
the number of scopes around it; it binds the names that were put there; a name has the value that was put
last in the nearest scope where it was ever put, and none if there is no such scope; putting a name returns
the value that was put there last; and opening a scope inside it returns the next number.

What is put elsewhere than in the scopes around a scope does not change what these answer. A scope that was
opened inside the same one, one that is inside the scope itself and one that is opened later are not among
them. -/
theorem answers_grown {history : List Step} (h : Feasible history) {i : Nat}
    (hi : i < population history) :
    ∃ above, Around history i above ∧
      (grown history).depth i = above.length ∧
      (∀ key, (grown history).has i key = true ↔ ∃ name value, .put i key name value ∈ history) ∧
      (∀ key, (grown history).get i key =
        ((i :: above).findSome? fun j => (puts history j key).getLast?).getD none) ∧
      (∀ key x v, ((grown history).put i key x v).2 = (puts history i key).getLast?.getD none) ∧
      (((grown history).child i).2 = population history ∧
        Around (history ++ [.child i]) (population history) (i :: above)) ∧
      (∀ more, Feasible (history ++ more) →
        (∀ j key x v, .put j key x v ∈ more → j ∉ above) →
          ∀ a ∈ above, Alike (grown (history ++ more)) (grown history) a) ∧
      ∀ j, parent? history j = parent? history i ∨ (∃ outside, Around history j outside ∧ i ∈ outside) ∨
        population history ≤ j → j ∉ above := by
  obtain ⟨above, habove⟩ := exists_around h hi
  refine ⟨above, habove, depth_grown h habove, has_grown h i, get_grown h habove, put_grown h i,
    ⟨(records_grown h).length_cells, habove.child⟩, fun more h' hmore a ha => ?_,
    fun j hj => habove.not_mem h hi hj⟩
  obtain ⟨far, hfar, hsub⟩ := habove.of_mem ha
  exact alike_append h h' hfar fun j key x v hput hj => hmore j key x v hput (hsub hj)

/-- A name that was put without a value has none further inside, though it was put with one further out,
before and after. -/
theorem answers_grown_shadowed :
    let x (i : Nat) (value : Option Value) : Step := .put i (.text "x") (.str "x") value
    let history : List Step := [x 0 (some (.int 1)), .child 0, x 1 none, .child 1, x 0 (some (.int 2))]
    (Feasible history ∧ 2 < population history) ∧ Around history 2 [1, 0] ∧
      (grown history).depth 2 = 2 ∧ (grown history).has 2 (.text "x") = false ∧
      (grown history).get 2 (.text "x") = none := by
  intro x history
  have hfeasible : Feasible history := by
    have h1 : Feasible [x 0 (some (.int 1))] := Feasible.nil.concat (by decide)
    have h2 : Feasible [x 0 (some (.int 1)), .child 0] := h1.concat (by decide)
    have h3 : Feasible [x 0 (some (.int 1)), .child 0, x 1 none] := h2.concat (by decide)
    have h4 : Feasible [x 0 (some (.int 1)), .child 0, x 1 none, .child 1] := h3.concat (by decide)
    exact h4.concat (by decide)
  have hi : 2 < population history := by decide
  obtain ⟨above, habove, hdepth, hhas, hget, -⟩ := answers_grown hfeasible hi
  obtain rfl : above = [1, 0] := habove.unique (.inside rfl (.inside rfl .outermost))
  exact ⟨⟨hfeasible, hi⟩, habove, hdepth, Bool.eq_false_iff.2 (mt (hhas _).1 (by simp [history, x])), hget _⟩

end Forest

end Abacus
