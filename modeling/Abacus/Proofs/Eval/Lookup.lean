import Abacus.Proofs.Computation
import Abacus.Proofs.Eval.Outcome

/-!
# Looking up names

A run looks up names, each in the scope where it stands. The lookups of a run are listed here in order, up
to the error that ends it. Where every binding has a value, a run ends with the error about an unknown
name just when one of its lookups is of a name that no table of the scope binds. Names that are lists or
objects are bound nowhere, but looking up one of them is an error of another kind.

## Main definitions

* `Json.IsCompound` — the name is a list or an object
* `Table.Valued`, `Scope.Valued` — every binding has a value
* `Scope.Unbound` — no table of the scope binds the name
* `Node.lookups`, `Node.execLookups`, `Node.runLookups` — the names that are looked up and their scopes

## Main results

* `Scope.valueOf_eq_unknownName_iff` — when a lookup fails
* `Node.run_blames` — when a run fails with the error about an unknown name
-/

namespace Abacus

/-- Whether a document is a list or an object. -/
def Json.IsCompound : Json → Prop
  | .arr _ | .obj _ => True
  | _ => False

/-- Lists and objects are the documents that names are not compared by. -/
theorem Json.key?_eq_none_iff {x : Json} : x.key? = none ↔ x.IsCompound := by
  cases x with
  | float b => cases b <;> simp [key?, Binary64.toRat?, IsCompound]
  | _ => simp [key?, IsCompound]

/-! ### Bindings with values -/

/-- Whether every name that a table binds is bound to a value. -/
def Table.Valued (table : Table) : Prop :=
  ∀ b ∈ table, b.value.isSome

theorem Table.Valued.set {table : Table} (h : table.Valued) (key : Key) (x : Json) (v : Value) :
    (table.set key x (some v)).Valued := by
  induction table with
  | nil => exact List.forall_mem_singleton.2 rfl
  | cons b table ih =>
    obtain ⟨hb, htable⟩ := List.forall_mem_cons.1 h
    rw [Table.set]
    split
    · exact List.forall_mem_cons.2 ⟨rfl, htable⟩
    · exact List.forall_mem_cons.2 ⟨hb, ih htable⟩

namespace Scope

/-- Whether every name that is bound in a scope is bound to a value. -/
def Valued (scope : Scope) : Prop :=
  ∀ table ∈ scope.own :: scope.outer, Table.Valued table

/-- Whether no table of a scope binds a name. -/
def Unbound (scope : Scope) (x : Json) : Prop :=
  ∀ table ∈ scope.own :: scope.outer, ∀ key ∈ x.key?, table.get? key = none

/-- Where every binding has a value, a name without a value is bound nowhere. -/
theorem lookup_eq_none_iff {key : Key} {tables : List Table}
    (h : ∀ table ∈ tables, Table.Valued table) :
    Abacus.lookup key tables = none ↔ ∀ table ∈ tables, table.get? key = none := by
  induction tables with
  | nil => simp [Abacus.lookup]
  | cons table tables ih =>
    obtain ⟨htable, htables⟩ := List.forall_mem_cons.1 h
    rw [List.forall_mem_cons, ← ih htables, Abacus.lookup]
    rcases hget : table.get? key with _ | value
    · simp
    · -- the table binds the name, and so to a value
      obtain ⟨b, hb, rfl⟩ := Option.map_eq_some_iff.1 hget
      have hsome := htable b (List.mem_of_find?_eq_some hb)
      cases hvalue : b.value with
      | none => simp [hvalue] at hsome
      | some v => simp

/-- Looking up a name fails with the error about an unknown name when the name is bound nowhere and is
neither a list nor an object. -/
theorem valueOf_eq_unknownName_iff {scope : Scope} (h : scope.Valued) {x y : Json} :
    scope.valueOf x = .error (.unknownName y) ↔ y = x ∧ ¬x.IsCompound ∧ scope.Unbound x := by
  rw [← Json.key?_eq_none_iff]
  unfold valueOf
  rcases hkey : x.key? with _ | key
  · simp
  · have hlookup : scope.lookup key = none ↔ scope.Unbound x := by
      rw [lookup, lookup_eq_none_iff h]
      simp [Unbound, hkey]
    rw [← hlookup]
    dsimp only
    cases scope.lookup key <;> simp [eq_comm]

end Scope

/-! ### The lookups of a run -/

/-- What comes after a step, unless the step fails. -/
def afterOk {ε α β : Type} (step : Except ε α) (next : α → List β) : List β :=
  match step with
  | .ok a => next a
  | .error _ => []

namespace Node

mutual

/-- The names that are looked up while an expression is evaluated, each with the scope. -/
def lookups (scope : Scope) : Node → List (Scope × Json)
  | .name x => [(scope, x)]
  | .list items => lookupsAll scope items
  | .unary _ e => lookups scope e
  | .binary _ l r | .relational _ l r =>
    lookups scope l ++ afterOk (eval scope l) fun _ => lookups scope r
  | .logical _ l r =>
    lookups scope l ++ afterOk (eval scope l >>= Value.asTruth) fun _ => lookups scope r
  | _ => []

/-- The names that are looked up while several expressions are evaluated. -/
def lookupsAll (scope : Scope) : List Node → List (Scope × Json)
  | [] => []
  | e :: es => lookups scope e ++ afterOk (eval scope e) fun _ => lookupsAll scope es

end

mutual

/-- The names that are looked up while a statement runs. -/
def execLookups (outer : List Table) : Node → Table → List (Scope × Json)
  | .expr e, table | .define _ e, table => lookups ⟨table, outer⟩ e
  | .branch test yes no, table =>
    lookups ⟨table, outer⟩ test ++
      afterOk (eval ⟨table, outer⟩ test >>= Value.asTruth) fun truth =>
        if truth then execLookups outer yes table else execLookups outer no table
  | .block body, table => runLookups (table :: outer) body []
  | _, _ => []

/-- The names that are looked up while statements run one after the other. -/
def runLookups (outer : List Table) : List Node → Table → List (Scope × Json)
  | [], _ => []
  | s :: ss, table =>
    execLookups outer s table ++
      afterOk (exec outer s table).result fun _ => runLookups outer ss (exec outer s table).table

end

end Node

/-! ### Which lookup is to blame -/

/-- The error about an unknown name is the result just when one of the lookups fails. -/
def Blames {α : Type} (result : Except EvalError α) (asked : List (Scope × Json)) : Prop :=
  ∀ x, result = .error (.unknownName x) ↔
    ∃ scope, (scope, x) ∈ asked ∧ ¬x.IsCompound ∧ scope.Unbound x

section Blames

variable {α β : Type} {result : Except EvalError α} {asked : List (Scope × Json)}

theorem blames_nil (h : ∀ x, result ≠ .error (.unknownName x)) : Blames result [] := by
  intro x
  simp [h x]

theorem blames_ok (a : α) : Blames (.ok a) [] :=
  blames_nil nofun

/-- The lookups of a step come first, and decide unless the step succeeds. -/
theorem Blames.bind {f : α → Except EvalError β} {next : α → List (Scope × Json)}
    (h : Blames result asked) (hf : ∀ a, result = .ok a → Blames (f a) (next a)) :
    Blames (result >>= f) (asked ++ afterOk result next) := by
  intro x
  cases result with
  | error e =>
    have hx := h x
    simpa [afterOk, bind, Except.bind] using hx
  | ok a =>
    have hnone : ¬∃ scope, (scope, x) ∈ asked ∧ ¬x.IsCompound ∧ scope.Unbound x := fun hsome =>
      absurd ((h x).2 hsome) nofun
    have hnext : Except.ok a >>= f = f a := rfl
    rw [hnext, hf a rfl x]
    constructor
    · rintro ⟨scope, hmem, hfails⟩
      exact ⟨scope, List.mem_append_right _ hmem, hfails⟩
    · rintro ⟨scope, hmem, hfails⟩
      rcases List.mem_append.1 hmem with hmem | hmem
      · exact absurd ⟨scope, hmem, hfails⟩ hnone
      · exact ⟨scope, hmem, hfails⟩

/-- What makes no lookups adds none. -/
theorem Blames.bind_of_ne {f : α → Except EvalError β} (h : Blames result asked)
    (hf : ∀ a x, f a ≠ .error (.unknownName x)) : Blames (result >>= f) asked := by
  have hbind : Blames (result >>= f) (asked ++ afterOk result fun _ => []) :=
    h.bind fun a _ => blames_nil (hf a)
  have hnil : afterOk result (fun _ => ([] : List (Scope × Json))) = [] := by
    cases result <;> rfl
  rwa [hnil, List.append_nil] at hbind

theorem Blames.map (h : Blames result asked) (f : α → β) : Blames (result.map f) asked := by
  have hbind := h.bind_of_ne (f := fun a => .ok (f a)) fun _ _ => nofun
  cases result <;> exact hbind

end Blames

/-! ### Expressions -/

theorem asTruth_ne (v : Value) (x : Json) : v.asTruth ≠ .error (.unknownName x) := by
  cases v <;> exact nofun

theorem asInt_ne (v : Value) (x : Json) : v.asInt ≠ .error (.unknownName x) := by
  cases v <;> exact nofun

theorem checked_ne (n : Int) (x : Json) : checked n ≠ .error (.unknownName x) := by
  unfold checked
  split <;> exact nofun

theorem unary_ne (op : UnaryOp) (v : Value) (x : Json) :
    op.apply v ≠ .error (.unknownName x) := by
  cases op with
  | plus => exact nofun
  | minus =>
    exact bind_ne_error (asInt_ne v x) fun n => bind_ne_error (checked_ne _ x) fun _ => nofun
  | not => exact bind_ne_error (asTruth_ne v x) fun _ => nofun

theorem compute_ne (op : BinaryOp) (m n : Int) (x : Json) :
    op.compute m n ≠ .error (.unknownName x) := by
  cases op with
  | add | sub | mul => exact checked_ne _ x
  | div =>
    rw [BinaryOp.compute]
    split
    · exact checked_ne _ x
    · exact nofun
  | pow =>
    simp only [BinaryOp.compute, power]
    repeat' split
    all_goals first | exact checked_ne _ x | exact nofun

theorem binary_ne (op : BinaryOp) (v w : Value) (x : Json) :
    op.apply v w ≠ .error (.unknownName x) := by
  unfold BinaryOp.apply
  split
  · exact bind_ne_error (compute_ne op _ _ x) fun _ => nofun
  · exact nofun

theorem relational_ne (op : RelOp) (v w : Value) (x : Json) :
    op.apply v w ≠ .error (.unknownName x) := by
  unfold RelOp.apply
  repeat' split
  all_goals exact nofun

namespace Node

variable {scope : Scope}

mutual

theorem eval_blames (h : scope.Valued) : (e : Node) → Blames (eval scope e) (lookups scope e)
  | .int _ | .bool _ => by
    rw [eval, lookups]
    · exact blames_ok _
    all_goals nofun
  | .name x => by
    rw [eval, lookups]
    intro y
    rw [Scope.valueOf_eq_unknownName_iff h]
    constructor
    · rintro ⟨rfl, hfails⟩
      exact ⟨scope, List.mem_singleton.2 rfl, hfails⟩
    · rintro ⟨scope', hmem, hfails⟩
      cases List.mem_singleton.1 hmem
      exact ⟨rfl, hfails⟩
  | .list items => by
    rw [eval, lookups]
    exact (evalAll_blames h items).bind_of_ne fun vs _ => pure_ne_error _ _
  | .unary op e => by
    rw [eval, lookups]
    exact (eval_blames h e).bind_of_ne fun v => unary_ne op v
  | .binary op l r => by
    rw [eval, lookups]
    exact (eval_blames h l).bind fun v _ => (eval_blames h r).bind_of_ne fun w => binary_ne op v w
  | .relational op l r => by
    rw [eval, lookups]
    exact (eval_blames h l).bind fun v _ => (eval_blames h r).bind_of_ne fun w =>
      relational_ne op v w
  | .logical op l r => by
    rw [eval, lookups, ← bind_assoc]
    refine ((eval_blames h l).bind_of_ne asTruth_ne).bind fun b _ => ?_
    rw [← bind_assoc]
    exact ((eval_blames h r).bind_of_ne asTruth_ne).bind_of_ne fun c _ => pure_ne_error _ _
  | .gap | .many _ | .expr _ | .define _ _ | .branch _ _ _ | .block _ | .unread _ => by
    rw [eval, lookups]
    · exact blames_nil nofun
    all_goals nofun

theorem evalAll_blames (h : scope.Valued) : (es : List Node) →
    Blames (evalAll scope es) (lookupsAll scope es)
  | [] => by
    rw [evalAll, lookupsAll]
    exact blames_ok _
  | e :: es => by
    rw [evalAll, lookupsAll]
    exact (eval_blames h e).bind fun v _ => (evalAll_blames h es).bind_of_ne fun vs _ =>
      pure_ne_error _ _

end

/-! ### Statements -/

theorem exec_valued (s : Node) (outer : List Table) {table : Table} (h : table.Valued) :
    (exec outer s table).table.Valued := by
  rcases exec_table_cases s outer table with htable | ⟨-, key, x, v, htable⟩
  · rwa [htable]
  · rw [htable]
    exact h.set key x v

theorem bindName_ne (x : Json) (v : Value) (table : Table) (y : Json) :
    (bindName x v table).result ≠ .error (.unknownName y) := by
  unfold bindName
  split <;> exact nofun

mutual

theorem exec_blames : (s : Node) → {outer : List Table} → {table : Table} →
    (∀ t ∈ table :: outer, t.Valued) →
    Blames (exec outer s table).result (execLookups outer s table)
  | .expr e, outer, table, h => by
    rw [exec, execLookups]
    exact (@eval_blames ⟨table, outer⟩ h e).map some
  | .define x e, outer, table, h => by
    rw [exec, execLookups, Outcome.andThen_result]
    exact (@eval_blames ⟨table, outer⟩ h e).bind_of_ne fun v => bindName_ne x v table
  | .branch test yes no, outer, table, h => by
    have hresult : (exec outer (.branch test yes no) table).result =
        (eval ⟨table, outer⟩ test >>= Value.asTruth) >>= fun truth =>
          (if truth then exec outer yes table
            else if no.isGap then .done none table else exec outer no table).result := by
      rw [exec, bind_assoc, Outcome.andThen_result]
      simp only [Outcome.andThen_result]
      rfl
    rw [hresult, execLookups]
    have htest := @eval_blames ⟨table, outer⟩ h test
    refine (htest.bind_of_ne asTruth_ne).bind fun truth _ => ?_
    cases truth with
    | true => exact exec_blames yes h
    | false =>
      cases no with
      | gap =>
        have hnone : execLookups outer .gap table = [] := by simp [execLookups]
        rw [if_neg Bool.false_ne_true, hnone]
        exact blames_ok _
      | _ => exact exec_blames _ h
  | .block body, outer, table, h => by
    rw [exec, execLookups]
    split
    · rename_i hempty
      rw [List.isEmpty_iff.1 hempty, runLookups]
      exact blames_nil nofun
    · exact execBody_blames body none (List.forall_mem_cons.2 ⟨List.forall_mem_nil _, h⟩)
  | .gap, _, _, _ | .many _, _, _, _ | .int _, _, _, _ | .unread _, _, _, _ | .bool _, _, _, _
  | .name _, _, _, _ | .list _, _, _, _ | .unary _ _, _, _, _ | .binary _ _ _, _, _, _
  | .logical _ _ _, _, _, _ | .relational _ _ _, _, _, _ => by
    rw [exec, execLookups]
    · exact blames_nil nofun
    all_goals nofun

theorem execBody_blames : (body : List Node) → (last : Option Value) → {outer : List Table} →
    {table : Table} → (∀ t ∈ table :: outer, t.Valued) →
    Blames (execBody outer last body table).result (runLookups outer body table)
  | [], last, outer, table, _ => by
    rw [execBody, runLookups]
    exact blames_ok _
  | s :: ss, last, outer, table, h => by
    rw [execBody, runLookups, Outcome.andThen_result]
    obtain ⟨htable, houter⟩ := List.forall_mem_cons.1 h
    exact (exec_blames s h).bind fun v _ =>
      execBody_blames ss v (List.forall_mem_cons.2 ⟨exec_valued s outer htable, houter⟩)

end

end Node

end Abacus
