import Abacus.Proofs.Eval.Outcome
import Abacus.Proofs.Tree.Subtree
import Abacus.Session

/-!
# What a program reads

A program sees the scopes around it only through the names that it looks up. Two scopes that give these
names the same values, at whatever level they bind them, cannot be told apart: the program has the same
results in both or fails with the same error, and afterwards the scopes still agree on the names.

The proof carries the agreement along the run. A definition binds its name in the table of either scope, and
so to the same value; a block runs in a new table inside both; an error ends both runs at the same place.

## Main definitions

* `Scope.Agree` — two scopes give the names of a family the same values
* `Outcome.Agree` — two outcomes have the same result and leave scopes that agree

## Main results

* `Node.eval_eq_of_agree`, `Node.exec_agree`, `Node.run_agree` — expressions, statements and programs in
  two scopes that agree
* `runIn_eq_of_lookup_eq` — a program depends on the scope only through the names that occur in it
-/

namespace Abacus

/-! ### Scopes that agree -/

theorem Table.get?_set (table : Table) (key : Key) (x : Json) (v : Option Value) (k : Key) :
    (table.set key x v).get? k = if key = k then some v else table.get? k := by
  induction table with
  | nil => by_cases h : key = k <;> simp [set, get?, h]
  | cons b table ih =>
    rw [set]
    by_cases hb : b.key = key
    · rw [if_pos hb]
      by_cases hk : key = k
      · simp [get?, hb, hk]
      · simp [get?, hb, hk]
    · rw [if_neg hb]
      by_cases hk : b.key = k
      · have hne : key ≠ k := fun h => hb (hk.trans h.symm)
        simp [get?, hk, hne]
      · have hskip (table : Table) : Table.get? (b :: table) k = table.get? k := by simp [get?, hk]
        rw [hskip, hskip, ih]

namespace Scope

theorem lookup_set (table : Table) (outer : List Table) (key : Key) (x : Json) (v : Option Value)
    (k : Key) :
    lookup ⟨table.set key x v, outer⟩ k = if key = k then v else lookup ⟨table, outer⟩ k := by
  rw [lookup, Abacus.lookup, Table.get?_set]
  by_cases h : key = k
  · simp [h]
  · simp [h, lookup, Abacus.lookup]

/-- A new scope inside another binds nothing. -/
theorem lookup_nil (outer : List Table) (k : Key) : lookup ⟨[], outer⟩ k = Abacus.lookup k outer :=
  rfl

/-- Two scopes give the names of a family the same values, or none. -/
def Agree (names : Json → Prop) (s t : Scope) : Prop :=
  ∀ x, names x → ∀ key ∈ x.key?, s.lookup key = t.lookup key

section Agree

variable {names : Json → Prop} {table table' : Table} {outer outer' : List Table}

theorem Agree.valueOf {s t : Scope} (h : Agree names s t) {x : Json} (hx : names x) :
    s.valueOf x = t.valueOf x := by
  unfold Scope.valueOf
  cases hkey : x.key? with
  | none => rfl
  | some key => simp only [h x hx key hkey]

/-- Scopes that agree still do when both bind a name to the same value. -/
theorem Agree.set (h : Agree names ⟨table, outer⟩ ⟨table', outer'⟩) (key : Key) (y : Json)
    (v : Option Value) :
    Agree names ⟨table.set key y v, outer⟩ ⟨table'.set key y v, outer'⟩ := by
  intro x hx k hk
  rw [lookup_set, lookup_set, h x hx k hk]

/-- New scopes inside scopes that agree do so too. -/
theorem Agree.enter (h : Agree names ⟨table, outer⟩ ⟨table', outer'⟩) :
    Agree names ⟨[], table :: outer⟩ ⟨[], table' :: outer'⟩ := by
  intro x hx k hk
  rw [lookup_nil, lookup_nil]
  exact h x hx k hk

end Agree

end Scope

/-! ### Outcomes that agree -/

/-- Two outcomes have the same result and leave scopes that agree. Their events may differ, as the scopes
may be inside different numbers of others. -/
structure Outcome.Agree {α : Type} (names : Json → Prop) (outer outer' : List Table)
    (o o' : Outcome α) : Prop where
  result : o.result = o'.result
  scope : Scope.Agree names ⟨o.table, outer⟩ ⟨o'.table, outer'⟩

section Outcome

variable {α β : Type} {names : Json → Prop} {table table' : Table} {outer outer' : List Table}

theorem Scope.Agree.lift (h : Scope.Agree names ⟨table, outer⟩ ⟨table', outer'⟩)
    (result : Except EvalError α) :
    Outcome.Agree names outer outer' (.lift result table) (.lift result table') :=
  ⟨rfl, h⟩

/-- Going on alike in scopes that agree keeps the agreement. -/
theorem Outcome.Agree.andThen {o o' : Outcome α} {next next' : α → Table → Outcome β}
    (h : Outcome.Agree names outer outer' o o')
    (hnext : ∀ a table table', Scope.Agree names ⟨table, outer⟩ ⟨table', outer'⟩ →
      Outcome.Agree names outer outer' (next a table) (next' a table')) :
    Outcome.Agree names outer outer' (o.andThen next) (o'.andThen next') := by
  obtain ⟨result, left, events⟩ := o
  obtain ⟨result', left', events'⟩ := o'
  obtain ⟨hresult, hscope⟩ := h
  obtain rfl : result = result' := hresult
  cases result with
  | error e => exact ⟨rfl, hscope⟩
  | ok a => exact ⟨(hnext a left left' hscope).result, (hnext a left left' hscope).scope⟩

theorem Outcome.Agree.after {o o' : Outcome α} (h : Outcome.Agree names outer outer' o o')
    (event event' : Event) :
    Outcome.Agree names outer outer' (o.after event) (o'.after event') :=
  ⟨h.result, h.scope⟩

end Outcome

namespace Node

/-! ### Expressions -/

/-- The node is no name, or one of the family. -/
def ReadsOnly (names : Json → Prop) (node : Node) : Prop :=
  ∀ x, node = .name x → names x

section Eval

variable {names : Json → Prop} {s t : Scope}

mutual

/-- An expression has the same value in scopes that agree on its names. -/
theorem eval_eq_of_agree (h : Scope.Agree names s t) : (e : Node) →
    (∀ part ∈ e.subtrees, ReadsOnly names part) → eval s e = eval t e
  | .int _, _ | .bool _, _ => by
    rw [eval, eval]
  | .name x, hreads => by
    have hx : names x := hreads (.name x) (mem_subtrees_self _) x rfl
    rw [eval, eval, h.valueOf hx]
  | .list items, hreads => by
    rw [eval, eval, evalAll_eq_of_agree h items (List.forall_mem_cons.1 hreads).2]
  | .unary op e, hreads => by
    rw [eval, eval, eval_eq_of_agree h e (List.forall_mem_cons.1 hreads).2]
  | .binary op l r, hreads | .logical op l r, hreads | .relational op l r, hreads => by
    obtain ⟨hl, hr⟩ := forall_subtrees_pair l r (by rw [inner]) hreads
    rw [eval, eval, eval_eq_of_agree h l hl, eval_eq_of_agree h r hr]
  | .gap, _ | .many _, _ | .expr _, _ | .define _ _, _ | .branch _ _ _, _ | .block _, _
  | .unread _, _ => by
    rw [eval, eval]
    all_goals nofun

theorem evalAll_eq_of_agree (h : Scope.Agree names s t) : (es : List Node) →
    (∀ part ∈ subtreesAll es, ReadsOnly names part) → evalAll s es = evalAll t es
  | [], _ => by
    rw [evalAll, evalAll]
  | e :: es, hreads => by
    obtain ⟨he, hes⟩ := forall_subtreesAll_cons hreads
    rw [evalAll, evalAll, eval_eq_of_agree h e he, evalAll_eq_of_agree h es hes]

end

end Eval

/-! ### Statements -/

section Exec

variable {names : Json → Prop}

theorem bindName_agree {table table' : Table} {outer outer' : List Table}
    (h : Scope.Agree names ⟨table, outer⟩ ⟨table', outer'⟩) (x : Json) (v : Value) :
    Outcome.Agree names outer outer' (bindName x v table) (bindName x v table') := by
  unfold bindName
  cases x.key? with
  | none => exact ⟨rfl, h⟩
  | some key => exact ⟨rfl, h.set key x (some v)⟩

mutual

/-- A statement has the same result in scopes that agree on its names, and leaves scopes that do. -/
theorem exec_agree : (s : Node) → (∀ part ∈ s.subtrees, ReadsOnly names part) →
    {outer outer' : List Table} → {table table' : Table} →
    Scope.Agree names ⟨table, outer⟩ ⟨table', outer'⟩ →
    Outcome.Agree names outer outer' (exec outer s table) (exec outer' s table')
  | .expr e, hreads, outer, outer', table, table', h => by
    rw [exec, exec, eval_eq_of_agree h e (List.forall_mem_cons.1 hreads).2]
    exact h.lift _
  | .define x e, hreads, outer, outer', table, table', h => by
    rw [exec, exec, eval_eq_of_agree h e (List.forall_mem_cons.1 hreads).2]
    exact (h.lift _).andThen fun v _ _ h => bindName_agree h x v
  | .branch test yes no, hreads, outer, outer', table, table', h => by
    obtain ⟨htest, hyes, hno⟩ := forall_subtrees_branch hreads
    rw [exec, exec, eval_eq_of_agree h test htest]
    refine (h.lift _).andThen fun v _ _ h => (h.lift _).andThen fun truth _ _ h => ?_
    -- both runs take the same branch
    refine Outcome.Agree.after ?_ _ _
    by_cases htruth : truth = true
    · rw [if_pos htruth, if_pos htruth]
      exact exec_agree yes hyes h
    · rw [if_neg htruth, if_neg htruth]
      by_cases hgap : no.isGap = true
      · rw [if_pos hgap, if_pos hgap]
        exact ⟨rfl, h⟩
      · rw [if_neg hgap, if_neg hgap]
        exact exec_agree no hno h
  | .block body, hreads, outer, outer', table, table', h => by
    rw [exec, exec]
    by_cases hempty : body.isEmpty = true
    · rw [if_pos hempty, if_pos hempty]
      exact ⟨rfl, h⟩
    · rw [if_neg hempty, if_neg hempty]
      -- what the body binds is forgotten in both scopes
      have hbody := execBody_agree body (List.forall_mem_cons.1 hreads).2 none h.enter
      exact ⟨hbody.result, h⟩
  | .gap, _, _, _, _, _, h | .many _, _, _, _, _, _, h | .int _, _, _, _, _, _, h
  | .unread _, _, _, _, _, _, h | .bool _, _, _, _, _, _, h | .name _, _, _, _, _, _, h
  | .list _, _, _, _, _, _, h | .unary _ _, _, _, _, _, _, h | .binary _ _ _, _, _, _, _, _, h
  | .logical _ _ _, _, _, _, _, _, h | .relational _ _ _, _, _, _, _, _, h => by
    rw [exec, exec]
    · exact ⟨rfl, h⟩
    all_goals nofun

theorem execBody_agree : (body : List Node) → (∀ part ∈ subtreesAll body, ReadsOnly names part) →
    (last : Option Value) → {outer outer' : List Table} → {table table' : Table} →
    Scope.Agree names ⟨table, outer⟩ ⟨table', outer'⟩ →
    Outcome.Agree names outer outer' (execBody outer last body table)
      (execBody outer' last body table')
  | [], _, last, _, _, _, _, h => by
    rw [execBody, execBody]
    exact ⟨rfl, h⟩
  | s :: ss, hreads, last, _, _, _, _, h => by
    obtain ⟨hs, hss⟩ := forall_subtreesAll_cons hreads
    rw [execBody, execBody]
    exact (exec_agree s hs h).andThen fun v _ _ h => execBody_agree ss hss v h

end

/-- Statements one after the other have the same results in scopes that agree on their names, and leave
scopes that do. -/
theorem run_agree {body : List Node} (hreads : ∀ part ∈ subtreesAll body, ReadsOnly names part)
    {outer outer' : List Table} {table table' : Table}
    (h : Scope.Agree names ⟨table, outer⟩ ⟨table', outer'⟩) :
    Outcome.Agree names outer outer' (run outer body table) (run outer' body table') := by
  induction body generalizing table table' with
  | nil => exact ⟨rfl, h⟩
  | cons s ss ih =>
    obtain ⟨hs, hss⟩ := forall_subtreesAll_cons hreads
    rw [run, run]
    refine (exec_agree s hs h).andThen fun v _ _ h => ?_
    exact (ih hss h).andThen fun vs _ _ h => ⟨rfl, h⟩

end Exec

end Node

/-! ### Programs -/

/-- A program depends on the scope that it runs in only through the names that occur in it. In two scopes, of
whatever depth, that give these names the same values, it has the same results or fails with the same
error, and afterwards the two scopes still give them the same values. -/
theorem runIn_eq_of_lookup_eq (body : List Node) (s t : Scope)
    (h : ∀ x, .name x ∈ Node.subtreesAll body → ∀ key ∈ x.key?, s.lookup key = t.lookup key) :
    (runIn s.outer body s.own).result = (runIn t.outer body t.own).result ∧
      ∀ x, .name x ∈ Node.subtreesAll body → ∀ key ∈ x.key?,
        Scope.lookup ⟨(runIn s.outer body s.own).table, s.outer⟩ key =
          Scope.lookup ⟨(runIn t.outer body t.own).table, t.outer⟩ key := by
  -- the family of names is the one that occurs in the program
  have hreads : ∀ part ∈ Node.subtreesAll body,
      Node.ReadsOnly (fun x => .name x ∈ Node.subtreesAll body) part := by
    rintro part hpart x rfl
    exact hpart
  have hagree := Node.run_agree hreads h
  refine ⟨?_, hagree.scope⟩
  simp only [runIn, hagree.result]

/-- A name that is bound in the scope itself or two scopes further out is read alike, also in a block that
binds another name. -/
theorem runIn_eq_of_lookup_eq_block :
    let x : Binding := ⟨.text "x", .str "x", some (.int 2)⟩
    let z : Binding := ⟨.text "z", .str "z", some (.bool true)⟩
    let body : List Node :=
      [.block [.define (.str "y") (.binary .add (.name (.str "x")) (.int 1)), .expr (.name (.str "y"))]]
    (∀ name, .name name ∈ Node.subtreesAll body → ∀ key ∈ name.key?,
      Scope.lookup ⟨[x], []⟩ key = Scope.lookup ⟨[], [[z], [x]]⟩ key) ∧
    (runIn [[z], [x]] body []).result = .ok [some (.int 3)] := by
  intro x z body
  have hlookup : ∀ name, .name name ∈ Node.subtreesAll body → ∀ key ∈ name.key?,
      Scope.lookup ⟨[x], []⟩ key = Scope.lookup ⟨[], [[z], [x]]⟩ key := by
    intro name hname key hkey
    have hcases : name = .str "x" ∨ name = .str "y" := by
      simpa [body, Node.subtreesAll, Node.inner] using hname
    rcases hcases with rfl | rfl <;> cases hkey <;> rfl
  refine ⟨hlookup, ?_⟩
  exact (runIn_eq_of_lookup_eq body ⟨[x], []⟩ ⟨[], [[z], [x]]⟩ hlookup).1.symm.trans rfl

end Abacus
