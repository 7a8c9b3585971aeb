import Abacus.Proofs.Eval.Lookup
import Abacus.Proofs.Program.WellFormed

/-!
# The errors that a tree can raise

Some errors are about values: an operator or a test does not suit its operands. All others are about the
shape of a tree and can be listed from the tree alone, without running it: a name that may be unknown or
that cannot be looked up, a node in the wrong place, an empty block. Whatever the bindings are, a run
raises an error about values or one of those that its tree lists.

The trees of source texts list nothing but unknown names, and these are words.

## Main definitions

* `EvalError.isOperation` — the errors about values
* `Node.hazards`, `Node.execHazards`, `Node.runHazards` — the errors that the shape of a tree allows
* `Raises` — all errors of a computation are about values or listed

## Main results

* `Node.run_raises` — a run raises nothing but errors about values and errors that its tree lists
* `Stmt.runHazards_toNodes` — what the trees of well-formed programs list
* `Node.exists_failing` — a run that fails has a first statement that does
-/

namespace Abacus

/-- Whether an error is about values: an operator or a test does not suit its operands, or there is no
result in range. -/
def EvalError.isOperation : EvalError → Bool
  | .notInteger _ | .notTruth _ | .unsupported _ _ _ | .incomparable _ _ | .unordered _ _
  | .divideByZero | .negativePower | .overflow => true
  | _ => false

/-! ### Errors from the shape of a tree -/

namespace Node

/-- The error that looking up a name can raise. -/
def nameHazard (x : Json) : EvalError :=
  if x.key?.isNone then .compoundName x else .unknownName x

mutual

/-- The errors that the shape of an expression allows. -/
def hazards : Node → List EvalError
  | .int _ | .bool _ => []
  | .name x => [nameHazard x]
  | .list items => hazardsAll items
  | .unary _ e => hazards e
  | .binary _ l r | .logical _ l r | .relational _ l r => hazards l ++ hazards r
  | other => [.misplacedExpression other]

/-- The errors that the shapes of several expressions allow. -/
def hazardsAll : List Node → List EvalError
  | [] => []
  | e :: es => hazards e ++ hazardsAll es

end

mutual

/-- The errors that the shape of a statement allows. -/
def execHazards : Node → List EvalError
  | .expr e => hazards e
  | .define x e => hazards e ++ if x.key?.isNone then [.compoundName x] else []
  | .branch test yes no =>
    hazards test ++ (execHazards yes ++ if no.isGap then [] else execHazards no)
  | .block body => if body.isEmpty then [.emptyBlock] else runHazards body
  | other => [.misplacedStatement other]

/-- The errors that the shapes of several statements allow. -/
def runHazards : List Node → List EvalError
  | [] => []
  | s :: ss => execHazards s ++ runHazards ss

end

end Node

/-! ### Errors of computations -/

/-- Every error of the computation is about values, or listed. -/
def Raises {α : Type} (result : Except EvalError α) (listed : List EvalError) : Prop :=
  ∀ e, result = .error e → e.isOperation = true ∨ e ∈ listed

section Raises

variable {α β : Type} {result : Except EvalError α} {listed more : List EvalError}

theorem raises_ok (a : α) (listed : List EvalError) : Raises (.ok a) listed :=
  nofun

theorem raises_error {e : EvalError} (h : e ∈ listed) :
    Raises (.error e : Except EvalError α) listed := by
  rintro _ ⟨⟩
  exact .inr h

theorem Raises.mono (h : Raises result listed) (hsub : listed ⊆ more) : Raises result more :=
  fun e he => (h e he).imp_right fun hmem => hsub hmem

theorem Raises.bind {f : α → Except EvalError β} (h : Raises result listed)
    (hf : ∀ a, Raises (f a) more) : Raises (result >>= f) (listed ++ more) := by
  cases result with
  | error e => exact fun e' he' => (h e' (by cases he'; rfl)).imp_right (List.mem_append_left more)
  | ok a => exact (hf a).mono (List.subset_append_right listed more)

/-- A step that raises only errors about values adds nothing to the list. -/
theorem Raises.bind_operation {f : α → Except EvalError β} (h : Raises result listed)
    (hf : ∀ a, Raises (f a) []) : Raises (result >>= f) listed := by
  simpa using h.bind hf

theorem Raises.map (h : Raises result listed) (f : α → β) : Raises (result.map f) listed := by
  cases result with
  | error e =>
    rintro _ ⟨⟩
    exact h e rfl
  | ok a => exact raises_ok _ _

end Raises

/-! ### Operators -/

theorem asTruth_raises (v : Value) : Raises v.asTruth [] := by
  cases v <;> rintro _ ⟨⟩
  exact .inl rfl

theorem asInt_raises (v : Value) : Raises v.asInt [] := by
  cases v <;> rintro _ ⟨⟩ <;> exact .inl rfl

theorem checked_raises (n : Int) : Raises (checked n) [] := by
  unfold checked
  split
  · exact raises_ok _ _
  · rintro _ ⟨⟩
    exact .inl rfl

theorem unary_raises (op : UnaryOp) (v : Value) : Raises (op.apply v) [] := by
  cases op with
  | plus => exact raises_ok _ _
  | minus =>
    exact (asInt_raises v).bind_operation fun n =>
      (checked_raises (-n)).bind_operation fun _ => raises_ok _ _
  | not => exact (asTruth_raises v).bind_operation fun _ => raises_ok _ _

theorem compute_raises (op : BinaryOp) (m n : Int) : Raises (op.compute m n) [] := by
  cases op with
  | add | sub | mul => exact checked_raises _
  | div =>
    rw [BinaryOp.compute]
    split
    · exact checked_raises _
    · rintro _ ⟨⟩
      exact .inl rfl
  | pow =>
    simp only [BinaryOp.compute, power]
    repeat' split
    all_goals first
      | exact raises_ok _ _
      | exact checked_raises _
      | (rintro _ ⟨⟩; exact .inl rfl)

theorem binary_raises (op : BinaryOp) (v w : Value) : Raises (op.apply v w) [] := by
  unfold BinaryOp.apply
  split
  · exact (compute_raises op _ _).bind_operation fun _ => raises_ok _ _
  · rintro _ ⟨⟩
    exact .inl rfl

theorem relational_raises (op : RelOp) (v w : Value) : Raises (op.apply v w) [] := by
  unfold RelOp.apply
  repeat' split
  all_goals rintro _ ⟨⟩
  all_goals exact .inl rfl

/-! ### Expressions and statements -/

namespace Node

theorem valueOf_raises (scope : Scope) (x : Json) : Raises (scope.valueOf x) [nameHazard x] := by
  unfold Scope.valueOf nameHazard
  cases x.key? with
  | none => exact raises_error (List.mem_singleton.2 rfl)
  | some key =>
    dsimp only
    split
    · exact raises_ok _ _
    · exact raises_error (List.mem_singleton.2 rfl)

mutual

theorem eval_raises (scope : Scope) : (e : Node) → Raises (eval scope e) (hazards e)
  | .int _ | .bool _ => by
    rw [eval]
    exact raises_ok _ _
  | .name x => by
    rw [eval, hazards]
    exact valueOf_raises scope x
  | .list items => by
    rw [eval, hazards]
    exact (evalAll_raises scope items).bind_operation fun _ => raises_ok _ _
  | .unary op e => by
    rw [eval, hazards]
    exact (eval_raises scope e).bind_operation fun v => unary_raises op v
  | .binary op l r => by
    rw [eval, hazards]
    exact (eval_raises scope l).bind fun v =>
      (eval_raises scope r).bind_operation fun w => binary_raises op v w
  | .relational op l r => by
    rw [eval, hazards]
    exact (eval_raises scope l).bind fun v =>
      (eval_raises scope r).bind_operation fun w => relational_raises op v w
  | .logical op l r => by
    -- each operand is tested for a truth value before the next one is evaluated
    rw [eval, hazards, ← bind_assoc]
    refine ((eval_raises scope l).bind_operation asTruth_raises).bind fun b => ?_
    rw [← bind_assoc]
    exact ((eval_raises scope r).bind_operation asTruth_raises).bind_operation
      fun c => raises_ok _ _
  | .gap | .many _ | .expr _ | .define _ _ | .branch _ _ _ | .block _ | .unread _ => by
    rw [eval, hazards]
    · exact raises_error (List.mem_singleton.2 rfl)
    all_goals nofun

theorem evalAll_raises (scope : Scope) : (es : List Node) →
    Raises (evalAll scope es) (hazardsAll es)
  | [] => by
    rw [evalAll]
    exact raises_ok _ _
  | e :: es => by
    rw [evalAll, hazardsAll]
    exact (eval_raises scope e).bind fun v =>
      (evalAll_raises scope es).bind_operation fun vs => raises_ok _ _

end

theorem bindName_raises (x : Json) (v : Value) (table : Table) :
    Raises (bindName x v table).result (if x.key?.isNone then [.compoundName x] else []) := by
  unfold bindName
  cases x.key? with
  | none => exact raises_error (List.mem_singleton.2 rfl)
  | some key => exact raises_ok _ _

mutual

theorem exec_raises : (s : Node) → (outer : List Table) → (table : Table) →
    Raises (exec outer s table).result (execHazards s)
  | .expr e, outer, table => by
    rw [exec, execHazards]
    exact (eval_raises ⟨table, outer⟩ e).map some
  | .define x e, outer, table => by
    rw [exec, execHazards, Outcome.andThen_result]
    exact (eval_raises ⟨table, outer⟩ e).bind fun v => bindName_raises x v table
  | .branch test yes no, outer, table => by
    rw [exec, execHazards, Outcome.andThen_result]
    refine (eval_raises ⟨table, outer⟩ test).bind fun v => ?_
    rw [Outcome.andThen_result]
    -- the branch that is taken decides
    have htaken : ∀ truth : Bool, Raises (if truth then exec outer yes table
        else if no.isGap then .done none table else exec outer no table).result
        (execHazards yes ++ if no.isGap then [] else execHazards no) := by
      intro truth
      split
      · exact (exec_raises yes outer table).mono (List.subset_append_left _ _)
      · split
        · exact raises_ok _ _
        · exact (exec_raises no outer table).mono (List.subset_append_right _ _)
    exact (asTruth_raises v).bind htaken
  | .block body, outer, table => by
    rw [exec, execHazards]
    split
    · exact raises_error (List.mem_singleton.2 rfl)
    · exact execBody_raises body none (table :: outer) []
  | .gap, _, _ | .many _, _, _ | .int _, _, _ | .unread _, _, _ | .bool _, _, _ | .name _, _, _
  | .list _, _, _ | .unary _ _, _, _ | .binary _ _ _, _, _ | .logical _ _ _, _, _
  | .relational _ _ _, _, _ => by
    rw [exec, execHazards]
    · exact raises_error (List.mem_singleton.2 rfl)
    all_goals nofun

theorem execBody_raises : (body : List Node) → (last : Option Value) → (outer : List Table) →
    (table : Table) → Raises (execBody outer last body table).result (runHazards body)
  | [], last, outer, table => by
    rw [execBody]
    exact raises_ok _ _
  | s :: ss, last, outer, table => by
    rw [execBody, runHazards, Outcome.andThen_result]
    exact (exec_raises s outer table).bind fun v => execBody_raises ss v outer _

end

/-- A run raises nothing but errors about values and the errors that its tree lists. -/
theorem run_raises (body : List Node) (outer : List Table) (table : Table) :
    Raises (run outer body table).result (runHazards body) := by
  induction body generalizing table with
  | nil => exact raises_ok _ _
  | cons s ss ih =>
    rw [run, runHazards, Outcome.andThen_result]
    refine (exec_raises s outer table).bind fun v => ?_
    rw [Outcome.andThen_result]
    exact (ih _).bind_operation fun vs => raises_ok _ _

/-- A run that fails has a first statement that does. Its error ends the run, and the bindings are those
that the statements before it have made. -/
theorem exists_failing {body : List Node} {outer : List Table} {table : Table} {e : EvalError}
    (h : (run outer body table).result = .error e) :
    ∃ before s after vs, body = before ++ s :: after ∧
      (run outer before table).result = .ok vs ∧
      (exec outer s (run outer before table).table).result = .error e ∧
      (run outer body table).table = (run outer before table).table := by
  induction body generalizing table with
  | nil => cases h
  | cons s ss ih =>
    cases hexec : (exec outer s table).result with
    | error e' =>
      obtain ⟨hresult, htable⟩ := run_cons_of_error ss hexec
      obtain rfl : e' = e := by
        rw [hresult] at h
        cases h
        rfl
      -- a statement that fails binds nothing
      have hkeeps : (exec outer s table).table = table := by
        rcases exec_table_cases s outer table with hkeeps | ⟨hok, -⟩
        · exact hkeeps
        · rw [hexec] at hok
          cases hok
      exact ⟨[], s, ss, [], rfl, rfl, hexec, htable.trans hkeeps⟩
    | ok v =>
      obtain ⟨hresult, htable⟩ := run_cons_of_ok ss hexec
      have hrest : (run outer ss (exec outer s table).table).result = .error e := by
        rw [hresult] at h
        cases hss : (run outer ss (exec outer s table).table).result with
        | error e' =>
          rw [hss] at h
          cases h
          rfl
        | ok vs =>
          rw [hss] at h
          cases h
      obtain ⟨before, s', after, vs, rfl, hbefore, hfails, hkeeps⟩ := ih hrest
      obtain ⟨hresult', htable'⟩ := run_cons_of_ok before hexec
      rw [← htable'] at hfails hkeeps
      exact ⟨s :: before, s', after, v :: vs, rfl, by rw [hresult', hbefore]; rfl, hfails,
        htable.trans hkeeps⟩

end Node

/-! ### Trees of source texts -/

/-- The error about a word that no scope binds. -/
def EvalError.IsUnknownWord (e : EvalError) : Prop :=
  ∃ word, IsName word ∧ e = .unknownName (.str word)

theorem isUnknownWord_nameHazard {x : Option Payload} (h : Payload.IsIdentifier x) :
    (Node.nameHazard (Payload.toJson x)).IsUnknownWord := by
  obtain ⟨word, hword, rfl⟩ := h
  exact ⟨word, hword, rfl⟩

theorem isNone_key?_of_isIdentifier {x : Option Payload} (h : Payload.IsIdentifier x) :
    (Payload.toJson x).key?.isNone = false := by
  obtain ⟨word, -, rfl⟩ := h
  rfl

mutual

theorem Expr.hazards_toNode : (e : Expr) → e.WellFormed →
    ∀ h ∈ Node.hazards e.toNode, h.IsUnknownWord
  | .int value, hwf => by
    obtain ⟨n, -, rfl⟩ := hwf
    exact List.forall_mem_nil _
  | .bool b, _ => List.forall_mem_nil _
  | .name x, hwf => List.forall_mem_singleton.2 (isUnknownWord_nameHazard hwf)
  | .unary op e, hwf => Expr.hazards_toNode e hwf
  | .binary op l r, hwf | .logical op l r, hwf | .relational op l r, hwf =>
    List.forall_mem_append.2 ⟨Expr.hazards_toNode l hwf.1, Expr.hazards_toNode r hwf.2⟩
  | .list items, hwf => Expr.hazardsAll_toNodes items hwf

theorem Expr.hazardsAll_toNodes : (es : List Expr) → Expr.AllWellFormed es →
    ∀ h ∈ Node.hazardsAll (Expr.toNodes es), h.IsUnknownWord
  | [], _ => List.forall_mem_nil _
  | e :: es, hwf =>
    List.forall_mem_append.2 ⟨Expr.hazards_toNode e hwf.1, Expr.hazardsAll_toNodes es hwf.2⟩

end

theorem Stmt.isGap_toNode (s : Stmt) : s.toNode.isGap = false := by
  cases s <;> rfl

theorem Stmt.isEmpty_toNodes {body : List Stmt} (h : body ≠ []) :
    (Stmt.toNodes body).isEmpty = false := by
  cases body with
  | nil => exact absurd rfl h
  | cons s ss => rfl

mutual

theorem Stmt.execHazards_toNode : (s : Stmt) → s.WellFormed →
    ∀ h ∈ Node.execHazards s.toNode, h.IsUnknownWord
  | .expr e, hwf => e.hazards_toNode hwf
  | .define x e, hwf => by
    rw [Stmt.toNode, Node.execHazards, isNone_key?_of_isIdentifier hwf.1, if_neg Bool.false_ne_true,
      List.append_nil]
    exact e.hazards_toNode hwf.2
  | .ifThen test yes, hwf => by
    rw [Stmt.toNode, Node.execHazards, Node.isGap, if_pos rfl, List.append_nil]
    exact List.forall_mem_append.2 ⟨test.hazards_toNode hwf.1, Stmt.execHazards_toNode yes hwf.2⟩
  | .ifElse test yes no, hwf => by
    rw [Stmt.toNode, Node.execHazards, no.isGap_toNode, if_neg Bool.false_ne_true]
    obtain ⟨htest, hyes, hno, -⟩ := hwf
    exact List.forall_mem_append.2 ⟨test.hazards_toNode htest, List.forall_mem_append.2
      ⟨Stmt.execHazards_toNode yes hyes, Stmt.execHazards_toNode no hno⟩⟩
  | .block body, hwf => by
    rw [Stmt.toNode, Node.execHazards, Stmt.isEmpty_toNodes hwf.1, if_neg Bool.false_ne_true]
    exact Stmt.runHazards_toNodes body hwf.2

/-- The trees of well-formed programs can raise nothing but errors about values and about unknown
words. -/
theorem Stmt.runHazards_toNodes : (body : List Stmt) → Stmt.AllWellFormed body →
    ∀ h ∈ Node.runHazards (Stmt.toNodes body), h.IsUnknownWord
  | [], _ => List.forall_mem_nil _
  | s :: ss, hwf =>
    List.forall_mem_append.2 ⟨Stmt.execHazards_toNode s hwf.1, Stmt.runHazards_toNodes ss hwf.2⟩

end

end Abacus
