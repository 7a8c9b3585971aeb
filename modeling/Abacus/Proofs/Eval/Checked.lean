import Abacus.Proofs.Computation
import Abacus.Proofs.Eval.Exact

/-!
# Checked evaluation is exact

Running a program on integers of 32 bits gives what running it on unbounded integers gives, as long as
all arithmetic on the way stays in range; and it fails with an overflow as soon as some does not.

The literals of the program and the values of the scope have to be in range. All values that are
computed then are, so that an integer of a value never has to be checked again.

## Main definitions

* `Value.InRange`, `Table.InRange`, `Node.LiteralsInRange` — where only integers in range occur
* `Checks`, `ChecksOutcome` — a checked computation and its exact form

## Main results

* `power_eq_checked` — the short cuts for powers give what checking the exact power gives
* `Node.eval_checks`, `Node.exec_checks`, `Node.run_checks` — checked evaluation and exact evaluation
* `Node.run_eq_exactRun` — how their results are related
-/

namespace Abacus

/-! ### Arithmetic -/

theorem pow_succ_eq (base : Int) (n : Nat) : Int.pow base (n + 1) = Int.pow base n * base :=
  Int.pow_succ base n

theorem pow_neg_one_base (n : Nat) : Int.pow (-1) n = if n % 2 = 0 then 1 else -1 := by
  induction n with
  | zero => rfl
  | succ n ih =>
    rw [pow_succ_eq, ih]
    split <;> split <;> omega

/-- Powers of a base other than zero, one and minus one are at least those of two. -/
theorem pow_two_le_natAbs_pow {base : Int} (h : 2 ≤ base.natAbs) (n : Nat) :
    Nat.pow 2 n ≤ (Int.pow base n).natAbs := by
  induction n with
  | zero =>
    have hone : Int.pow base 0 = 1 := Int.pow_zero base
    rw [hone]
    decide
  | succ n ih =>
    rw [pow_succ_eq, Int.natAbs_mul]
    exact Nat.mul_le_mul ih h

theorem checked_of_inRange {n : Int} (h : InRange n) : checked n = .ok n :=
  if_pos h

theorem checked_of_not_inRange {n : Int} (h : ¬InRange n) : checked n = .error .overflow :=
  if_neg h

theorem not_inRange_pow {base : Int} {n : Nat} (hbase : 2 ≤ base.natAbs) (hn : 31 < n) :
    ¬InRange (Int.pow base n) := by
  have hle := pow_two_le_natAbs_pow hbase n
  have hmono : Nat.pow 2 32 ≤ Nat.pow 2 n := Nat.pow_le_pow_right (by decide) hn
  have hpow : Nat.pow 2 32 = 4294967296 := rfl
  rintro ⟨hmin, hmax⟩
  rw [minInt] at hmin
  rw [maxInt] at hmax
  omega

/-- Powers are checked by short cuts, with the same result as if they were computed. -/
theorem power_eq_checked {base exponent : Int} (h : 0 ≤ exponent) :
    power base exponent = checked (Int.pow base exponent.toNat) := by
  obtain ⟨n, rfl⟩ := Int.eq_ofNat_of_zero_le h
  rw [Int.toNat_natCast]
  by_cases h0 : base = 0
  · subst h0
    cases n with
    | zero => rfl
    | succ n =>
      have hpow : Int.pow 0 (n + 1) = 0 := Int.zero_pow (Nat.succ_ne_zero n)
      have hne : ((n + 1 : Nat) : Int) ≠ 0 := by omega
      rw [hpow, checked_of_inRange (by decide), power, if_pos (.inl rfl), if_neg hne]
  by_cases h1 : base = 1
  · subst h1
    have hpow : Int.pow 1 n = 1 := Int.one_pow
    rw [hpow, checked_of_inRange (by decide), power, if_pos (.inr rfl), ite_self]
  have h01 : ¬(base = 0 ∨ base = 1) := by omega
  rw [power, if_neg h01]
  by_cases hm : base = -1
  · subst hm
    have hparity : (n : Int) % 2 = 0 ↔ n % 2 = 0 := by omega
    rw [pow_neg_one_base n, if_pos rfl, checked_of_inRange (by split <;> decide)]
    simp only [hparity]
  rw [if_neg hm]
  by_cases hlarge : 31 < (n : Int)
  · -- the base is neither 0 nor 1 nor -1, so the power is out of range
    rw [if_pos hlarge, checked_of_not_inRange (not_inRange_pow (by omega) (by omega))]
  · rw [if_neg hlarge, Int.toNat_natCast]

/-- An arithmetic operator checks its exact result. -/
theorem compute_eq (op : BinaryOp) (x y : Int) : op.compute x y = op.exactInt x y >>= checked := by
  cases op with
  | add | sub | mul => rfl
  | div =>
    simp only [BinaryOp.compute, BinaryOp.exactInt, quotient?]
    split <;> rename_i h <;> split at h <;> simp_all <;> rfl
  | pow =>
    simp only [BinaryOp.compute, BinaryOp.exactInt]
    split
    · rfl
    · rename_i h
      rw [power_eq_checked (by omega)]
      rfl

/-! ### Where only integers in range occur -/

mutual

/-- Whether all integers in a value are in range. -/
def Value.InRange : Value → Prop
  | .int n => Abacus.InRange n
  | .bool _ => True
  | .list items => Value.AllInRange items

/-- Whether all integers in several values are in range. -/
def Value.AllInRange : List Value → Prop
  | [] => True
  | v :: vs => v.InRange ∧ Value.AllInRange vs

end

/-- Whether all integers that names are bound to are in range. -/
def Table.InRange (table : Table) : Prop :=
  ∀ b ∈ table, ∀ v ∈ b.value, v.InRange

mutual

/-- Whether all literals of a tree are integers in range. -/
def Node.LiteralsInRange : Node → Prop
  | .int n => InRange n
  | .unread _ => False
  | .gap | .bool _ | .name _ => True
  | .expr e | .define _ e | .unary _ e => e.LiteralsInRange
  | .branch test yes no => test.LiteralsInRange ∧ yes.LiteralsInRange ∧ no.LiteralsInRange
  | .binary _ l r | .logical _ l r | .relational _ l r => l.LiteralsInRange ∧ r.LiteralsInRange
  | .many nodes | .block nodes | .list nodes => Node.AllLiteralsInRange nodes

/-- Whether all literals of several trees are integers in range. -/
def Node.AllLiteralsInRange : List Node → Prop
  | [] => True
  | node :: nodes => node.LiteralsInRange ∧ Node.AllLiteralsInRange nodes

end

theorem inRange_of_lookup {key : Key} {tables : List Table} {v : Value}
    (htables : ∀ table ∈ tables, Table.InRange table) (h : lookup key tables = some v) :
    v.InRange := by
  induction tables with
  | nil => cases h
  | cons table tables ih =>
    rw [List.forall_mem_cons] at htables
    -- the nearest table that binds the name decides
    rw [lookup] at h
    split at h
    · rename_i value hget
      obtain ⟨b, hb, rfl⟩ := Option.map_eq_some_iff.1 hget
      exact htables.1 b (List.mem_of_find?_eq_some hb) v h
    · exact ih htables.2 h

theorem Table.InRange.set {table : Table} (h : table.InRange) {v : Value} (hv : v.InRange) (key : Key)
    (x : Json) : (table.set key x (some v)).InRange := by
  induction table with
  | nil =>
    rintro b hb w hw
    rw [List.mem_singleton.1 hb] at hw
    cases hw
    exact hv
  | cons b table ih =>
    obtain ⟨hb, htable⟩ := List.forall_mem_cons.1 h
    rw [Table.set]
    split
    · refine List.forall_mem_cons.2 ⟨?_, htable⟩
      rintro w ⟨⟩
      exact hv
    · exact List.forall_mem_cons.2 ⟨hb, ih htable⟩

/-! ### Checked and exact computations -/

/-- A checked computation ends in `x` and its exact form in `y`, with some arithmetic on the way: they
agree if the arithmetic stays in range, and otherwise the checked computation overflows. -/
structure Checks {ρ : Type} (settled overflows : ρ → Prop) (x y : ρ) (reached : List Int) : Prop where
  agree : (∀ n ∈ reached, InRange n) → x = y ∧ settled y
  overflow : ∀ n ∈ reached, ¬InRange n → overflows x

section Checks

variable {ρ σ : Type} {settled overflows : ρ → Prop} {settled' overflows' : σ → Prop} {x y : ρ}
  {reached reached' : List Int}

theorem checks_nil (h : settled x) : Checks settled overflows x x [] :=
  ⟨fun _ => ⟨rfl, h⟩, by simp⟩

/-- A computation goes on with a result on which both forms agree; an overflow ends it. -/
theorem Checks.append {f g : ρ → σ} (h : Checks settled overflows x y reached)
    (hnext : settled y → Checks settled' overflows' (f y) (g y) reached')
    (hover : overflows x → overflows' (f x)) :
    Checks settled' overflows' (f x) (g y) (reached ++ reached') := by
  constructor
  · -- both parts stay in range, and the second goes on from what the first agrees on
    intro hin
    rw [List.forall_mem_append] at hin
    obtain ⟨rfl, hy⟩ := h.agree hin.1
    exact (hnext hy).agree hin.2
  · intro n hn hout
    by_cases hin : ∀ m ∈ reached, InRange m
    · obtain ⟨rfl, hy⟩ := h.agree hin
      rcases List.mem_append.1 hn with hn | hn
      · exact absurd (hin n hn) hout
      · exact (hnext hy).overflow n hn hout
    · -- the overflow came before
      have hexists : ∃ m ∈ reached, ¬InRange m := by simpa using hin
      obtain ⟨m, hm, hout⟩ := hexists
      exact hover (h.overflow m hm hout)

/-- Both forms are changed in the same way. -/
theorem Checks.map {f : ρ → σ} (h : Checks settled overflows x y reached)
    (hsettled : settled y → settled' (f y)) (hover : overflows x → overflows' (f x)) :
    Checks settled' overflows' (f x) (f y) reached := by
  have := h.append (g := f) (fun hy => checks_nil (hsettled hy)) hover
  rwa [List.append_nil] at this

end Checks

section Eval

variable {α β : Type} {good : α → Prop} {good' : β → Prop}

/-- A good result, or an error that is no overflow. -/
def Settled (good : α → Prop) : Except EvalError α → Prop
  | .ok a => good a
  | .error e => e ≠ .overflow

/-- A checked result and its exact form. -/
def EvalChecks (good : α → Prop) (x : Except EvalError α) (y : Exact α) : Prop :=
  Checks (Settled good) (· = .error .overflow) x y.result y.reached

theorem Settled.checks {x : Except EvalError α} (h : Settled good x) : EvalChecks good x (.lift x) :=
  checks_nil h

theorem checks_pure {a : α} (h : good a) : EvalChecks good (pure a) (pure a) :=
  checks_nil h

theorem checks_reach (n : Int) : EvalChecks InRange (checked n) (.reach n) := by
  constructor
  · intro h
    have hn := h n (List.mem_singleton.2 rfl)
    exact ⟨checked_of_inRange hn, hn⟩
  · intro m hm hout
    rw [List.mem_singleton.1 hm] at hout
    exact checked_of_not_inRange hout

theorem EvalChecks.bind {x : Except EvalError α} {y : Exact α} {f : α → Except EvalError β}
    {g : α → Exact β} (hx : EvalChecks good x y) (hf : ∀ a, good a → EvalChecks good' (f a) (g a)) :
    EvalChecks good' (x >>= f) (y >>= g) := by
  refine Checks.append (f := (· >>= f)) (g := (· >>= fun a => (g a).result)) hx (fun hy => ?_)
    fun hover => ?_
  · obtain ⟨result, reached⟩ := y
    cases result with
    | error e => exact checks_nil hy
    | ok a => exact hf a hy
  · rw [hover]
    rfl

theorem EvalChecks.map {x : Except EvalError α} {y : Exact α} (h : EvalChecks good x y) {f : α → β}
    (hf : ∀ a, good a → good' (f a)) : EvalChecks good' (x.map f) (f <$> y) := by
  have hbind := h.bind (f := fun a => pure (f a)) (g := fun a => pure (f a)) fun a ha =>
    checks_pure (hf a ha)
  cases x <;> exact hbind

/-! ### Operators -/

theorem settled_asInt {v : Value} (h : v.InRange) : Settled InRange v.asInt := by
  cases v with
  | int n => exact h
  | bool b => exact nofun
  | list items => exact nofun

theorem settled_asTruth (v : Value) : Settled (fun _ => True) v.asTruth := by
  cases v with
  | int n => trivial
  | bool b => trivial
  | list items => exact nofun

/-- Comparing values takes no arithmetic. -/
theorem settled_relation (op : RelOp) (v w : Value) : Settled Value.InRange (op.apply v w) := by
  unfold RelOp.apply
  repeat' split
  all_goals first | trivial | exact nofun

theorem unary_checks (op : UnaryOp) {v : Value} (h : v.InRange) :
    EvalChecks Value.InRange (op.apply v) (op.exact v) := by
  cases op with
  | plus => exact checks_pure h
  | minus =>
    exact (settled_asInt h).checks.bind fun n _ => (checks_reach (-n)).bind fun m hm =>
      checks_pure hm
  | not => exact (settled_asTruth v).checks.bind fun b _ => checks_pure trivial

theorem settled_exactInt (op : BinaryOp) (x y : Int) :
    Settled (fun _ => True) (op.exactInt x y) := by
  cases op with
  | add | sub | mul => trivial
  | div =>
    rw [BinaryOp.exactInt]
    split
    · exact nofun
    · trivial
  | pow =>
    rw [BinaryOp.exactInt]
    split
    · exact nofun
    · trivial

theorem binary_checks (op : BinaryOp) (v w : Value) :
    EvalChecks Value.InRange (op.apply v w) (op.exact v w) := by
  have hother : EvalChecks Value.InRange (.error (.unsupported op v.type w.type))
      (.lift (.error (.unsupported op v.type w.type))) := Settled.checks nofun
  cases v with
  | int x =>
    cases w with
    | int y =>
      -- the exact result is found first, and then checked
      rw [BinaryOp.apply, compute_eq, bind_assoc]
      exact (settled_exactInt op x y).checks.bind fun n _ => (checks_reach n).bind fun m hm =>
        checks_pure hm
    | bool b => exact hother
    | list items => exact hother
  | bool b => exact hother
  | list items => exact hother

end Eval

/-! ### Expressions -/

/-- Whether all integers that names are bound to in a scope are in range. -/
def Scope.InRange (scope : Scope) : Prop :=
  ∀ table ∈ scope.own :: scope.outer, Table.InRange table

theorem settled_valueOf {scope : Scope} (h : scope.InRange) (x : Json) :
    Settled Value.InRange (scope.valueOf x) := by
  unfold Scope.valueOf
  split
  · exact nofun
  · split
    · rename_i v hv
      exact inRange_of_lookup h hv
    · exact nofun

namespace Node

variable {scope : Scope}

mutual

theorem eval_checks (hscope : scope.InRange) : (e : Node) → e.LiteralsInRange →
    EvalChecks Value.InRange (eval scope e) (exactEval scope e)
  | .int n, h => by
    rw [eval, exactEval]
    exact checks_pure h
  | .bool b, _ => by
    rw [eval, exactEval]
    exact checks_pure trivial
  | .name x, _ => by
    rw [eval, exactEval]
    exact (settled_valueOf hscope x).checks
  | .list items, h => by
    rw [eval, exactEval]
    exact (evalAll_checks hscope items h).bind fun vs hvs => checks_pure hvs
  | .unary op e, h => by
    rw [eval, exactEval]
    exact (eval_checks hscope e h).bind fun v hv => unary_checks op hv
  | .binary op l r, h => by
    rw [eval, exactEval]
    exact (eval_checks hscope l h.1).bind fun v _ => (eval_checks hscope r h.2).bind fun w _ =>
      binary_checks op v w
  | .logical op l r, h => by
    rw [eval, exactEval]
    exact (eval_checks hscope l h.1).bind fun v _ => (settled_asTruth v).checks.bind fun b _ =>
      (eval_checks hscope r h.2).bind fun w _ => (settled_asTruth w).checks.bind fun c _ =>
        checks_pure trivial
  | .relational op l r, h => by
    rw [eval, exactEval]
    exact (eval_checks hscope l h.1).bind fun v _ => (eval_checks hscope r h.2).bind fun w _ =>
      (settled_relation op v w).checks
  | .unread _, h => h.elim
  | .gap, _ | .many _, _ | .expr _, _ | .define _ _, _ | .branch _ _ _, _ | .block _, _ => by
    rw [eval, exactEval]
    · exact Settled.checks nofun
    all_goals nofun

theorem evalAll_checks (hscope : scope.InRange) : (es : List Node) → AllLiteralsInRange es →
    EvalChecks Value.AllInRange (evalAll scope es) (exactEvalAll scope es)
  | [], _ => by
    rw [evalAll, exactEvalAll]
    exact checks_pure trivial
  | e :: es, h => by
    rw [evalAll, exactEvalAll]
    exact (eval_checks hscope e h.1).bind fun v hv => (evalAll_checks hscope es h.2).bind
      fun vs hvs => checks_pure ⟨hv, hvs⟩

end

end Node

/-! ### Statements -/

section Exec

variable {α β : Type} {good : α → Prop} {good' : β → Prop} {table : Table}

/-- A checked outcome and its exact form. The table stays in range. -/
def ExecChecks (good : α → Prop) (o : Outcome α) (y : ExactOutcome α) : Prop :=
  Checks (fun o => Settled good o.result ∧ o.table.InRange) (·.result = .error .overflow) o y.outcome
    y.reached

theorem execChecks_done {a : α} (ha : good a) (ht : table.InRange) :
    ExecChecks good (.done a table) (.plain (.done a table)) :=
  checks_nil ⟨ha, ht⟩

theorem execChecks_fail {e : EvalError} (he : e ≠ .overflow) (ht : table.InRange) :
    ExecChecks good (.fail e table) (.plain (.fail e table)) :=
  checks_nil ⟨he, ht⟩

theorem EvalChecks.lift {x : Except EvalError α} {y : Exact α} (h : EvalChecks good x y)
    (ht : table.InRange) : ExecChecks good (.lift x table) (.lift y table) :=
  Checks.map (f := (Outcome.lift · table)) h (fun hy => ⟨hy, ht⟩) id

theorem ExecChecks.after {o : Outcome α} {y : ExactOutcome α} (h : ExecChecks good o y)
    (event : Event) : ExecChecks good (o.after event) (y.map (.after event)) :=
  Checks.map (f := Outcome.after event) h id id

theorem ExecChecks.andThen {o : Outcome α} {y : ExactOutcome α} {f : α → Table → Outcome β}
    {g : α → Table → ExactOutcome β} (h : ExecChecks good o y)
    (hf : ∀ a table, good a → table.InRange → ExecChecks good' (f a table) (g a table)) :
    ExecChecks good' (o.andThen f) (y.andThen g) := by
  refine Checks.append (f := (Outcome.andThen · f))
    (g := (Outcome.andThen · fun a table => (g a table).outcome)) h ?_ fun hover => ?_
  · rintro ⟨hresult, ht⟩
    obtain ⟨⟨result, table, events⟩, reached⟩ := y
    cases result with
    | error e => exact checks_nil ⟨hresult, ht⟩
    | ok a =>
      -- the events so far come before those of the next outcome
      let prepend (o' : Outcome β) : Outcome β := ⟨o'.result, o'.table, events ++ o'.events⟩
      exact Checks.map (f := prepend) (hf a table hresult ht) id id
  · simp only [Outcome.andThen, hover]

end Exec

namespace Node

variable {outer : List Table} {table : Table}

/-- All integers in a value, if there is one, are in range. -/
def GoodResult (v : Option Value) : Prop :=
  ∀ w ∈ v, w.InRange

theorem goodResult_none : GoodResult none := by
  simp [GoodResult]

theorem goodResult_some {v : Value} (h : v.InRange) : GoodResult (some v) := by
  simpa [GoodResult] using h

theorem evalIn_checks (houter : ∀ t ∈ outer, t.InRange) (ht : table.InRange) (e : Node)
    (h : e.LiteralsInRange) :
    EvalChecks Value.InRange (eval ⟨table, outer⟩ e) (exactEval ⟨table, outer⟩ e) :=
  eval_checks (List.forall_mem_cons.2 ⟨ht, houter⟩) e h

theorem bindName_checks {v : Value} (x : Json) (hv : v.InRange) (ht : table.InRange) :
    ExecChecks GoodResult (bindName x v table) (.plain (bindName x v table)) := by
  unfold bindName
  split
  · exact execChecks_fail nofun ht
  · exact checks_nil ⟨goodResult_none, ht.set hv _ x⟩

/-- A block has its own table; the table around it stays as it is. -/
theorem enclose_checks {o : Outcome (Option Value)} {y : ExactOutcome (Option Value)}
    (h : ExecChecks GoodResult o y) (ht : table.InRange) (depth : Nat) :
    ExecChecks GoodResult (enclose table depth o) (y.map (enclose table depth)) :=
  Checks.map (f := enclose table depth) h (fun hy => ⟨hy.1, ht⟩) id

mutual

theorem exec_checks : (s : Node) → s.LiteralsInRange → {outer : List Table} → {table : Table} →
    (∀ t ∈ outer, t.InRange) → table.InRange →
    ExecChecks GoodResult (exec outer s table) (exactExec outer s table)
  | .expr e, h, outer, table, houter, ht => by
    rw [exec, exactExec]
    exact ((evalIn_checks houter ht e h).map fun v hv => goodResult_some hv).lift ht
  | .define x e, h, outer, table, houter, ht => by
    rw [exec, exactExec]
    exact ((evalIn_checks houter ht e h).lift ht).andThen fun v table hv ht =>
      bindName_checks x hv ht
  | .branch test yes no, h, outer, table, houter, ht => by
    rw [exec, exactExec]
    refine ((evalIn_checks houter ht test h.1).lift ht).andThen fun v table _ ht =>
      ((settled_asTruth v).checks.lift ht).andThen fun truth table _ ht => ExecChecks.after ?_ _
    split
    · exact exec_checks yes h.2.1 houter ht
    · split
      · exact execChecks_done goodResult_none ht
      · exact exec_checks no h.2.2 houter ht
  | .block body, h, outer, table, houter, ht => by
    rw [exec, exactExec]
    split
    · exact execChecks_fail nofun ht
    · have htables : ∀ t ∈ table :: outer, t.InRange := List.forall_mem_cons.2 ⟨ht, houter⟩
      exact enclose_checks (execBody_checks body h htables (List.forall_mem_nil _) goodResult_none)
        ht _
  | .gap, _, _, _, _, ht | .many _, _, _, _, _, ht | .int _, _, _, _, _, ht
  | .unread _, _, _, _, _, ht | .bool _, _, _, _, _, ht | .name _, _, _, _, _, ht
  | .list _, _, _, _, _, ht | .unary _ _, _, _, _, _, ht | .binary _ _ _, _, _, _, _, ht
  | .logical _ _ _, _, _, _, _, ht | .relational _ _ _, _, _, _, _, ht => by
    rw [exec, exactExec]
    · exact execChecks_fail nofun ht
    all_goals nofun

theorem execBody_checks : (ss : List Node) → AllLiteralsInRange ss → {outer : List Table} →
    {table : Table} → {last : Option Value} → (∀ t ∈ outer, t.InRange) → table.InRange →
    GoodResult last →
    ExecChecks GoodResult (execBody outer last ss table) (exactExecBody outer last ss table)
  | [], _, _, _, _, _, ht, hlast => by
    rw [execBody, exactExecBody]
    exact execChecks_done hlast ht
  | s :: ss, h, _, _, _, houter, ht, _ => by
    rw [execBody, exactExecBody]
    exact (exec_checks s h.1 houter ht).andThen fun v table hv ht =>
      execBody_checks ss h.2 houter ht hv

end

theorem run_checks {body : List Node} (h : AllLiteralsInRange body)
    (houter : ∀ t ∈ outer, t.InRange) (ht : table.InRange) :
    ExecChecks (fun _ => True) (run outer body table) (exactRun outer body table) := by
  induction body generalizing table with
  | nil => exact execChecks_done trivial ht
  | cons s ss ih =>
    rw [run, exactRun]
    exact (exec_checks s h.1 houter ht).andThen fun v table _ ht =>
      (ih h.2 ht).andThen fun vs table _ ht => execChecks_done trivial ht

/-- A program whose literals are in range runs in scopes whose values are in range as it runs on
unbounded integers, up to an overflow. A success gives the results and bindings of the exact run, and so
does an error that is no overflow. The run overflows just when the exact run reaches an arithmetic
operation with a result out of range. -/
theorem run_eq_exactRun (outer : List Table) (body : List Node) (table : Table)
    (hbody : AllLiteralsInRange body) (houter : ∀ t ∈ outer, t.InRange) (htable : table.InRange) :
    (∀ values, (run outer body table).result = .ok values →
      (exactRun outer body table).outcome.result = .ok values ∧
        (exactRun outer body table).outcome.table = (run outer body table).table) ∧
    (∀ e, (run outer body table).result = .error e → e ≠ .overflow →
      (exactRun outer body table).outcome.result = .error e ∧
        (exactRun outer body table).outcome.table = (run outer body table).table) ∧
    ((run outer body table).result = .error .overflow ↔
      ∃ n ∈ (exactRun outer body table).reached, ¬InRange n) := by
  obtain ⟨hagree, hover⟩ := run_checks hbody houter htable
  by_cases hin : ∀ n ∈ (exactRun outer body table).reached, InRange n
  · -- all arithmetic is in range: the two runs are the same, and do not overflow
    obtain ⟨heq, hsettled, -⟩ := hagree hin
    rw [heq]
    refine ⟨fun values h => ⟨h, rfl⟩, fun e h _ => ⟨h, rfl⟩, fun h => ?_, ?_⟩
    · rw [h] at hsettled
      exact absurd rfl hsettled
    · rintro ⟨n, hn, hout⟩
      exact absurd (hin n hn) hout
  · -- some is not: the run overflows, whatever the exact run goes on to do
    have hexists : ∃ n ∈ (exactRun outer body table).reached, ¬InRange n := by simpa using hin
    obtain ⟨n, hn, hout⟩ := hexists
    have hoverflow := hover n hn hout
    rw [hoverflow]
    exact ⟨nofun, fun e h hne => absurd (by cases h; rfl) hne, fun _ => ⟨n, hn, hout⟩, fun _ => rfl⟩

theorem run_eq_exactRun_successor :
    (run [] [.expr (.binary .add (.int maxInt) (.int 1))] []).result = .error .overflow := by
  have hbody : AllLiteralsInRange [.expr (.binary .add (.int maxInt) (.int 1))] :=
    ⟨⟨(by decide : InRange maxInt), (by decide : InRange 1)⟩, trivial⟩
  have hreached : maxInt + 1 ∈
      (exactRun [] [.expr (.binary .add (.int maxInt) (.int 1))] []).reached :=
    List.mem_singleton.2 rfl
  obtain ⟨-, -, hover⟩ := run_eq_exactRun [] _ [] hbody (List.forall_mem_nil _)
    (List.forall_mem_nil _)
  exact hover.2 ⟨_, hreached, by decide⟩

end Node

end Abacus
