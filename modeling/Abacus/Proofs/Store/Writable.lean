import Abacus.Proofs.Session.Values
import Abacus.Proofs.Store.Interpreter

/-!
# Lines that can be written

The line of an event cannot be written if it holds a number of very many digits. Numbers in range have few.
The literals of a program are in range, and so are the values that it binds and decides on. Only a name that
is itself a long number could spoil a line: one that is defined, in the line of its definition, and one that
stands anywhere in a statement, in the line of the statement as it was read. The names of a source are texts.

## Main definitions

* `Json.IsShortName` — a name is no integer of too many digits
* `Node.HasTextName` — the name that a node holds is a text
* `Node.BindsShortName` — the name that a definition binds is short
* `Outcome.Writable` — the lines of all events can be written

## Main results

* `Event.writable_tokens`, `Node.writable_statement` — the lines of reading
* `Node.run_writable` — the lines of a run
* `Stmt.hasTextName_toNodes` — the names of a program that is read from a source
-/

namespace Abacus

/-! ### Lines with integers in range -/

theorem length_toDigits_natAbs_le {n : Int} (h : InRange n) :
    (Nat.toDigits 10 n.natAbs).length ≤ digitLimit := by
  by_cases hmax : (n.natAbs : Int) ≤ maxInt
  · exact length_toDigits_le_digitLimit hmax
  · -- only the least integer is larger than all others, without its sign
    have hmin : n = minInt := by
      unfold InRange minInt maxInt at *
      omega
    rw [hmin]
    decide

theorem Event.writable_of_inRange {event : Event} (h : ∀ n ∈ event.integers, InRange n) :
    event.Writable :=
  fun n hn => length_toDigits_natAbs_le (h n hn)

/-- Whether a name can stand in a line: if it is an integer, it has no more digits than numerals may have. -/
def Json.IsShortName : Json → Prop
  | .int n => (Nat.toDigits 10 n.natAbs).length ≤ digitLimit
  | _ => True

/-- Lists and objects hold integers too, but are no names. -/
theorem Json.IsShortName.length_toDigits_le {x : Json} (h : x.IsShortName) {key : Key}
    (hkey : x.key? = some key) :
    ∀ n ∈ x.integers, (Nat.toDigits 10 n.natAbs).length ≤ digitLimit := by
  cases x with
  | int n => exact List.forall_mem_singleton.2 h
  | arr items | obj fields => cases hkey
  | _ => exact List.forall_mem_nil _

/-- A line without integers can be written. -/
theorem Event.writable_of_integers_eq_nil {event : Event} (h : event.integers = []) :
    event.Writable :=
  writable_of_inRange (h ▸ List.forall_mem_nil _)

mutual

theorem Value.inRange_of_mem_integers : (v : Value) → v.InRange → ∀ n ∈ v.integers, Abacus.InRange n
  | .int _, h => by
    rw [integers]
    exact List.forall_mem_singleton.2 h
  | .bool _, _ => by
    rw [integers]
    exact List.forall_mem_nil _
  | .list items, h => by
    rw [integers]
    exact Value.inRange_of_mem_integersAll items h

theorem Value.inRange_of_mem_integersAll : (vs : List Value) → Value.AllInRange vs →
    ∀ n ∈ Value.integersAll vs, Abacus.InRange n
  | [], _ => List.forall_mem_nil _
  | v :: vs, h => by
    rw [integersAll]
    exact List.forall_mem_append.2
      ⟨v.inRange_of_mem_integers h.1, Value.inRange_of_mem_integersAll vs h.2⟩

end

/-- The line about a name that is bound can be written. -/
theorem Event.writable_bound {x : Json} (hx : x.IsShortName) {key : Key} (hkey : x.key? = some key)
    {v : Value} (hv : v.InRange) : (Event.bound x v).Writable :=
  List.forall_mem_append.2 ⟨hx.length_toDigits_le hkey,
    fun n hn => length_toDigits_natAbs_le (v.inRange_of_mem_integers hv n hn)⟩

theorem Event.writable_tokens {source : List Char} {ts : List Token} (h : tokenize source = .ok ts) :
    (Event.tokens ts).Writable := by
  apply writable_of_inRange
  intro n hn
  obtain ⟨t, ht, hn⟩ := List.mem_flatMap.1 hn
  have hsourced := isSourced_of_tokensFrom h t ht
  unfold Token.IsSourced at hsourced
  unfold Token.integers at hn
  split at hn
  · -- a literal
    rename_i hkind hpayload
    rw [hkind, hpayload] at hsourced
    obtain ⟨m, hm, hsame⟩ := hsourced
    cases hsame
    cases List.mem_singleton.1 hn
    exact ⟨by rw [minInt]; omega, hm⟩
  · -- an identifier carries a text
    rename_i hkind hpayload
    rw [hkind, hpayload] at hsourced
    obtain ⟨word, -, hsame⟩ := hsourced
    cases hsame
  · cases hn

namespace Node

/-- Whether the name that a node itself holds, if any, is a text. -/
def HasTextName (node : Node) : Prop :=
  ∀ x ∈ node.label?, ∃ s, x = .str s

/-- Whether the name that a node itself binds, if it is a definition, is short. -/
def BindsShortName : Node → Prop
  | .define x _ => x.IsShortName
  | _ => True

mutual

theorem literalsInRange_of_mem_subtrees : (node : Node) → node.LiteralsInRange →
    ∀ part ∈ node.subtrees, part.LiteralsInRange
  | .gap, h | .int _, h | .unread _, h | .bool _, h | .name _, h => by
    rw [subtrees, inner]
    exact List.forall_mem_singleton.2 h
  | .many nodes, h | .block nodes, h | .list nodes, h => by
    rw [subtrees, inner]
    exact List.forall_mem_cons.2 ⟨h, literalsInRange_of_mem_subtreesAll nodes h⟩
  | .expr e, h | .define _ e, h | .unary _ e, h => by
    rw [subtrees, inner]
    exact List.forall_mem_cons.2 ⟨h, literalsInRange_of_mem_subtrees e h⟩
  | .branch test yes no, h => by
    rw [subtrees, inner]
    exact List.forall_mem_cons.2 ⟨h, List.forall_mem_append.2 ⟨List.forall_mem_append.2
      ⟨literalsInRange_of_mem_subtrees test h.1, literalsInRange_of_mem_subtrees yes h.2.1⟩,
      literalsInRange_of_mem_subtrees no h.2.2⟩⟩
  | .binary _ l r, h | .logical _ l r, h | .relational _ l r, h => by
    rw [subtrees, inner]
    exact List.forall_mem_cons.2 ⟨h, List.forall_mem_append.2
      ⟨literalsInRange_of_mem_subtrees l h.1, literalsInRange_of_mem_subtrees r h.2⟩⟩

theorem literalsInRange_of_mem_subtreesAll : (nodes : List Node) → AllLiteralsInRange nodes →
    ∀ part ∈ subtreesAll nodes, part.LiteralsInRange
  | [], _ => List.forall_mem_nil _
  | node :: nodes, h => by
    rw [subtreesAll]
    exact List.forall_mem_append.2
      ⟨literalsInRange_of_mem_subtrees node h.1, literalsInRange_of_mem_subtreesAll nodes h.2⟩

end

theorem integers_eq_nil_of_hasTextName {node : Node} (h : node.HasTextName) {x : Json}
    (hx : node.label? = some x) : x.integers = [] := by
  obtain ⟨s, rfl⟩ := h x hx
  rfl

theorem HasTextName.bindsShortName {node : Node} (h : node.HasTextName) : node.BindsShortName := by
  cases node with
  | define x e =>
    obtain ⟨s, rfl⟩ := h x rfl
    exact True.intro
  | _ => exact True.intro

theorem inRange_of_mem_ownIntegers {node : Node} (h : node.LiteralsInRange)
    (hname : node.HasTextName) : ∀ n ∈ node.ownIntegers, InRange n := by
  intro n hn
  cases node with
  | int m =>
    cases List.mem_singleton.1 hn
    exact h
  | name x | define x e =>
    -- the name is a text, and has no integers
    have hnil : x.integers = [] := integers_eq_nil_of_hasTextName hname rfl
    simp [ownIntegers, label?, hnil] at hn
  | _ => simp [ownIntegers, label?] at hn

theorem writable_statement {node : Node} (h : node.LiteralsInRange)
    (hnames : ∀ part ∈ node.subtrees, part.HasTextName) : (Event.statement node).Writable := by
  apply Event.writable_of_inRange
  intro n hn
  obtain ⟨part, hpart, hn⟩ := List.mem_flatMap.1 hn
  exact inRange_of_mem_ownIntegers (literalsInRange_of_mem_subtrees node h part hpart)
    (hnames part hpart) n hn

end Node

/-! ### The lines of a run -/

/-- The lines of all events of an outcome can be written. -/
def Outcome.Writable {α : Type} (o : Outcome α) : Prop :=
  ∀ event ∈ o.events, event.Writable

namespace Outcome

variable {α β : Type}

theorem writable_lift (result : Except EvalError α) (table : Table) : (lift result table).Writable :=
  List.forall_mem_nil _

theorem Writable.after {o : Outcome α} (h : o.Writable) {event : Event} (hevent : event.Writable) :
    (o.after event).Writable :=
  List.forall_mem_cons.2 ⟨hevent, h⟩

theorem Writable.andThen {o : Outcome α} (h : o.Writable) {f : α → Table → Outcome β}
    (hnext : ∀ a, o.result = .ok a → (f a o.table).Writable) : (o.andThen f).Writable := by
  obtain ⟨result, table, events⟩ := o
  cases result with
  | error e => exact h
  | ok a => exact List.forall_mem_append.2 ⟨h, hnext a rfl⟩

end Outcome

namespace Node

/-- An expression has a value in range where all literals and bindings are. -/
theorem eval_inRange {outer : List Table} {table : Table} (houter : ∀ t ∈ outer, t.InRange)
    (ht : table.InRange) {e : Node} (he : e.LiteralsInRange) {v : Value}
    (h : eval ⟨table, outer⟩ e = .ok v) : v.InRange :=
  (((evalIn_checks houter ht e he).lift ht).of_ok h).1

theorem bindName_writable {x : Json} (hx : x.IsShortName) {v : Value} (hv : v.InRange)
    (table : Table) : (bindName x v table).Writable := by
  rw [bindName]
  cases hkey : x.key? with
  | none => exact List.forall_mem_nil _
  | some key => exact List.forall_mem_singleton.2 (Event.writable_bound hx hkey hv)

/-- The lines around the body of a block hold a depth and nothing else. -/
theorem enclose_writable {o : Outcome (Option Value)} (h : o.Writable) (table : Table) (depth : Nat) :
    (enclose table depth o).Writable := by
  have hentered : (Event.entered depth).Writable := Event.writable_of_integers_eq_nil rfl
  refine List.forall_mem_append.2 ⟨List.forall_mem_cons.2 ⟨hentered, h⟩, ?_⟩
  split
  · exact List.forall_mem_singleton.2 (Event.writable_of_integers_eq_nil rfl)
  · exact List.forall_mem_nil _

mutual

theorem exec_writable : (s : Node) → s.LiteralsInRange →
    (∀ part ∈ s.subtrees, part.BindsShortName) →
    {outer : List Table} → {table : Table} → (∀ t ∈ outer, t.InRange) → table.InRange →
    (exec outer s table).Writable
  | .expr e, _, _, outer, table, _, _ => by
    rw [exec]
    exact Outcome.writable_lift _ _
  | .define x e, h, hnames, outer, table, houter, ht => by
    rw [exec]
    refine (Outcome.writable_lift _ _).andThen fun v hv => ?_
    have he : e.LiteralsInRange := h
    have hx : x.IsShortName := hnames _ (mem_subtrees_self _)
    exact bindName_writable hx (eval_inRange houter ht he hv) _
  | .branch test yes no, h, hnames, outer, table, houter, ht => by
    obtain ⟨-, hyes, hno⟩ := forall_subtrees_branch hnames
    rw [exec]
    refine (Outcome.writable_lift _ _).andThen fun v hv =>
      (Outcome.writable_lift _ _).andThen fun truth _ => Outcome.Writable.after ?_ ?_
    -- the branch that is taken, and the line before it
    · split
      · exact exec_writable yes h.2.1 hyes houter ht
      · split
        · exact List.forall_mem_nil _
        · exact exec_writable no h.2.2 hno houter ht
    · exact Event.writable_of_inRange
        (v.inRange_of_mem_integers (eval_inRange houter ht h.1 hv))
  | .block body, h, hnames, outer, table, houter, ht => by
    rw [exec]
    split
    · exact List.forall_mem_nil _
    · have htables : ∀ t ∈ table :: outer, t.InRange := List.forall_mem_cons.2 ⟨ht, houter⟩
      have hinner := (List.forall_mem_cons.1 hnames).2
      rw [inner] at hinner
      apply enclose_writable
      exact execBody_writable body h hinner none htables (List.forall_mem_nil _)
  | .gap, _, _, _, _, _, _ | .many _, _, _, _, _, _, _ | .int _, _, _, _, _, _, _
  | .unread _, _, _, _, _, _, _ | .bool _, _, _, _, _, _, _ | .name _, _, _, _, _, _, _
  | .list _, _, _, _, _, _, _ | .unary _ _, _, _, _, _, _, _ | .binary _ _ _, _, _, _, _, _, _
  | .logical _ _ _, _, _, _, _, _, _ | .relational _ _ _, _, _, _, _, _, _ => by
    rw [exec]
    · exact List.forall_mem_nil _
    all_goals nofun

theorem execBody_writable : (ss : List Node) → AllLiteralsInRange ss →
    (∀ part ∈ subtreesAll ss, part.BindsShortName) → (last : Option Value) → {outer : List Table} →
    {table : Table} → (∀ t ∈ outer, t.InRange) → table.InRange →
    (execBody outer last ss table).Writable
  | [], _, _, _, _, _, _, _ => by
    rw [execBody]
    exact List.forall_mem_nil _
  | s :: ss, h, hnames, _, _, _, houter, ht => by
    obtain ⟨hs, hss⟩ := forall_subtreesAll_cons hnames
    rw [execBody]
    exact (exec_writable s h.1 hs houter ht).andThen fun v _ =>
      execBody_writable ss h.2 hss v houter (exec_inRange h.1 houter ht)

end

/-- The lines of a run can be written, if its literals and bindings are in range and the names that it
defines are short. -/
theorem run_writable {outer : List Table} (houter : ∀ t ∈ outer, t.InRange) {body : List Node}
    (h : AllLiteralsInRange body) (hnames : ∀ part ∈ subtreesAll body, part.BindsShortName)
    {table : Table} (ht : table.InRange) : (run outer body table).Writable := by
  induction body generalizing table with
  | nil => exact List.forall_mem_nil _
  | cons s ss ih =>
    obtain ⟨hs, hss⟩ := forall_subtreesAll_cons hnames
    rw [run]
    refine (exec_writable s h.1 hs houter ht).andThen fun v _ => ?_
    exact (ih h.2 hss (exec_inRange h.1 houter ht)).andThen fun _ _ => List.forall_mem_nil _

end Node

/-! ### The names of a source -/

theorem Payload.hasTextName_of_isIdentifier {x : Option Payload} (h : Payload.IsIdentifier x)
    {node : Node} (hlabel : node.label? = some (Payload.toJson x)) : node.HasTextName := by
  obtain ⟨word, -, rfl⟩ := h
  intro y hy
  rw [hlabel] at hy
  cases hy
  exact ⟨word, rfl⟩

theorem Node.hasTextName_of_label?_eq_none {node : Node} (h : node.label? = none) :
    node.HasTextName := by
  intro x hx
  rw [h] at hx
  cases hx

mutual

theorem Expr.hasTextName_toNode : (e : Expr) → e.WellFormed →
    ∀ part ∈ e.toNode.subtrees, part.HasTextName
  | .int value, h => by
    obtain ⟨n, -, rfl⟩ := h
    rw [toNode, Node.ofLiteral, Node.subtrees, Node.inner]
    exact List.forall_mem_singleton.2 (Node.hasTextName_of_label?_eq_none rfl)
  | .bool _, _ => by
    rw [toNode, Node.subtrees, Node.inner]
    exact List.forall_mem_singleton.2 (Node.hasTextName_of_label?_eq_none rfl)
  | .name x, h => by
    rw [toNode, Node.subtrees, Node.inner]
    exact List.forall_mem_singleton.2 (Payload.hasTextName_of_isIdentifier h rfl)
  | .unary _ e, h => by
    rw [toNode, Node.subtrees, Node.inner]
    exact List.forall_mem_cons.2
      ⟨Node.hasTextName_of_label?_eq_none rfl, e.hasTextName_toNode h⟩
  | .binary _ l r, h | .logical _ l r, h | .relational _ l r, h => by
    rw [toNode, Node.subtrees, Node.inner]
    exact List.forall_mem_cons.2 ⟨Node.hasTextName_of_label?_eq_none rfl,
      List.forall_mem_append.2 ⟨l.hasTextName_toNode h.1, r.hasTextName_toNode h.2⟩⟩
  | .list items, h => by
    rw [toNode, Node.subtrees, Node.inner]
    exact List.forall_mem_cons.2
      ⟨Node.hasTextName_of_label?_eq_none rfl, Expr.hasTextName_toNodes items h⟩

theorem Expr.hasTextName_toNodes : (es : List Expr) → Expr.AllWellFormed es →
    ∀ part ∈ Node.subtreesAll (Expr.toNodes es), part.HasTextName
  | [], _ => List.forall_mem_nil _
  | e :: es, h => by
    rw [toNodes, Node.subtreesAll]
    exact List.forall_mem_append.2 ⟨e.hasTextName_toNode h.1, Expr.hasTextName_toNodes es h.2⟩

end

mutual

theorem Stmt.hasTextName_toNode : (s : Stmt) → s.WellFormed →
    ∀ part ∈ s.toNode.subtrees, part.HasTextName
  | .expr e, h => by
    rw [toNode, Node.subtrees, Node.inner]
    exact List.forall_mem_cons.2
      ⟨Node.hasTextName_of_label?_eq_none rfl, e.hasTextName_toNode h⟩
  | .define x e, h => by
    rw [toNode, Node.subtrees, Node.inner]
    exact List.forall_mem_cons.2
      ⟨Payload.hasTextName_of_isIdentifier h.1 rfl, e.hasTextName_toNode h.2⟩
  | .ifThen test yes, h => by
    rw [toNode, Node.subtrees, Node.inner]
    refine List.forall_mem_cons.2 ⟨Node.hasTextName_of_label?_eq_none rfl,
      List.forall_mem_append.2 ⟨List.forall_mem_append.2
        ⟨test.hasTextName_toNode h.1, yes.hasTextName_toNode h.2⟩, ?_⟩⟩
    -- there is a gap in place of the second branch
    rw [Node.inner]
    exact List.forall_mem_singleton.2 (Node.hasTextName_of_label?_eq_none rfl)
  | .ifElse test yes no, h => by
    rw [toNode, Node.subtrees, Node.inner]
    exact List.forall_mem_cons.2 ⟨Node.hasTextName_of_label?_eq_none rfl,
      List.forall_mem_append.2 ⟨List.forall_mem_append.2
        ⟨test.hasTextName_toNode h.1, yes.hasTextName_toNode h.2.1⟩,
        no.hasTextName_toNode h.2.2.1⟩⟩
  | .block body, h => by
    rw [toNode, Node.subtrees, Node.inner]
    exact List.forall_mem_cons.2
      ⟨Node.hasTextName_of_label?_eq_none rfl, Stmt.hasTextName_toNodes body h.2⟩

/-- The names of a well-formed program are texts. -/
theorem Stmt.hasTextName_toNodes : (body : List Stmt) → Stmt.AllWellFormed body →
    ∀ part ∈ Node.subtreesAll (Stmt.toNodes body), part.HasTextName
  | [], _ => List.forall_mem_nil _
  | s :: ss, h => by
    rw [toNodes, Node.subtreesAll]
    exact List.forall_mem_append.2 ⟨s.hasTextName_toNode h.1, Stmt.hasTextName_toNodes ss h.2⟩

end

end Abacus
