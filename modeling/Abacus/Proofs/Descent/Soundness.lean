import Abacus.Proofs.Computation
import Abacus.Proofs.Grammar

/-!
# What the descent reads is in the grammar

Whatever a rule returns is spelled by the tokens that it has used up, and the rule stops only where the
construct cannot go on: after an expression no operator of its level follows, and after a conditional
without a second branch no word for one.

## Main results

* `Descent.expr_sound`, `Descent.statement_sound`, `Descent.program_sound` — what a rule returns is
  derived by the grammar
* `Descent.expr_shorter`, `Descent.statement_shorter` — a rule that succeeds uses up a token
-/

namespace Abacus

namespace Descent

open Grammar

@[simp] theorem next_nil (kind : Kind) : next kind [] = false := rfl

@[simp] theorem next_cons (kind : Kind) (t : Token) (ts : List Token) :
    next kind (t :: ts) = decide (t.kind = kind) := rfl

theorem next_eq_true_iff {kind : Kind} {ts : List Token} :
    next kind ts = true ↔ ∃ t us, ts = t :: us ∧ t.kind = kind := by
  cases ts <;> simp [next]

theorem next_eq_false_iff {kind : Kind} {ts : List Token} :
    next kind ts = false ↔ ∀ t ∈ ts.head?, t.kind ≠ kind := by
  cases ts <;> simp [next]

theorem expect_eq_ok_iff {kind : Kind} {ts rest : List Token} {t : Token} :
    expect kind ts = .ok (t, rest) ↔ ts = t :: rest ∧ t.kind = kind := by
  cases ts with
  | nil => simp [expect]
  | cons u us =>
    rw [expect]
    split
    · rename_i hu
      simp only [Except.ok.injEq, Prod.mk.injEq, List.cons.injEq]
      exact ⟨fun h => ⟨h, h.1 ▸ hu⟩, fun h => h.1⟩
    · rename_i hu
      simp only [reduceCtorEq, List.cons.injEq, false_iff]
      rintro ⟨⟨rfl, -⟩, ht⟩
      exact hu ht

/-! ### Expressions -/

/-- The rules for expressions return what the grammar derives, at a given depth of calls. -/
structure ExprSound (depth : Nat) : Prop where
  expr {level : Level} {ts rest : List Token} {e : Expr}
    (h : expr depth level ts = .ok (e, rest)) :
    ∃ us, ts = us ++ rest ∧ IsExpr level us e ∧ Stops level rest
  chain {level : Level} {us ts rest : List Token} {left e : Expr} (loose : level ≠ .power)
    (hl : IsExpr level us left) (hs : Stops level.tighter ts)
    (h : chain depth level left ts = .ok (e, rest)) :
    ∃ vs, ts = vs ++ rest ∧ IsExpr level (us ++ vs) e ∧ Stops level rest
  unary {ts rest : List Token} {e : Expr} (h : unary depth ts = .ok (e, rest)) :
    ∃ us, ts = us ++ rest ∧ (IsPrimary us e ∨ IsExpr .power us e ∧ Stops .power rest)
  primary {ts rest : List Token} {e : Expr} (h : primary depth ts = .ok (e, rest)) :
    ∃ us, ts = us ++ rest ∧ IsPrimary us e
  elements {ts rest : List Token} {done items : List Expr}
    (h : elements depth done ts = .ok (items, rest)) :
    ∃ us right new, ts = us ++ right :: rest ∧ right.kind = .rbracket ∧ IsItems us new ∧
      items = done.reverse ++ new

theorem expr_succ_of_ne_power {level : Level} (loose : level ≠ .power) (depth : Nat)
    (ts : List Token) : expr (depth + 1) level ts =
      expr depth level.tighter ts >>= fun (left, rest) => chain depth level left rest := by
  cases level <;> first | rfl | exact absurd rfl loose

/-- Where no caret comes next, powers stop. -/
theorem stops_power_iff {ts : List Token} : Stops .power ts ↔ next .caret ts = false := by
  cases ts with
  | nil => simp [stops_nil, next]
  | cons t ts =>
    rw [stops_cons]
    constructor
    · intro h
      have hcaret := h .power (Nat.le_refl _)
      cases hk : t.kind <;> simp_all [next, Level.join?]
    · intro h l hl
      cases l <;> simp_all [Automaton.tightness, next]
      cases hk : t.kind <;> simp_all [Level.join?]

section Step

variable {depth : Nat} {ts rest : List Token} {e : Expr}

theorem expr_power_sound_step (ih : ExprSound depth)
    (h : expr (depth + 1) .power ts = .ok (e, rest)) :
    ∃ us, ts = us ++ rest ∧ IsExpr .power us e ∧ Stops .power rest := by
  obtain ⟨⟨base, mid⟩, hbase, hpower⟩ := bind_eq_ok_iff.1 h
  obtain ⟨us, rfl, hus⟩ := ih.unary hbase
  dsimp only at hpower
  split at hpower
  · rename_i hcaret
    obtain ⟨t, ms, rfl, ht⟩ := next_eq_true_iff.1 hcaret
    obtain ⟨⟨exponent, mid⟩, hexp, hend⟩ := bind_eq_ok_iff.1 hpower
    cases hend
    obtain ⟨vs, rfl, hvs, hstop⟩ := ih.expr hexp
    rcases hus with hus | ⟨-, hno⟩
    · exact ⟨us ++ t :: vs, by simp, .power ht hus hvs, hstop⟩
    · -- the operand of a sign takes all carets, so none is left
      rw [stops_power_iff] at hno
      rw [hcaret] at hno
      cases hno
  · rename_i hcaret
    cases hpower
    refine ⟨us, rfl, ?_, stops_power_iff.2 (by simpa using hcaret)⟩
    rcases hus with hus | ⟨hus, -⟩
    · exact .primary hus
    · exact hus

theorem expr_sound_step (ih : ExprSound depth) {level : Level}
    (h : expr (depth + 1) level ts = .ok (e, rest)) :
    ∃ us, ts = us ++ rest ∧ IsExpr level us e ∧ Stops level rest := by
  by_cases hp : level = .power
  · subst hp
    exact expr_power_sound_step ih h
  · rw [expr_succ_of_ne_power hp] at h
    obtain ⟨⟨left, mid⟩, hleft, hchain⟩ := bind_eq_ok_iff.1 h
    obtain ⟨us, rfl, hus, hstop⟩ := ih.expr hleft
    obtain ⟨vs, rfl, hvs, hstop⟩ := ih.chain hp (.tighter hp hus) hstop hchain
    exact ⟨us ++ vs, by simp, hvs, hstop⟩

theorem chain_sound_step (ih : ExprSound depth) {level : Level} {us : List Token} {left : Expr}
    (loose : level ≠ .power) (hl : IsExpr level us left) (hs : Stops level.tighter ts)
    (h : chain (depth + 1) level left ts = .ok (e, rest)) :
    ∃ vs, ts = vs ++ rest ∧ IsExpr level (us ++ vs) e ∧ Stops level rest := by
  cases ts with
  | nil =>
    cases h
    exact ⟨[], rfl, by simpa using hl, stops_nil _⟩
  | cons t ts =>
    rw [chain] at h
    split at h
    · -- no operator of the level follows, and no tighter one does
      rename_i hop
      cases h
      refine ⟨[], rfl, by simpa using hl, (stops_iff_tighter loose).2 ⟨hs, ?_⟩⟩
      simpa using hop
    · -- the operation so far is the left operand of what follows
      rename_i join hop
      obtain ⟨⟨right, mid⟩, hright, hchain⟩ := bind_eq_ok_iff.1 h
      obtain ⟨vs, rfl, hvs, hstop⟩ := ih.expr hright
      obtain ⟨ws, rfl, hws, hstop⟩ := ih.chain loose (.binary loose hop hl hvs) hstop hchain
      exact ⟨t :: vs ++ ws, by simp, by simpa using hws, hstop⟩

theorem unary_sound_step (ih : ExprSound depth) (h : unary (depth + 1) ts = .ok (e, rest)) :
    ∃ us, ts = us ++ rest ∧ (IsPrimary us e ∨ IsExpr .power us e ∧ Stops .power rest) := by
  rw [unary] at h
  split at h
  · rename_i op hop
    obtain ⟨t, ht, hsign⟩ := Option.bind_eq_some_iff.1 hop
    obtain ⟨us, rfl⟩ : ∃ us, ts = t :: us := List.head?_eq_some_iff.1 ht
    obtain ⟨⟨operand, mid⟩, hoperand, hend⟩ := bind_eq_ok_iff.1 h
    cases hend
    obtain ⟨vs, hvs, hexpr, hstop⟩ := ih.expr hoperand
    refine ⟨t :: vs, ?_, .inr ⟨.unary hsign hexpr, hstop⟩⟩
    rw [List.cons_append, ← hvs]
    rfl
  · obtain ⟨us, hus, hprim⟩ := ih.primary h
    exact ⟨us, hus, .inl hprim⟩

theorem primary_sound_step (ih : ExprSound depth) (h : primary (depth + 1) ts = .ok (e, rest)) :
    ∃ us, ts = us ++ rest ∧ IsPrimary us e := by
  cases ts with
  | nil => cases h
  | cons t ts =>
    rw [primary] at h
    split at h
    · rename_i hk
      cases h
      exact ⟨[t], rfl, .int hk⟩
    · rename_i hk
      cases h
      exact ⟨[t], rfl, .yes hk⟩
    · rename_i hk
      cases h
      exact ⟨[t], rfl, .no hk⟩
    · rename_i hk
      cases h
      exact ⟨[t], rfl, .name hk⟩
    · rename_i hk
      obtain ⟨⟨inner, mid⟩, hinner, hclose⟩ := bind_eq_ok_iff.1 h
      obtain ⟨⟨right, mid'⟩, hright, hend⟩ := bind_eq_ok_iff.1 hclose
      cases hend
      obtain ⟨rfl, hr⟩ := expect_eq_ok_iff.1 hright
      obtain ⟨us, rfl, hus, -⟩ := ih.expr hinner
      exact ⟨t :: (us ++ [right]), by simp, .paren hk hus hr⟩
    · rename_i hk
      obtain ⟨⟨items, mid⟩, hitems, hend⟩ := bind_eq_ok_iff.1 h
      cases hend
      obtain ⟨us, right, new, rfl, hr, hus, rfl⟩ := ih.elements hitems
      exact ⟨t :: (us ++ [right]), by simp, .list hk hus hr⟩
    · cases h

theorem elements_sound_step (ih : ExprSound depth) {done items : List Expr}
    (h : elements (depth + 1) done ts = .ok (items, rest)) :
    ∃ us right new, ts = us ++ right :: rest ∧ right.kind = .rbracket ∧ IsItems us new ∧
      items = done.reverse ++ new := by
  rw [elements] at h
  split at h
  · -- a comma with no item before it
    rename_i hcomma
    obtain ⟨t, us, rfl, ht⟩ := next_eq_true_iff.1 hcomma
    obtain ⟨vs, right, new, hvs, hr, hitems, rfl⟩ := ih.elements h
    refine ⟨t :: vs, right, new, ?_, hr, .skip ht hitems, rfl⟩
    rw [List.cons_append, ← hvs]
    rfl
  · split at h
    · rename_i hclose
      obtain ⟨t, us, rfl, ht⟩ := next_eq_true_iff.1 hclose
      cases h
      exact ⟨[], t, [], rfl, ht, .none, by simp⟩
    · -- an item, and after it a comma or the closing bracket
      obtain ⟨⟨item, mid⟩, hitem, hmore⟩ := bind_eq_ok_iff.1 h
      obtain ⟨us, rfl, hus, -⟩ := ih.expr hitem
      dsimp only at hmore
      split at hmore
      · rename_i hcomma
        obtain ⟨t, vs, rfl, ht⟩ := next_eq_true_iff.1 hcomma
        obtain ⟨ws, right, new, hws, hr, hitems, rfl⟩ := ih.elements hmore
        refine ⟨us ++ t :: ws, right, item :: new, ?_, hr, .item hus ht hitems, by simp⟩
        rw [List.append_assoc, List.cons_append, ← hws]
        rfl
      · obtain ⟨⟨right, mid'⟩, hright, hend⟩ := bind_eq_ok_iff.1 hmore
        cases hend
        obtain ⟨rfl, hr⟩ := expect_eq_ok_iff.1 hright
        exact ⟨us, right, [item], rfl, hr, .last hus, by simp⟩

end Step

theorem exprSound (depth : Nat) : ExprSound depth := by
  -- all rules at once, since each calls the others with less depth
  induction depth with
  | zero =>
    constructor <;> intros <;> rename_i h <;> cases h
  | succ depth ih =>
    exact ⟨expr_sound_step ih, chain_sound_step ih, unary_sound_step ih, primary_sound_step ih,
      elements_sound_step ih⟩

/-- An expression is read from the front of the tokens and ends where its level does. -/
theorem expr_sound {depth : Nat} {level : Level} {ts rest : List Token} {e : Expr}
    (h : expr depth level ts = .ok (e, rest)) :
    ∃ us, ts = us ++ rest ∧ IsExpr level us e ∧ Stops level rest :=
  (exprSound depth).expr h

theorem expr_shorter {depth : Nat} {level : Level} {ts rest : List Token} {e : Expr}
    (h : expr depth level ts = .ok (e, rest)) : rest.length < ts.length := by
  obtain ⟨us, rfl, hus, -⟩ := expr_sound h
  obtain ⟨t, vs, rfl, -⟩ := hus.begins
  simp only [List.length_append, List.length_cons]
  omega

theorem unary_shorter {depth : Nat} {ts rest : List Token} {e : Expr}
    (h : unary depth ts = .ok (e, rest)) : rest.length < ts.length := by
  obtain ⟨us, rfl, hus⟩ := (exprSound depth).unary h
  obtain ⟨t, vs, rfl, -⟩ := hus.elim IsPrimary.begins fun h => h.1.begins
  simp only [List.length_append, List.length_cons]
  omega

/-! ### Statements -/

/-- The rules for statements return what the grammar derives, at a given depth of calls. -/
structure StmtSound (depth : Nat) : Prop where
  statement {ts rest : List Token} {s : Stmt} (h : statement depth ts = .ok (s, rest)) :
    ∃ us, ts = us ++ rest ∧ IsStmt us s ∧ (s.EndsOpen → next .kwElse rest = false)
  conditional {ts rest : List Token} {s : Stmt} (h : conditional depth ts = .ok (s, rest)) :
    ∃ us, ts = us ++ rest ∧ IsStmt us s ∧ (s.EndsOpen → next .kwElse rest = false)
  definition {ts rest : List Token} {s : Stmt} (h : definition depth ts = .ok (s, rest)) :
    ∃ us, ts = us ++ rest ∧ IsStmt us s ∧ ¬ s.EndsOpen
  block {ts rest : List Token} {s : Stmt} (h : block depth ts = .ok (s, rest)) :
    ∃ us, ts = us ++ rest ∧ IsStmt us s ∧ ¬ s.EndsOpen
  blockTail {us ts rest : List Token} {done : List Stmt} {s b : Stmt} (hs : IsStmt us s)
    (h : blockTail depth (s :: done) ts = .ok (b, rest)) :
    ∃ vs right body, ts = vs ++ right :: rest ∧ right.kind = .rbrace ∧ IsBody (us ++ vs) body ∧
      b = .block (done.reverse ++ body)

section Step

variable {depth : Nat} {ts rest : List Token} {s : Stmt}

theorem statement_sound_step (ih : StmtSound depth)
    (h : statement (depth + 1) ts = .ok (s, rest)) :
    ∃ us, ts = us ++ rest ∧ IsStmt us s ∧ (s.EndsOpen → next .kwElse rest = false) := by
  rw [statement] at h
  split at h
  · exact ih.conditional h
  · split at h
    · obtain ⟨us, hts, hs, hopen⟩ := ih.definition h
      exact ⟨us, hts, hs, fun ho => absurd ho hopen⟩
    · split at h
      · obtain ⟨us, hts, hs, hopen⟩ := ih.block h
        exact ⟨us, hts, hs, fun ho => absurd ho hopen⟩
      · obtain ⟨⟨e, mid⟩, he, hend⟩ := bind_eq_ok_iff.1 h
        cases hend
        obtain ⟨us, hts, hus, -⟩ := expr_sound he
        exact ⟨us, hts, .expr hus, fun ho => absurd ho (Stmt.endsOpen_expr e)⟩

/-- A sign is an operator, so it never follows a complete test. -/
theorem not_beginsWithSign_of_stops {us : List Token} (h : Stops .or (us ++ rest)) :
    ¬ BeginsWithSign us := by
  rintro ⟨t, ht, hsign⟩
  obtain ⟨vs, rfl⟩ := List.head?_eq_some_iff.1 ht
  have hadd := stops_cons.1 h .additive (by decide)
  rcases hsign with hsign | hsign <;> simp [hsign, Level.join?] at hadd

theorem conditional_sound_step (ih : StmtSound depth)
    (h : conditional (depth + 1) ts = .ok (s, rest)) :
    ∃ us, ts = us ++ rest ∧ IsStmt us s ∧ (s.EndsOpen → next .kwElse rest = false) := by
  obtain ⟨⟨word, mid⟩, hword, hafter⟩ := bind_eq_ok_iff.1 h
  obtain ⟨⟨test, mid₁⟩, htest, hafter⟩ := bind_eq_ok_iff.1 hafter
  obtain ⟨⟨yes, mid₂⟩, hyes, hbranch⟩ := bind_eq_ok_iff.1 hafter
  obtain ⟨rfl, hw⟩ := expect_eq_ok_iff.1 hword
  obtain ⟨us, rfl, hus, hstop⟩ := expr_sound htest
  obtain ⟨vs, rfl, hvs, hopen⟩ := ih.statement hyes
  have greedy := not_beginsWithSign_of_stops hstop
  dsimp only at hbranch
  split at hbranch
  · rename_i helse
    obtain ⟨mid, ws, rfl, hm⟩ := next_eq_true_iff.1 helse
    obtain ⟨⟨no, mid₃⟩, hno, hend⟩ := bind_eq_ok_iff.1 hbranch
    cases hend
    obtain ⟨xs, hxs, hstmt, hopen'⟩ := ih.statement hno
    -- an open first branch would have taken the second one
    have nearest : ¬ yes.EndsOpen := fun ho => by
      have := hopen ho
      rw [helse] at this
      cases this
    refine ⟨word :: (us ++ vs ++ mid :: xs), ?_, .ifElse hw hus hvs greedy nearest hm hstmt, hopen'⟩
    change ws = xs ++ _ at hxs
    simp [hxs]
  · rename_i helse
    cases hbranch
    exact ⟨word :: (us ++ vs), by simp, .ifThen hw hus hvs greedy, fun _ => by simpa using helse⟩

theorem definition_sound_step (h : definition (depth + 1) ts = .ok (s, rest)) :
    ∃ us, ts = us ++ rest ∧ IsStmt us s ∧ ¬ s.EndsOpen := by
  obtain ⟨⟨word, mid⟩, hword, hafter⟩ := bind_eq_ok_iff.1 h
  obtain ⟨⟨name, mid₁⟩, hname, hafter⟩ := bind_eq_ok_iff.1 hafter
  obtain ⟨⟨sign, mid₂⟩, hsign, hafter⟩ := bind_eq_ok_iff.1 hafter
  obtain ⟨⟨e, mid₃⟩, he, hend⟩ := bind_eq_ok_iff.1 hafter
  obtain ⟨rfl, hw⟩ := expect_eq_ok_iff.1 hword
  obtain ⟨rfl, hn⟩ := expect_eq_ok_iff.1 hname
  obtain ⟨rfl, hs⟩ := expect_eq_ok_iff.1 hsign
  cases hend
  obtain ⟨us, rfl, hus, -⟩ := expr_sound he
  exact ⟨word :: name :: sign :: us, rfl, .define hw hn hs hus, Stmt.endsOpen_define _ _⟩

theorem block_sound_step (ih : StmtSound depth) (h : block (depth + 1) ts = .ok (s, rest)) :
    ∃ us, ts = us ++ rest ∧ IsStmt us s ∧ ¬ s.EndsOpen := by
  obtain ⟨⟨left, mid⟩, hleft, hinner⟩ := bind_eq_ok_iff.1 h
  obtain ⟨rfl, hl⟩ := expect_eq_ok_iff.1 hleft
  dsimp only at hinner
  split at hinner
  · cases hinner
  · obtain ⟨⟨first, mid₁⟩, hfirst, htail⟩ := bind_eq_ok_iff.1 hinner
    obtain ⟨us, rfl, hus, -⟩ := ih.statement hfirst
    obtain ⟨vs, right, body, rfl, hr, hbody, rfl⟩ := ih.blockTail hus htail
    refine ⟨left :: (us ++ vs ++ [right]), by simp, ?_, Stmt.endsOpen_block _⟩
    exact .block hl hbody hr

theorem blockTail_sound_step (ih : StmtSound depth) {us : List Token} {done : List Stmt} {b : Stmt}
    (hs : IsStmt us s) (h : blockTail (depth + 1) (s :: done) ts = .ok (b, rest)) :
    ∃ vs right body, ts = vs ++ right :: rest ∧ right.kind = .rbrace ∧ IsBody (us ++ vs) body ∧
      b = .block (done.reverse ++ body) := by
  rw [blockTail] at h
  split at h
  · -- a semicolon and another statement
    rename_i hmore
    obtain ⟨hsemi, -⟩ := Bool.and_eq_true_iff.1 hmore
    obtain ⟨t, ms, rfl, ht⟩ := next_eq_true_iff.1 hsemi
    obtain ⟨⟨s', mid⟩, hs', htail⟩ := bind_eq_ok_iff.1 h
    obtain ⟨vs, hvs, hstmt, -⟩ := ih.statement hs'
    obtain ⟨ws, right, body, rfl, hr, hbody, rfl⟩ := ih.blockTail hstmt htail
    change ms = _ at hvs
    refine ⟨t :: (vs ++ ws), right, s :: body, by simp [hvs], hr, .more hs ht hbody, by simp⟩
  · -- the closing brace, maybe after one more semicolon
    obtain ⟨⟨right, mid⟩, hright, hend⟩ := bind_eq_ok_iff.1 h
    cases hend
    obtain ⟨hmid, hr⟩ := expect_eq_ok_iff.1 hright
    split at hmid
    · rename_i hsemi
      obtain ⟨t, ms, rfl, ht⟩ := next_eq_true_iff.1 hsemi
      change ms = _ at hmid
      exact ⟨[t], right, [s], by simp [hmid], hr, .closed hs ht, by simp⟩
    · exact ⟨[], right, [s], hmid, hr, by simpa using IsBody.last hs, by simp⟩

end Step

theorem stmtSound (depth : Nat) : StmtSound depth := by
  induction depth with
  | zero =>
    constructor <;> intros <;> rename_i h <;> cases h
  | succ depth ih =>
    exact ⟨statement_sound_step ih, conditional_sound_step ih, definition_sound_step,
      block_sound_step ih, blockTail_sound_step ih⟩

/-- A statement is read from the front of the tokens, with every second branch that can follow. -/
theorem statement_sound {depth : Nat} {ts rest : List Token} {s : Stmt}
    (h : statement depth ts = .ok (s, rest)) :
    ∃ us, ts = us ++ rest ∧ IsStmt us s ∧ (s.EndsOpen → next .kwElse rest = false) :=
  (stmtSound depth).statement h

theorem statement_shorter {depth : Nat} {ts rest : List Token} {s : Stmt}
    (h : statement depth ts = .ok (s, rest)) : rest.length < ts.length := by
  obtain ⟨us, rfl, hus, -⟩ := statement_sound h
  obtain ⟨t, vs, rfl, -⟩ := hus.begins
  simp only [List.length_append, List.length_cons]
  omega

/-! ### Programs -/

theorem statements_sound {depth : Nat} {done body : List Stmt} {ts rest : List Token}
    (h : statements depth done ts = .ok (body, rest)) :
    ∃ new, IsBody ts new ∧ body = done.reverse ++ new := by
  induction depth generalizing done ts with
  | zero => cases h
  | succ depth ih =>
    obtain ⟨⟨s, mid⟩, hs, hmore⟩ := bind_eq_ok_iff.1 h
    obtain ⟨us, rfl, hus, -⟩ := statement_sound hs
    dsimp only at hmore
    split at hmore
    · cases hmore
      exact ⟨[s], by simpa using IsBody.last hus, by simp⟩
    · rename_i t vs
      split at hmore
      · rename_i ht
        split at hmore
        · rename_i hvs
          cases hmore
          obtain rfl := List.isEmpty_iff.1 hvs
          exact ⟨[s], .closed hus ht, by simp⟩
        · obtain ⟨new, hnew, rfl⟩ := ih hmore
          exact ⟨s :: new, .more hus ht hnew, by simp⟩
      · cases hmore

theorem program_sound {depth : Nat} {ts rest : List Token} {body : List Stmt}
    (h : program depth ts = .ok (body, rest)) : IsProgram ts body := by
  rw [program] at h
  split at h
  · rename_i hts
    cases h
    obtain rfl := List.isEmpty_iff.1 hts
    exact .empty
  · obtain ⟨new, hnew, rfl⟩ := statements_sound h
    exact .body hnew

end Descent

end Abacus
