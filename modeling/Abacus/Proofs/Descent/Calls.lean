import Abacus.Proofs.Descent.Depth

/-!
# The rules as plans

A rule uses tokens in three ways only: it looks at the kind of the next one, it takes it, and it calls
other rules. So each rule can be written down as a plan that says what it does between its calls, and
leaves the calls themselves open. A plan does not see the tokens that lie ahead, and no depth bounds it.

The plans are those of the rules: with one call more of depth, a rule does what its plan says when the
calls in it are made with the depth that is left.

## Main definitions

* `Descent.Call` — a call of a rule, or of a loop inside a rule
* `Descent.Plan` — what a rule does between its calls
* `Descent.Call.plan` — the plan of a rule
* `Descent.Call.run`, `Descent.Plan.carry` — a call and a plan, with a depth for the calls

## Main results

* `Descent.Call.answer_run_succ` — a rule carries out its plan
-/

namespace Abacus

namespace Descent

/-! ### Plans -/

/-- A call of a rule, or of a loop inside a rule, which goes on with what has been read. -/
inductive Call
  | expr (level : Level)
  | chain (level : Level) (left : Expr)
  | unary
  | primary
  | elements (done : List Expr)
  | statement
  | conditional
  | definition
  | block
  | blockTail (done : List Stmt)
  | statements (done : List Stmt)
  | program

/-- What a call reads. -/
abbrev Call.Result : Call → Type
  | .expr _ | .chain _ _ | .unary | .primary => Expr
  | .elements _ => List Expr
  | .statement | .conditional | .definition | .block | .blockTail _ => Stmt
  | .statements _ | .program => List Stmt

/-- What a rule does between its calls: it returns or fails, looks at the kind of the next token, takes
the next token, or calls a rule. It fails with a call that fails, and where there is no token to take. -/
inductive Plan (α : Type)
  | ret (a : α)
  | fail
  | look (next : Option Kind → Plan α)
  | take (next : Kind → Option Payload → Plan α)
  | call (c : Call) (next : c.Result → Plan α)

namespace Plan

variable {α : Type}

/-- Goes on in one of two ways, by the kind of the next token. -/
def ifNext (kind : Kind) (yes no : Plan α) : Plan α :=
  .look fun found => if found = some kind then yes else no

/-- Goes on in one of two ways, depending on whether there is no token left. -/
def ifEnd (yes no : Plan α) : Plan α :=
  .look fun found => if found = none then yes else no

/-- Takes the next token, whatever it is. -/
def skip (next : Plan α) : Plan α :=
  .take fun _ _ => next

/-- Takes a token of the given kind. -/
def expect (kind : Kind) (next : Option Payload → Plan α) : Plan α :=
  ifNext kind (.take fun _ payload => next payload) .fail

end Plan

open Plan

/-- The plan for the statements of a program after those in `done`. -/
def statementsPlan (done : List Stmt) : Plan (List Stmt) :=
  .call .statement fun s =>
    .ifEnd (.ret (s :: done).reverse) <|
    .ifNext .semicolon
      (.skip <| .ifEnd (.ret (s :: done).reverse) <| .call (.statements (s :: done)) .ret)
      .fail

/-- The plan of a rule or of a loop inside a rule. -/
def Call.plan : (c : Call) → Plan c.Result
  | .expr .power => .call .unary fun base =>
    .ifNext .caret
      (.skip <| .call (.expr .power) fun exponent => .ret (.binary .pow base exponent))
      (.ret base)
  | .expr level => .call (.expr level.tighter) fun left => .call (.chain level left) .ret
  | .chain level left => .look fun found =>
    match found.bind level.join? with
    | none => .ret left
    | some join => .skip <| .call (.expr level.tighter) fun right =>
      .call (.chain level (join left right)) .ret
  | .unary => .look fun found =>
    match found.bind UnaryOp.ofKind? with
    | some op => .skip <| .call (.expr .power) fun operand => .ret (.unary op operand)
    | none => .call .primary .ret
  | .primary => .take fun kind payload =>
    match kind with
    | .integer => .ret (.int payload)
    | .kwTrue => .ret (.bool true)
    | .kwFalse => .ret (.bool false)
    | .ident => .ret (.name payload)
    | .lparen => .call (.expr .or) fun e => .expect .rparen fun _ => .ret e
    | .lbracket => .call (.elements []) fun items => .ret (.list items)
    | _ => .fail
  | .elements done =>
    .ifNext .comma (.skip <| .call (.elements done) .ret) <|
    .ifNext .rbracket (.skip <| .ret done.reverse) <|
    .call (.expr .or) fun e =>
      .ifNext .comma (.skip <| .call (.elements (e :: done)) .ret) <|
      .expect .rbracket fun _ => .ret (e :: done).reverse
  | .statement =>
    .ifNext .kwIf (.call .conditional .ret) <|
    .ifNext .kwLet (.call .definition .ret) <|
    .ifNext .lbrace (.call .block .ret) <|
    .call (.expr .or) fun e => .ret (.expr e)
  | .conditional => .expect .kwIf fun _ => .call (.expr .or) fun test => .call .statement fun yes =>
    .ifNext .kwElse
      (.skip <| .call .statement fun no => .ret (.ifElse test yes no))
      (.ret (.ifThen test yes))
  | .definition => .expect .kwLet fun _ => .expect .ident fun name => .expect .assign fun _ =>
    .call (.expr .or) fun e => .ret (.define name e)
  | .block => .expect .lbrace fun _ =>
    .ifNext .rbrace .fail <| .call .statement fun s => .call (.blockTail [s]) .ret
  | .blockTail done =>
    .ifNext .semicolon
      (.skip <| .ifNext .rbrace (.skip <| .ret (.block done.reverse)) <|
        .call .statement fun s => .call (.blockTail (s :: done)) .ret)
      (.expect .rbrace fun _ => .ret (.block done.reverse))
  | .statements done => statementsPlan done
  | .program => .ifEnd (.ret []) (statementsPlan [])

theorem Call.plan_expr_of_ne_power {level : Level} (loose : level ≠ .power) :
    Call.plan (.expr level) =
      .call (.expr level.tighter) fun left => .call (.chain level left) .ret := by
  cases level <;> first | rfl | exact absurd rfl loose

/-! ### Plans with a depth of calls -/

/-- What a rule has read, if it succeeds, and the tokens that are left. -/
def answer {α : Type} : Except Failure (α × List Token) → Option α × List Token
  | .ok (a, rest) => (some a, rest)
  | .error f => (none, f.rest)

/-- A call at the front of a token list, with a depth. -/
def Call.run (depth : Nat) : (c : Call) → List Token → Except Failure (c.Result × List Token)
  | .expr level, ts => Descent.expr depth level ts
  | .chain level left, ts => Descent.chain depth level left ts
  | .unary, ts => Descent.unary depth ts
  | .primary, ts => Descent.primary depth ts
  | .elements done, ts => Descent.elements depth done ts
  | .statement, ts => Descent.statement depth ts
  | .conditional, ts => Descent.conditional depth ts
  | .definition, ts => Descent.definition depth ts
  | .block, ts => Descent.block depth ts
  | .blockTail done, ts => Descent.blockTail depth done ts
  | .statements done, ts => Descent.statements depth done ts
  | .program, ts => Descent.program depth ts

namespace Plan

variable {α : Type} {depth : Nat}

/-- Carries out a plan at the front of a token list, with a depth for its calls. -/
def carry (depth : Nat) : Plan α → List Token → Option α × List Token
  | .ret a, ts => (some a, ts)
  | .fail, ts => (none, ts)
  | .look next, ts => (next (ts.head?.map Token.kind)).carry depth ts
  | .take _, [] => (none, [])
  | .take next, t :: ts => (next t.kind t.payload).carry depth ts
  | .call c next, ts =>
    match answer (c.run depth ts) with
    | (some b, rest) => (next b).carry depth rest
    | (none, rest) => (none, rest)

theorem carry_look (next : Option Kind → Plan α) (ts : List Token) :
    (look next).carry depth ts = (next (ts.head?.map Token.kind)).carry depth ts := by
  cases ts <;> rfl

theorem carry_ifNext (kind : Kind) (yes no : Plan α) (ts : List Token) :
    (ifNext kind yes no).carry depth ts =
      if next kind ts then yes.carry depth ts else no.carry depth ts := by
  rw [ifNext, carry_look, apply_ite (fun plan : Plan α => plan.carry depth ts)]
  cases ts <;> simp

theorem carry_ifEnd (yes no : Plan α) (ts : List Token) :
    (ifEnd yes no).carry depth ts =
      if ts.isEmpty then yes.carry depth ts else no.carry depth ts := by
  cases ts <;> rfl

theorem carry_skip (next : Plan α) (t : Token) (ts : List Token) :
    next.skip.carry depth (t :: ts) = next.carry depth ts := rfl

end Plan

/-- Reading in steps: what the first step reads goes into the second. -/
theorem answer_bind {α β : Type} (x : Except Failure (α × List Token))
    (f : α × List Token → Except Failure (β × List Token)) :
    answer (x >>= f) =
      match answer x with
      | (some a, rest) => answer (f (a, rest))
      | (none, rest) => (none, rest) := by
  cases x <;> rfl

/-! ### The rules carry out their plans -/

section Step

variable {α : Type} {depth : Nat}

/-- A call is the first step of what it is followed by. -/
theorem answer_call {c : Call} {next : c.Result → Plan α}
    {f : c.Result × List Token → Except Failure (α × List Token)}
    (h : ∀ b rest, answer (f (b, rest)) = (next b).carry depth rest) (ts : List Token) :
    answer (c.run depth ts >>= f) = (call c next).carry depth ts := by
  rw [answer_bind, carry]
  cases answer (c.run depth ts) with
  | mk read rest =>
    cases read with
    | none => rfl
    | some b => exact h b rest

/-- Nothing is left to do after a call whose result is returned. -/
theorem answer_call_ret (c : Call) (ts : List Token) :
    answer (c.run depth ts) = (call c .ret).carry depth ts := by
  rw [← answer_call (f := pure) (fun _ _ => rfl) ts]
  cases c.run depth ts <;> rfl

theorem answer_expect {kind : Kind} {next : Option Payload → Plan α}
    {f : Token × List Token → Except Failure (α × List Token)}
    (h : ∀ t rest, answer (f (t, rest)) = (next t.payload).carry depth rest) (ts : List Token) :
    answer (Descent.expect kind ts >>= f) = (Plan.expect kind next).carry depth ts := by
  rw [Plan.expect, carry_ifNext]
  cases ts with
  | nil => rfl
  | cons t ts =>
    rw [Descent.expect, next_cons]
    split
    · rename_i hkind
      rw [if_pos (decide_eq_true hkind)]
      exact h t ts
    · rename_i hkind
      rw [if_neg (by simpa using hkind)]
      rfl

/-- A token of a kind that is seen next is there to be taken. -/
theorem carry_skip_of_next {kind : Kind} {ts : List Token} (h : next kind ts = true) (plan : Plan α) :
    plan.skip.carry depth ts = plan.carry depth (ts.drop 1) := by
  obtain ⟨t, us, rfl, -⟩ := next_eq_true_iff.1 h
  rfl

variable (ts : List Token)

theorem answer_expr_power_succ :
    answer (expr (depth + 1) .power ts) = (Call.plan (.expr .power)).carry depth ts := by
  rw [expr]
  refine answer_call (c := .unary) (fun base rest => ?_) ts
  dsimp only
  rw [carry_ifNext]
  split
  · rename_i hcaret
    rw [carry_skip_of_next hcaret]
    exact answer_call (c := .expr .power) (fun _ _ => rfl) _
  · rfl

theorem answer_expr_succ (level : Level) :
    answer (expr (depth + 1) level ts) = (Call.plan (.expr level)).carry depth ts := by
  by_cases hp : level = .power
  · subst hp
    exact answer_expr_power_succ ts
  · rw [expr_succ_of_ne_power hp, Call.plan_expr_of_ne_power hp]
    exact answer_call (c := .expr level.tighter)
      (fun left rest => answer_call_ret (.chain level left) rest) ts

theorem answer_chain_succ (level : Level) (left : Expr) :
    answer (chain (depth + 1) level left ts) = (Call.plan (.chain level left)).carry depth ts := by
  rw [Call.plan, carry_look]
  cases ts with
  | nil => rfl
  | cons t ts =>
    have hfound : (List.head? (t :: ts)).map Token.kind = some t.kind := rfl
    rw [chain, hfound, Option.bind_some]
    cases level.join? t.kind with
    | none => rfl
    | some join =>
      exact answer_call (c := .expr level.tighter)
        (fun right rest => answer_call_ret (.chain level (join left right)) rest) ts

theorem answer_unary_succ :
    answer (unary (depth + 1) ts) = (Call.plan .unary).carry depth ts := by
  rw [Call.plan, carry_look, unary, Option.bind_map]
  cases ts with
  | nil => exact answer_call_ret .primary _
  | cons t ts =>
    change answer (match UnaryOp.ofKind? t.kind with | some op => _ | none => _) =
      carry depth (match UnaryOp.ofKind? t.kind with | some op => _ | none => _) _
    cases UnaryOp.ofKind? t.kind with
    | none => exact answer_call_ret .primary _
    | some op => exact answer_call (c := .expr .power) (fun _ _ => rfl) ts

theorem answer_primary_succ :
    answer (primary (depth + 1) ts) = (Call.plan .primary).carry depth ts := by
  cases ts with
  | nil => rfl
  | cons t ts =>
    rw [primary, Call.plan, carry]
    -- only an opening bracket makes a call
    generalize t.kind = kind
    cases kind with
    | lparen =>
      exact answer_call (c := .expr .or) (fun e rest => answer_expect (fun _ _ => rfl) rest) ts
    | lbracket => exact answer_call (c := .elements []) (fun _ _ => rfl) ts
    | _ => rfl

theorem answer_elements_succ (done : List Expr) :
    answer (elements (depth + 1) done ts) = (Call.plan (.elements done)).carry depth ts := by
  rw [elements, Call.plan, carry_ifNext, carry_ifNext]
  split
  · rename_i hcomma
    rw [carry_skip_of_next hcomma]
    exact answer_call_ret (.elements done) _
  · split
    · rename_i hclose
      rw [carry_skip_of_next hclose]
      rfl
    · refine answer_call (c := .expr .or) (fun e rest => ?_) ts
      dsimp only
      rw [carry_ifNext]
      split
      · rename_i hcomma
        rw [carry_skip_of_next hcomma]
        exact answer_call_ret (.elements (e :: done)) _
      · exact answer_expect (fun _ _ => rfl) rest

theorem answer_statement_succ :
    answer (statement (depth + 1) ts) = (Call.plan .statement).carry depth ts := by
  rw [statement, Call.plan, carry_ifNext, carry_ifNext, carry_ifNext]
  split
  · exact answer_call_ret .conditional ts
  · split
    · exact answer_call_ret .definition ts
    · split
      · exact answer_call_ret .block ts
      · exact answer_call (c := .expr .or) (fun _ _ => rfl) ts

theorem answer_conditional_succ :
    answer (conditional (depth + 1) ts) = (Call.plan .conditional).carry depth ts := by
  rw [conditional]
  refine answer_expect (fun _ rest => ?_) ts
  refine answer_call (c := .expr .or) (fun test rest => ?_) rest
  refine answer_call (c := .statement) (fun yes rest => ?_) rest
  dsimp only
  rw [carry_ifNext]
  split
  · rename_i helse
    rw [carry_skip_of_next helse]
    exact answer_call (c := .statement) (fun _ _ => rfl) _
  · rfl

theorem answer_definition_succ :
    answer (definition (depth + 1) ts) = (Call.plan .definition).carry depth ts := by
  rw [definition]
  refine answer_expect (fun _ rest => ?_) ts
  refine answer_expect (fun name rest => ?_) rest
  refine answer_expect (fun _ rest => ?_) rest
  exact answer_call (c := .expr .or) (fun _ _ => rfl) rest

theorem answer_block_succ :
    answer (block (depth + 1) ts) = (Call.plan .block).carry depth ts := by
  rw [block]
  refine answer_expect (fun brace rest => ?_) ts
  dsimp only
  rw [carry_ifNext]
  split
  · rfl
  · exact answer_call (c := .statement) (fun s rest => answer_call_ret (.blockTail [s]) rest) rest

theorem answer_blockTail_succ (done : List Stmt) :
    answer (blockTail (depth + 1) done ts) = (Call.plan (.blockTail done)).carry depth ts := by
  rw [blockTail, Call.plan, carry_ifNext]
  by_cases hsemi : next .semicolon ts = true
  · rw [if_pos hsemi, carry_skip_of_next hsemi, carry_ifNext, if_pos hsemi]
    by_cases hclose : next .rbrace (ts.drop 1) = true
    · -- the closing brace is seen after the semicolon, and so it is taken
      rw [hclose, Bool.not_true, Bool.and_false, if_neg Bool.false_ne_true, if_pos rfl,
        carry_skip_of_next hclose]
      obtain ⟨t, us, hts, hkind⟩ := next_eq_true_iff.1 hclose
      rw [hts, expect_eq_ok_iff.2 ⟨rfl, hkind⟩]
      rfl
    · rw [if_neg hclose, hsemi, Bool.true_and, if_pos (by simpa using hclose)]
      exact answer_call (c := .statement)
        (fun s rest => answer_call_ret (.blockTail (s :: done)) rest) _
  · rw [if_neg (by simp [hsemi]), if_neg hsemi, if_neg hsemi]
    exact answer_expect (fun _ _ => rfl) ts

theorem answer_statements_succ (done : List Stmt) :
    answer (statements (depth + 1) done ts) = (statementsPlan done).carry depth ts := by
  rw [statements]
  refine answer_call (c := .statement) (fun s rest => ?_) ts
  -- the plan asks for the end first, then for the semicolon, and then for the end again
  rw [carry_ifEnd, carry_ifNext]
  cases rest with
  | nil => rfl
  | cons t us =>
    dsimp only
    rw [next_cons, List.isEmpty_cons, if_neg Bool.false_ne_true]
    split
    · rename_i hsemi
      rw [if_pos (decide_eq_true hsemi), carry_skip, carry_ifEnd]
      split
      · rename_i hend
        rw [List.isEmpty_iff.1 hend]
        rfl
      · exact answer_call_ret (.statements (s :: done)) us
    · rename_i hsemi
      rw [if_neg (by simpa using hsemi)]
      rfl

theorem answer_program_succ :
    answer (program (depth + 1) ts) = (Call.plan .program).carry depth ts := by
  rw [program, Call.plan, carry_ifEnd]
  split
  · rename_i hend
    rw [List.isEmpty_iff.1 hend]
    rfl
  · exact answer_statements_succ ts []

end Step

/-- With one more call of depth, a rule carries out its plan. -/
theorem Call.answer_run_succ (c : Call) (depth : Nat) (ts : List Token) :
    answer (c.run (depth + 1) ts) = c.plan.carry depth ts := by
  cases c with
  | expr level => exact answer_expr_succ ts level
  | chain level left => exact answer_chain_succ ts level left
  | unary => exact answer_unary_succ ts
  | primary => exact answer_primary_succ ts
  | elements done => exact answer_elements_succ ts done
  | statement => exact answer_statement_succ ts
  | conditional => exact answer_conditional_succ ts
  | definition => exact answer_definition_succ ts
  | block => exact answer_block_succ ts
  | blockTail done => exact answer_blockTail_succ ts done
  | statements done => exact answer_statements_succ ts done
  | program => exact answer_program_succ ts

end Descent

end Abacus
