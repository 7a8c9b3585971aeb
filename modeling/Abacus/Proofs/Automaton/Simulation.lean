import Abacus.Proofs.Automaton.Reading
import Abacus.Proofs.Descent.Depth

/-!
# The automaton follows the descent

While a rule of the descent reads a construct, the automaton takes the same tokens. When the rule
returns, the automaton is where the construct counts as complete; when the rule fails, the automaton
cannot take the next token, or cannot end, for the same reason.

## Main definitions

* `Automaton.Agrees` — a run of the automaton agrees with the result of a rule
* `Automaton.ExprAt`, `Automaton.StmtAt` — an expression, a statement has to begin here

## Main results

* `Automaton.agrees_expr`, `Automaton.agrees_statement` — the automaton agrees with the rules
* `Automaton.readAll_initial` — the descent reads a token list as the automaton does
-/

namespace Abacus.Automaton

open Grammar Descent

variable {α β : Type}

/-- A run of the automaton agrees with the result of a rule: it goes on, from the state in which the
construct is complete, with the tokens that the rule has left, or it fails as the rule does. -/
def Agrees (run : Except ParseError (List Stmt)) (resume : α → State) :
    Except Failure (α × List Token) → Prop
  | .ok (a, rest) => ∃ last, run = readAll complaint (resume a) last rest
  | .error failure => run = .error failure.error

theorem Agrees.bind {run : Except ParseError (List Stmt)} {resume : α → State}
    {resume' : β → State} {x : Except Failure (α × List Token)}
    {f : α × List Token → Except Failure (β × List Token)} (hx : Agrees run resume x)
    (hf : ∀ a rest last, x = .ok (a, rest) →
      Agrees (readAll complaint (resume a) last rest) resume' (f (a, rest))) :
    Agrees run resume' (x >>= f) := by
  cases x with
  | error failure => exact hx
  | ok p =>
    obtain ⟨a, rest⟩ := p
    obtain ⟨last, rfl⟩ := hx
    exact hf a rest last rfl

theorem agrees_ok {resume : α → State} {a : α} {last : Option Token} {rest : List Token}
    {run : Except ParseError (List Stmt)} (h : run = readAll complaint (resume a) last rest) :
    Agrees run resume (.ok (a, rest)) :=
  ⟨last, h⟩

/-- The automaton takes a token of the expected kind, and refuses any other as the descent does. -/
theorem agrees_expect {kind : Kind} {state : State} {resume : Token → State} {last : Option Token}
    {ts : List Token} (hend : finish state = none)
    (htake : ∀ t ∈ ts.head?, t.kind = kind → step state t = some (resume t))
    (hrefuse : ∀ t ∈ ts.head?, t.kind ≠ kind → step state t = none ∧
      complaint state last t = .expected kind t) :
    Agrees (readAll complaint state last ts) resume (expect kind ts) := by
  cases ts with
  | nil =>
    rw [readAll, hend]
    rfl
  | cons t ts =>
    rw [expect, readAll]
    by_cases hk : t.kind = kind
    · rw [if_pos hk, htake t rfl hk]
      exact agrees_ok rfl
    · obtain ⟨hstep, hcomplaint⟩ := hrefuse t rfl hk
      rw [if_neg hk, hstep]
      change Except.error _ = Except.error _
      rw [hcomplaint]

/-! ### Where expressions begin -/

/-- An expression has to begin at the front of the tokens. -/
structure ExprAt (frames : List Frame) (ts : List Token) : Prop where
  open_of_nil : ts = [] → frames ≠ []
  step : ∀ t ∈ ts.head?, ∀ done,
    step ⟨done, frames, .nothing⟩ t = beginExpr ⟨done, frames, .nothing⟩ t
  complaint : ∀ t ∈ ts.head?, ∀ done last, complaint ⟨done, frames, .nothing⟩ last t = .unexpected t

/-- The constructs that go on with an expression and nothing else. -/
def Frame.TakesExpr : Frame → Prop
  | .operator _ _ _ | .unary _ | .paren | .letValue _ | .test => True
  | _ => False

theorem exprAt_of_takesExpr {frame : Frame} (h : frame.TakesExpr) (frames : List Frame)
    (ts : List Token) : ExprAt (frame :: frames) ts := by
  have hstep : ∀ t done, step ⟨done, frame :: frames, .nothing⟩ t =
      beginExpr ⟨done, frame :: frames, .nothing⟩ t := by
    intro t done
    cases frame <;> first | rfl | exact h.elim
  refine ⟨fun _ => List.cons_ne_nil _ _, fun t _ done => hstep t done, fun t _ done last => ?_⟩
  have haccepts : ∀ kind, accepts ⟨done, frame :: frames, .nothing⟩ kind = kind.beginsExpr := by
    intro kind
    rw [accepts, hstep, isSome_beginExpr]
  have hblame : blame ⟨done, frame :: frames, .nothing⟩ t = .unexpected t :=
    blame_eq_unexpected (by simp [List.filter, haccepts, Kind.beginsExpr]) (haccepts .integer)
      (haccepts .ident) (haccepts .semicolon) t
  cases frame <;> first | exact hblame | exact h.elim

theorem exprAt_list {items : List Expr} {frames : List Frame} {ts : List Token}
    (hcomma : next .comma ts = false) (hclose : next .rbracket ts = false) :
    ExprAt (.list items :: frames) ts := by
  rw [next_eq_false_iff] at hcomma hclose
  refine ⟨fun _ => List.cons_ne_nil _ _, fun t ht done => ?_, fun t _ done last => rfl⟩
  simp [step, stepOpen, hcomma t ht, hclose t ht]

/-! ### Expressions -/

/-- The open constructs around an expression of a level: no operator of the level or of a tighter one
waits for it. Powers may stand anywhere, since nothing is complete before their end. -/
def Holds (level : Level) : List Frame → Prop
  | .unary _ :: _ => level = .power
  | .operator inner _ _ :: _ => level = .power ∨ tightness inner < tightness level
  | _ => True

theorem holds_power (frames : List Frame) : Holds .power frames := by
  unfold Holds
  split <;> simp

theorem Holds.tighter {level : Level} {frames : List Frame} (h : Holds level frames) :
    Holds level.tighter frames := by
  unfold Holds at h ⊢
  split at h
  · subst h
    rfl
  · rcases h with rfl | h
    · exact .inl rfl
    · refine .inr ?_
      cases level <;> simp only [Level.tighter, tightness] at h ⊢ <;> omega
  · trivial

theorem holds_operator {level : Level} (loose : level ≠ .power) (join : Expr → Expr → Expr)
    (left : Expr) (frames : List Frame) :
    Holds level.tighter (.operator level join left :: frames) := by
  refine .inr ?_
  cases level <;> first | decide | exact absurd rfl loose

theorem reduce_of_holds {level : Level} {frames : List Frame} (loose : level ≠ .power)
    (h : Holds level frames) (e : Expr) : reduce level e frames = (e, frames) := by
  unfold Holds at h
  split at h
  · exact absurd h loose
  · rw [reduce, if_neg]
    have := h.resolve_left loose
    omega
  · rename_i hunary hop
    unfold reduce
    split
    · exact (hunary _ _ rfl).elim
    · exact (hop _ _ _ _ rfl).elim
    · rfl

/-- The automaton agrees with the rules for expressions, at a given depth of calls that is enough for
the tokens. -/
structure ExprAgrees (depth : Nat) : Prop where
  expr {level : Level} {done : List Stmt} {frames : List Frame} {last : Option Token}
    {ts : List Token} (hd : 12 * ts.length + 8 ≤ depth + tightness level) (hat : ExprAt frames ts)
    (hin : Holds level frames) : Agrees (readAll complaint ⟨done, frames, .nothing⟩ last ts)
      (fun e => ⟨done, frames, .operand e⟩) (expr depth level ts)
  chain {level : Level} {done : List Stmt} {frames : List Frame} {last : Option Token}
    {left : Expr} {ts : List Token} (hd : 12 * ts.length + 1 ≤ depth) (loose : level ≠ .power)
    (hin : Holds level frames) (hstop : Stops level.tighter ts) :
    Agrees (readAll complaint ⟨done, frames, .operand left⟩ last ts)
      (fun e => ⟨done, frames, .operand e⟩) (chain depth level left ts)
  unary {done : List Stmt} {frames : List Frame} {last : Option Token} {ts : List Token}
    (hd : 12 * ts.length + 2 ≤ depth) (hat : ExprAt frames ts) :
    Agrees (readAll complaint ⟨done, frames, .nothing⟩ last ts)
      (fun e => ⟨done, frames, .operand e⟩) (unary depth ts)
  primary {done : List Stmt} {frames : List Frame} {last : Option Token} {ts : List Token}
    (hd : 12 * ts.length + 1 ≤ depth) (hat : ExprAt frames ts)
    (hsign : ∀ t ∈ ts.head?, UnaryOp.ofKind? t.kind = none) :
    Agrees (readAll complaint ⟨done, frames, .nothing⟩ last ts)
      (fun e => ⟨done, frames, .operand e⟩) (primary depth ts)
  elements {done : List Stmt} {frames : List Frame} {last : Option Token} {items : List Expr}
    {ts : List Token} (hd : 12 * ts.length + 9 ≤ depth) :
    Agrees (readAll complaint ⟨done, .list items :: frames, .nothing⟩ last ts)
      (fun items => ⟨done, frames, .operand (.list items)⟩) (elements depth items ts)

section Step

variable {depth : Nat} {done : List Stmt} {frames : List Frame} {last : Option Token}
  {ts : List Token}

theorem readAll_cons {state state' : State} {t : Token} (h : step state t = some state') :
    readAll complaint state last (t :: ts) = readAll complaint state' (some t) ts := by
  rw [readAll, h]

theorem step_power {e : Expr} {t : Token} (h : t.kind = .caret) :
    step ⟨done, frames, .operand e⟩ t =
      some ⟨done, .operator .power (.binary .pow) e :: frames, .nothing⟩ := by
  have hop : operator? t.kind = some (.power, .binary .pow) := by rw [h]; rfl
  simp only [step, hop]

theorem step_operator {level : Level} {e : Expr} {t : Token} {join : Expr → Expr → Expr}
    (loose : level ≠ .power) (hin : Holds level frames) (h : level.join? t.kind = some join) :
    step ⟨done, frames, .operand e⟩ t =
      some ⟨done, .operator level join e :: frames, .nothing⟩ := by
  have hop := operator?_eq_some_iff.2 h
  have hred := reduce_of_holds loose hin e
  cases level <;> first | exact absurd rfl loose | simp only [step, hop, hred]

/-- An expression that an open construct goes on with. -/
theorem ExprAgrees.inside (ih : ExprAgrees depth) (frame : Frame) (htakes : frame.TakesExpr)
    {level : Level} (hd : 12 * ts.length + 8 ≤ depth + tightness level)
    (hin : Holds level (frame :: frames)) :
    Agrees (readAll complaint ⟨done, frame :: frames, .nothing⟩ last ts)
      (fun e => ⟨done, frame :: frames, .operand e⟩) (Descent.expr depth level ts) :=
  ih.expr hd (exprAt_of_takesExpr htakes frames ts) hin

theorem agrees_expr_power_step (ih : ExprAgrees depth) (hd : 12 * ts.length + 3 ≤ depth + 1)
    (hat : ExprAt frames ts) : Agrees (readAll complaint ⟨done, frames, .nothing⟩ last ts)
      (fun e => ⟨done, frames, .operand e⟩) (expr (depth + 1) .power ts) := by
  rw [expr]
  refine (ih.unary (by omega) hat).bind fun base rest last hbase => ?_
  have hshort := unary_shorter hbase
  dsimp only
  split
  · rename_i hcaret
    obtain ⟨t, us, rfl, ht⟩ := next_eq_true_iff.1 hcaret
    rw [List.length_cons] at hshort
    rw [readAll_cons (step_power ht)]
    refine Agrees.bind (ih.inside (.operator .power _ base) trivial
      (by simp only [tightness]; omega) (holds_power _)) fun exponent rest last hexp => ?_
    obtain ⟨-, -, -, hstop⟩ := expr_sound hexp
    -- no caret follows the exponent, so the power is complete
    have halike : Alike rest ⟨done, .operator .power (.binary .pow) base :: frames, .operand exponent⟩
        ⟨done, frames, .operand (.binary .pow base exponent)⟩ := alike_operator hstop
    exact agrees_ok (halike.readAll_eq last)
  · exact agrees_ok rfl

theorem agrees_expr_step (ih : ExprAgrees depth) {level : Level}
    (hd : 12 * ts.length + 8 ≤ depth + 1 + tightness level) (hat : ExprAt frames ts)
    (hin : Holds level frames) : Agrees (readAll complaint ⟨done, frames, .nothing⟩ last ts)
      (fun e => ⟨done, frames, .operand e⟩) (expr (depth + 1) level ts) := by
  by_cases hp : level = .power
  · subst hp
    exact agrees_expr_power_step ih (by simp only [tightness] at hd; omega) hat
  · have htight := tightness_tighter hp
    have hle := tightness_le level
    rw [expr_succ_of_ne_power hp]
    refine (ih.expr (by omega) hat hin.tighter).bind fun left rest last hleft => ?_
    have hshort := expr_shorter hleft
    obtain ⟨-, -, -, hstop⟩ := expr_sound hleft
    exact ih.chain (by omega) hp hin hstop

theorem agrees_chain_step (ih : ExprAgrees depth) {level : Level} {left : Expr}
    (hd : 12 * ts.length + 1 ≤ depth + 1) (loose : level ≠ .power) (hin : Holds level frames)
    (hstop : Stops level.tighter ts) :
    Agrees (readAll complaint ⟨done, frames, .operand left⟩ last ts)
      (fun e => ⟨done, frames, .operand e⟩) (chain (depth + 1) level left ts) := by
  cases ts with
  | nil => exact agrees_ok rfl
  | cons t ts =>
    rw [List.length_cons] at hd
    rw [chain]
    split
    · exact agrees_ok rfl
    · rename_i join hop
      have htight := tightness_tighter loose
      rw [readAll_cons (step_operator loose hin hop)]
      refine Agrees.bind (ih.inside (.operator level join left) trivial (by omega)
        (holds_operator loose join left frames)) fun right rest last hright => ?_
      have hshort := expr_shorter hright
      obtain ⟨-, -, -, hstop⟩ := expr_sound hright
      -- what follows the right operand is looser, so the operation is the next left operand
      rw [(alike_operator hstop).readAll_eq last]
      exact ih.chain (by omega) loose hin hstop

theorem agrees_unary_step (ih : ExprAgrees depth) (hd : 12 * ts.length + 2 ≤ depth + 1)
    (hat : ExprAt frames ts) : Agrees (readAll complaint ⟨done, frames, .nothing⟩ last ts)
      (fun e => ⟨done, frames, .operand e⟩) (unary (depth + 1) ts) := by
  rw [unary]
  split
  · rename_i op hop
    obtain ⟨t, ht, hsign⟩ := Option.bind_eq_some_iff.1 hop
    obtain ⟨us, rfl⟩ := List.head?_eq_some_iff.1 ht
    rw [List.length_cons] at hd
    have hstep : step ⟨done, frames, .nothing⟩ t =
        some ⟨done, .unary op :: frames, .nothing⟩ := by
      rw [hat.step t rfl]
      cases hk : t.kind <;> simp_all [beginExpr, UnaryOp.ofKind?]
    rw [readAll_cons hstep]
    refine Agrees.bind (ih.inside (.unary op) trivial (by simp only [tightness]; omega)
      (holds_power _)) fun operand rest last hoperand => ?_
    obtain ⟨-, -, -, hstop⟩ := expr_sound hoperand
    exact agrees_ok ((alike_unary hstop).readAll_eq last)
  · rename_i hop
    refine ih.primary (by omega) hat fun t ht => ?_
    rwa [ht, Option.bind_some] at hop

/-- A token that is no operator comes to an expression that is complete. -/
theorem step_complete {e : Expr} {t : Token} (hop : operator? t.kind = none)
    (hred : reduceAll e frames = (e, frames)) :
    step ⟨done, frames, .operand e⟩ t = stepExpr ⟨done, frames, .operand e⟩ e frames t := by
  simp only [step, hop, hred]

/-- After an expression in brackets, the closing one is expected. -/
theorem agrees_expect_close {kind : Kind} {frames' : List Frame} {e e' : Expr}
    (hstop : Stops .or ts) (hred : reduceAll e frames = (e, frames))
    (hend : finish ⟨done, frames, .operand e⟩ = none)
    (hclose : [Kind.rparen, .rbracket, .rbrace].filter (accepts ⟨done, frames, .operand e⟩) = [kind])
    (htake : ∀ t : Token, t.kind = kind → stepExpr ⟨done, frames, .operand e⟩ e frames t =
      some ⟨done, frames', .operand e'⟩)
    (hrefuse : ∀ t ∈ ts.head?, t.kind ≠ kind →
      stepExpr ⟨done, frames, .operand e⟩ e frames t = none) :
    Agrees (readAll complaint ⟨done, frames, .operand e⟩ last ts)
      (fun _ => ⟨done, frames', .operand e'⟩) (expect kind ts) := by
  have hstep : ∀ t ∈ ts.head?, step ⟨done, frames, .operand e⟩ t =
      stepExpr ⟨done, frames, .operand e⟩ e frames t := by
    intro t ht
    obtain ⟨us, rfl⟩ := List.head?_eq_some_iff.1 ht
    exact step_complete (stops_or_cons.1 hstop) hred
  refine agrees_expect hend (fun t ht hk => ?_) (fun t ht hk => ⟨?_, ?_⟩)
  · rw [hstep t ht, htake t hk]
  · rw [hstep t ht, hrefuse t ht hk]
  · rw [complaint_operand]
    exact blame_eq_expected hclose t

theorem agrees_expect_rparen {e : Expr} (hstop : Stops .or ts) :
    Agrees (readAll complaint ⟨done, .paren :: frames, .operand e⟩ last ts)
      (fun _ => ⟨done, frames, .operand e⟩) (expect .rparen ts) := by
  refine agrees_expect_close hstop rfl rfl rfl (fun t hk => ?_) fun t _ hk => ?_
  · simp only [stepExpr, hk]
  · cases hkind : t.kind <;> simp_all [stepExpr, statementOf?]

theorem agrees_expect_rbracket {items : List Expr} {e : Expr} (hstop : Stops .or ts)
    (hcomma : next .comma ts = false) :
    Agrees (readAll complaint ⟨done, .list items :: frames, .operand e⟩ last ts)
      (fun _ => ⟨done, frames, .operand (.list (e :: items).reverse)⟩) (expect .rbracket ts) := by
  refine agrees_expect_close hstop rfl rfl rfl (fun t hk => ?_) fun t ht hk => ?_
  · simp only [stepExpr, hk]
  · have hne := next_eq_false_iff.1 hcomma t ht
    cases hkind : t.kind <;> simp_all [stepExpr, statementOf?]

theorem agrees_primary_step (ih : ExprAgrees depth) (hd : 12 * ts.length + 1 ≤ depth + 1)
    (hat : ExprAt frames ts) (hsign : ∀ t ∈ ts.head?, UnaryOp.ofKind? t.kind = none) :
    Agrees (readAll complaint ⟨done, frames, .nothing⟩ last ts)
      (fun e => ⟨done, frames, .operand e⟩) (primary (depth + 1) ts) := by
  cases ts with
  | nil =>
    have hend : finish ⟨done, frames, .nothing⟩ = none := by
      cases frames with
      | nil => exact absurd rfl (hat.open_of_nil rfl)
      | cons frame frames => rfl
    rw [readAll, hend]
    rfl
  | cons t ts =>
    rw [List.length_cons] at hd
    have htake : ∀ state, beginExpr ⟨done, frames, .nothing⟩ t = some state →
        readAll complaint ⟨done, frames, .nothing⟩ last (t :: ts) =
          readAll complaint state (some t) ts :=
      fun state h => readAll_cons ((hat.step t rfl done).trans h)
    rw [primary]
    split
    case h_1 hk =>
      rw [htake ⟨done, frames, .operand (.int t.payload)⟩ (by simp [beginExpr, hk])]
      exact agrees_ok rfl
    case h_2 hk =>
      rw [htake ⟨done, frames, .operand (.bool true)⟩ (by simp [beginExpr, hk])]
      exact agrees_ok rfl
    case h_3 hk =>
      rw [htake ⟨done, frames, .operand (.bool false)⟩ (by simp [beginExpr, hk])]
      exact agrees_ok rfl
    case h_4 hk =>
      rw [htake ⟨done, frames, .operand (.name t.payload)⟩ (by simp [beginExpr, hk])]
      exact agrees_ok rfl
    case h_5 hk =>
      rw [htake ⟨done, .paren :: frames, .nothing⟩ (by simp [beginExpr, hk])]
      refine Agrees.bind (ih.inside .paren trivial (by simp only [tightness]; omega) trivial)
        fun e rest last he => ?_
      obtain ⟨-, -, -, hstop⟩ := expr_sound he
      refine Agrees.bind (agrees_expect_rparen hstop) fun _ rest last _ => ?_
      exact agrees_ok rfl
    case h_6 hk =>
      rw [htake ⟨done, .list [] :: frames, .nothing⟩ (by simp [beginExpr, hk])]
      refine Agrees.bind (ih.elements (by omega)) fun items rest last _ => ?_
      exact agrees_ok rfl
    case h_7 =>
      -- neither a sign nor any other token that begins an expression
      have hnone : beginExpr ⟨done, frames, .nothing⟩ t = none := by
        rw [← Option.not_isSome_iff_eq_none, isSome_beginExpr]
        have hsign := hsign t rfl
        cases hk : t.kind <;> simp_all [Kind.beginsExpr, UnaryOp.ofKind?]
      rw [readAll, hat.step t rfl, hnone]
      change Except.error _ = Except.error _
      rw [hat.complaint t rfl]

theorem agrees_elements_step (ih : ExprAgrees depth) {items : List Expr}
    (hd : 12 * ts.length + 9 ≤ depth + 1) :
    Agrees (readAll complaint ⟨done, .list items :: frames, .nothing⟩ last ts)
      (fun items => ⟨done, frames, .operand (.list items)⟩) (elements (depth + 1) items ts) := by
  rw [elements]
  split
  · -- a comma with no item before it changes nothing
    rename_i hcomma
    obtain ⟨t, us, rfl, ht⟩ := next_eq_true_iff.1 hcomma
    rw [List.length_cons] at hd
    have hstep : step ⟨done, .list items :: frames, .nothing⟩ t =
        some ⟨done, .list items :: frames, .nothing⟩ := by
      simp [step, stepOpen, ht]
    rw [readAll_cons hstep]
    exact ih.elements (by omega)
  · rename_i hcomma
    split
    · rename_i hclose
      obtain ⟨t, us, rfl, ht⟩ := next_eq_true_iff.1 hclose
      have hstep : step ⟨done, .list items :: frames, .nothing⟩ t =
          some ⟨done, frames, .operand (.list items.reverse)⟩ := by
        simp [step, stepOpen, ht]
      rw [readAll_cons hstep]
      exact agrees_ok rfl
    · rename_i hclose
      have hat : ExprAt (.list items :: frames) ts :=
        exprAt_list (by simpa using hcomma) (by simpa using hclose)
      refine Agrees.bind (ih.expr (by simp only [tightness]; omega) hat trivial)
        fun e rest last he => ?_
      have hshort := expr_shorter he
      obtain ⟨-, -, -, hstop⟩ := expr_sound he
      dsimp only
      split
      · -- the comma completes the item
        rename_i hcomma
        obtain ⟨t, us, rfl, ht⟩ := next_eq_true_iff.1 hcomma
        rw [List.length_cons] at hshort
        have hstep : step ⟨done, .list items :: frames, .operand e⟩ t =
            some ⟨done, .list (e :: items) :: frames, .nothing⟩ := by
          rw [step_complete (stops_or_cons.1 hstop) rfl]
          simp only [stepExpr, ht]
        rw [readAll_cons hstep]
        exact ih.elements (by omega)
      · rename_i hcomma
        refine Agrees.bind (agrees_expect_rbracket hstop (by simpa using hcomma))
          fun _ rest last _ => ?_
        exact agrees_ok rfl

end Step

theorem exprAgrees (depth : Nat) : ExprAgrees depth := by
  induction depth with
  | zero =>
    constructor <;> intros
    case expr level _ _ _ _ _ _ _ => exact absurd (tightness_le level) (by omega)
    all_goals omega
  | succ depth ih =>
    exact ⟨agrees_expr_step ih, agrees_chain_step ih, agrees_unary_step ih, agrees_primary_step ih,
      agrees_elements_step ih⟩

theorem agrees_expr {depth : Nat} {level : Level} {done : List Stmt} {frames : List Frame}
    {last : Option Token} {ts : List Token} (hd : 12 * ts.length + 8 ≤ depth + tightness level)
    (hat : ExprAt frames ts) (hin : Holds level frames) :
    Agrees (readAll complaint ⟨done, frames, .nothing⟩ last ts)
      (fun e => ⟨done, frames, .operand e⟩) (expr depth level ts) :=
  (exprAgrees depth).expr hd hat hin

/-! ### Where statements begin -/

/-- A statement has to begin at the front of the tokens. -/
structure StmtAt (frames : List Frame) (ts : List Token) : Prop where
  hosts : Hosts frames
  open_of_nil : ts = [] → frames ≠ []
  not_close : next .rbrace ts = true → ∀ body outer, frames ≠ .block body :: outer

theorem StmtAt.step_eq {frames : List Frame} {t : Token} {ts : List Token}
    (h : StmtAt frames (t :: ts)) (done : List Stmt) :
    step ⟨done, frames, .nothing⟩ t = beginStmt ⟨done, frames, .nothing⟩ t := by
  have hosts := h.hosts
  unfold Hosts at hosts
  split at hosts
  · rfl
  · rename_i body outer
    have hk : t.kind ≠ .rbrace := fun hk => h.not_close (by simp [hk]) body outer rfl
    simp [step, stepOpen, hk]
  · rfl
  · rfl
  · exact hosts.elim

/-- A statement that begins with no word of its own and no brace is an expression. -/
theorem StmtAt.exprAt {frames : List Frame} {ts : List Token} (h : StmtAt frames ts)
    (hif : next .kwIf ts = false) (hlet : next .kwLet ts = false)
    (hbrace : next .lbrace ts = false) : ExprAt frames ts := by
  rw [next_eq_false_iff] at hif hlet hbrace
  refine ⟨h.open_of_nil, fun t ht done => ?_, fun t ht done last => ?_⟩
  · have hi := hif t ht
    have hl := hlet t ht
    have hb := hbrace t ht
    obtain ⟨us, rfl⟩ := List.head?_eq_some_iff.1 ht
    rw [h.step_eq done, beginStmt]
    split <;> first | contradiction | rfl
  · have hunexpected : ∀ frames', (∀ kind, accepts ⟨done, frames', .nothing⟩ kind = kind.beginsStmt) →
        blame ⟨done, frames', .nothing⟩ t = .unexpected t := fun frames' haccepts =>
      blame_eq_unexpected (by simp [List.filter, haccepts, Kind.beginsStmt, Kind.beginsExpr])
        (haccepts .integer) (haccepts .ident) (haccepts .semicolon) t
    have hosts := h.hosts
    unfold Hosts at hosts
    split at hosts
    · exact hunexpected [] fun kind => isSome_beginStmt _ _
    · rename_i body outer
      obtain ⟨us, rfl⟩ := List.head?_eq_some_iff.1 ht
      have hk : t.kind ≠ .rbrace := fun hk => h.not_close (by simp [hk]) body outer rfl
      cases body with
      | nil =>
        -- an empty block cannot be closed, so only a statement can stand here
        have haccepts : ∀ kind, accepts ⟨done, .block [] :: outer, .nothing⟩ kind =
            kind.beginsStmt := by
          intro kind
          by_cases hkind : kind = .rbrace
          · subst hkind
            rfl
          · rw [accepts, ← isSome_beginStmt ⟨done, .block [] :: outer, .nothing⟩ ⟨kind, none, ⟨0, 0⟩⟩]
            simp [step, stepOpen, hkind]
        simp only [complaint, if_neg hk]
        exact hunexpected _ haccepts
      | cons s body => rfl
    · rename_i test outer
      exact hunexpected (.yes test :: outer) fun kind => isSome_beginStmt _ _
    · rename_i test yes outer
      exact hunexpected (.no test yes :: outer) fun kind => isSome_beginStmt _ _
    · exact hosts.elim

/-! ### Statements -/

/-- The automaton agrees with the rules for statements, at a given depth of calls that is enough for
the tokens. -/
structure StmtAgrees (depth : Nat) : Prop where
  statement {done : List Stmt} {frames : List Frame} {last : Option Token} {ts : List Token}
    (hd : 12 * ts.length + 9 ≤ depth) (hat : StmtAt frames ts) :
    Agrees (readAll complaint ⟨done, frames, .nothing⟩ last ts)
      (fun s => ⟨done, frames, .statement s⟩) (statement depth ts)
  conditional {done : List Stmt} {frames : List Frame} {last : Option Token} {ts : List Token}
    (hd : 12 * ts.length + 1 ≤ depth) (hat : StmtAt frames ts) (hif : next .kwIf ts = true) :
    Agrees (readAll complaint ⟨done, frames, .nothing⟩ last ts)
      (fun s => ⟨done, frames, .statement s⟩) (conditional depth ts)
  definition {done : List Stmt} {frames : List Frame} {last : Option Token} {ts : List Token}
    (hd : 12 * ts.length + 1 ≤ depth) (hat : StmtAt frames ts) (hlet : next .kwLet ts = true) :
    Agrees (readAll complaint ⟨done, frames, .nothing⟩ last ts)
      (fun s => ⟨done, frames, .statement s⟩) (definition depth ts)
  block {done : List Stmt} {frames : List Frame} {last : Option Token} {ts : List Token}
    (hd : 12 * ts.length + 1 ≤ depth) (hat : StmtAt frames ts) (hbrace : next .lbrace ts = true) :
    Agrees (readAll complaint ⟨done, frames, .nothing⟩ last ts)
      (fun s => ⟨done, frames, .statement s⟩) (block depth ts)
  blockTail {done : List Stmt} {frames : List Frame} {last : Option Token} {body : List Stmt}
    {s : Stmt} {ts : List Token} (hd : 12 * ts.length + 1 ≤ depth) :
    Agrees (readAll complaint ⟨done, .block body :: frames, .statement s⟩ last ts)
      (fun b => ⟨done, frames, .statement b⟩) (blockTail depth (s :: body) ts)

section Step

variable {depth : Nat} {done : List Stmt} {frames : List Frame} {last : Option Token}
  {ts : List Token}

theorem agrees_statement_step (ih : StmtAgrees depth) (hd : 12 * ts.length + 9 ≤ depth + 1)
    (hat : StmtAt frames ts) : Agrees (readAll complaint ⟨done, frames, .nothing⟩ last ts)
      (fun s => ⟨done, frames, .statement s⟩) (statement (depth + 1) ts) := by
  rw [statement]
  split
  · rename_i hif
    exact ih.conditional (by omega) hat hif
  · rename_i hif
    split
    · rename_i hlet
      exact ih.definition (by omega) hat hlet
    · rename_i hlet
      split
      · rename_i hbrace
        exact ih.block (by omega) hat hbrace
      · rename_i hbrace
        have hexpr : ExprAt frames ts :=
          hat.exprAt (by simpa using hif) (by simpa using hlet) (by simpa using hbrace)
        have hin : Holds .or frames := by
          have hosts := hat.hosts
          unfold Hosts at hosts
          split at hosts <;> trivial
        refine Agrees.bind (agrees_expr (by simp only [tightness]; omega) hexpr hin)
          fun e rest last he => ?_
        obtain ⟨-, -, -, hstop⟩ := expr_sound he
        have halike : Alike rest ⟨done, frames, .operand e⟩ ⟨done, frames, .statement (.expr e)⟩ :=
          alike_statement hat.hosts hstop
        exact agrees_ok (halike.readAll_eq last)

/-- An expression that an open construct of a statement goes on with. -/
theorem agrees_inside (frame : Frame) (htakes : frame.TakesExpr) (hin : Holds .or (frame :: frames))
    (hd : 12 * ts.length + 8 ≤ depth) :
    Agrees (readAll complaint ⟨done, frame :: frames, .nothing⟩ last ts)
      (fun e => ⟨done, frame :: frames, .operand e⟩) (expr depth .or ts) :=
  (exprAgrees depth).inside frame htakes (by simp only [tightness]; omega) hin

/-- The word between two branches belongs to the nearest test. -/
theorem step_else {test : Expr} {s : Stmt} {t : Token} (h : t.kind = .kwElse) :
    step ⟨done, .yes test :: frames, .statement s⟩ t =
      some ⟨done, .no test s :: frames, .nothing⟩ := by
  simp [step, stepStatement, h, closeSecond]

theorem agrees_conditional_step (ih : StmtAgrees depth) (hd : 12 * ts.length + 1 ≤ depth + 1)
    (hat : StmtAt frames ts) (hif : next .kwIf ts = true) :
    Agrees (readAll complaint ⟨done, frames, .nothing⟩ last ts)
      (fun s => ⟨done, frames, .statement s⟩) (conditional (depth + 1) ts) := by
  obtain ⟨word, us, rfl, hw⟩ := next_eq_true_iff.1 hif
  rw [List.length_cons] at hd
  have hstep : step ⟨done, frames, .nothing⟩ word = some ⟨done, .test :: frames, .nothing⟩ := by
    rw [hat.step_eq]
    simp [beginStmt, hw]
  rw [readAll_cons hstep, conditional, expect_eq_ok_iff.2 ⟨rfl, hw⟩]
  change Agrees _ _ (expr depth .or us >>= _)
  refine Agrees.bind (agrees_inside .test trivial trivial (by omega)) fun test rest last htest => ?_
  have hshort := expr_shorter htest
  obtain ⟨-, -, -, hstop⟩ := expr_sound htest
  -- no operator follows the test, so the first branch begins
  rw [(alike_test hstop).readAll_eq]
  have hyes : StmtAt (.yes test :: frames) rest :=
    ⟨hat.hosts, fun _ => List.cons_ne_nil _ _, fun _ _ _ => by simp⟩
  refine Agrees.bind (ih.statement (by omega) hyes) fun yes rest last hs => ?_
  have hshort := statement_shorter hs
  dsimp only
  split
  · rename_i helse
    obtain ⟨mid, vs, rfl, hm⟩ := next_eq_true_iff.1 helse
    rw [List.length_cons] at hshort
    rw [readAll_cons (step_else hm)]
    have hno : StmtAt (.no test yes :: frames) vs :=
      ⟨hat.hosts, fun _ => List.cons_ne_nil _ _, fun _ _ _ => by simp⟩
    refine Agrees.bind (ih.statement (by omega) hno) fun no rest last _ => ?_
    have halike : Alike rest ⟨done, .no test yes :: frames, .statement no⟩
        ⟨done, frames, .statement (.ifElse test yes no)⟩ := alike_ifElse hat.hosts
    exact agrees_ok (halike.readAll_eq last)
  · rename_i helse
    have halike : Alike rest ⟨done, .yes test :: frames, .statement yes⟩
        ⟨done, frames, .statement (.ifThen test yes)⟩ :=
      alike_ifThen hat.hosts (next_eq_false_iff.1 (by simpa using helse))
    exact agrees_ok (halike.readAll_eq last)

/-- A construct that goes on with one kind of token only: that kind is expected. -/
theorem agrees_expect_only {kind : Kind} {frame : Frame} {after : Token → Frame}
    (hkind : kind = .ident ∨ kind = .assign)
    (hstep : ∀ t, step ⟨done, frame :: frames, .nothing⟩ t =
      if t.kind = kind then some ⟨done, after t :: frames, .nothing⟩ else none)
    (hblame : ∀ t, complaint ⟨done, frame :: frames, .nothing⟩ last t =
      blame ⟨done, frame :: frames, .nothing⟩ t) :
    Agrees (readAll complaint ⟨done, frame :: frames, .nothing⟩ last ts)
      (fun t => ⟨done, after t :: frames, .nothing⟩) (expect kind ts) := by
  have haccepts : ∀ k, accepts ⟨done, frame :: frames, .nothing⟩ k = decide (k = kind) := by
    intro k
    rw [accepts, hstep]
    by_cases hk : k = kind <;> simp [hk]
  refine agrees_expect rfl (fun t _ hk => ?_) (fun t _ hk => ⟨?_, ?_⟩)
  · rw [hstep, if_pos hk]
  · rw [hstep, if_neg hk]
  · rw [hblame]
    exact blame_eq_expected_of_only haccepts rfl hkind t

theorem agrees_expect_name :
    Agrees (readAll complaint ⟨done, .letWord :: frames, .nothing⟩ last ts)
      (fun t => ⟨done, .letName t.payload :: frames, .nothing⟩) (expect .ident ts) :=
  agrees_expect_only (.inl rfl) (fun _ => rfl) fun _ => rfl

theorem agrees_expect_sign {x : Option Payload} :
    Agrees (readAll complaint ⟨done, .letName x :: frames, .nothing⟩ last ts)
      (fun _ => ⟨done, .letValue x :: frames, .nothing⟩) (expect .assign ts) :=
  agrees_expect_only (.inr rfl) (fun _ => rfl) fun _ => rfl

theorem agrees_definition_step (hd : 12 * ts.length + 1 ≤ depth + 1) (hat : StmtAt frames ts)
    (hlet : next .kwLet ts = true) :
    Agrees (readAll complaint ⟨done, frames, .nothing⟩ last ts)
      (fun s => ⟨done, frames, .statement s⟩) (definition (depth + 1) ts) := by
  obtain ⟨word, us, rfl, hw⟩ := next_eq_true_iff.1 hlet
  rw [List.length_cons] at hd
  have hstep : step ⟨done, frames, .nothing⟩ word = some ⟨done, .letWord :: frames, .nothing⟩ := by
    rw [hat.step_eq]
    simp [beginStmt, hw]
  rw [readAll_cons hstep, definition, expect_eq_ok_iff.2 ⟨rfl, hw⟩]
  change Agrees _ _ (expect .ident us >>= _)
  refine Agrees.bind agrees_expect_name fun name rest last hname => ?_
  obtain ⟨rfl, -⟩ := expect_eq_ok_iff.1 hname
  refine Agrees.bind agrees_expect_sign fun sign rest last hsign => ?_
  obtain ⟨rfl, -⟩ := expect_eq_ok_iff.1 hsign
  simp only [List.length_cons] at hd
  refine Agrees.bind (agrees_inside (.letValue name.payload) trivial trivial (by omega))
    fun e rest last he => ?_
  obtain ⟨-, -, -, hstop⟩ := expr_sound he
  have halike : Alike rest ⟨done, .letValue name.payload :: frames, .operand e⟩
      ⟨done, frames, .statement (.define name.payload e)⟩ := alike_define hat.hosts hstop
  exact agrees_ok (halike.readAll_eq last)

theorem agrees_block_step (ih : StmtAgrees depth) (hd : 12 * ts.length + 1 ≤ depth + 1)
    (hat : StmtAt frames ts) (hbrace : next .lbrace ts = true) :
    Agrees (readAll complaint ⟨done, frames, .nothing⟩ last ts)
      (fun s => ⟨done, frames, .statement s⟩) (block (depth + 1) ts) := by
  obtain ⟨brace, us, rfl, hb⟩ := next_eq_true_iff.1 hbrace
  rw [List.length_cons] at hd
  have hstep : step ⟨done, frames, .nothing⟩ brace = some ⟨done, .block [] :: frames, .nothing⟩ := by
    rw [hat.step_eq]
    simp [beginStmt, hb]
  rw [readAll_cons hstep, block, expect_eq_ok_iff.2 ⟨rfl, hb⟩]
  change Agrees _ _ (if next .rbrace us then _ else _)
  split
  · -- the block is empty: the rule blames the opening brace, which is the token before
    rename_i hclose
    obtain ⟨right, vs, rfl, hr⟩ := next_eq_true_iff.1 hclose
    have hnone : step ⟨done, .block [] :: frames, .nothing⟩ right = none := by
      simp [step, stepOpen, hr]
    rw [readAll, hnone]
    change Except.error _ = Except.error _
    simp [complaint, hr]
  · rename_i hclose
    have hfirst : StmtAt (.block [] :: frames) us :=
      ⟨trivial, fun _ => List.cons_ne_nil _ _, fun h => absurd h hclose⟩
    refine Agrees.bind (ih.statement (by omega) hfirst) fun s rest last hs => ?_
    have hshort := statement_shorter hs
    exact ih.blockTail (by omega)

/-- After a statement of a block, the closing brace is expected where no semicolon follows. -/
theorem agrees_expect_rbrace {body : List Stmt} {s : Stmt} (hsemi : next .semicolon ts = false) :
    Agrees (readAll complaint ⟨done, .block body :: frames, .statement s⟩ last ts)
      (fun _ => ⟨done, frames, .statement (.block (s :: body).reverse)⟩) (expect .rbrace ts) := by
  refine agrees_expect rfl (fun t _ hk => ?_) (fun t ht hk => ⟨?_, ?_⟩)
  · simp [step, stepStatement, hk, closeAll]
  · have hne := next_eq_false_iff.1 hsemi t ht
    cases hkind : t.kind <;> simp_all [step, stepStatement, closeSecond]
  · have hosts : Hosts (.block body :: frames) := trivial
    rw [complaint_statement, blame_statement hosts]
    rfl

theorem agrees_blockTail_step (ih : StmtAgrees depth) {body : List Stmt} {s : Stmt}
    (hd : 12 * ts.length + 1 ≤ depth + 1) :
    Agrees (readAll complaint ⟨done, .block body :: frames, .statement s⟩ last ts)
      (fun b => ⟨done, frames, .statement b⟩) (blockTail (depth + 1) (s :: body) ts) := by
  have hsep : ∀ t : Token, t.kind = .semicolon →
      step ⟨done, .block body :: frames, .statement s⟩ t =
        some ⟨done, .block (s :: body) :: frames, .nothing⟩ := by
    intro t ht
    simp [step, stepStatement, ht, closeAll]
  rw [blockTail]
  split
  · rename_i hmore
    obtain ⟨hsemi, hclose⟩ := Bool.and_eq_true_iff.1 hmore
    obtain ⟨t, us, rfl, ht⟩ := next_eq_true_iff.1 hsemi
    rw [List.length_cons] at hd
    rw [readAll_cons (hsep t ht)]
    have hnext : StmtAt (.block (s :: body) :: frames) us :=
      ⟨trivial, fun _ => List.cons_ne_nil _ _, fun h => by simp [h] at hclose⟩
    refine Agrees.bind (ih.statement (by omega) hnext) fun s' rest last hs => ?_
    have hshort := statement_shorter hs
    change rest.length < us.length at hshort
    exact ih.blockTail (by omega)
  · rename_i hmore
    split
    · -- one semicolon before the closing brace
      rename_i hsemi
      obtain ⟨t, us, rfl, ht⟩ := next_eq_true_iff.1 hsemi
      have hclose : next .rbrace us = true := by simpa [ht] using hmore
      obtain ⟨right, vs, rfl, hr⟩ := next_eq_true_iff.1 hclose
      have hstep : step ⟨done, .block (s :: body) :: frames, .nothing⟩ right =
          some ⟨done, frames, .statement (.block (s :: body).reverse)⟩ := by
        simp [step, stepOpen, hr]
      rw [readAll_cons (hsep t ht), readAll_cons hstep]
      change Agrees _ _ (expect .rbrace (right :: vs) >>= _)
      rw [expect_eq_ok_iff.2 ⟨rfl, hr⟩]
      exact agrees_ok rfl
    · rename_i hsemi
      refine Agrees.bind (agrees_expect_rbrace (by simpa using hsemi)) fun _ rest last _ => ?_
      exact agrees_ok rfl

end Step

theorem stmtAgrees (depth : Nat) : StmtAgrees depth := by
  induction depth with
  | zero => constructor <;> intros <;> omega
  | succ depth ih =>
    exact ⟨agrees_statement_step ih, agrees_conditional_step ih, agrees_definition_step,
      agrees_block_step ih, agrees_blockTail_step ih⟩

theorem agrees_statement {depth : Nat} {done : List Stmt} {frames : List Frame}
    {last : Option Token} {ts : List Token} (hd : 12 * ts.length + 9 ≤ depth)
    (hat : StmtAt frames ts) : Agrees (readAll complaint ⟨done, frames, .nothing⟩ last ts)
      (fun s => ⟨done, frames, .statement s⟩) (statement depth ts) :=
  (stmtAgrees depth).statement hd hat

/-! ### Programs -/

theorem readAll_statements {depth : Nat} {body : List Stmt} {last : Option Token} {ts : List Token}
    (hd : 12 * ts.length + 10 ≤ depth) (hts : ts ≠ []) :
    readAll complaint ⟨body, [], .nothing⟩ last ts =
      ((statements depth body ts).map Prod.fst).mapError Failure.error := by
  induction depth generalizing body last ts with
  | zero => omega
  | succ depth ih =>
    have hat : StmtAt [] ts := ⟨trivial, fun h => absurd h hts, fun _ _ _ => by simp⟩
    have hs : Agrees (readAll complaint ⟨body, [], .nothing⟩ last ts)
        (fun s => ⟨body, [], .statement s⟩) (statement depth ts) := agrees_statement (by omega) hat
    rw [statements]
    cases hstmt : statement depth ts with
    | error failure =>
      rw [hstmt] at hs
      exact hs
    | ok p =>
      obtain ⟨s, rest⟩ := p
      rw [hstmt] at hs
      obtain ⟨last, hread⟩ := hs
      have hshort := statement_shorter hstmt
      rw [hread]
      cases rest with
      | nil => rfl
      | cons t rest =>
        rw [List.length_cons] at hshort
        by_cases ht : t.kind = .semicolon
        · have hstep : step ⟨body, [], .statement s⟩ t = some ⟨s :: body, [], .nothing⟩ := by
            simp [step, stepStatement, ht, closeAll]
          rw [readAll_cons hstep]
          cases rest with
          | nil =>
            simp only [bind, Except.bind, ht, ↓reduceIte, List.isEmpty_nil]
            rfl
          | cons u rest =>
            rw [ih (by omega) (List.cons_ne_nil _ _)]
            simp [bind, Except.bind, ht]
        · -- a statement is complete, and neither a branch nor a statement follows
          have hstep : step ⟨body, [], .statement s⟩ t = none := by
            cases hk : t.kind <;> simp_all [step, stepStatement, closeSecond, closeAll]
          rw [readAll, hstep]
          have hosts : Hosts [] := trivial
          have hblame : complaint ⟨body, [], .statement s⟩ last t = .leftover t := by
            rw [complaint_statement, blame_statement hosts]
            rfl
          simp only [bind, Except.bind, ht, ↓reduceIte, hblame]
          rfl

/-- Without naming the last token, the descent reads a token list as the automaton does. -/
theorem readAll_initial (ts : List Token) :
    readAll complaint initial none ts =
      ((program (depthFor ts) ts).map Prod.fst).mapError Failure.error := by
  cases ts with
  | nil => rfl
  | cons t ts =>
    have hd : 12 * (t :: ts).length + 10 ≤ depthFor (t :: ts) := by
      rw [depthFor]
      omega
    rw [initial, readAll_statements hd (List.cons_ne_nil _ _)]
    rfl

end Abacus.Automaton
