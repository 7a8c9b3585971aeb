import Abacus.Proofs.Automaton.Reading

/-!
# The states that the automaton reaches

The constructs that are open fit into each other: an expression stands in an operation, in brackets, in
a definition or in a test, and a statement in a branch, in a block or in the program. What can follow is
told by the last token alone where that is a separator or an opening bracket of a list or a block, and
the blocks that are open are counted by the braces.

Every state that is reached can still be led to a program, so the tokens read up to there begin one.

## Main definitions

* `Automaton.InStmt`, `Automaton.InExpr` — open constructs in which a statement, an expression can stand
* `Automaton.State.WellFormed` — the open constructs of a state fit into each other
* `Automaton.Gap`, `Automaton.State.gap` — what stands before the next token
* `Automaton.Reaches` — the state after some tokens

## Main results

* `Automaton.step_advances` — what one step preserves
* `Automaton.Reaches.invariant` — what every run preserves
* `Automaton.exists_readAll_eq_ok` — every state that is reached can be led to a program
-/

namespace Abacus.Automaton

open Grammar

/-! ### Open constructs -/

/-- The open constructs in which a statement can stand, all the way to the program. -/
def InStmt : List Frame → Prop
  | [] => True
  | .block _ :: frames | .yes _ :: frames | .no _ _ :: frames => InStmt frames
  | _ => False

/-- The open constructs in which an expression can stand, all the way to the program. -/
def InExpr : List Frame → Prop
  | .operator _ _ _ :: frames | .unary _ :: frames | .paren :: frames | .list _ :: frames =>
    InExpr frames
  | .letValue _ :: frames | .test :: frames => InStmt frames
  | frames => InStmt frames

/-- The open constructs fit into each other, and what stands at the end fits into the innermost one. -/
def State.WellFormed (state : State) : Prop :=
  match state.top, state.frames with
  | .nothing, .letWord :: frames | .nothing, .letName _ :: frames => InStmt frames
  | .nothing, frames => InExpr frames
  | .operand _, frames => InExpr frames
  | .statement _, frames => InStmt frames

theorem InStmt.inExpr {frames : List Frame} (h : InStmt frames) : InExpr frames := by
  unfold InStmt at h
  split at h <;> first | exact h | exact h.elim

theorem InStmt.hosts {frames : List Frame} (h : InStmt frames) : Hosts frames := by
  induction frames with
  | nil => trivial
  | cons frame frames ih =>
    cases frame with
    | block => trivial
    | yes => exact ih h
    | no => exact ih h
    | _ => exact h.elim

/-- Whether an open construct is a block. -/
def Frame.isBlock : Frame → Bool
  | .block _ => true
  | _ => false

/-- The number of blocks that are open. -/
def braces (frames : List Frame) : Nat :=
  frames.countP Frame.isBlock

@[simp] theorem braces_nil : braces [] = 0 := rfl

@[simp] theorem braces_cons (frame : Frame) (frames : List Frame) :
    braces (frame :: frames) = braces frames + if frame.isBlock then 1 else 0 :=
  List.countP_cons

/-! ### Completing constructs -/

/-- Completing operations leaves the brackets, the definition or the branch around them open. -/
theorem reduce_spec {level : Level} {e e' : Expr} {frames frames' : List Frame}
    (h : reduce level e frames = (e', frames')) :
    braces frames' = braces frames ∧ (InExpr frames → InExpr frames') := by
  fun_induction reduce level e frames with
  | case1 e op frames ih => simpa [InExpr, Frame.isBlock] using ih h
  | case2 e inner join left frames hle ih => simpa [InExpr, Frame.isBlock] using ih h
  | case3 e inner join left frames hlt =>
    cases h
    exact ⟨rfl, id⟩
  | case4 e frames =>
    cases h
    exact ⟨rfl, id⟩

theorem statementOf?_spec {e : Expr} {s : Stmt} {frames frames' : List Frame}
    (h : statementOf? e frames = some (s, frames')) :
    braces frames' = braces frames ∧ (InExpr frames → InStmt frames') := by
  unfold statementOf? at h
  split at h <;> cases h <;> exact ⟨rfl, id⟩

theorem closeSecond_spec {s s' : Stmt} {frames frames' : List Frame}
    (h : closeSecond s frames = (s', frames')) :
    braces frames' = braces frames ∧ (InStmt frames → InStmt frames') := by
  fun_induction closeSecond s frames with
  | case1 s test yes frames ih => simpa [InStmt, Frame.isBlock] using ih h
  | case2 s frames =>
    cases h
    exact ⟨rfl, id⟩

theorem closeAll_spec {s s' : Stmt} {frames frames' : List Frame}
    (h : closeAll s frames = (s', frames')) :
    braces frames' = braces frames ∧ (InStmt frames → InStmt frames') := by
  fun_induction closeAll s frames with
  | case1 s test yes frames ih => simpa [InStmt, Frame.isBlock] using ih h
  | case2 s test frames ih => simpa [InStmt, Frame.isBlock] using ih h
  | case3 s frames =>
    cases h
    exact ⟨rfl, id⟩

/-! ### Steps -/

/-- What stands before the next token. -/
inductive Gap
  /-- The opening bracket of a list or a comma. -/
  | item
  /-- The opening brace of a block. -/
  | opening
  /-- A semicolon, or nothing. -/
  | statement
  /-- Any other token. -/
  | other

/-- What a token leaves before the next one. -/
def Gap.after : Kind → Gap
  | .lbracket | .comma => .item
  | .lbrace => .opening
  | .semicolon => .statement
  | _ => .other

theorem Gap.after_eq_item_iff {kind : Kind} :
    Gap.after kind = .item ↔ kind = .lbracket ∨ kind = .comma := by
  cases kind <;> simp [Gap.after]

theorem Gap.after_eq_opening_iff {kind : Kind} : Gap.after kind = .opening ↔ kind = .lbrace := by
  cases kind <;> simp [Gap.after]

theorem Gap.after_eq_statement_iff {kind : Kind} :
    Gap.after kind = .statement ↔ kind = .semicolon := by
  cases kind <;> simp [Gap.after]

/-- What stands before the next token, as the state shows it. -/
def State.gap (state : State) : Gap :=
  match state.top, state.frames with
  | .nothing, .list _ :: _ => .item
  | .nothing, .block [] :: _ => .opening
  | .nothing, .block (_ :: _) :: _ | .nothing, [] => .statement
  | _, _ => .other

/-- What is known of the state after a token that is taken with some constructs open. -/
structure Advances (t : Token) (frames : List Frame) (next : State) : Prop where
  gap : next.gap = .after t.kind
  braces : braces next.frames + (if t.kind = .rbrace then 1 else 0) =
    braces frames + if t.kind = .lbrace then 1 else 0
  wellFormed : next.WellFormed

section Step

variable {state next : State} {t : Token}

theorem beginExpr_advances (hin : InExpr state.frames) (h : beginExpr state t = some next) :
    Advances t state.frames next := by
  -- one case for each kind; the kinds that begin no expression contradict the step
  cases hk : t.kind <;> simp only [beginExpr, hk, UnaryOp.ofKind?] at h <;> cases h <;>
    exact ⟨by simp [State.gap, Gap.after, hk], by simp [hk, Frame.isBlock], hin⟩

theorem beginStmt_advances (hin : InStmt state.frames) (h : beginStmt state t = some next) :
    Advances t state.frames next := by
  unfold beginStmt at h
  split at h
  · rename_i hk
    cases h
    exact ⟨by simp [State.gap, Gap.after, hk], by simp [hk, Frame.isBlock], hin⟩
  · rename_i hk
    cases h
    exact ⟨by simp [State.gap, Gap.after, hk], by simp [hk, Frame.isBlock], hin⟩
  · rename_i hk
    cases h
    exact ⟨by simp [State.gap, Gap.after, hk], by simp [hk, Frame.isBlock], hin⟩
  · exact beginExpr_advances hin.inExpr h

theorem stepOpen_advances (hwf : state.WellFormed) (htop : state.top = .nothing)
    (h : stepOpen state t = some next) : Advances t state.frames next := by
  obtain ⟨done, frames, top⟩ := state
  cases htop
  cases frames with
  | nil => exact beginStmt_advances hwf h
  | cons frame frames =>
    cases frame with
    | yes | no => exact beginStmt_advances hwf h
    | operator | unary | paren | letValue | test => exact beginExpr_advances hwf h
    | block body =>
      -- only a block that has a statement can be closed
      simp only [stepOpen] at h
      split at h
      · rename_i hk
        split at h <;> cases h
        exact ⟨by simp [State.gap, Gap.after, hk], by simp [hk, Frame.isBlock], hwf⟩
      · exact beginStmt_advances hwf h
    | list items =>
      -- a comma leaves the list as it is, and a bracket closes it
      simp only [stepOpen] at h
      split at h
      · rename_i hk
        cases h
        exact ⟨by simp [State.gap, Gap.after, hk], by simp [hk], hwf⟩
      · split at h
        · rename_i hk
          cases h
          exact ⟨by simp [State.gap, Gap.after, hk], by simp [hk, Frame.isBlock], hwf⟩
        · exact beginExpr_advances hwf h
    | letWord =>
      simp only [stepOpen] at h
      split at h <;> cases h
      rename_i hk
      exact ⟨by simp [State.gap, Gap.after, hk], by simp [hk, Frame.isBlock], hwf⟩
    | letName x =>
      simp only [stepOpen] at h
      split at h <;> cases h
      rename_i hk
      exact ⟨by simp [State.gap, Gap.after, hk], by simp [hk, Frame.isBlock], hwf⟩

theorem stepStatement_advances {s : Stmt} {frames : List Frame} (hin : InStmt frames)
    (h : stepStatement state s frames t = some next) : Advances t frames next := by
  unfold stepStatement at h
  split at h
  · -- a second branch begins
    rename_i hk
    split at h <;> cases h
    rename_i s' test outer hclose
    obtain ⟨hb, hi⟩ := closeSecond_spec hclose
    exact ⟨by simp [State.gap, Gap.after, hk], by simp [hk, Frame.isBlock, ← hb], hi hin⟩
  · -- the statement joins the program, or the innermost block
    rename_i hk
    split at h <;> cases h
    · rename_i s' hclose
      obtain ⟨hb, hi⟩ := closeAll_spec hclose
      exact ⟨by simp [State.gap, Gap.after, hk], by simp [hk, ← hb], hi hin⟩
    · rename_i s' body outer hclose
      obtain ⟨hb, hi⟩ := closeAll_spec hclose
      exact ⟨by simp [State.gap, Gap.after, hk], by simp [hk, Frame.isBlock, ← hb], hi hin⟩
  · -- the innermost block is complete
    rename_i hk
    split at h <;> cases h
    rename_i s' body outer hclose
    obtain ⟨hb, hi⟩ := closeAll_spec hclose
    exact ⟨by simp [State.gap, Gap.after, hk], by simp [hk, Frame.isBlock, ← hb], hi hin⟩
  · cases h

theorem stepExpr_advances {e : Expr} {frames : List Frame} (hin : InExpr frames)
    (h : stepExpr state e frames t = some next) : Advances t frames next := by
  unfold stepExpr at h
  split at h
  · rename_i hk
    cases h
    exact ⟨by simp [State.gap, Gap.after, hk], by simp [hk, Frame.isBlock], hin⟩
  · rename_i hk
    cases h
    exact ⟨by simp [State.gap, Gap.after, hk], by simp [hk, Frame.isBlock], hin⟩
  · rename_i hk
    cases h
    exact ⟨by simp [State.gap, Gap.after, hk], by simp [hk, Frame.isBlock], hin⟩
  · -- the test is complete, and the token begins its first branch
    have hyes : InStmt (.yes e :: _) := hin
    obtain ⟨hgap, hbraces, hwf⟩ := beginStmt_advances hyes h
    exact ⟨hgap, hbraces, hwf⟩
  · split at h
    · rename_i s outer hs
      obtain ⟨hb, hi⟩ := statementOf?_spec hs
      obtain ⟨hgap, hbraces, hwf⟩ := stepStatement_advances (hi hin) h
      exact ⟨hgap, hb ▸ hbraces, hwf⟩
    · cases h

theorem operator_advances {level : Level} {join : Expr → Expr → Expr} {done : List Stmt} {e : Expr}
    {frames frames' : List Frame} (hop : operator? t.kind = some (level, join))
    (hspec : braces frames' = braces frames ∧ (InExpr frames → InExpr frames'))
    (hin : InExpr frames) :
    Advances t frames ⟨done, .operator level join e :: frames', .nothing⟩ := by
  obtain ⟨hgap, hl, hr⟩ : Gap.after t.kind = .other ∧ t.kind ≠ .lbrace ∧ t.kind ≠ .rbrace := by
    cases hk : t.kind <;> simp [hk, operator?, Level.join?, Gap.after] at hop ⊢
  exact ⟨by simp [State.gap, hgap], by simp [hl, hr, hspec.1, Frame.isBlock], hspec.2 hin⟩

/-- A step from a well-formed state leads to one; the token shows what stands before the next one, and
opens or closes a block if it is a brace. -/
theorem step_advances (hwf : state.WellFormed) (h : step state t = some next) :
    Advances t state.frames next := by
  obtain ⟨done, frames, top⟩ := state
  cases top with
  | nothing => exact stepOpen_advances hwf rfl h
  | statement s => exact stepStatement_advances hwf h
  | operand e =>
    simp only [step] at h
    split at h
    · rename_i join hop
      cases h
      exact operator_advances hop ⟨rfl, id⟩ hwf
    · rename_i level join _ hop
      cases h
      exact operator_advances hop (reduce_spec rfl) hwf
    · -- all operations are complete before the token is looked at
      obtain ⟨hb, hi⟩ := reduce_spec (Prod.eta (reduceAll e frames)).symm
      obtain ⟨hgap, hbraces, hnext⟩ := stepExpr_advances (hi hwf) h
      exact ⟨hgap, hb ▸ hbraces, hnext⟩

end Step

/-! ### Runs -/

/-- The state after the tokens. -/
inductive Reaches : List Token → State → Prop
  | start : Reaches [] initial
  | snoc {ts : List Token} {s s' : State} {t : Token} (h : Reaches ts s)
      (hstep : step s t = some s') : Reaches (ts ++ [t]) s'

/-- What is known of the state after some tokens. -/
structure Invariant (ts : List Token) (state : State) : Prop where
  gap : state.gap = (ts.getLast?.map fun t => Gap.after t.kind).getD .statement
  braces : braces state.frames + ts.countP (·.kind = .rbrace) = ts.countP (·.kind = .lbrace)
  wellFormed : state.WellFormed

theorem Reaches.invariant {ts : List Token} {state : State} (h : Reaches ts state) :
    Invariant ts state := by
  induction h with
  | start => exact ⟨rfl, rfl, trivial⟩
  | @snoc ts s s' t _ hstep ih =>
    -- the invariant of the state before is what the step needs
    obtain ⟨hgap, hbraces, hwf⟩ := step_advances ih.wellFormed hstep
    refine ⟨by simp [hgap], ?_, hwf⟩
    have hbefore := ih.braces
    simp only [List.countP_append, List.countP_singleton, decide_eq_true_eq]
    omega

/-- The last token shows what stands before the next one. -/
theorem Invariant.after_last {ts : List Token} {state : State} {last : Token}
    (h : Invariant ts state) (hlast : ts.getLast? = some last) :
    Gap.after last.kind = state.gap := by
  rw [h.gap, hlast]
  rfl

theorem Invariant.exists_last {ts : List Token} {state : State} (h : Invariant ts state)
    (hgap : state.gap ≠ .statement) : ∃ last, ts.getLast? = some last := by
  cases hlast : ts.getLast? with
  | some last => exact ⟨last, rfl⟩
  | none =>
    rw [h.gap, hlast] at hgap
    exact absurd rfl hgap

/-- Reading goes on from the state that the first tokens lead to. -/
theorem Reaches.readAll_append {report : State → Option Token → Token → ParseError}
    {ts : List Token} {state : State} (h : Reaches ts state) (rest : List Token) :
    readAll report initial none (ts ++ rest) = readAll report state ts.getLast? rest := by
  induction h generalizing rest with
  | start => rfl
  | @snoc ts s s' t _ hstep ih =>
    rw [List.append_assoc, ih, List.singleton_append, readAll, hstep]
    simp

/-- Reading fails at the end of the tokens, or at the first one that cannot be taken. -/
theorem Reaches.of_readAll_eq_error {report : State → Option Token → Token → ParseError}
    {done ts : List Token} {state : State} {e : ParseError} (h : Reaches done state)
    (he : readAll report state done.getLast? ts = .error e) :
    (∃ s, Reaches (done ++ ts) s ∧ finish s = none ∧ e = .endOfInput none) ∨
      ∃ before x after s, done ++ ts = before ++ x :: after ∧ Reaches before s ∧ step s x = none ∧
        e = report s before.getLast? x := by
  induction ts generalizing done state with
  | nil =>
    rw [readAll] at he
    split at he <;> cases he
    rename_i hend
    exact .inl ⟨state, by simpa using h, hend, rfl⟩
  | cons t ts ih =>
    rw [readAll] at he
    split at he
    · -- the token is taken, and joins those already read
      rename_i next hstep
      have hnext := h.snoc hstep
      have hlast : (done ++ [t]).getLast? = some t := by simp
      rw [← hlast] at he
      rw [List.append_cons]
      exact ih hnext he
    · rename_i hstep
      cases he
      exact .inr ⟨done, t, ts, state, rfl, h, hstep, rfl⟩

/-! ### Leading a state to a program -/

/-- After a statement, braces that close the blocks around it end the program. -/
theorem exists_readAll_statement {done : List Stmt} {frames : List Frame} (h : InStmt frames)
    (s : Stmt) (last : Option Token) :
    ∃ ts body, (∀ t ∈ ts.head?, t.kind = .rbrace) ∧
      readAll complaint ⟨done, frames, .statement s⟩ last ts = .ok body := by
  induction frames generalizing s last with
  | nil => exact ⟨[], _, by simp, rfl⟩
  | cons frame frames ih =>
    cases frame with
    | block body =>
      -- the brace closes the innermost block, and the others are closed after it
      let brace : Token := { kind := .rbrace }
      obtain ⟨ts, body, -, hread⟩ := ih h (.block (s :: body).reverse) (some brace)
      exact ⟨brace :: ts, body, by simp [brace], hread⟩
    | yes test =>
      obtain ⟨ts, body, hhead, hread⟩ := ih h (.ifThen test s) last
      have helse : ∀ t ∈ ts.head?, t.kind ≠ .kwElse := fun t ht => by simp [hhead t ht]
      have hosts : Hosts frames := InStmt.hosts h
      exact ⟨ts, body, hhead, ((alike_ifThen hosts helse).readAll_eq last).trans hread⟩
    | no test yes =>
      obtain ⟨ts, body, hhead, hread⟩ := ih h (.ifElse test yes s) last
      have hosts : Hosts frames := InStmt.hosts h
      exact ⟨ts, body, hhead, ((alike_ifElse hosts).readAll_eq last).trans hread⟩
    | _ => exact h.elim

theorem stops_of_rbrace {ts : List Token} (h : ∀ t ∈ ts.head?, t.kind = .rbrace) :
    Stops .or ts := by
  cases ts with
  | nil => exact stops_nil _
  | cons t ts => rw [stops_or_cons, h t rfl]; rfl

/-- After an operand, some tokens close all constructs around it. -/
theorem exists_readAll_operand {done : List Stmt} {frames : List Frame} (h : InExpr frames)
    (e : Expr) (last : Option Token) :
    ∃ ts body, Stops .or ts ∧ readAll complaint ⟨done, frames, .operand e⟩ last ts = .ok body := by
  -- an expression that is a statement is closed like one
  have hstmt : ∀ {frames}, InStmt frames → ∀ e last, ∃ ts body, Stops .or ts ∧
      readAll complaint ⟨done, frames, .operand e⟩ last ts = .ok body := by
    intro frames hin e last
    obtain ⟨ts, body, hhead, hread⟩ := exists_readAll_statement hin (.expr e) last
    have hstop := stops_of_rbrace hhead
    exact ⟨ts, body, hstop, ((alike_statement hin.hosts hstop).readAll_eq last).trans hread⟩
  induction frames generalizing e last with
  | nil => exact hstmt h e last
  | cons frame frames ih =>
    cases frame with
    | operator level join left =>
      -- tokens that stop every level make no difference to an operation and its result
      obtain ⟨ts, body, hstop, hread⟩ := ih h (join left e) last
      have hstop' := hstop.of_or level.tighter
      exact ⟨ts, body, hstop, ((alike_operator hstop').readAll_eq last).trans hread⟩
    | unary op =>
      obtain ⟨ts, body, hstop, hread⟩ := ih h (.unary op e) last
      exact ⟨ts, body, hstop, ((alike_unary (hstop.of_or .power)).readAll_eq last).trans hread⟩
    | paren =>
      obtain ⟨ts, body, -, hread⟩ := ih h e (some { kind := .rparen })
      exact ⟨{ kind := .rparen } :: ts, body, stops_or_cons.2 rfl, hread⟩
    | list items =>
      obtain ⟨ts, body, -, hread⟩ := ih h (.list (e :: items).reverse) (some { kind := .rbracket })
      exact ⟨{ kind := .rbracket } :: ts, body, stops_or_cons.2 rfl, hread⟩
    | letValue x =>
      obtain ⟨ts, body, hhead, hread⟩ := exists_readAll_statement h (.define x e) last
      have hstop := stops_of_rbrace hhead
      have hosts : Hosts frames := InStmt.hosts h
      exact ⟨ts, body, hstop, ((alike_define hosts hstop).readAll_eq last).trans hread⟩
    | test =>
      -- any expression will do as the first branch
      have hyes : InStmt (.yes e :: frames) := h
      obtain ⟨ts, body, -, hread⟩ := hstmt hyes (.int none) (some { kind := .integer })
      exact ⟨{ kind := .integer } :: ts, body, stops_or_cons.2 rfl, hread⟩
    | block | yes | no => exact hstmt h e last
    | _ => exact h.elim

/-- Every well-formed state can be led to a program. -/
theorem exists_readAll_eq_ok {state : State} (h : state.WellFormed) (last : Option Token) :
    ∃ ts body, readAll complaint state last ts = .ok body := by
  obtain ⟨done, frames, top⟩ := state
  -- the state after the value of an expression that has yet to begin
  have hvalue : ∀ {frames}, InExpr frames → ∃ ts body,
      readAll complaint ⟨done, frames, .operand (.int none)⟩ (some { kind := .integer }) ts =
        .ok body := by
    intro frames hin
    obtain ⟨ts, body, -, hread⟩ := exists_readAll_operand hin (.int none) (some { kind := .integer })
    exact ⟨ts, body, hread⟩
  cases top with
  | operand e =>
    obtain ⟨ts, body, -, hread⟩ := exists_readAll_operand h e last
    exact ⟨ts, body, hread⟩
  | statement s =>
    obtain ⟨ts, body, -, hread⟩ := exists_readAll_statement h s last
    exact ⟨ts, body, hread⟩
  | nothing =>
    cases frames with
    | nil => exact ⟨[], _, rfl⟩
    | cons frame frames =>
      cases frame with
      | letWord =>
        -- any name and any value complete the definition
        have hin : InExpr (.letValue none :: frames) := h
        obtain ⟨ts, body, hread⟩ := hvalue hin
        exact ⟨{ kind := .ident } :: { kind := .assign } :: { kind := .integer } :: ts, body, hread⟩
      | letName x =>
        have hin : InExpr (.letValue x :: frames) := h
        obtain ⟨ts, body, hread⟩ := hvalue hin
        exact ⟨{ kind := .assign } :: { kind := .integer } :: ts, body, hread⟩
      | _ =>
        obtain ⟨ts, body, hread⟩ := hvalue h
        exact ⟨{ kind := .integer } :: ts, body, hread⟩

end Abacus.Automaton
