import Abacus.Proofs.Grammar

/-!
# Reading token lists with the automaton

The automaton takes the tokens of a list one by one. What it says about a token that it cannot take is
a parameter here, so that the same run can be compared with readers that word their errors differently.

A construct that is complete can be replaced by its result as soon as the next token does not continue
it: from then on the two states take the same tokens to the same states, and say the same about a token
that they cannot take.

## Main definitions

* `Automaton.readAll` — reads a token list, with a given way to word errors
* `Automaton.complaint` — what the descent says about a token that cannot be taken
* `Automaton.Hosts` — the open constructs in which a statement can stand
* `Automaton.Alike` — two states that no next token tells apart

## Main results

* `Automaton.alike_operator`, `Automaton.alike_unary` — a complete operation counts as an operand
* `Automaton.alike_statement`, `Automaton.alike_define`, `Automaton.alike_ifThen`,
  `Automaton.alike_ifElse` — a complete statement counts as one
* `Automaton.alike_test` — after a complete test a branch begins
-/

namespace Abacus.Automaton

open Grammar

/-- Reads tokens from a state on, `last` being the token before them. -/
def readAll (report : State → Option Token → Token → ParseError) :
    State → Option Token → List Token → Except ParseError (List Stmt)
  | state, _, [] =>
    match finish state with
    | some body => .ok body
    | none => .error (.endOfInput none)
  | state, last, t :: ts =>
    match step state t with
    | some next => readAll report next (some t) ts
    | none => .error (report state last t)

/-- What the descent says about a token that cannot be taken, `last` being the token before. It differs
from `blame` where a list or a block could be closed after a separator, and in an empty block. -/
def complaint (state : State) (last : Option Token) (found : Token) : ParseError :=
  match state.top, state.frames with
  | .nothing, .list _ :: _ => .unexpected found
  | .nothing, .block [] :: _ =>
    if found.kind = .rbrace then .emptyBlock (last.getD found) else blame state found
  | .nothing, .block (_ :: _) :: _ => .unexpected found
  | _, _ => blame state found

/-! ### Operators -/

theorem operator?_eq_some_iff {kind : Kind} {level : Level} {join : Expr → Expr → Expr} :
    operator? kind = some (level, join) ↔ level.join? kind = some join := by
  constructor
  · intro h
    obtain ⟨l, -, hl⟩ := List.exists_of_findSome?_eq_some h
    obtain ⟨join', hjoin, heq⟩ := Option.map_eq_some_iff.1 hl
    cases heq
    exact hjoin
  · intro h
    have hother : ∀ l, l ≠ level → l.join? kind = none := fun l => join?_eq_none_of_ne h
    cases level <;> simp [operator?, List.findSome?, h, hother]

theorem operator?_eq_none_iff {kind : Kind} :
    operator? kind = none ↔ ∀ level : Level, level.join? kind = none := by
  rw [Option.eq_none_iff_forall_ne_some]
  constructor
  · intro h level
    rw [Option.eq_none_iff_forall_ne_some]
    exact fun join hjoin => h (level, join) (operator?_eq_some_iff.2 hjoin)
  · rintro h ⟨level, join⟩ hop
    have hjoin := operator?_eq_some_iff.1 hop
    rw [h level] at hjoin
    cases hjoin

theorem stops_or_cons {t : Token} {ts : List Token} :
    Stops .or (t :: ts) ↔ operator? t.kind = none := by
  rw [stops_cons, operator?_eq_none_iff]
  exact ⟨fun h l => h l (by cases l <;> decide), fun h l _ => h l⟩

/-- An operator that comes next after an expression of a level is looser than the level. -/
theorem tightness_lt_of_stops {level l : Level} {t : Token} {ts : List Token}
    {join : Expr → Expr → Expr} (h : Stops level (t :: ts))
    (hop : operator? t.kind = some (l, join)) : tightness l < tightness level := by
  rw [operator?_eq_some_iff] at hop
  refine Nat.lt_of_not_le fun hle => ?_
  rw [stops_cons.1 h l hle] at hop
  cases hop

/-! ### What can be taken -/

theorem isSome_beginExpr (state : State) (t : Token) :
    (beginExpr state t).isSome = t.kind.beginsExpr := by
  obtain ⟨kind, payload, pos⟩ := t
  cases kind <;> rfl

theorem isSome_beginStmt (state : State) (t : Token) :
    (beginStmt state t).isSome = t.kind.beginsStmt := by
  obtain ⟨kind, payload, pos⟩ := t
  cases kind <;> rfl

/-- States that can take the same kinds of tokens blame a token in the same way. -/
theorem blame_congr {s s' : State} (h : ∀ kind, accepts s kind = accepts s' kind)
    (hend : acceptsEnd s = acceptsEnd s') (t : Token) : blame s t = blame s' t := by
  rw [blame, blame, funext h, hend]

/-- Where one closing bracket can stand, it is expected. -/
theorem blame_eq_expected {state : State} {kind : Kind}
    (h : [Kind.rparen, .rbracket, .rbrace].filter (accepts state) = [kind]) (t : Token) :
    blame state t = .expected kind t := by
  rw [blame, h]

/-- Where no closing bracket can stand and the text can end before a semicolon, a token is left
over. -/
theorem blame_eq_leftover {state : State}
    (h : [Kind.rparen, .rbracket, .rbrace].filter (accepts state) = [])
    (hend : acceptsEnd state = true) (hsemi : accepts state .semicolon = true) (t : Token) :
    blame state t = .leftover t := by
  rw [blame, h, hend]
  simp [hsemi]

/-- Where no closing bracket can stand, several tokens can and no statement is complete, a token is
unexpected. -/
theorem blame_eq_unexpected {state : State}
    (h : [Kind.rparen, .rbracket, .rbrace].filter (accepts state) = [])
    (hint : accepts state .integer = true) (hname : accepts state .ident = true)
    (hsemi : accepts state .semicolon = false) (t : Token) : blame state t = .unexpected t := by
  rw [blame, h]
  dsimp only
  split
  · -- two kinds can stand here, so none is the only one
    rename_i kind hall _
    have hi : Kind.integer ∈ [kind] := hall ▸ List.mem_filter.2 ⟨by decide, hint⟩
    have hn : Kind.ident ∈ [kind] := hall ▸ List.mem_filter.2 ⟨by decide, hname⟩
    rw [List.mem_singleton] at hi hn
    exact absurd (hi.trans hn.symm) (by decide)
  · simp [hsemi]

/-- Where only one kind of token can stand and it is no bracket, it is expected. -/
theorem blame_eq_expected_of_only {state : State} {kind : Kind}
    (h : ∀ k, accepts state k = decide (k = kind)) (hend : acceptsEnd state = false)
    (hkind : kind = .ident ∨ kind = .assign) (t : Token) : blame state t = .expected kind t := by
  rw [blame, funext h, hend]
  rcases hkind with rfl | rfl <;> rfl

/-! ### States that no next token tells apart -/

/-- Two states that the tokens do not tell apart: if there are none, both or neither are at an end, and
otherwise the first token leads both to the same state, or is refused by both in the same way. -/
structure Alike (ts : List Token) (s s' : State) : Prop where
  finish : finish s = finish s'
  step : ∀ t ∈ ts.head?, step s t = step s' t
  complaint : ∀ t ∈ ts.head?, Automaton.step s t = none → ∀ last,
    complaint s last t = complaint s' last t

theorem Alike.readAll_eq {ts : List Token} {s s' : State} (h : Alike ts s s') (last : Option Token) :
    readAll Automaton.complaint s last ts = readAll Automaton.complaint s' last ts := by
  cases ts with
  | nil => rw [readAll, readAll, h.finish]
  | cons t ts =>
    rw [readAll, readAll, ← h.step t rfl]
    split
    · rfl
    · rename_i hstep
      rw [h.complaint t rfl hstep]

/-- After something complete, the descent says what the automaton says. -/
theorem complaint_operand (done : List Stmt) (frames : List Frame) (e : Expr) (last : Option Token)
    (t : Token) : complaint ⟨done, frames, .operand e⟩ last t = blame ⟨done, frames, .operand e⟩ t :=
  rfl

theorem complaint_statement (done : List Stmt) (frames : List Frame) (s : Stmt)
    (last : Option Token) (t : Token) :
    complaint ⟨done, frames, .statement s⟩ last t = blame ⟨done, frames, .statement s⟩ t :=
  rfl

/-! ### Completing operations -/

section Operand

variable {done : List Stmt} {frames frames' : List Frame} {e e' : Expr} {ts : List Token}

/-- Two states with an operand are alike if completing operations makes no difference, at every level
that the next token can be an operator of. -/
theorem alike_operand (hall : reduceAll e frames = reduceAll e' frames')
    (hop : ∀ t ∈ ts.head?, ∀ level join, operator? t.kind = some (level, join) →
      level ≠ .power ∧ reduce level e frames = reduce level e' frames') :
    Alike ts ⟨done, frames, .operand e⟩ ⟨done, frames', .operand e'⟩ := by
  have hnone : ∀ t, operator? t.kind = none →
      step ⟨done, frames, .operand e⟩ t = step ⟨done, frames', .operand e'⟩ t := by
    intro t ht
    simp only [step, ht, hall]
    rfl
  have hend : finish ⟨done, frames, .operand e⟩ = finish ⟨done, frames', .operand e'⟩ := by
    simp only [finish, State.complete?, hall]
  refine ⟨hend, ?_, ?_⟩
  · intro t ht
    cases hopt : operator? t.kind with
    | none => exact hnone t hopt
    | some op =>
      obtain ⟨level, join⟩ := op
      obtain ⟨hp, hred⟩ := hop t ht level join hopt
      cases level <;> first | exact absurd rfl hp | simp only [step, hopt, hred]
  · intro t _ _ last
    -- operators are taken in both states, whatever they are
    refine blame_congr (fun kind => ?_) (by rw [acceptsEnd, acceptsEnd, hend]) t
    rw [accepts, accepts]
    cases hopt : operator? kind with
    | none => rw [hnone _ hopt]
    | some op =>
      obtain ⟨level, join⟩ := op
      cases level <;> simp [step, hopt]

/-- A complete operation counts as an operand where no tighter operator follows. -/
theorem alike_operator {level : Level} {join : Expr → Expr → Expr} {left : Expr}
    (h : Stops level.tighter ts) :
    Alike ts ⟨done, .operator level join left :: frames, .operand e⟩
      ⟨done, frames, .operand (join left e)⟩ := by
  refine alike_operand (by simp [reduceAll, reduce, tightness]) fun t ht l join' hop => ?_
  obtain ⟨us, rfl⟩ := List.head?_eq_some_iff.1 ht
  have hlt := tightness_lt_of_stops h hop
  -- the operator is looser than the tighter level, so it completes the operation
  have hle : tightness l ≤ tightness level := by
    cases level <;> simp only [Level.tighter, tightness] at hlt ⊢ <;> omega
  refine ⟨?_, by rw [reduce, if_pos hle]⟩
  rintro rfl
  cases level <;> simp [Level.tighter, tightness] at hlt

/-- A sign with its operand counts as an operand where no caret follows. -/
theorem alike_unary {op : UnaryOp} (h : Stops .power ts) :
    Alike ts ⟨done, .unary op :: frames, .operand e⟩ ⟨done, frames, .operand (.unary op e)⟩ := by
  refine alike_operand rfl fun t ht l join hop => ⟨?_, rfl⟩
  obtain ⟨us, rfl⟩ := List.head?_eq_some_iff.1 ht
  have hlt := tightness_lt_of_stops h hop
  rintro rfl
  exact Nat.lt_irrefl _ hlt

end Operand

/-! ### Completing statements -/

/-- The open constructs in which a statement can stand. -/
def Hosts : List Frame → Prop
  | [] | .block _ :: _ => True
  | .yes _ :: frames | .no _ _ :: frames => Hosts frames
  | _ => False

/-- Whether the statement stands in a block, maybe as a branch. -/
def inBlock : List Frame → Bool
  | .block _ :: _ => true
  | .yes _ :: frames | .no _ _ :: frames => inBlock frames
  | _ => false

section Statement

variable {done : List Stmt} {frames : List Frame} {ts : List Token}

/-- Closing all conditionals around a statement leads to the block that it stands in, or to the
program. -/
theorem closeAll_of_hosts (h : Hosts frames) (s : Stmt) :
    (inBlock frames = false ∧ ∃ s', closeAll s frames = (s', [])) ∨
      (inBlock frames = true ∧ ∃ s' body outer, closeAll s frames = (s', .block body :: outer)) := by
  induction frames generalizing s with
  | nil => exact .inl ⟨rfl, s, rfl⟩
  | cons frame frames ih =>
    cases frame with
    | block body => exact .inr ⟨rfl, s, body, frames, rfl⟩
    | yes test => exact ih h (.ifThen test s)
    | no test yes => exact ih h (.ifElse test yes s)
    | _ => exact h.elim

theorem accepts_statement_rparen (s : Stmt) :
    accepts ⟨done, frames, .statement s⟩ .rparen = false := rfl

theorem accepts_statement_rbracket (s : Stmt) :
    accepts ⟨done, frames, .statement s⟩ .rbracket = false := rfl

theorem accepts_statement_rbrace (h : Hosts frames) (s : Stmt) :
    accepts ⟨done, frames, .statement s⟩ .rbrace = inBlock frames := by
  rcases closeAll_of_hosts h s with ⟨hin, s', hs⟩ | ⟨hin, s', body, outer, hs⟩ <;>
    simp [accepts, step, stepStatement, hs, hin]

theorem accepts_statement_semicolon (h : Hosts frames) (s : Stmt) :
    accepts ⟨done, frames, .statement s⟩ .semicolon = true := by
  rcases closeAll_of_hosts h s with ⟨hin, s', hs⟩ | ⟨hin, s', body, outer, hs⟩ <;>
    simp [accepts, step, stepStatement, hs]

theorem acceptsEnd_statement (h : Hosts frames) (s : Stmt) :
    acceptsEnd ⟨done, frames, .statement s⟩ = !inBlock frames := by
  rcases closeAll_of_hosts h s with ⟨hin, s', hs⟩ | ⟨hin, s', body, outer, hs⟩ <;>
    simp [acceptsEnd, finish, State.complete?, hs, hin]

/-- After a complete statement, a block has to be closed and a program has tokens left over. -/
theorem blame_statement (h : Hosts frames) (s : Stmt) (t : Token) :
    blame ⟨done, frames, .statement s⟩ t =
      if inBlock frames then .expected .rbrace t else .leftover t := by
  split
  · rename_i hin
    refine blame_eq_expected ?_ t
    simp [List.filter, accepts_statement_rparen, accepts_statement_rbracket,
      accepts_statement_rbrace h, hin]
  · rename_i hin
    refine blame_eq_leftover ?_ (by simp [acceptsEnd_statement h, hin])
      (accepts_statement_semicolon h s) t
    simp [List.filter, accepts_statement_rparen, accepts_statement_rbracket,
      accepts_statement_rbrace h, hin]

/-- An operand that completes a statement: tokens that are no operators are taken as after the
statement. -/
theorem alike_of_statementOf? {frames' : List Frame} {e : Expr} {s : Stmt}
    (hred : reduceAll e frames = (e, frames)) (hs : statementOf? e frames = some (s, frames'))
    (h : Hosts frames') (hstop : Stops .or ts) :
    Alike ts ⟨done, frames, .operand e⟩ ⟨done, frames', .statement s⟩ := by
  have hnone : ∀ t, operator? t.kind = none →
      step ⟨done, frames, .operand e⟩ t = step ⟨done, frames', .statement s⟩ t := by
    intro t ht
    simp only [step, ht, hred]
    unfold stepExpr
    split <;> first
      | (simp [statementOf?] at hs; done)
      | (rw [hs]; rfl)
  have hend : finish ⟨done, frames, .operand e⟩ = finish ⟨done, frames', .statement s⟩ := by
    simp only [finish, State.complete?, hred, hs]
  have haccepts : ∀ kind, operator? kind = none →
      accepts ⟨done, frames, .operand e⟩ kind = accepts ⟨done, frames', .statement s⟩ kind := by
    intro kind hkind
    rw [accepts, accepts, hnone _ hkind]
  refine ⟨hend, fun t ht => ?_, fun t ht _ last => ?_⟩
  · obtain ⟨us, rfl⟩ := List.head?_eq_some_iff.1 ht
    exact hnone t (stops_or_cons.1 hstop)
  · -- the operators that can follow the operand only do not matter for the report
    rw [complaint_operand, complaint_statement, blame_statement h]
    split
    · rename_i hin
      refine blame_eq_expected ?_ t
      simp [List.filter, haccepts .rparen rfl, haccepts .rbracket rfl, haccepts .rbrace rfl,
        accepts_statement_rparen, accepts_statement_rbracket, accepts_statement_rbrace h, hin]
    · rename_i hin
      refine blame_eq_leftover ?_ ?_ ?_ t
      · simp [List.filter, haccepts .rparen rfl, haccepts .rbracket rfl, haccepts .rbrace rfl,
          accepts_statement_rparen, accepts_statement_rbracket, accepts_statement_rbrace h, hin]
      · rw [acceptsEnd, hend, ← acceptsEnd, acceptsEnd_statement h]
        simpa using hin
      · rw [haccepts .semicolon rfl, accepts_statement_semicolon h]

/-- A complete expression counts as a statement where one can stand. -/
theorem alike_statement {e : Expr} (h : Hosts frames) (hstop : Stops .or ts) :
    Alike ts ⟨done, frames, .operand e⟩ ⟨done, frames, .statement (.expr e)⟩ := by
  refine alike_of_statementOf? ?_ ?_ h hstop
  · unfold Hosts at h
    split at h <;> first | rfl | exact h.elim
  · unfold Hosts at h
    split at h <;> first | rfl | exact h.elim

/-- The value of a definition completes it. -/
theorem alike_define {x : Option Payload} {e : Expr} (h : Hosts frames) (hstop : Stops .or ts) :
    Alike ts ⟨done, .letValue x :: frames, .operand e⟩ ⟨done, frames, .statement (.define x e)⟩ :=
  alike_of_statementOf? rfl rfl h hstop

/-- After a complete test a branch begins. -/
theorem alike_test {e : Expr} (hstop : Stops .or ts) :
    Alike ts ⟨done, .test :: frames, .operand e⟩ ⟨done, .yes e :: frames, .nothing⟩ := by
  have hnone : ∀ t, operator? t.kind = none → step ⟨done, .test :: frames, .operand e⟩ t =
      step ⟨done, .yes e :: frames, .nothing⟩ t := by
    intro t ht
    have hred : reduceAll e (.test :: frames) = (e, .test :: frames) := rfl
    simp only [step, ht, hred]
    cases hk : t.kind <;> simp [stepExpr, stepOpen, hk]
  refine ⟨rfl, fun t ht => ?_, fun t ht _ last => ?_⟩
  · obtain ⟨us, rfl⟩ := List.head?_eq_some_iff.1 ht
    exact hnone t (stops_or_cons.1 hstop)
  · -- operators aside, both states take what begins a statement
    have haccepts : ∀ kind, operator? kind = none →
        accepts ⟨done, .test :: frames, .operand e⟩ kind = kind.beginsStmt := by
      intro kind hkind
      rw [accepts, hnone _ hkind]
      exact isSome_beginStmt _ _
    have haccepts' : ∀ kind, accepts ⟨done, .yes e :: frames, .nothing⟩ kind = kind.beginsStmt :=
      fun kind => isSome_beginStmt _ _
    have hl : complaint ⟨done, .test :: frames, .operand e⟩ last t = .unexpected t :=
      blame_eq_unexpected (by simp [List.filter, haccepts .rparen rfl, haccepts .rbracket rfl,
        haccepts .rbrace rfl, Kind.beginsStmt, Kind.beginsExpr]) (haccepts .integer rfl)
        (haccepts .ident rfl) (haccepts .semicolon rfl) t
    have hr : complaint ⟨done, .yes e :: frames, .nothing⟩ last t = .unexpected t :=
      blame_eq_unexpected (by simp [List.filter, haccepts', Kind.beginsStmt, Kind.beginsExpr])
        (haccepts' .integer) (haccepts' .ident) (haccepts' .semicolon) t
    rw [hl, hr]

/-- A conditional is complete after its first branch where no second one follows. -/
theorem alike_ifThen {test : Expr} {s : Stmt} (h : Hosts frames)
    (helse : ∀ t ∈ ts.head?, t.kind ≠ .kwElse) :
    Alike ts ⟨done, .yes test :: frames, .statement s⟩
      ⟨done, frames, .statement (.ifThen test s)⟩ := by
  refine ⟨rfl, fun t ht => ?_, fun t _ _ last => ?_⟩
  · have hne := helse t ht
    simp only [step, stepStatement]
    split <;> first | rfl | contradiction
  · have hyes : Hosts (.yes test :: frames) := h
    rw [complaint_statement, complaint_statement, blame_statement hyes, blame_statement h]
    rfl

/-- A conditional is complete after its second branch. -/
theorem alike_ifElse {test : Expr} {yes s : Stmt} (h : Hosts frames) :
    Alike ts ⟨done, .no test yes :: frames, .statement s⟩
      ⟨done, frames, .statement (.ifElse test yes s)⟩ := by
  refine ⟨rfl, fun t _ => rfl, fun t _ _ last => ?_⟩
  have hno : Hosts (.no test yes :: frames) := h
  rw [complaint_statement, complaint_statement, blame_statement hno, blame_statement h]
  rfl

end Statement

end Abacus.Automaton
