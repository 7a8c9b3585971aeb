import Abacus.Proofs.Program.Diagnostics

/-!
# What the descent blames

The descent stops at the first token with which no program goes on, or at the end of the tokens where they
can be continued to a program. It names the token that it stops at, except in a block without statements,
where it names the brace that opens the block. It says that tokens are left over where the tokens before
are a program already and a semicolon would have to come.

## Main definitions

* `EndsBetweenStatements` — the tokens end in a semicolon that stands in no block

## Main results

* `Automaton.blame_of_complete?` — after a complete statement at the end of a program, a token is left over
* `Automaton.exists_complaint_eq_leftover_iff` — where a token is left over
* `Automaton.Reaches.culprit` — which token is named
* `parse_blames_first` — the error of the descent is about the first token that is wrong, or the end
-/

namespace Abacus

open Automaton Grammar

/-- The tokens end in a semicolon, and all blocks that they open are closed. -/
def EndsBetweenStatements (ts : List Token) : Prop :=
  (∃ last ∈ ts.getLast?, last.kind = .semicolon) ∧
    ts.countP (·.kind = .lbrace) = ts.countP (·.kind = .rbrace)

namespace Automaton

/-! ### Where a token is left over -/

section Complete

variable {state : State} {s : Stmt} {frames : List Frame}

/-- A token that is no operator comes after the statement that is complete, if there is one. -/
theorem step_of_complete? (h : state.complete? = some (s, frames)) {t : Token}
    (hop : operator? t.kind = none) : step state t = stepStatement state s frames t := by
  obtain ⟨done, outer, top⟩ := state
  cases top with
  | nothing => cases h
  | statement s' =>
    cases h
    rfl
  | operand e =>
    -- the constructs around the expression are none that a bracket or a branch could go on with
    have hs : statementOf? (reduceAll e outer).1 (reduceAll e outer).2 = some (s, frames) := h
    simp only [step, hop]
    unfold stepExpr
    split <;> first
      | (rename_i hframes; rw [hframes] at hs; cases hs)
      | rw [hs]

/-- After a complete statement at the end of a program, no bracket can be closed and a semicolon can
come. -/
theorem blame_of_complete? (h : state.complete? = some (s, frames)) {s' : Stmt}
    (hclose : closeAll s frames = (s', [])) (hend : acceptsEnd state = true) (x : Token) :
    blame state x = .leftover x := by
  have hstep : ∀ kind, operator? kind = none →
      accepts state kind = (stepStatement state s frames { kind }).isSome := fun kind hkind => by
    rw [accepts, step_of_complete? h hkind]
  refine blame_eq_leftover ?_ hend ?_ x
  · simp [List.filter, hstep .rparen rfl, hstep .rbracket rfl, hstep .rbrace rfl, stepStatement, hclose]
  · simp [hstep .semicolon rfl, stepStatement, hclose]

/-- The text can end after a statement that no block is around. -/
theorem exists_complete?_of_acceptsEnd (htop : state.top ≠ .nothing) (hend : acceptsEnd state = true) :
    ∃ s frames s', state.complete? = some (s, frames) ∧ closeAll s frames = (s', []) := by
  obtain ⟨body, hbody⟩ := Option.isSome_iff_exists.1 hend
  unfold finish at hbody
  split at hbody
  · exact absurd ‹_› htop
  · exact absurd ‹_› htop
  · split at hbody
    · cases hbody
    · rename_i s frames hcomplete
      split at hbody
      · exact ⟨s, frames, _, hcomplete, ‹_›⟩
      · cases hbody

end Complete

theorem accepts_of_blame_eq_leftover {state : State} {x t : Token} (h : blame state x = .leftover t) :
    acceptsEnd state = true ∧ accepts state .semicolon = true := by
  unfold blame at h
  split at h
  · cases h
  · split at h
    · cases h
    · split at h
      · rename_i hstatement
        exact Bool.and_eq_true_iff.1 hstatement
      · cases h

/-- The descent leaves a token over where the text can end after something that is complete. -/
theorem exists_complaint_eq_leftover_iff {state : State} {last : Option Token} {x : Token} :
    (∃ t, complaint state last x = .leftover t) ↔ state.top ≠ .nothing ∧ acceptsEnd state = true := by
  constructor
  · rintro ⟨t, h⟩
    -- its own wordings leave nothing over, so this is what the automaton says
    have hblame : blame state x = .leftover t := by
      unfold complaint at h
      split at h
      · cases h
      · split at h
        · cases h
        · exact h
      · cases h
      · exact h
    obtain ⟨hend, hsemi⟩ := accepts_of_blame_eq_leftover hblame
    refine ⟨fun htop => ?_, hend⟩
    obtain ⟨done, frames, top⟩ := state
    cases htop
    -- no statement is complete, so the text can end only where the next statement has to begin
    cases frames with
    | nil => cases hsemi
    | cons frame frames => cases hend
  · rintro ⟨htop, hend⟩
    obtain ⟨s, frames, s', hcomplete, hclose⟩ := exists_complete?_of_acceptsEnd htop hend
    refine ⟨x, Eq.trans ?_ (blame_of_complete? hcomplete hclose hend x)⟩
    obtain ⟨done, outer, top⟩ := state
    cases top with
    | nothing => exact absurd rfl htop
    | operand e => rfl
    | statement s => rfl

/-! ### Which token is named -/

theorem complaint_ne_endOfInput (state : State) (last : Option Token) (x : Token) (l : Option Token) :
    complaint state last x ≠ .endOfInput l := by
  intro h
  -- naming a last token would change an error about the end
  have hnone := nameLast_complaint none state last x
  have hsome := nameLast_complaint (some x) state last x
  rw [h] at hnone hsome
  cases hnone.trans hsome.symm

theorem State.of_gap_eq_opening {state : State} (h : state.gap = .opening) :
    state.top = .nothing ∧ ∃ frames, state.frames = .block [] :: frames := by
  unfold State.gap at h
  split at h <;> cases h
  exact ⟨‹_›, _, ‹_›⟩

section Reached

variable {before : List Token} {state : State} {x : Token}

theorem Reaches.gap_eq_opening_iff (h : Reaches before state) :
    state.gap = .opening ↔ ∃ brace, before.getLast? = some brace ∧ brace.kind = .lbrace := by
  have hinv := h.invariant
  constructor
  · intro hgap
    obtain ⟨brace, hlast⟩ := hinv.exists_last (by simp [hgap])
    exact ⟨brace, hlast, Gap.after_eq_opening_iff.1 ((hinv.after_last hlast).trans hgap)⟩
  · rintro ⟨brace, hlast, hk⟩
    rw [← hinv.after_last hlast]
    exact Gap.after_eq_opening_iff.2 hk

/-- Elsewhere than in an empty block, the token that cannot be taken is named. -/
theorem token_complaint (last : Option Token) (h : state.gap = .opening → x.kind ≠ .rbrace) :
    (complaint state last x).token = some x := by
  unfold complaint
  split
  · rfl
  · rename_i htop hframes
    have hgap : state.gap = .opening := by
      simp only [State.gap, htop, hframes]
    rw [if_neg (h hgap)]
    exact token_blame state x
  · rfl
  · exact token_blame state x

/-- The descent names the opening brace of a block that is closed at once, and otherwise the token that
cannot be taken. -/
theorem Reaches.culprit (h : Reaches before state) (x : Token) :
    (∃ brace, EmptyBlock before brace x ∧
        complaint state before.getLast? x = .emptyBlock brace) ∨
      (∀ brace, ¬EmptyBlock before brace x) ∧ (complaint state before.getLast? x).token = some x := by
  by_cases hempty : state.gap = .opening ∧ x.kind = .rbrace
  · obtain ⟨hgap, hx⟩ := hempty
    obtain ⟨brace, hlast, hk⟩ := h.gap_eq_opening_iff.1 hgap
    refine .inl ⟨brace, ⟨hlast, hk, hx⟩, ?_⟩
    obtain ⟨htop, frames, hframes⟩ := State.of_gap_eq_opening hgap
    simp only [complaint, htop, hframes, if_pos hx, hlast, Option.getD_some]
  · refine .inr ⟨?_, token_complaint _ fun hgap hx => hempty ⟨hgap, hx⟩⟩
    rintro brace ⟨hlast, hk, hx⟩
    exact hempty ⟨h.gap_eq_opening_iff.2 ⟨brace, hlast, hk⟩, hx⟩

/-- Where the tokens are a program, nothing is open but maybe a statement at the end. -/
theorem Reaches.top_ne_nothing_iff (h : Reaches before state) (hend : acceptsEnd state = true) :
    state.top ≠ .nothing ↔ before ≠ [] ∧ ¬EndsBetweenStatements before := by
  have hinv := h.invariant
  obtain ⟨done, frames, top⟩ := state
  cases top with
  | nothing =>
    -- the text can end only after a semicolon or where there is none
    cases frames with
    | cons frame frames => cases hend
    | nil =>
      refine ⟨fun htop => absurd rfl htop, fun ⟨hne, hsemi⟩ => absurd ⟨?_, ?_⟩ hsemi⟩
      · have hlast := List.getLast?_eq_some_getLast hne
        exact ⟨_, hlast, Gap.after_eq_statement_iff.1 (hinv.after_last hlast)⟩
      · have hbraces := hinv.braces
        rw [braces_nil, Nat.zero_add] at hbraces
        exact hbraces.symm
  | operand | statement =>
    refine ⟨fun _ => ?_, nofun⟩
    obtain ⟨last, hlast⟩ := hinv.exists_last nofun
    refine ⟨fun hnil => by simp [hnil] at hlast, ?_⟩
    rintro ⟨⟨semi, hsemi, hk⟩, -⟩
    have hgap := hinv.after_last hsemi
    rw [Gap.after_eq_statement_iff.2 hk] at hgap
    cases hgap

end Reached

end Automaton

/-! ### The error of the descent -/

/-- Where the tokens are no program, the error is about the end or about the first token that is wrong.

An error about the end says that the tokens are no program, that some program begins with them, and which
token is the last. Any other error is about a place in the tokens: some program begins with the tokens
before it, and none goes on with the token there, which is named unless it closes a block that the token
before opens; then that one is named. The token is said to be left over if and only if the tokens before
it are a program that is not empty and does not end in a semicolon between statements. -/
theorem parse_blames_first {ts : List Token} {e : ParseError} (h : parse ts = .error e) :
    (∀ l, e = .endOfInput l →
      ¬Complete ts ∧ Begins ts ∧ ∃ last, ts.getLast? = some last ∧ e.token = some last) ∧
    ((∀ l, e ≠ .endOfInput l) → ∃ k x, ts[k]? = some x ∧
      Begins (ts.take k) ∧ ¬Begins (ts.take (k + 1)) ∧
      ((∃ brace, EmptyBlock (ts.take k) brace x ∧ e = .emptyBlock brace) ∨
        (∀ brace, ¬EmptyBlock (ts.take k) brace x) ∧ e.token = some x) ∧
      ((∃ t, e = .leftover t) ↔
        Complete (ts.take k) ∧ ts.take k ≠ [] ∧ ¬EndsBetweenStatements (ts.take k))) := by
  rw [parse_eq_readAll, mapError_eq_error_iff] at h
  obtain ⟨e, hread, rfl⟩ := h
  rcases Reaches.start.of_readAll_eq_error hread with ⟨s, hs, hend, rfl⟩ |
    ⟨before, x, after, s, hts, hs, hstep, rfl⟩
  · -- all tokens are taken, but the text cannot end
    rw [List.nil_append] at hs
    have hincomplete : ¬Complete ts := by
      rw [← hs.acceptsEnd_iff, acceptsEnd, hend]
      exact Bool.false_ne_true
    refine ⟨fun l _ => ⟨hincomplete, begins_iff_viable.2 hs.viable, ?_⟩, fun hne => absurd rfl (hne _)⟩
    cases hlast : ts.getLast? with
    | some last => exact ⟨last, rfl, rfl⟩
    | none =>
      -- the empty program would have been read
      rw [List.getLast?_eq_none_iff] at hlast
      exact absurd ⟨[], hlast ▸ .empty⟩ hincomplete
  · rw [List.nil_append] at hts
    subst hts
    rw [nameLast_complaint]
    refine ⟨fun l hl => absurd hl (complaint_ne_endOfInput _ _ _ _), fun _ => ?_⟩
    have htake : (before ++ x :: after).take before.length = before := List.take_left
    have htake' : (before ++ x :: after).take (before.length + 1) = before ++ [x] := by
      rw [List.take_length_add_append]
      rfl
    refine ⟨before.length, x, by simp, ?_⟩
    rw [htake, htake', begins_iff_viable, begins_iff_viable]
    refine ⟨hs.viable, hs.not_viable hstep, hs.culprit x, ?_⟩
    rw [exists_complaint_eq_leftover_iff, and_comm, hs.acceptsEnd_iff]
    exact and_congr_right fun hcomplete => hs.top_ne_nothing_iff (hs.acceptsEnd_iff.2 hcomplete)

/-- In `1 2` the second number is left over, and after `{` a brace that closes the block is blamed on the
one that opens it. -/
theorem parse_blames_first_number_block :
    let one : Token := ⟨.integer, some (.int 1), ⟨1, 1⟩⟩
    let two : Token := ⟨.integer, some (.int 2), ⟨1, 3⟩⟩
    let left : Token := ⟨.lbrace, none, ⟨1, 1⟩⟩
    let right : Token := ⟨.rbrace, none, ⟨1, 2⟩⟩
    parse [one, two] = .error (.leftover two) ∧ parse [left, right] = .error (.emptyBlock left) ∧
      parse [left] = .error (.endOfInput (some left)) ∧ ¬Complete [left] ∧ Begins [left] ∧
      (∃ k, Begins ([one, two].take k) ∧ ¬Begins ([one, two].take (k + 1))) ∧
      ∃ k, Begins ([left, right].take k) ∧ ¬Begins ([left, right].take (k + 1)) := by
  intro one two left right
  have hleftover : parse [one, two] = .error (.leftover two) := rfl
  have hempty : parse [left, right] = .error (.emptyBlock left) := rfl
  have hend : parse [left] = .error (.endOfInput (some left)) := rfl
  obtain ⟨hcomplete, hbegins, -⟩ := (parse_blames_first hend).1 _ rfl
  obtain ⟨k, -, -, hk, hk', -⟩ := (parse_blames_first hleftover).2 (by simp)
  obtain ⟨m, -, -, hm, hm', -⟩ := (parse_blames_first hempty).2 (by simp)
  exact ⟨hleftover, hempty, hend, hcomplete, hbegins, ⟨k, hk, hk'⟩, m, hm, hm'⟩

end Abacus
