import Abacus.Program.Reading
import Abacus.Proofs.Automaton.Invariant
import Abacus.Proofs.Automaton.Simulation
import Abacus.Proofs.Token.Scanning

/-!
# The two ways to read a source

Both front ends accept the same texts and build the same programs. On a text whose tokens are all sound
but which is no program, they report the same error, with three exceptions that depend on the tokens up
to the first one that no program goes on with.

## Main definitions

* `Viable` — tokens with which some program begins
* `AfterItem`, `AfterStatement`, `EmptyBlock` — where the two reports differ

## Main results

* `readSource_automaton_eq_ok_iff` — the front ends read the same programs
* `readSource_automaton_eq_error` — how the reports of the front ends are related
-/

namespace Abacus

open Automaton Descent

/-! ### The same run behind both -/

/-- Names the last token in an error at the end of the input. -/
def ParseError.nameLast (last : Option Token) : ParseError → ParseError
  | .endOfInput _ => .endOfInput last
  | e => e

theorem nameLast_blame (last : Option Token) (state : State) (found : Token) :
    (blame state found).nameLast last = blame state found := by
  unfold blame
  repeat' split
  all_goals rfl

theorem nameLast_complaint (last : Option Token) (state : State) (before : Option Token)
    (found : Token) :
    (complaint state before found).nameLast last = complaint state before found := by
  unfold complaint
  repeat' split
  all_goals first | rfl | exact nameLast_blame _ _ _

/-- The descent reads tokens as the automaton does, wording some errors in its own way. -/
theorem parse_eq_readAll (ts : List Token) :
    parse ts = (readAll complaint initial none ts).mapError (ParseError.nameLast ts.getLast?) := by
  rw [readAll_initial, parse]
  cases program (depthFor ts) ts with
  | ok p => rfl
  | error failure =>
    obtain ⟨e, rest⟩ := failure
    cases e <;> rfl

/-- The result of reading does not depend on how errors are worded. -/
theorem readAll_eq_ok_iff {report report' : State → Option Token → Token → ParseError}
    {state : State} {last : Option Token} {ts : List Token} {body : List Stmt} :
    readAll report state last ts = .ok body ↔ readAll report' state last ts = .ok body := by
  induction ts generalizing state last with
  | nil => rfl
  | cons t ts ih =>
    rw [readAll, readAll]
    split
    · exact ih
    · simp

/-- A lexeme that fits gives the same token alone and in its place. -/
theorem tokenFor_eq {l : Lexeme} (h : l.token = .ok l.bare) : tokenFor l = .ok l.bare := by
  unfold tokenFor
  unfold Lexeme.token at h ⊢
  dsimp only
  split at h
  · cases h
  · rename_i hdigits
    split at h
    · cases h
    · rename_i hlarge
      rw [if_neg hdigits, if_neg hlarge]
      rfl

section Lexemes

variable {state : State} {last : Option Lexeme} {pos : Position} {text rest : List Char} {l : Lexeme}

theorem readFrom_ending (h : scan pos text = .ending) :
    readFrom state last pos text =
      (finish state).elim (.error (endOfInput last)) fun body => .ok (body, []) := by
  rw [readFrom]
  split <;> rename_i h' <;> rw [h] at h' <;> cases h'
  cases finish state <;> rfl

theorem readFrom_fault {c : Char} {start : Position} (h : scan pos text = .fault c start) :
    readFrom state last pos text = .error (.lexical (.ofFault c start)) := by
  rw [readFrom]
  split <;> rename_i h' <;> rw [h] at h' <;> cases h'
  rfl

theorem readFrom_lexeme (h : scan pos text = .lexeme l rest) :
    readFrom state last pos text =
      (step state l.bare).elim (.error (refuse state l)) fun next =>
        (readFrom next (some l) l.stop rest).map fun p => (p.1, l :: p.2) := by
  rw [readFrom]
  split <;> rename_i h' <;> rw [h] at h' <;> cases h'
  cases step state l.bare <;> rfl

/-- Lexeme by lexeme, the automaton takes the tokens of a text; `last` is the lexeme before. -/
theorem readFrom_eq {ls : List Lexeme} (hls : lexemesFrom pos text = .ok ls)
    (hfits : ∀ l ∈ ls, l.token = .ok l.bare) (hlast : ∀ l ∈ last, l.token = .ok l.bare) :
    readFrom state last pos text =
      ((readAll (fun s _ t => blame s t) state (last.map Lexeme.bare) (ls.map Lexeme.bare)).map
        (·, ls)).mapError fun e => .grammar (e.nameLast ((ls.getLast?.or last).map Lexeme.bare)) := by
  fun_induction lexemesFrom pos text generalizing state last ls with
  | case1 pos text h =>
    cases hls
    rw [readFrom_ending h, List.map_nil, readAll]
    cases finish state with
    | some body => rfl
    | none =>
      cases last with
      | none => rfl
      | some l =>
        have htoken := tokenFor_eq (hlast l rfl)
        rw [endOfInput, htoken]
        rfl
  | case2 pos text c start h => cases hls
  | case3 pos text l rest h ih =>
    obtain ⟨us, hus, hend⟩ := bind_eq_ok_iff.1 hls
    cases hend
    rw [List.forall_mem_cons] at hfits
    rw [readFrom_lexeme h, List.map_cons, readAll]
    cases step state l.bare with
    | none =>
      -- a refused lexeme fits, so the report is about its token
      rw [Option.elim_none, refuse, tokenFor_eq hfits.1]
      change _ = Except.error (SourceError.grammar ((blame state l.bare).nameLast _))
      rw [nameLast_blame]
    | some next =>
      have hl : ∀ m ∈ some l, m.token = .ok m.bare := by
        rintro m ⟨⟩
        exact hfits.1
      -- the lexeme is the last one before the others
      have hor : (l :: us).getLast?.or last = us.getLast?.or (some l) := by
        rw [List.getLast?_cons]
        cases us.getLast? <;> rfl
      rw [Option.elim_some, ih hus hfits.2 hl, hor]
      dsimp only [Option.map_some]
      cases readAll (fun s _ t => blame s t) next (some l.bare) (us.map Lexeme.bare) <;> rfl

/-- What the automaton has read are all lexemes of the text. -/
theorem lexemesFrom_eq_of_readFrom_eq {body : List Stmt} {ls : List Lexeme}
    (h : readFrom state last pos text = .ok (body, ls)) : lexemesFrom pos text = .ok ls := by
  fun_induction lexemesFrom pos text generalizing state last ls with
  | case1 pos text hscan =>
    rw [readFrom_ending hscan] at h
    cases hend : finish state <;> rw [hend] at h <;> cases h
    rfl
  | case2 pos text c start hscan =>
    rw [readFrom_fault hscan] at h
    cases h
  | case3 pos text l rest hscan ih =>
    rw [readFrom_lexeme hscan] at h
    cases hstep : step state l.bare with
    | none =>
      rw [hstep] at h
      cases h
    | some next =>
      rw [hstep, Option.elim_some] at h
      cases hrest : readFrom next (some l) l.stop rest with
      | error e =>
        rw [hrest] at h
        cases h
      | ok p =>
        rw [hrest] at h
        cases h
        rw [ih hrest]
        rfl

end Lexemes

theorem literalError?_eq_none_iff {ls : List Lexeme} :
    literalError? ls = none ↔ ∀ l ∈ ls, l.token = .ok l.bare := by
  induction ls with
  | nil => simp [literalError?]
  | cons l ls ih =>
    rw [literalError?, List.forall_mem_cons]
    split
    · rename_i t ht
      rw [ih, and_iff_right (token_eq_ok_iff.1 ht).1]
    · rename_i digits ht
      simp [ht]
    · rename_i e _ ht
      simp [ht]

/-! ### The same programs -/

/-- On a text whose tokens are sound, the automaton takes them one by one. -/
theorem read_eq_readAll {source : List Char} {ts : List Token} (h : tokenize source = .ok ts) :
    Automaton.read source =
      (readAll (fun s _ t => blame s t) initial none ts).mapError fun e =>
        .grammar (e.nameLast ts.getLast?) := by
  obtain ⟨ls, hls, hfits, rfl⟩ := (tokensFrom_eq_ok_iff _ _ _).1 h
  rw [Automaton.read, readFrom_eq hls hfits (by simp), List.getLast?_map, Option.or_none]
  dsimp only [Option.map_none]
  cases readAll (fun s _ t => blame s t) initial none (ls.map Lexeme.bare) with
  | error e => rfl
  | ok body =>
    refine bind_eq_ok_iff.2 ⟨(body, ls), rfl, ?_⟩
    dsimp only
    rw [literalError?_eq_none_iff.2 hfits]
    rfl

/-- A text that the automaton reads has sound tokens. -/
theorem exists_tokenize_eq_of_read {source : List Char} {body : List Stmt}
    (h : Automaton.read source = .ok body) : ∃ ts, tokenize source = .ok ts := by
  obtain ⟨⟨body', ls⟩, hread, hend⟩ := bind_eq_ok_iff.1 h
  have hls := lexemesFrom_eq_of_readFrom_eq hread
  refine ⟨ls.map Lexeme.bare, (tokensFrom_eq_ok_iff _ _ _).2 ⟨ls, hls, ?_, rfl⟩⟩
  rw [← literalError?_eq_none_iff]
  dsimp only at hend
  split at hend
  · cases hend
  · assumption

/-- Both front ends read a text, with the same program, or neither does. -/
theorem readSource_automaton_eq_ok_iff (source : List Char) (body : List Stmt) :
    readSource .automaton source = .ok body ↔ readSource .descent source = .ok body := by
  simp only [readSource]
  cases htok : tokenize source with
  | ok ts =>
    dsimp only [readTokens]
    rw [read_eq_readAll htok, parse_eq_readAll]
    simp only [mapError_eq_ok_iff]
    exact readAll_eq_ok_iff
  | error e =>
    -- a text with a faulty token is read by neither
    constructor
    · intro h
      obtain ⟨ts, hts⟩ := exists_tokenize_eq_of_read h
      rw [htok] at hts
      cases hts
    · intro h
      cases h

/-! ### The reports about a text that is no program -/

/-- Tokens with which some program begins. -/
def Viable (ts : List Token) : Prop :=
  ∃ rest body, parse (ts ++ rest) = .ok body

/-- Some tokens and the next one: it stands directly after the opening bracket of a list or a comma, and
can neither close nor continue the list. -/
def AfterItem (before : List Token) (x : Token) : Prop :=
  (∃ last ∈ before.getLast?, last.kind = .lbracket ∨ last.kind = .comma) ∧
    x.kind ≠ .rbracket ∧ x.kind ≠ .comma ∧ x.kind.beginsExpr = false

/-- Some tokens and the next one: it stands directly after a semicolon in a block, that is, where more
braces have been opened than closed, and can neither close nor continue the block. -/
def AfterStatement (before : List Token) (x : Token) : Prop :=
  (∃ last ∈ before.getLast?, last.kind = .semicolon) ∧
    before.countP (·.kind = .rbrace) < before.countP (·.kind = .lbrace) ∧
    x.kind ≠ .rbrace ∧ x.kind.beginsStmt = false

/-- Some tokens and the next one: it closes a block that the last of them opens. -/
def EmptyBlock (before : List Token) (brace x : Token) : Prop :=
  before.getLast? = some brace ∧ brace.kind = .lbrace ∧ x.kind = .rbrace

/-- The reports of the descent and of the automaton about the token `x`, the first with which no program
goes on. -/
inductive Reports (before : List Token) (x : Token) : ParseError → ParseError → Prop
  | item (h : AfterItem before x) : Reports before x (.unexpected x) (.expected .rbracket x)
  | statement (h : AfterStatement before x) :
      Reports before x (.unexpected x) (.expected .rbrace x)
  | emptyBlock {brace : Token} (h : EmptyBlock before brace x) :
      Reports before x (.emptyBlock brace) (.unexpected x)
  | same {e : ParseError} (hitem : ¬AfterItem before x) (hstatement : ¬AfterStatement before x)
      (hblock : ∀ brace, ¬EmptyBlock before brace x) : Reports before x e e

theorem Automaton.Reaches.viable {ts : List Token} {state : State} (h : Reaches ts state) :
    Viable ts := by
  obtain ⟨rest, body, hread⟩ := exists_readAll_eq_ok h.invariant.wellFormed ts.getLast?
  refine ⟨rest, body, ?_⟩
  rw [parse_eq_readAll, h.readAll_append, hread]
  rfl

theorem Automaton.Reaches.not_viable {ts : List Token} {state : State} {x : Token}
    (h : Reaches ts state) (hstep : step state x = none) : ¬Viable (ts ++ [x]) := by
  rintro ⟨rest, body, hparse⟩
  -- the token is refused, whatever follows
  rw [parse_eq_readAll, mapError_eq_ok_iff, List.append_assoc, h.readAll_append,
    List.singleton_append, readAll, hstep] at hparse
  cases hparse

section Report

variable {done : List Stmt} {frames : List Frame} {x : Token}

/-- After the opening bracket of a list or a comma, the list can be closed. -/
theorem blame_item {items : List Expr} :
    blame ⟨done, .list items :: frames, .nothing⟩ x = .expected .rbracket x :=
  blame_eq_expected rfl x

/-- After a semicolon in a block, the block can be closed. -/
theorem blame_next {s : Stmt} {body : List Stmt} :
    blame ⟨done, .block (s :: body) :: frames, .nothing⟩ x = .expected .rbrace x :=
  blame_eq_expected rfl x

/-- After the opening brace of a block, several tokens can stand and none of them is a bracket that
closes. -/
theorem blame_opening : blame ⟨done, .block [] :: frames, .nothing⟩ x = .unexpected x :=
  blame_eq_unexpected rfl rfl rfl rfl x

section Reached

variable {before : List Token}

theorem not_afterItem (h : ∀ last ∈ before.getLast?, Gap.after last.kind ≠ .item) :
    ¬AfterItem before x := by
  rintro ⟨⟨last, hlast, hk⟩, -⟩
  exact h last hlast (Gap.after_eq_item_iff.2 hk)

theorem not_afterStatement (h : ∀ last ∈ before.getLast?, Gap.after last.kind ≠ .statement) :
    ¬AfterStatement before x := by
  rintro ⟨⟨last, hlast, hk⟩, -⟩
  exact h last hlast (Gap.after_eq_statement_iff.2 hk)

theorem not_emptyBlock (h : ∀ last ∈ before.getLast?, Gap.after last.kind ≠ .opening)
    (brace : Token) : ¬EmptyBlock before brace x := by
  rintro ⟨hlast, hk, -⟩
  exact h brace hlast (Gap.after_eq_opening_iff.2 hk)

theorem reports_item {items : List Expr}
    (hinv : Invariant before ⟨done, .list items :: frames, .nothing⟩)
    (hstep : step ⟨done, .list items :: frames, .nothing⟩ x = none) :
    Reports before x (.unexpected x) (.expected .rbracket x) := by
  obtain ⟨last, hlast⟩ := hinv.exists_last (by simp [State.gap])
  have hk := Gap.after_eq_item_iff.1 (hinv.after_last hlast)
  -- commas, closing brackets and tokens that begin an item would be taken
  simp only [step, stepOpen] at hstep
  split at hstep
  · cases hstep
  · rename_i hcomma
    split at hstep
    · cases hstep
    · rename_i hbracket
      refine .item ⟨⟨last, hlast, hk⟩, hbracket, hcomma, ?_⟩
      rw [← isSome_beginExpr, hstep]
      rfl

theorem reports_statement {s : Stmt} {body : List Stmt}
    (hinv : Invariant before ⟨done, .block (s :: body) :: frames, .nothing⟩)
    (hstep : step ⟨done, .block (s :: body) :: frames, .nothing⟩ x = none) :
    Reports before x (.unexpected x) (.expected .rbrace x) := by
  have hbraces := hinv.braces
  simp only [braces_cons, Frame.isBlock, if_true] at hbraces
  cases hlast : before.getLast? with
  | none =>
    -- a block is open, so there are tokens before
    rw [List.getLast?_eq_none_iff] at hlast
    subst hlast
    simp at hbraces
  | some last =>
    have hk := Gap.after_eq_statement_iff.1 (hinv.after_last hlast)
    simp only [step, stepOpen] at hstep
    split at hstep
    · cases hstep
    · rename_i hbrace
      refine .statement ⟨⟨last, hlast, hk⟩, by omega, hbrace, ?_⟩
      rw [← isSome_beginStmt, hstep]
      rfl

theorem reports_opening
    (hinv : Invariant before ⟨done, .block [] :: frames, .nothing⟩) :
    Reports before x (complaint ⟨done, .block [] :: frames, .nothing⟩ before.getLast? x)
      (.unexpected x) := by
  obtain ⟨last, hlast⟩ := hinv.exists_last (by simp [State.gap])
  have hk := Gap.after_eq_opening_iff.1 (hinv.after_last hlast)
  by_cases hx : x.kind = .rbrace
  · -- the last token is the brace that the descent blames
    have hc : complaint ⟨done, .block [] :: frames, .nothing⟩ before.getLast? x =
        .emptyBlock last := by
      simp [complaint, hx, hlast]
    rw [hc]
    exact .emptyBlock ⟨hlast, hk, hx⟩
  · have hc : complaint ⟨done, .block [] :: frames, .nothing⟩ before.getLast? x =
        .unexpected x := by
      simp [complaint, hx, blame_opening]
    rw [hc]
    have hgap : ∀ last ∈ before.getLast?, Gap.after last.kind = .opening :=
      fun last hlast => hinv.after_last hlast
    exact .same (not_afterItem fun l hl => by simp [hgap l hl])
      (not_afterStatement fun l hl => by simp [hgap l hl]) fun brace h => hx h.2.2

/-- Where a statement of the program begins, no block is open. -/
theorem reports_program {e : ParseError} (hinv : Invariant before ⟨done, [], .nothing⟩) :
    Reports before x e e := by
  have hgap : ∀ last ∈ before.getLast?, Gap.after last.kind = .statement :=
    fun last hlast => hinv.after_last hlast
  refine .same (not_afterItem fun l hl => by simp [hgap l hl]) ?_
    (not_emptyBlock fun l hl => by simp [hgap l hl])
  rintro ⟨-, hlt, -⟩
  have hbraces := hinv.braces
  rw [braces_nil] at hbraces
  omega

/-- Where the last token is no separator and opens no list and no block, the reports are the same. -/
theorem reports_other {state : State} {e : ParseError} (hinv : Invariant before state)
    (hother : state.gap = .other) : Reports before x e e := by
  have hgap : ∀ last ∈ before.getLast?, Gap.after last.kind = .other :=
    fun last hlast => (hinv.after_last hlast).trans hother
  exact .same (not_afterItem fun l hl => by simp [hgap l hl])
    (not_afterStatement fun l hl => by simp [hgap l hl])
    (not_emptyBlock fun l hl => by simp [hgap l hl])

theorem Automaton.Reaches.reports {state : State} (h : Reaches before state)
    (hstep : step state x = none) :
    Reports before x (complaint state before.getLast? x) (blame state x) := by
  have hinv := h.invariant
  obtain ⟨done, frames, top⟩ := state
  cases top with
  | operand e => exact reports_other hinv rfl
  | statement s => exact reports_other hinv rfl
  | nothing =>
    cases frames with
    | nil => exact reports_program hinv
    | cons frame frames =>
      cases frame with
      | list items =>
        rw [blame_item]
        exact reports_item hinv hstep
      | block body =>
        cases body with
        | nil =>
          rw [blame_opening]
          exact reports_opening hinv
        | cons s body =>
          rw [blame_next]
          exact reports_statement hinv hstep
      | _ => exact reports_other hinv rfl

end Reached

end Report

/-- On a text whose tokens are sound but which is no program, both front ends report where the grammar
fails. Some program begins with all of the tokens, and both reports are about the end of the text; or
there is a first token with which no program goes on, and the reports about it are related. -/
theorem readSource_automaton_eq_error {source : List Char} {ts : List Token} {e : ParseError}
    (htokens : tokenize source = .ok ts) (herror : parse ts = .error e) :
    ∃ e', readSource .automaton source = .error (.grammar e') ∧
      ((Viable ts ∧ e = .endOfInput ts.getLast? ∧ e' = e) ∨
        ∃ before x after, ts = before ++ x :: after ∧ Viable before ∧ ¬Viable (before ++ [x]) ∧
          Reports before x e e') := by
  rw [parse_eq_readAll, mapError_eq_error_iff] at herror
  obtain ⟨f, hread, rfl⟩ := herror
  simp only [readSource]
  rw [read_eq_readAll htokens]
  rcases Reaches.start.of_readAll_eq_error hread with ⟨s, hs, hend, rfl⟩ |
    ⟨before, x, after, s, hts, hs, hstep, rfl⟩
  · -- all tokens are taken, but the text cannot end
    rw [List.nil_append] at hs
    have hrun : readAll (fun s _ t => blame s t) initial none (ts ++ []) = _ :=
      hs.readAll_append []
    rw [List.append_nil, readAll, hend] at hrun
    exact ⟨.endOfInput ts.getLast?, mapError_eq_error_iff.2 ⟨_, hrun, rfl⟩,
      .inl ⟨hs.viable, rfl, rfl⟩⟩
  · -- the token `x` is the first that the automaton cannot take
    rw [List.nil_append] at hts
    subst hts
    have hrun : readAll (fun s _ t => blame s t) initial none (before ++ x :: after) = _ :=
      hs.readAll_append (x :: after)
    rw [readAll, hstep] at hrun
    refine ⟨blame s x, mapError_eq_error_iff.2 ⟨_, hrun, by rw [nameLast_blame]⟩, .inr ?_⟩
    rw [nameLast_complaint]
    exact ⟨before, x, after, rfl, hs.viable, hs.not_viable hstep, hs.reports hstep⟩

theorem readSource_automaton_eq_error_bracket :
    ∃ ts e, tokenize ['[', '*'] = .ok ts ∧ parse ts = .error e ∧
      ∃ e', readSource .automaton ['[', '*'] = .error (.grammar e') ∧
        ((Viable ts ∧ e = .endOfInput ts.getLast? ∧ e' = e) ∨
          ∃ before x after, ts = before ++ x :: after ∧ Viable before ∧ ¬Viable (before ++ [x]) ∧
            Reports before x e e') := by
  have htokens : tokenize ['[', '*'] =
      .ok [⟨.lbracket, none, ⟨1, 1⟩⟩, ⟨.star, none, ⟨1, 2⟩⟩] :=
    tokensFrom_lexeme rfl rfl (tokensFrom_lexeme rfl rfl (tokensFrom_ending rfl))
  exact ⟨_, _, htokens, rfl, readSource_automaton_eq_error htokens rfl⟩

end Abacus
