import Abacus.Proofs.Program.WellFormed
import Abacus.Proofs.Token.Cutting

/-!
# What decides the answer of the automaton

The automaton takes the lexemes of a source one after the other. Four things can go wrong, and the first
of them that applies decides:

1. a lexeme with which no program goes on, whatever comes after it;
2. a character with which no token begins;
3. the end of the source, where the tokens are no program yet;
4. a literal that is too large or has too many digits.

What is said about a lexeme with which no program goes on depends on the tokens before it alone: on the
kinds of tokens with which some program goes on there, and on whether they are a program already. The
lexeme is looked at on its own for this, and a literal that does not fit is reported instead.

## Main definitions

* `Grammar.Begins`, `Grammar.GoesOn` — some program begins with the tokens, goes on with a kind of token
* `Translated` — what is said about a token with which no program goes on
* `Lexeme.Fits`, `Lexeme.report`, `Lexeme.refusal` — literals that fit, and what is said about others

## Main results

* `Automaton.Reaches.translated` — the automaton says what the grammar asks for
* `Cuts.readFrom_eq` — the automaton goes on from the state after the lexemes at the front
* `readSource_automaton_decided` — which of the four decides, and how
-/

namespace Abacus

open Automaton Grammar

/-! ### How programs go on -/

namespace Grammar

/-- Some program begins with the tokens. -/
def Begins (ts : List Token) : Prop :=
  ∃ more body, IsProgram (ts ++ more) body

/-- Some program begins with the tokens and goes on with a token of the kind. -/
def GoesOn (ts : List Token) (kind : Kind) : Prop :=
  Begins (ts ++ [{ kind := kind }])

/-- The tokens are a program. -/
def Complete (ts : List Token) : Prop :=
  ∃ body, IsProgram ts body

end Grammar

theorem isProgram_iff_parse {ts : List Token} {body : List Stmt} :
    IsProgram ts body ↔ parse ts = .ok body := by
  rw [← readTokens_eq_ok_iff, readTokens, mapError_eq_ok_iff]

theorem begins_iff_viable {ts : List Token} : Begins ts ↔ Viable ts := by
  simp only [Begins, Viable, isProgram_iff_parse]

theorem Grammar.Begins.of_append {ts us : List Token} (h : Begins (ts ++ us)) : Begins ts := by
  obtain ⟨more, body, hbody⟩ := h
  exact ⟨us ++ more, body, by rwa [← List.append_assoc]⟩

namespace Automaton

section Reached

variable {ts : List Token} {state : State}

/-- A token is taken where some program goes on with it. -/
theorem Reaches.isSome_step_iff (h : Reaches ts state) (t : Token) :
    (step state t).isSome = true ↔ Begins (ts ++ [t]) := by
  rw [begins_iff_viable]
  cases hstep : step state t with
  | none => simpa using h.not_viable hstep
  | some next => simpa using (h.snoc hstep).viable

theorem Reaches.accepts_iff (h : Reaches ts state) (kind : Kind) :
    accepts state kind = true ↔ GoesOn ts kind :=
  h.isSome_step_iff { kind := kind }

/-- The text can end where the tokens are a program, and that program is read. -/
theorem Reaches.finish_eq_some_iff (h : Reaches ts state) {body : List Stmt} :
    finish state = some body ↔ IsProgram ts body := by
  have hread : readAll complaint initial none (ts ++ []) = readAll complaint state ts.getLast? [] :=
    h.readAll_append []
  rw [List.append_nil, readAll] at hread
  rw [isProgram_iff_parse, parse_eq_readAll, mapError_eq_ok_iff, hread]
  cases finish state <;> simp

theorem Reaches.acceptsEnd_iff (h : Reaches ts state) : acceptsEnd state = true ↔ Complete ts := by
  rw [acceptsEnd, Option.isSome_iff_exists]
  exact exists_congr fun body => h.finish_eq_some_iff

/-- Tokens with which some program begins lead to a state. -/
theorem exists_reaches (h : Begins ts) : ∃ state, Reaches ts state := by
  induction ts using List.reverseRecOn with
  | nil => exact ⟨initial, .start⟩
  | append_singleton ts t ih =>
    obtain ⟨state, hstate⟩ := ih h.of_append
    obtain ⟨next, hstep⟩ := Option.isSome_iff_exists.1 ((hstate.isSome_step_iff t).2 h)
    exact ⟨next, hstate.snoc hstep⟩

theorem Reaches.eq_initial (h : Reaches [] state) : state = initial := by
  generalize hts : [] = ts at h
  cases h with
  | start => rfl
  | snoc => simp at hts

theorem Reaches.of_append_singleton {t : Token} (h : Reaches (ts ++ [t]) state) :
    ∃ before, Reaches ts before ∧ step before t = some state := by
  generalize hus : ts ++ [t] = us at h
  cases h with
  | start => simp at hus
  | @snoc ts' before _ t' h hstep =>
    obtain ⟨rfl, hlast⟩ := List.append_inj' hus rfl
    cases hlast
    exact ⟨before, h, hstep⟩

end Reached

end Automaton

/-! ### What is said about a token -/

/-- The brackets that close. -/
def Kind.closers : List Kind := [.rparen, .rbracket, .rbrace]

/-- One closing bracket, and no other one, can come after the tokens. -/
structure OnlyCloser (ts : List Token) (kind : Kind) : Prop where
  closes : kind ∈ Kind.closers
  goesOn : GoesOn ts kind
  unique : ∀ k ∈ Kind.closers, GoesOn ts k → k = kind

/-- The tokens are no program, and a name or an equals sign has to come. -/
structure OnlyChoice (ts : List Token) (kind : Kind) : Prop where
  named : kind = .ident ∨ kind = .assign
  unique : ∀ k, GoesOn ts k ↔ k = kind
  incomplete : ¬Complete ts

/-- What is said about the token `x` after the tokens `ts`, with which no program goes on. -/
inductive Translated (ts : List Token) (x : Token) : ParseError → Prop
  | closer {kind : Kind} (h : OnlyCloser ts kind) : Translated ts x (.expected kind x)
  | choice {kind : Kind} (h : OnlyChoice ts kind) : Translated ts x (.expected kind x)
  | leftover (hcloser : ∀ kind, ¬OnlyCloser ts kind) (hend : Complete ts)
      (hsemi : GoesOn ts .semicolon) : Translated ts x (.leftover x)
  | unexpected (hcloser : ∀ kind, ¬OnlyCloser ts kind) (hchoice : ∀ kind, ¬OnlyChoice ts kind)
      (hstatement : ¬(Complete ts ∧ GoesOn ts .semicolon)) : Translated ts x (.unexpected x)

theorem filter_eq_singleton_iff {α : Type} {l : List α} {p : α → Bool} {a : α} (hl : l.Nodup) :
    l.filter p = [a] ↔ a ∈ l ∧ p a = true ∧ ∀ b ∈ l, p b = true → b = a := by
  constructor
  · intro h
    have hmem : ∀ b, b ∈ l ∧ p b = true ↔ b = a := fun b => by
      rw [← List.mem_filter, h, List.mem_singleton]
    exact ⟨((hmem a).2 rfl).1, ((hmem a).2 rfl).2, fun b hb hp => (hmem b).1 ⟨hb, hp⟩⟩
  · rintro ⟨ha, hp, hunique⟩
    refine List.perm_singleton.1 ((List.perm_ext_iff_of_nodup (hl.filter p) (by simp)).2 fun b => ?_)
    rw [List.mem_filter, List.mem_singleton]
    exact ⟨fun hb => hunique b hb.1 hb.2, fun hb => hb ▸ ⟨ha, hp⟩⟩

theorem Kind.mem_all (kind : Kind) : kind ∈ all := by
  cases kind <;> decide

namespace Automaton

/-- In every state there are two kinds of tokens to choose from, or a name or an equals sign has to come,
or a statement is complete. -/
theorem choices_of_wellFormed {state : State} (h : state.WellFormed) :
    (∃ k k', k ≠ k' ∧ accepts state k = true ∧ accepts state k' = true) ∨
      (∃ kind, (kind = .ident ∨ kind = .assign) ∧ ∀ k, accepts state k = decide (k = kind)) ∨
        acceptsEnd state = true := by
  obtain ⟨done, frames, top⟩ := state
  cases top with
  | operand e =>
    -- every operand can be followed by an operator, and there are several of these
    exact .inl ⟨.plus, .caret, by decide, rfl, rfl⟩
  | statement s =>
    have hosts : Hosts frames := InStmt.hosts h
    cases hin : inBlock frames with
    | true =>
      refine .inl ⟨.semicolon, .rbrace, by decide, accepts_statement_semicolon hosts s, ?_⟩
      rw [accepts_statement_rbrace hosts, hin]
    | false => exact .inr (.inr (by rw [acceptsEnd_statement hosts, hin]; rfl))
  | nothing =>
    cases frames with
    | nil => exact .inl ⟨.integer, .ident, by decide, rfl, rfl⟩
    | cons frame frames =>
      cases frame with
      | letWord => exact .inr (.inl ⟨.ident, .inl rfl, fun k => by cases k <;> rfl⟩)
      | letName x => exact .inr (.inl ⟨.assign, .inr rfl, fun k => by cases k <;> rfl⟩)
      | _ => exact .inl ⟨.integer, .ident, by decide, rfl, rfl⟩

/-- What the automaton says about a token is what the grammar asks for. -/
theorem Reaches.translated {ts : List Token} {state : State} (h : Reaches ts state) (x : Token) :
    Translated ts x (blame state x) := by
  -- what the automaton accepts is what programs go on with, so its lists can be read as such
  have hcloser : ∀ kind, Kind.closers.filter (accepts state) = [kind] ↔ OnlyCloser ts kind := by
    intro kind
    rw [filter_eq_singleton_iff (by decide)]
    simp only [h.accepts_iff]
    exact ⟨fun ⟨h₁, h₂, h₃⟩ => ⟨h₁, h₂, h₃⟩, fun ⟨h₁, h₂, h₃⟩ => ⟨h₁, h₂, h₃⟩⟩
  have hchoice : ∀ kind, OnlyChoice ts kind →
      Kind.all.filter (accepts state) = [kind] ∧ acceptsEnd state = false := by
    rintro kind ⟨-, hunique, hend⟩
    rw [← h.acceptsEnd_iff, Bool.not_eq_true] at hend
    refine ⟨(filter_eq_singleton_iff (by decide)).2 ⟨kind.mem_all, ?_, fun k _ hk => ?_⟩, hend⟩
    · exact (h.accepts_iff kind).2 ((hunique kind).2 rfl)
    · exact (hunique k).1 ((h.accepts_iff k).1 hk)
  rw [blame, ← Kind.closers]
  split
  · rename_i kind hfilter
    exact .closer ((hcloser kind).1 hfilter)
  rename_i hmany
  have hnone : ∀ kind, ¬OnlyCloser ts kind := fun kind hkind => hmany kind ((hcloser kind).2 hkind)
  split
  · -- one kind can stand here and the text cannot end, so a name or an equals sign has to come
    rename_i kind hfilter hend
    obtain ⟨-, hkind, hunique⟩ := (filter_eq_singleton_iff (by decide)).1 hfilter
    rcases choices_of_wellFormed h.invariant.wellFormed with ⟨k, k', hne, hk, hk'⟩ |
      ⟨k, hname, hall⟩ | hend'
    · exact absurd ((hunique k k.mem_all hk).trans (hunique k' k'.mem_all hk').symm) hne
    · obtain rfl : k = kind := hunique k k.mem_all (by simp [hall])
      refine .choice ⟨hname, fun k' => ?_, ?_⟩
      · rw [← h.accepts_iff, hall, decide_eq_true_iff]
      · rw [← h.acceptsEnd_iff, hend]
        exact Bool.false_ne_true
    · rw [hend] at hend'
      cases hend'
  · rename_i canEnd hother
    split
    · rename_i hstatement
      rw [Bool.and_eq_true, h.acceptsEnd_iff, h.accepts_iff] at hstatement
      exact .leftover hnone hstatement.1 hstatement.2
    · rename_i hstatement
      rw [Bool.and_eq_true, h.acceptsEnd_iff, h.accepts_iff] at hstatement
      refine .unexpected hnone (fun kind hkind => ?_) hstatement
      obtain ⟨hfilter, hend⟩ := hchoice kind hkind
      exact hother kind hfilter hend

end Automaton

/-! ### Literals that fit -/

namespace Lexeme

/-- A literal with more digits than are looked at. -/
def TooLong (l : Lexeme) : Prop :=
  l.kind = .integer ∧ digitLimit < l.chars.length

/-- A literal whose number is out of range. -/
def TooLarge (l : Lexeme) : Prop :=
  l.kind = .integer ∧ maxInt < Nat.ofDigitChars 10 l.chars 0

instance (l : Lexeme) : Decidable l.TooLong :=
  inferInstanceAs (Decidable (_ ∧ _))

instance (l : Lexeme) : Decidable l.TooLarge :=
  inferInstanceAs (Decidable (_ ∧ _))

/-- The lexeme is no literal, or one that is neither too long nor too large. -/
def Fits (l : Lexeme) : Prop :=
  ¬l.TooLong ∧ ¬l.TooLarge

/-- The error about a lexeme that is looked at on its own: a literal that does not fit is reported as if
it stood at the start of a text. -/
def report (l : Lexeme) (e : ParseError) : SourceError :=
  if l.TooLong then .lexical (.tooManyDigits l.chars.length)
  else if l.TooLarge then .lexical (.tooLarge (String.ofList l.chars) .start)
  else .grammar e

/-- The error about a literal of a program that does not fit. -/
def refusal (l : Lexeme) : SourceError :=
  if l.TooLong then .longLiteral l.chars.length
  else .lexical (.tooLarge (String.ofList l.chars) l.pos)

theorem token_eq (l : Lexeme) :
    l.token = if l.TooLong then .error (.tooManyDigits l.chars.length)
      else if l.TooLarge then .error (.tooLarge (String.ofList l.chars) l.pos) else .ok l.bare :=
  rfl

theorem token_eq_ok_bare_iff {l : Lexeme} : l.token = .ok l.bare ↔ l.Fits := by
  rw [token_eq, Fits]
  repeat' split
  all_goals simp [*]

end Lexeme

namespace Automaton

/-- A lexeme that a message is about is looked at on its own. -/
theorem tokenFor_cases (l : Lexeme) (f : Token → ParseError) :
    (match tokenFor l with
      | .ok t => SourceError.grammar (f t)
      | .error e => e) = l.report (f l.bare) := by
  have htoken : ({ l with pos := .start } : Lexeme).token =
      if l.TooLong then .error (.tooManyDigits l.chars.length)
      else if l.TooLarge then .error (.tooLarge (String.ofList l.chars) .start)
      else .ok { l.bare with pos := .start } :=
    rfl
  rw [tokenFor, htoken, Lexeme.report]
  by_cases hlong : l.TooLong
  · rw [if_pos hlong, if_pos hlong]
  rw [if_neg hlong, if_neg hlong]
  by_cases hlarge : l.TooLarge
  · rw [if_pos hlarge, if_pos hlarge]
  · rw [if_neg hlarge, if_neg hlarge]
    rfl

theorem refuse_eq (state : State) (l : Lexeme) : refuse state l = l.report (blame state l.bare) :=
  tokenFor_cases l (blame state)

theorem endOfInput_some (l : Lexeme) :
    endOfInput (some l) = l.report (.endOfInput (some l.bare)) :=
  tokenFor_cases l fun t => .endOfInput (some t)

/-- The leftmost literal that does not fit is reported. -/
theorem literalError?_append {before after : List Lexeme} {l : Lexeme}
    (hbefore : ∀ m ∈ before, m.Fits) (hl : ¬l.Fits) :
    literalError? (before ++ l :: after) = some l.refusal := by
  induction before with
  | nil =>
    rw [List.nil_append, literalError?, Lexeme.token_eq, Lexeme.refusal]
    by_cases hlong : l.TooLong
    · rw [if_pos hlong, if_pos hlong]
    · have hlarge : l.TooLarge := by
        by_contra hlarge
        exact hl ⟨hlong, hlarge⟩
      rw [if_neg hlong, if_neg hlong, if_pos hlarge]
  | cons m before ih =>
    obtain ⟨hm, hbefore⟩ := List.forall_mem_cons.1 hbefore
    rw [List.cons_append, literalError?, Lexeme.token_eq_ok_bare_iff.2 hm]
    exact ih hbefore

end Automaton

/-! ### Reading along the lexemes -/

section Source

variable {source front rest : List Char} {ls : List Lexeme} {l : Lexeme} {state : State}

/-- The automaton goes on from the state that the lexemes at the front of a source lead to. -/
theorem Cuts.readFrom_eq (h : Cuts source ls rest) (hfront : source = front ++ rest)
    (hstate : Reaches (ls.map Lexeme.bare) state) :
    readFrom initial none .start source =
      (readFrom state ls.getLast? (.behind front) rest).map fun p => (p.1, ls ++ p.2) := by
  induction h generalizing front state with
  | start =>
    obtain rfl : front = [] := List.append_left_eq_self.1 hfront.symm
    rw [hstate.eq_initial, ← Position.after_start, Position.after_nil, List.getLast?_nil]
    cases readFrom initial none .start source <;> rfl
  | @next ls l text rest h hl ih =>
    -- the state before the last lexeme is known, and one step leads from it to the given one
    obtain ⟨before, hbefore⟩ := h.exists_front
    rw [List.map_append, List.map_singleton] at hstate
    obtain ⟨s, hs, hstep⟩ := hstate.of_append_singleton
    obtain ⟨front', hfront', hstop⟩ := hl.exists_front
    obtain rfl : front' = front := List.append_cancel_right (hfront'.symm.trans hfront)
    rw [ih hbefore hs, readFrom_lexeme ((next_iff_scan hbefore).1 hl), hstep, Option.elim_some, hstop,
      List.getLast?_concat]
    cases readFrom state (some l) (.behind front') rest <;> simp [Except.map]

/-- The answer of the automaton, from the state that the lexemes at the front of a source lead to. -/
theorem Cuts.readSource_eq (h : Cuts source ls rest) (hfront : source = front ++ rest)
    (hstate : Reaches (ls.map Lexeme.bare) state) :
    readSource .automaton source = do
      let (body, ms) ← readFrom state ls.getLast? (.behind front) rest
      match literalError? (ls ++ ms) with
      | some e => .error e
      | none => return body := by
  rw [readSource, Automaton.read, h.readFrom_eq hfront hstate]
  cases readFrom state ls.getLast? (.behind front) rest <;> rfl

/-- A lexeme with which no program goes on decides, whatever comes after it. -/
theorem Cuts.readSource_of_refused (h : Cuts source (ls ++ [l]) rest)
    (hstate : Reaches (ls.map Lexeme.bare) state) (hstep : step state l.bare = none) :
    readSource .automaton source = .error (l.report (blame state l.bare)) := by
  obtain ⟨text, hcuts, hnext⟩ := h.of_append_singleton
  obtain ⟨front, hfront⟩ := hcuts.exists_front
  rw [hcuts.readSource_eq hfront hstate, readFrom_lexeme ((next_iff_scan hfront).1 hnext), hstep,
    Option.elim_none, refuse_eq]
  rfl

/-- A character with which no token begins is reported where it stands. -/
theorem Cuts.readSource_of_stopsAt {c : Char} {place : Position} (h : Cuts source ls rest)
    (hstate : Reaches (ls.map Lexeme.bare) state) (hstop : StopsAt source rest c place) :
    readSource .automaton source = .error (.lexical (.ofFault c place)) := by
  obtain ⟨front, hfront⟩ := h.exists_front
  rw [h.readSource_eq hfront hstate, readFrom_fault ((stopsAt_iff_scan hfront).1 hstop)]
  rfl

/-- At the end of a source, the state decides whether it is a program. -/
theorem Cuts.readSource_of_blank (h : Cuts source ls rest)
    (hstate : Reaches (ls.map Lexeme.bare) state) (hblank : Blank rest) :
    readSource .automaton source =
      (finish state).elim (.error (endOfInput ls.getLast?)) fun body =>
        (literalError? ls).elim (.ok body) .error := by
  obtain ⟨front, hfront⟩ := h.exists_front
  rw [h.readSource_eq hfront hstate, readFrom_ending (scan_eq_ending_iff.2 hblank)]
  cases finish state with
  | none => rfl
  | some body =>
    change (match literalError? (ls ++ []) with
      | some e => Except.error e
      | none => Except.ok body) = _
    rw [List.append_nil, Option.elim_some]
    cases literalError? ls <;> rfl

end Source

/-- The automaton takes the lexemes of a source, which are cut by the token rules without looking at the
size of literals, up to the end of the source or to a character with which no token begins.

If no program begins with the lexemes up to one of them, the first such lexeme decides: what is said
about it is translated from what can come in its place, and is said about every other source that agrees
up to the end of the lexeme and does not make it longer. Otherwise a character with which no token begins
is reported at its place. Otherwise, if the lexemes are no program, the last of them is named; and if they
are one, then the leftmost literal that does not fit is refused, or the program is read. -/
theorem readSource_automaton_decided (source : List Char) :
    (∃ ls rest, Cuts source ls rest ∧ (Blank rest ∨ ∃ c place, StopsAt source rest c place)) ∧
    ∀ ls rest, Cuts source ls rest →
      (∀ before l, ls = before ++ [l] → Begins (before.map Lexeme.bare) →
        ¬Begins (ls.map Lexeme.bare) →
        ∃ e, Translated (before.map Lexeme.bare) l.bare e ∧
          readSource .automaton source = .error (l.report e) ∧
          ∀ front more, source = front ++ rest → Longest l.chars more →
            readSource .automaton (front ++ more) = .error (l.report e)) ∧
      (Begins (ls.map Lexeme.bare) → ∀ c place, StopsAt source rest c place →
        readSource .automaton source = .error (.lexical
          (if c = '&' ∨ c = '|' then .unpaired c place else .unexpected c place))) ∧
      (Begins (ls.map Lexeme.bare) → Blank rest → ¬Complete (ls.map Lexeme.bare) →
        ∃ last, ls.getLast? = some last ∧
          readSource .automaton source = .error (last.report (.endOfInput (some last.bare)))) ∧
      ∀ body, IsProgram (ls.map Lexeme.bare) body → Blank rest →
        (∀ before l after, ls = before ++ l :: after → (∀ m ∈ before, m.Fits) → ¬l.Fits →
          readSource .automaton source = .error l.refusal) ∧
        ((∀ l ∈ ls, l.Fits) → readSource .automaton source = .ok body) := by
  refine ⟨exists_cuts source, fun ls rest hcuts => ⟨?_, ?_, ?_, ?_⟩⟩
  · rintro before l rfl hbegins hnot
    obtain ⟨state, hstate⟩ := exists_reaches hbegins
    have hstep : step state l.bare = none := by
      rw [← Option.not_isSome_iff_eq_none, hstate.isSome_step_iff]
      simpa using hnot
    refine ⟨blame state l.bare, hstate.translated l.bare, hcuts.readSource_of_refused hstate hstep, ?_⟩
    intro front more hfront hlongest
    -- the other source is cut in the same way up to the lexeme
    have hother := hcuts.replace hfront more (by simpa using hlongest)
    exact hother.readSource_of_refused hstate hstep
  · intro hbegins c place hstop
    obtain ⟨state, hstate⟩ := exists_reaches hbegins
    exact hcuts.readSource_of_stopsAt hstate hstop
  · intro hbegins hblank hincomplete
    obtain ⟨state, hstate⟩ := exists_reaches hbegins
    have hfinish : finish state = none := by
      rw [← Option.not_isSome_iff_eq_none]
      exact fun hend => hincomplete (hstate.acceptsEnd_iff.1 hend)
    have hread := hcuts.readSource_of_blank hstate hblank
    rw [hfinish, Option.elim_none] at hread
    cases hlast : ls.getLast? with
    | none =>
      -- without lexemes there is the empty program
      rw [List.getLast?_eq_none_iff] at hlast
      exact absurd ⟨[], hlast ▸ .empty⟩ hincomplete
    | some last =>
      rw [hlast, endOfInput_some] at hread
      exact ⟨last, rfl, hread⟩
  · intro body hbody hblank
    obtain ⟨state, hstate⟩ := exists_reaches ⟨[], body, by rwa [List.append_nil]⟩
    have hread := hcuts.readSource_of_blank hstate hblank
    rw [hstate.finish_eq_some_iff.2 hbody, Option.elim_some] at hread
    constructor
    · rintro before l after rfl hbefore hl
      rw [hread, literalError?_append hbefore hl]
      rfl
    · intro hfits
      have hnone : literalError? ls = none :=
        literalError?_eq_none_iff.2 fun l hl => Lexeme.token_eq_ok_bare_iff.2 (hfits l hl)
      rw [hread, hnone]
      rfl

/-- After a number, a second number decides, and neither a lone ampersand nor a name behind it does. -/
theorem readSource_automaton_decided_number :
    let one : Lexeme := ⟨.integer, ['1'], ⟨1, 1⟩⟩
    let two : Lexeme := ⟨.integer, ['2'], ⟨1, 3⟩⟩
    Cuts ['1', ' ', '2', ' ', '&'] [one, two] [' ', '&'] ∧ Begins [one.bare] ∧
      ¬Begins [one.bare, two.bare] ∧
      ∃ e, Translated [one.bare] two.bare e ∧
        readSource .automaton ['1', ' ', '2', ' ', '&'] = .error (two.report e) ∧
        readSource .automaton ['1', ' ', '2', '\n', 'x'] = .error (two.report e) := by
  intro one two
  have hfirst : Cuts ['1', ' ', '2', ' ', '&'] [one] [' ', '2', ' ', '&'] :=
    Cuts.start.next ((next_iff_scan (List.nil_append _).symm).2 rfl)
  have hcuts : Cuts ['1', ' ', '2', ' ', '&'] [one, two] [' ', '&'] :=
    hfirst.next ((next_iff_scan (List.singleton_append).symm).2 rfl)
  have hstate : Reaches [one.bare] ⟨[], [], .operand (.int (some (.int 1)))⟩ := .snoc .start rfl
  have hbegins : Begins [one.bare] := begins_iff_viable.2 hstate.viable
  have hnot : ¬Begins [one.bare, two.bare] := by
    rw [begins_iff_viable]
    exact hstate.not_viable rfl
  obtain ⟨e, htranslated, hread, hother⟩ :=
    ((readSource_automaton_decided ['1', ' ', '2', ' ', '&']).2 _ _ hcuts).1 [one] two rfl hbegins hnot
  have hlongest : Longest two.chars ['\n', 'x'] :=
    (longest_digits_iff rfl (List.forall_mem_nil _)).2 (by rintro d ⟨⟩; rfl)
  exact ⟨hcuts, hbegins, hnot, e, htranslated, hread, hother ['1', ' ', '2'] _ rfl hlongest⟩

end Abacus
