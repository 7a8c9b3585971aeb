import Abacus.Proofs.Automaton.Lazy

/-!
# What reading errors are about

An error about a source text names something that stands in the text: a lexeme with which no program goes
on, a literal that does not fit, or a character with which no token begins. In particular a text without
overlong runs of digits has no overlong literals, and all its errors are about the language.

## Main definitions

* `FoundIn` — the lexeme stands in the text
* `SourceError.About` — the error is about something in the text
* `Moderate` — no run of digits in the text exceeds the limit

## Main results

* `about_of_readSource` — reading errors of both front ends are about something in the text
* `SourceError.About.isLanguage` — without overlong runs of digits, they are about the language
-/

namespace Abacus

open Automaton Grammar

/-- The characters of a lexeme stand in a text and spell a token of its kind. -/
structure FoundIn (source : List Char) (l : Lexeme) : Prop where
  spells : l.kind.Spells l.chars
  within : l.chars <:+: source

/-- The error is about something that stands in a text. A token in an error of grammar is one that fits;
the place of a literal does not matter here. -/
inductive SourceError.About (source : List Char) : SourceError → Prop
  | grammar {e : ParseError} (h : ∀ t ∈ e.token, ∃ l, FoundIn source l ∧ l.Fits ∧ t = l.bare) :
      About source (.grammar e)
  | fault {c : Char} {pos : Position} (within : c ∈ source) (visible : isBlank c = false) :
      About source (.lexical (.ofFault c pos))
  | tooLarge {l : Lexeme} {pos : Position} (h : FoundIn source l) (hl : l.TooLarge) :
      About source (.lexical (.tooLarge (String.ofList l.chars) pos))
  | tooManyDigits {l : Lexeme} (h : FoundIn source l) (hl : l.TooLong) :
      About source (.lexical (.tooManyDigits l.chars.length))
  | longLiteral {l : Lexeme} (h : FoundIn source l) (hl : l.TooLong) :
      About source (.longLiteral l.chars.length)

/-- No run of digits in a text has more than `digitLimit` digits. -/
def Moderate (source : List Char) : Prop :=
  ∀ run, run <:+: source → (∀ c ∈ run, isDigit c = true) → run.length ≤ digitLimit

theorem FoundIn.not_tooLong {source : List Char} {l : Lexeme} (h : FoundIn source l)
    (hsource : Moderate source) : ¬l.TooLong := by
  rintro ⟨hkind, hlong⟩
  have hspells := h.spells
  rw [hkind] at hspells
  exact Nat.not_lt.2 (hsource l.chars h.within hspells.2) hlong

/-- Without overlong runs of digits, an error is about the language. -/
theorem SourceError.About.isLanguage {source : List Char} {e : SourceError} (h : e.About source)
    (hsource : Moderate source) : e.isLanguage = true := by
  cases h with
  | grammar | tooLarge => rfl
  | fault =>
    rw [LexError.ofFault]
    split <;> rfl
  | tooManyDigits h hl | longLiteral h hl => exact absurd hl (h.not_tooLong hsource)

/-! ### Lexemes -/

section Lexemes

variable {source text rest : List Char} {pos : Position} {l : Lexeme}

theorem foundIn_of_scan (htext : text <:+ source) (h : scan pos text = .lexeme l rest) :
    FoundIn source l ∧ rest <:+ source := by
  obtain ⟨blanks, rfl, -, -, hspells, -⟩ := scan_eq_lexeme_iff.1 h
  obtain ⟨before, rfl⟩ := htext
  refine ⟨⟨hspells, before ++ blanks, rest, by simp⟩, before ++ blanks ++ l.chars, by simp⟩

theorem about_of_fault {c : Char} {place : Position} (htext : text <:+ source)
    (h : scan pos text = .fault c place) :
    SourceError.About source (.lexical (.ofFault c place)) := by
  obtain ⟨blanks, cs, rfl, -, -, hvisible, -⟩ := scan_eq_fault_iff.1 h
  exact .fault (htext.subset (by simp)) hvisible

/-- What is said about a lexeme that is looked at on its own. -/
theorem about_report (h : FoundIn source l) {e : ParseError} (he : e.token = some l.bare) :
    SourceError.About source (l.report e) := by
  rw [Lexeme.report]
  by_cases hlong : l.TooLong
  · rw [if_pos hlong]
    exact .tooManyDigits h hlong
  rw [if_neg hlong]
  by_cases hlarge : l.TooLarge
  · rw [if_pos hlarge]
    exact .tooLarge h hlarge
  · rw [if_neg hlarge]
    refine .grammar fun t ht => ⟨l, h, ⟨hlong, hlarge⟩, ?_⟩
    rw [he] at ht
    exact (Option.mem_some_iff.1 ht).symm

theorem about_of_token {e : LexError} (h : FoundIn source l) (he : l.token = .error e) :
    SourceError.About source (.lexical e) := by
  rw [Lexeme.token_eq] at he
  split at he
  · cases he
    exact .tooManyDigits h ‹_›
  · split at he <;> cases he
    exact .tooLarge h ‹_›

/-- A text that cannot be cut into tokens has a faulty character or a literal that does not fit. -/
theorem about_of_tokensFrom {e : LexError} (htext : text <:+ source)
    (h : Lexer.tokensFrom pos text = .error e) : SourceError.About source (.lexical e) := by
  fun_induction lexemesFrom pos text with
  | case1 pos text hscan =>
    rw [tokensFrom_eq, hscan] at h
    cases h
  | case2 pos text c start hscan =>
    rw [tokensFrom_eq, hscan] at h
    cases h
    exact about_of_fault htext hscan
  | case3 pos text l rest hscan ih =>
    obtain ⟨hl, hrest⟩ := foundIn_of_scan htext hscan
    rw [tokensFrom_eq, hscan] at h
    rcases bind_eq_error_iff.1 h with htoken | ⟨t, -, h⟩
    · exact about_of_token hl htoken
    rcases bind_eq_error_iff.1 h with hmore | ⟨ts, -, hend⟩
    · exact ih hrest hmore
    · cases hend

theorem foundIn_of_lexemesFrom {ls : List Lexeme} (htext : text <:+ source)
    (h : lexemesFrom pos text = .ok ls) : ∀ l ∈ ls, FoundIn source l := by
  fun_induction lexemesFrom pos text generalizing ls with
  | case1 =>
    cases h
    exact List.forall_mem_nil _
  | case2 => cases h
  | case3 pos text l rest hscan ih =>
    obtain ⟨hl, hrest⟩ := foundIn_of_scan htext hscan
    obtain ⟨us, hus, hend⟩ := bind_eq_ok_iff.1 h
    cases hend
    exact List.forall_mem_cons.2 ⟨hl, ih hrest hus⟩

/-! ### The automaton -/

theorem token_blame (state : State) (x : Token) : (blame state x).token = some x := by
  unfold blame
  repeat' split
  all_goals rfl

theorem about_endOfInput {last : Option Lexeme} (hlast : ∀ l ∈ last, FoundIn source l) :
    SourceError.About source (endOfInput last) := by
  cases last with
  | none => exact .grammar nofun
  | some l =>
    rw [endOfInput_some]
    exact about_report (hlast l rfl) rfl

/-- The automaton stops at a lexeme of the text, at a faulty character, or at the end. -/
theorem about_of_readFrom {state : State} {last : Option Lexeme} {e : SourceError}
    (htext : text <:+ source) (hlast : ∀ l ∈ last, FoundIn source l)
    (h : readFrom state last pos text = .error e) : e.About source := by
  fun_induction lexemesFrom pos text generalizing state last with
  | case1 pos text hscan =>
    rw [readFrom_ending hscan] at h
    cases hend : finish state <;> rw [hend] at h <;> cases h
    exact about_endOfInput hlast
  | case2 pos text c start hscan =>
    rw [readFrom_fault hscan] at h
    cases h
    exact about_of_fault htext hscan
  | case3 pos text l rest hscan ih =>
    obtain ⟨hl, hrest⟩ := foundIn_of_scan htext hscan
    rw [readFrom_lexeme hscan] at h
    cases hstep : step state l.bare with
    | none =>
      rw [hstep] at h
      cases h
      rw [refuse_eq]
      exact about_report hl (token_blame state l.bare)
    | some next =>
      rw [hstep, Option.elim_some] at h
      cases hread : readFrom next (some l) l.stop rest with
      | error e' =>
        rw [hread] at h
        cases h
        exact ih hrest (by rintro m ⟨⟩; exact hl) hread
      | ok p =>
        rw [hread] at h
        cases h

theorem about_of_literalError? {ls : List Lexeme} {e : SourceError}
    (hls : ∀ l ∈ ls, FoundIn source l) (h : literalError? ls = some e) : e.About source := by
  induction ls with
  | nil => cases h
  | cons l ls ih =>
    obtain ⟨hl, hls⟩ := List.forall_mem_cons.1 hls
    rw [literalError?, Lexeme.token_eq] at h
    by_cases hlong : l.TooLong
    · rw [if_pos hlong] at h
      cases h
      exact .longLiteral hl hlong
    rw [if_neg hlong] at h
    by_cases hlarge : l.TooLarge
    · rw [if_pos hlarge] at h
      cases h
      exact .tooLarge hl hlarge
    · rw [if_neg hlarge] at h
      exact ih hls h

end Lexemes

/-! ### The descent -/

theorem token_nameLast_mem {ts : List Token} {e : ParseError} (h : ∀ t ∈ e.token, t ∈ ts) :
    ∀ t ∈ (e.nameLast ts.getLast?).token, t ∈ ts := by
  cases e with
  | endOfInput last => exact fun t ht => List.mem_of_getLast? ht
  | _ => exact h

theorem token_complaint_mem {before after : List Token} {state : State} {x : Token} :
    ∀ t ∈ (complaint state before.getLast? x).token, t ∈ before ++ x :: after := by
  have hx : ∀ {e : ParseError}, e.token = some x → ∀ t ∈ e.token, t ∈ before ++ x :: after := by
    intro e he t ht
    rw [he, Option.mem_some_iff] at ht
    simp [← ht]
  unfold complaint
  split
  · exact hx rfl
  · split
    · -- the brace that opens the block is the last token before
      intro t ht
      cases hlast : before.getLast? with
      | none =>
        rw [hlast] at ht
        exact hx rfl t ht
      | some last =>
        rw [hlast] at ht
        obtain rfl : last = t := Option.mem_some_iff.1 ht
        exact List.mem_append_left _ (List.mem_of_getLast? hlast)
    · exact hx (token_blame _ x)
  · exact hx rfl
  · exact hx (token_blame state x)

/-- The tokens that the descent names in an error are among those it has read. -/
theorem token_mem_of_parse {ts : List Token} {e : ParseError} (h : parse ts = .error e) :
    ∀ t ∈ e.token, t ∈ ts := by
  rw [parse_eq_readAll, mapError_eq_error_iff] at h
  obtain ⟨e, hread, rfl⟩ := h
  apply token_nameLast_mem
  rcases Reaches.start.of_readAll_eq_error hread with ⟨s, -, -, rfl⟩ |
    ⟨before, x, after, s, hts, -, -, rfl⟩
  · exact nofun
  · rw [List.nil_append] at hts
    subst hts
    exact token_complaint_mem

/-! ### Both front ends -/

/-- An error about a source text names something that stands in the text. -/
theorem about_of_readSource {frontEnd : FrontEnd} {source : List Char} {e : SourceError}
    (h : readSource frontEnd source = .error e) : e.About source := by
  cases frontEnd with
  | automaton =>
    rw [readSource, Automaton.read] at h
    rcases bind_eq_error_iff.1 h with hread | ⟨⟨body, ls⟩, hread, hend⟩
    · exact about_of_readFrom (List.suffix_refl _) (by simp) hread
    · -- the tokens are a program, and its literals are looked at last
      have hls := foundIn_of_lexemesFrom (List.suffix_refl _) (lexemesFrom_eq_of_readFrom_eq hread)
      dsimp only at hend
      split at hend <;> cases hend
      rename_i hliteral
      exact about_of_literalError? hls hliteral
  | descent =>
    rw [readSource] at h
    cases htokens : tokenize source with
    | error e' =>
      rw [htokens] at h
      cases h
      exact about_of_tokensFrom (List.suffix_refl _) htokens
    | ok ts =>
      rw [htokens] at h
      obtain ⟨e, hparse, rfl⟩ := mapError_eq_error_iff.1 h
      refine .grammar fun t ht => ?_
      -- the tokens are those of the lexemes, all of which fit
      obtain ⟨ls, hls, hfits, rfl⟩ := (tokensFrom_eq_ok_iff _ _ _).1 htokens
      obtain ⟨l, hl, rfl⟩ := List.mem_map.1 (token_mem_of_parse hparse t ht)
      exact ⟨l, foundIn_of_lexemesFrom (List.suffix_refl _) hls l hl,
        Lexeme.token_eq_ok_bare_iff.1 (hfits l hl), rfl⟩

end Abacus
