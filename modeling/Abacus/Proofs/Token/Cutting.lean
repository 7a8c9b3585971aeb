import Abacus.Proofs.Token.Writing
import Mathlib.Data.List.Induction

/-!
# The token rules

A text is cut from left to right. Blanks are skipped, and then the longest piece that spells a token is
taken, whatever the size of a literal. This goes on up to the end of the text, or to a character with
which no token begins. The rules are stated here without saying how a text is searched, and the table of
terminals is shown to follow them.

One character after a piece of text tells whether a longer piece spells a token. Therefore the lexemes of
a text do not change when what follows them is replaced, unless the last one becomes longer.

## Main definitions

* `Kind.Spells` — the characters spell a token of a kind
* `Longest` — no longer piece of the text spells a token
* `Position.behind` — the place of the character behind a piece of text
* `Next` — the lexeme that stands next in a source
* `StopsAt` — the character next in a source with which no token begins
* `Cuts` — the lexemes at the front of a source, and what is left of it

## Main results

* `scan_eq_lexeme_iff`, `scan_eq_fault_iff`, `scan_eq_ending_iff` — the table follows the rules
* `exists_cuts` — every source can be cut up to its end, or to a character that begins no token
* `Cuts.replace` — what follows the lexemes can be replaced
-/

namespace Abacus

/-! ### Pieces that spell a token -/

/-- The characters spell a token of the given kind. -/
def Kind.Spells : Kind → List Char → Prop
  | .integer, chars => chars ≠ [] ∧ ∀ c ∈ chars, isDigit c = true
  | .ident, chars => IsName (String.ofList chars)
  | kind, chars => chars = kind.spelling.toList

/-- No piece of the text `chars ++ more` that is longer than `chars` spells a token. -/
def Longest (chars more : List Char) : Prop :=
  ∀ extra kind, extra <+: more → Kind.Spells kind (chars ++ extra) → extra = []

/-- Operators begin with no character of a word and with no blank. -/
theorem Kind.symbol_of_ofTwo? {c d : Char} {kind : Kind} (h : ofTwo? c d = some kind) :
    isWordChar c = false ∧ isBlank c = false := by
  unfold ofTwo? at h
  split at h
  case h_7 => cases h
  all_goals exact ⟨rfl, rfl⟩

theorem Kind.symbol_of_ofOne? {c : Char} {kind : Kind} (h : ofOne? c = some kind) :
    isWordChar c = false ∧ isBlank c = false := by
  unfold ofOne? at h
  split at h
  case h_18 => cases h
  all_goals exact ⟨rfl, rfl⟩

theorem isWordChar_eq_false_iff {c : Char} :
    isWordChar c = false ↔ isWordStart c = false ∧ isDigit c = false := by
  rw [isWordChar, Bool.or_eq_false_iff]

/-- A word spells the keyword that it is, and else an identifier. -/
theorem Kind.spells_word {c : Char} {cs : List Char} (hc : isWordStart c = true)
    (hcs : ∀ d ∈ cs, isWordChar d = true) :
    ((keyword? (String.ofList (c :: cs))).getD .ident).Spells (c :: cs) := by
  cases hkey : keyword? (String.ofList (c :: cs)) with
  | none =>
    refine ⟨⟨c, by simp, hc⟩, ?_, hkey⟩
    have hchar : isWordChar c = true := by simp [isWordChar, hc]
    simpa [hchar] using hcs
  | some kind =>
    have hmem := List.mem_of_find?_eq_some hkey
    have hword : kind.spelling = String.ofList (c :: cs) := by
      simpa using List.find?_some hkey
    have hchars : c :: cs = kind.spelling.toList := by rw [hword, String.toList_ofList]
    simp only [keywords, List.mem_cons, List.not_mem_nil, or_false] at hmem
    rcases hmem with rfl | rfl | rfl | rfl | rfl <;> exact hchars

/-- Tokens by their first character: literals, words, and operators of two characters or one. -/
theorem Kind.spells_cons_iff {kind : Kind} {c : Char} {cs : List Char} :
    kind.Spells (c :: cs) ↔
      (kind = .integer ∧ isDigit c = true ∧ ∀ d ∈ cs, isDigit d = true) ∨
      (kind = (keyword? (String.ofList (c :: cs))).getD .ident ∧ isWordStart c = true ∧
        ∀ d ∈ cs, isWordChar d = true) ∨
      (∃ d, cs = [d] ∧ ofTwo? c d = some kind) ∨ (cs = [] ∧ ofOne? c = some kind) := by
  constructor
  · intro h
    cases kind with
    | integer => exact .inl ⟨rfl, List.forall_mem_cons.1 h.2⟩
    | ident =>
      obtain ⟨⟨d, hd, hstart⟩, hchars, hfree⟩ := h
      simp only [String.toList_ofList, List.head?_cons, Option.mem_some_iff] at hd
      rw [String.toList_ofList, List.forall_mem_cons] at hchars
      exact .inr (.inl ⟨by rw [hfree]; rfl, hd ▸ hstart, hchars.2⟩)
    | kwIf | kwElse | kwLet | kwTrue | kwFalse =>
      cases h
      exact .inr (.inl ⟨rfl, rfl, List.all_eq_true.1 rfl⟩)
    | or | and | eq | ne | ge | le =>
      cases h
      exact .inr (.inr (.inl ⟨_, rfl, rfl⟩))
    | _ =>
      cases h
      exact .inr (.inr (.inr ⟨rfl, rfl⟩))
  · rintro (⟨rfl, hc, hcs⟩ | ⟨rfl, hc, hcs⟩ | ⟨d, rfl, htwo⟩ | ⟨rfl, hone⟩)
    · exact ⟨List.cons_ne_nil _ _, List.forall_mem_cons.2 ⟨hc, hcs⟩⟩
    · exact spells_word hc hcs
    · obtain ⟨hmem, hspell⟩ := ofTwo?_eq_some_iff.1 htwo
      simp only [twoCharacter, List.mem_cons, List.not_mem_nil, or_false] at hmem
      rcases hmem with rfl | rfl | rfl | rfl | rfl | rfl <;> exact hspell.symm
    · unfold ofOne? at hone
      split at hone <;> cases hone <;> rfl

/-- What begins like a literal or a word is one: no operator does. -/
theorem Kind.Spells.of_isWordChar {kind : Kind} {c : Char} {cs : List Char}
    (h : kind.Spells (c :: cs)) (hc : isWordChar c = true) :
    (isDigit c = true ∧ ∀ d ∈ cs, isDigit d = true) ∨
      (isWordStart c = true ∧ ∀ d ∈ cs, isWordChar d = true) := by
  rcases spells_cons_iff.1 h with ⟨-, hall⟩ | ⟨-, hall⟩ | ⟨d, -, htwo⟩ | ⟨-, hone⟩
  · exact .inl hall
  · exact .inr hall
  · rw [(symbol_of_ofTwo? htwo).1] at hc
    cases hc
  · rw [(symbol_of_ofOne? hone).1] at hc
    cases hc

theorem Kind.not_spells_nil (kind : Kind) : ¬kind.Spells [] := by
  cases kind with
  | integer => exact fun h => h.1 rfl
  | ident =>
    rintro ⟨⟨c, hc, -⟩, -, -⟩
    cases hc
  | _ => exact nofun

/-- A piece that spells a token begins with a character that is no blank. -/
theorem Kind.Spells.exists_cons {kind : Kind} {chars : List Char} (h : kind.Spells chars) :
    ∃ c cs, chars = c :: cs ∧ isBlank c = false := by
  cases chars with
  | nil => exact absurd h kind.not_spells_nil
  | cons c cs =>
    refine ⟨c, cs, rfl, ?_⟩
    rcases spells_cons_iff.1 h with ⟨-, hc, -⟩ | ⟨-, hc, -⟩ | ⟨d, -, htwo⟩ | ⟨-, hone⟩
    · exact isBlank_of_isWordChar (by simp [isWordChar, hc])
    · exact isBlank_of_isWordChar (by simp [isWordChar, hc])
    · exact (symbol_of_ofTwo? htwo).2
    · exact (symbol_of_ofOne? hone).2

/-- The first character after a piece tells whether a longer piece spells a token. -/
theorem longest_iff {chars more : List Char} (hne : chars ≠ []) :
    Longest chars more ↔ ∀ d ∈ more.head?, ∀ kind : Kind, ¬kind.Spells (chars ++ [d]) := by
  constructor
  · intro h d hd kind hspells
    obtain ⟨ds, rfl⟩ := List.head?_eq_some_iff.1 hd
    exact List.cons_ne_nil d [] (h [d] kind (List.prefix_append [d] ds) hspells)
  · intro h extra kind hextra hspells
    obtain ⟨c, cs, rfl⟩ := List.exists_cons_of_ne_nil hne
    cases extra with
    | nil => rfl
    | cons d ds =>
      obtain ⟨tail, rfl⟩ := hextra
      -- a shorter piece of a literal is a literal, and of a word is a word
      suffices hshort : ∃ k : Kind, k.Spells (c :: cs ++ [d]) by
        obtain ⟨k, hk⟩ := hshort
        exact absurd hk (h d rfl k)
      have hsub : ∀ e ∈ cs ++ [d], e ∈ cs ++ d :: ds := by
        intro e he
        rw [List.append_cons]
        exact List.mem_append_left ds he
      simp only [List.cons_append] at hspells ⊢
      rcases Kind.spells_cons_iff.1 hspells with ⟨rfl, hc, hall⟩ | ⟨-, hc, hall⟩ | ⟨e, he, htwo⟩ |
        ⟨hnil, -⟩
      · exact ⟨.integer, Kind.spells_cons_iff.2 (.inl ⟨rfl, hc, fun e he => hall e (hsub e he)⟩)⟩
      · exact ⟨_, Kind.spells_word hc fun e he => hall e (hsub e he)⟩
      · -- an operator has no third character
        have hlength := congrArg List.length he
        simp only [List.length_append, List.length_cons, List.length_nil] at hlength
        have hcs : cs = [] := List.eq_nil_of_length_eq_zero (by omega)
        have hds : ds = [] := List.eq_nil_of_length_eq_zero (by omega)
        subst hcs hds
        exact ⟨kind, hspells⟩
      · simp at hnil

/-- Texts that begin with the same character make the same pieces longest. -/
theorem Longest.congr {chars more more' : List Char} (hne : chars ≠ []) (h : Longest chars more)
    (hhead : more'.head? = more.head?) : Longest chars more' := by
  rw [longest_iff hne] at h ⊢
  rwa [hhead]

/-! ### The lexer follows the rules -/

theorem takeWhile_append_of_stop {p : Char → Bool} {cs rest : List Char}
    (hcs : ∀ c ∈ cs, p c = true) (hrest : ∀ d ∈ rest.head?, p d = false) :
    (cs ++ rest).takeWhile p = cs ∧ (cs ++ rest).dropWhile p = rest := by
  rw [List.takeWhile_append_of_pos hcs, List.dropWhile_append_of_pos hcs]
  cases rest with
  | nil => simp
  | cons d rest => simp [hrest d rfl]

theorem stops_dropWhile {p : Char → Bool} {cs : List Char} :
    ∀ d ∈ (cs.dropWhile p).head?, p d = false := by
  intro d hd
  have hnot := List.head?_dropWhile_not p cs
  rw [Option.mem_def.1 hd] at hnot
  simpa using hnot

/-- After the digits of a literal no digit comes. -/
theorem longest_digits_iff {c : Char} {cs rest : List Char} (hc : isDigit c = true)
    (hcs : ∀ d ∈ cs, isDigit d = true) :
    Longest (c :: cs) rest ↔ ∀ d ∈ rest.head?, isDigit d = false := by
  rw [longest_iff (List.cons_ne_nil c cs)]
  refine forall₂_congr fun d _ => ?_
  constructor
  · intro h
    refine Bool.eq_false_iff.2 fun hd => h .integer ⟨List.cons_ne_nil _ _, ?_⟩
    rw [List.cons_append, List.forall_mem_cons, List.forall_mem_append]
    exact ⟨hc, hcs, by simpa using hd⟩
  · intro hd kind hspells
    rcases Kind.Spells.of_isWordChar hspells (by simp [isWordChar, hc]) with ⟨-, hall⟩ | ⟨hstart, -⟩
    · rw [hall d (by simp)] at hd
      cases hd
    · -- no word begins with a digit
      rw [not_isDigit_of_isWordStart hstart] at hc
      cases hc

/-- After the characters of a word none comes that could belong to a word. -/
theorem longest_word_iff {c : Char} {cs rest : List Char} (hc : isWordStart c = true)
    (hcs : ∀ d ∈ cs, isWordChar d = true) :
    Longest (c :: cs) rest ↔ ∀ d ∈ rest.head?, isWordChar d = false := by
  rw [longest_iff (List.cons_ne_nil c cs)]
  refine forall₂_congr fun d _ => ?_
  constructor
  · intro h
    refine Bool.eq_false_iff.2 fun hd => ?_
    have hall : ∀ e ∈ cs ++ [d], isWordChar e = true := by
      rw [List.forall_mem_append]
      exact ⟨hcs, by simpa using hd⟩
    exact h _ (Kind.spells_word hc hall)
  · intro hd kind hspells
    rcases Kind.Spells.of_isWordChar hspells (by simp [isWordChar, hc]) with ⟨hdigit, -⟩ | ⟨-, hall⟩
    · -- no literal begins with a letter
      rw [not_isDigit_of_isWordStart hc] at hdigit
      cases hdigit
    · rw [hall d (by simp)] at hd
      cases hd

section Symbol

variable {c : Char} {rest : List Char}

/-- Whether a character that begins no literal and no word stands alone depends on the next one. -/
theorem longest_single_iff (hdigit : isDigit c = false) (hstart : isWordStart c = false) :
    Longest [c] rest ↔ rest.head?.bind (Kind.ofTwo? c) = none := by
  rw [longest_iff (List.cons_ne_nil c []), Option.bind_eq_none_iff]
  refine forall₂_congr fun d _ => ?_
  rw [Option.eq_none_iff_forall_ne_some]
  refine forall_congr' fun kind => not_congr ?_
  rw [List.singleton_append, Kind.spells_cons_iff]
  simp [hdigit, hstart]

theorem longest_pair {d : Char} (hdigit : isDigit c = false) (hstart : isWordStart c = false) :
    Longest [c, d] rest := by
  rw [longest_iff (List.cons_ne_nil c [d])]
  intro e _ kind hspells
  rw [List.cons_append, Kind.spells_cons_iff] at hspells
  simp [hdigit, hstart] at hspells

end Symbol

section Lexeme

variable {pos : Position} {c : Char} {cs rest : List Char} {l : Lexeme}

/-- What the lexer finds spells a token, and no longer piece does. -/
theorem spells_of_lexeme (h : Lexer.lexeme pos c cs = .ok (l, rest)) :
    l.kind.Spells l.chars ∧ Longest l.chars rest := by
  unfold Lexer.lexeme Lexer.symbol at h
  split at h
  · -- a literal goes on as long as there are digits
    rename_i hdigit
    have hall : ∀ d ∈ cs.takeWhile isDigit, isDigit d = true := fun d => List.mem_takeWhile_imp
    cases h
    exact ⟨⟨List.cons_ne_nil _ _, List.forall_mem_cons.2 ⟨hdigit, hall⟩⟩,
      (longest_digits_iff hdigit hall).2 stops_dropWhile⟩
  rename_i hdigit
  rw [Bool.not_eq_true] at hdigit
  split at h
  · -- and a word as long as there are letters and digits
    rename_i hstart
    have hall : ∀ d ∈ cs.takeWhile isWordChar, isWordChar d = true :=
      fun d => List.mem_takeWhile_imp
    cases h
    exact ⟨Kind.spells_word hstart hall, (longest_word_iff hstart hall).2 stops_dropWhile⟩
  rename_i hstart
  rw [Bool.not_eq_true] at hstart
  split at h
  · -- an operator of two characters is tried before one of a single character
    rename_i kind htwo
    obtain ⟨d, hd, htwo⟩ := Option.bind_eq_some_iff.1 htwo
    obtain ⟨ds, rfl⟩ := List.head?_eq_some_iff.1 hd
    cases h
    exact ⟨Kind.spells_cons_iff.2 (.inr (.inr (.inl ⟨d, rfl, htwo⟩))), longest_pair hdigit hstart⟩
  rename_i htwo
  split at h
  · cases h
  split at h
  · rename_i kind hone
    cases h
    exact ⟨Kind.spells_cons_iff.2 (.inr (.inr (.inr ⟨rfl, hone⟩))),
      (longest_single_iff hdigit hstart).2 htwo⟩
  · cases h

/-- The longest piece that spells a token is what the lexer finds. -/
theorem lexeme_of_spells {kind : Kind} (hspells : kind.Spells (c :: cs))
    (hlongest : Longest (c :: cs) rest) :
    Lexer.lexeme pos c (cs ++ rest) = .ok (⟨kind, c :: cs, pos⟩, rest) := by
  rcases Kind.spells_cons_iff.1 hspells with ⟨rfl, hc, hall⟩ | ⟨rfl, hc, hall⟩ | ⟨d, rfl, htwo⟩ |
    ⟨rfl, hone⟩
  · obtain ⟨htake, hdrop⟩ := takeWhile_append_of_stop hall ((longest_digits_iff hc hall).1 hlongest)
    rw [Lexer.lexeme, if_pos hc, htake, hdrop]
  · obtain ⟨htake, hdrop⟩ := takeWhile_append_of_stop hall ((longest_word_iff hc hall).1 hlongest)
    rw [Lexer.lexeme, if_neg (by simp [not_isDigit_of_isWordStart hc]), if_pos hc, htake, hdrop,
      Lexeme.ofWord]
  · obtain ⟨hstart, hdigit⟩ := isWordChar_eq_false_iff.1 (Kind.symbol_of_ofTwo? htwo).1
    simp [Lexer.lexeme, hdigit, hstart, Lexer.symbol, htwo]
  · obtain ⟨hstart, hdigit⟩ := isWordChar_eq_false_iff.1 (Kind.symbol_of_ofOne? hone).1
    have hpair : ¬(c = '&' ∨ c = '|') := by
      rintro (rfl | rfl) <;> cases hone
    rw [longest_single_iff hdigit hstart] at hlongest
    simp [Lexer.lexeme, hdigit, hstart, Lexer.symbol, hlongest, hpair, hone]

/-- The lexer finds the longest piece at the front of a text that spells a token. -/
theorem lexeme_eq_ok_iff :
    Lexer.lexeme pos c cs = .ok (l, rest) ↔
      l.pos = pos ∧ c :: cs = l.chars ++ rest ∧ l.kind.Spells l.chars ∧ Longest l.chars rest := by
  constructor
  · intro h
    exact ⟨pos_of_lexeme h, chars_append_of_lexeme h, spells_of_lexeme h⟩
  · obtain ⟨kind, chars, place⟩ := l
    rintro ⟨rfl, htext, hspells, hlongest⟩
    dsimp only at htext hspells hlongest ⊢
    obtain ⟨d, ds, rfl, -⟩ := hspells.exists_cons
    rw [List.cons_append] at htext
    cases htext
    exact lexeme_of_spells hspells hlongest

end Lexeme

/-- The lexer stops where no piece at the front of a text spells a token. -/
theorem lexeme_eq_error_iff {pos : Position} {c : Char} {cs : List Char} :
    Lexer.lexeme pos c cs = .error (.ofFault c pos) ↔
      ∀ (kind : Kind) (chars : List Char), chars <+: c :: cs → ¬kind.Spells chars := by
  constructor
  · intro h kind chars hpre hspells
    obtain ⟨d, ds, rfl, -⟩ := hspells.exists_cons
    obtain ⟨rfl, hds⟩ := List.cons_prefix_cons.1 hpre
    unfold Lexer.lexeme Lexer.symbol at h
    rcases Kind.spells_cons_iff.1 hspells with ⟨-, hc, -⟩ | ⟨-, hc, -⟩ | ⟨e, rfl, htwo⟩ | ⟨-, hone⟩
    · simp [hc] at h
    · simp [hc, not_isDigit_of_isWordStart hc] at h
    · obtain ⟨hstart, hdigit⟩ := isWordChar_eq_false_iff.1 (Kind.symbol_of_ofTwo? htwo).1
      obtain ⟨es, rfl⟩ := hds
      simp [hdigit, hstart, htwo] at h
    · obtain ⟨hstart, hdigit⟩ := isWordChar_eq_false_iff.1 (Kind.symbol_of_ofOne? hone).1
      have hpair : ¬(d = '&' ∨ d = '|') := by
        rintro (rfl | rfl) <;> cases hone
      simp only [hdigit, hstart, hone, if_neg hpair, Bool.false_eq_true, if_false] at h
      split at h <;> cases h
  · intro h
    cases hl : Lexer.lexeme pos c cs with
    | error e => rw [lexeme_eq_error hl]
    | ok p =>
      obtain ⟨l, rest⟩ := p
      obtain ⟨-, htext, hspells, -⟩ := lexeme_eq_ok_iff.1 hl
      exact absurd hspells (h _ _ ⟨rest, htext.symm⟩)

/-! ### The table follows the rules -/

/-- Whether there are only blanks. -/
def Blank (text : List Char) : Prop :=
  ∀ c ∈ text, isBlank c = true

section Scan

variable {pos start : Position} {text rest : List Char}

/-- Skipping blanks leads to the first character that is none. -/
theorem skipBlanks_eq_iff :
    skipBlanks pos text = (start, rest) ↔
      ∃ blanks, text = blanks ++ rest ∧ Blank blanks ∧ start = pos.after blanks ∧
        ∀ c ∈ rest.head?, isBlank c = false := by
  constructor
  · intro h
    induction text generalizing pos with
    | nil =>
      cases h
      exact ⟨[], rfl, List.forall_mem_nil _, rfl, nofun⟩
    | cons c cs ih =>
      rw [skipBlanks] at h
      split at h
      · rename_i hc
        obtain ⟨blanks, rfl, hblanks, hstart, hrest⟩ := ih h
        exact ⟨c :: blanks, rfl, List.forall_mem_cons.2 ⟨hc, hblanks⟩, hstart, hrest⟩
      · rename_i hc
        cases h
        refine ⟨[], rfl, List.forall_mem_nil _, rfl, ?_⟩
        rintro d ⟨⟩
        exact Bool.eq_false_iff.2 hc
  · rintro ⟨blanks, rfl, hblanks, rfl, hrest⟩
    induction blanks generalizing pos with
    | nil =>
      cases rest with
      | nil => rfl
      | cons c cs => exact skipBlanks_of_not_blank (hrest c rfl) pos cs
    | cons b blanks ih =>
      obtain ⟨hb, hblanks⟩ := List.forall_mem_cons.1 hblanks
      rw [List.cons_append, skipBlanks, if_pos hb, ih hblanks]
      rfl

theorem scan_eq_ending_iff : scan pos text = .ending ↔ Blank text := by
  constructor
  · intro h
    rcases hskip : skipBlanks pos text with ⟨start, _ | ⟨c, cs⟩⟩
    · obtain ⟨blanks, rfl, hblanks, -, -⟩ := skipBlanks_eq_iff.1 hskip
      rwa [List.append_nil]
    · rw [scan_of_cons hskip] at h
      split at h <;> cases h
  · intro h
    have hskip : skipBlanks pos text = (pos.after text, []) :=
      skipBlanks_eq_iff.2 ⟨text, by simp, h, rfl, nofun⟩
    rw [scan, hskip]

theorem scan_eq_lexeme_iff {l : Lexeme} :
    scan pos text = .lexeme l rest ↔
      ∃ blanks, text = blanks ++ (l.chars ++ rest) ∧ Blank blanks ∧ l.pos = pos.after blanks ∧
        l.kind.Spells l.chars ∧ Longest l.chars rest := by
  constructor
  · intro h
    rcases hskip : skipBlanks pos text with ⟨start, _ | ⟨c, cs⟩⟩
    · rw [scan, hskip] at h
      cases h
    · rw [scan_of_cons hskip] at h
      obtain ⟨blanks, rfl, hblanks, rfl, -⟩ := skipBlanks_eq_iff.1 hskip
      split at h <;> cases h
      rename_i hl
      obtain ⟨hpos, htext, hrule⟩ := lexeme_eq_ok_iff.1 hl
      exact ⟨blanks, by rw [htext], hblanks, hpos, hrule⟩
  · rintro ⟨blanks, rfl, hblanks, hpos, hspells, hlongest⟩
    obtain ⟨c, cs, hchars, hc⟩ := hspells.exists_cons
    have hskip : skipBlanks pos (blanks ++ (l.chars ++ rest)) =
        (pos.after blanks, c :: (cs ++ rest)) := by
      refine skipBlanks_eq_iff.2 ⟨blanks, by rw [hchars]; rfl, hblanks, rfl, ?_⟩
      rintro d ⟨⟩
      exact hc
    have hl : Lexer.lexeme (pos.after blanks) c (cs ++ rest) = .ok (l, rest) :=
      lexeme_eq_ok_iff.2 ⟨hpos, by rw [hchars]; rfl, hspells, hlongest⟩
    rw [scan_of_cons hskip, hl]

theorem scan_eq_fault_iff {c : Char} :
    scan pos text = .fault c start ↔
      ∃ blanks cs, text = blanks ++ c :: cs ∧ Blank blanks ∧ start = pos.after blanks ∧
        isBlank c = false ∧ ∀ (kind : Kind) (chars : List Char), chars <+: c :: cs →
          ¬kind.Spells chars := by
  constructor
  · intro h
    rcases hskip : skipBlanks pos text with ⟨at_, _ | ⟨d, cs⟩⟩
    · rw [scan, hskip] at h
      cases h
    · rw [scan_of_cons hskip] at h
      split at h <;> cases h
      rename_i e he
      obtain ⟨blanks, rfl, hblanks, hstart, hc⟩ := skipBlanks_eq_iff.1 hskip
      rw [lexeme_eq_error he] at he
      exact ⟨blanks, cs, rfl, hblanks, hstart, hc c rfl, lexeme_eq_error_iff.1 he⟩
  · rintro ⟨blanks, cs, rfl, hblanks, rfl, hc, hnone⟩
    have hskip : skipBlanks pos (blanks ++ c :: cs) = (pos.after blanks, c :: cs) := by
      refine skipBlanks_eq_iff.2 ⟨blanks, rfl, hblanks, rfl, ?_⟩
      rintro d ⟨⟩
      exact hc
    rw [scan_of_cons hskip, lexeme_eq_error_iff.2 hnone]

end Scan

/-! ### Places -/

/-- The place of the character behind a piece of text: one line more than it has line feeds, and one
column more than there are characters after the last of them. -/
def Position.behind (before : List Char) : Position :=
  ⟨1 + before.count '\n', 1 + (before.reverse.takeWhile (· ≠ '\n')).length⟩

theorem Position.after_start (before : List Char) : start.after before = behind before := by
  -- characters are counted from the left, so the last one is split off
  induction before using List.reverseRecOn with
  | nil => rfl
  | append_singleton cs c ih =>
    rw [after_append, ih, after_cons, after_nil, next]
    by_cases hc : c = '\n'
    · subst hc
      simp [behind, Int.add_assoc]
    · simp [behind, hc, Int.add_assoc]

theorem Position.behind_append (before cs : List Char) :
    (behind before).after cs = behind (before ++ cs) := by
  rw [← after_start, ← after_start, after_append]

/-! ### Lexemes at the front of a source -/

/-- The lexeme `l` stands next in the text that is left of a source: after some blanks, it is the longest
piece that spells a token. It knows its kind and its place in the source. -/
inductive Next (source : List Char) : List Char → Lexeme → List Char → Prop
  | mk {before blanks rest : List Char} {l : Lexeme}
      (within : source = before ++ (blanks ++ (l.chars ++ rest))) (skips : Blank blanks)
      (spells : l.kind.Spells l.chars) (longest : Longest l.chars rest)
      (place : l.pos = .behind (before ++ blanks)) :
      Next source (blanks ++ (l.chars ++ rest)) l rest

/-- After some blanks, a character is left with which no token begins. -/
inductive StopsAt (source : List Char) : List Char → Char → Position → Prop
  | mk {before blanks after : List Char} {c : Char}
      (within : source = before ++ (blanks ++ c :: after)) (skips : Blank blanks)
      (visible : isBlank c = false)
      (none : ∀ (kind : Kind) (chars : List Char), chars <+: c :: after → ¬kind.Spells chars) :
      StopsAt source (blanks ++ c :: after) c (.behind (before ++ blanks))

/-- The lexemes stand at the front of a source, one after the other, and the given text is left. -/
inductive Cuts (source : List Char) : List Lexeme → List Char → Prop
  | start : Cuts source [] source
  | next {ls : List Lexeme} {l : Lexeme} {text rest : List Char} (h : Cuts source ls text)
      (hl : Next source text l rest) : Cuts source (ls ++ [l]) rest

section Cuts

variable {source front text rest : List Char} {ls : List Lexeme} {l : Lexeme}

theorem next_iff_scan (hfront : source = front ++ text) :
    Next source text l rest ↔ scan (.behind front) text = .lexeme l rest := by
  rw [scan_eq_lexeme_iff]
  constructor
  · rintro ⟨within, skips, spells, longest, place⟩
    rename_i before blanks
    obtain rfl : before = front := List.append_cancel_right (within.symm.trans hfront)
    exact ⟨blanks, rfl, skips, by rw [place, Position.behind_append], spells, longest⟩
  · rintro ⟨blanks, rfl, skips, place, spells, longest⟩
    rw [Position.behind_append] at place
    exact ⟨hfront, skips, spells, longest, place⟩

theorem stopsAt_iff_scan {c : Char} {place : Position} (hfront : source = front ++ text) :
    StopsAt source text c place ↔ scan (.behind front) text = .fault c place := by
  rw [scan_eq_fault_iff]
  constructor
  · rintro ⟨within, skips, visible, none⟩
    rename_i before blanks after
    obtain rfl : before = front := List.append_cancel_right (within.symm.trans hfront)
    exact ⟨blanks, after, rfl, skips, by rw [Position.behind_append], visible, none⟩
  · rintro ⟨blanks, after, rfl, skips, rfl, visible, none⟩
    rw [Position.behind_append]
    exact ⟨hfront, skips, visible, none⟩

/-- A lexeme ends where the text after it begins. -/
theorem Next.exists_front (h : Next source text l rest) :
    ∃ front, source = front ++ rest ∧ l.stop = .behind front := by
  obtain ⟨within, skips, spells, longest, place⟩ := h
  rename_i before blanks
  refine ⟨before ++ blanks ++ l.chars, by rw [within]; simp, ?_⟩
  rw [Lexeme.stop, place, Position.behind_append]

theorem Cuts.exists_front (h : Cuts source ls rest) : ∃ front, source = front ++ rest := by
  cases h with
  | start => exact ⟨[], rfl⟩
  | next _ hl =>
    obtain ⟨front, hfront, -⟩ := hl.exists_front
    exact ⟨front, hfront⟩

theorem Cuts.of_append_singleton (h : Cuts source (ls ++ [l]) rest) :
    ∃ text, Cuts source ls text ∧ Next source text l rest := by
  generalize hms : ls ++ [l] = ms at h
  cases h with
  | start => simp at hms
  | @next ls' l' text _ h hl =>
    obtain ⟨rfl, hlast⟩ := List.append_inj' hms rfl
    cases hlast
    exact ⟨text, h, hl⟩

/-- From every place, a source can be cut on up to its end or to a character that begins no token. -/
theorem Cuts.exists_end (h : Cuts source ls text) :
    ∃ ms rest, Cuts source ms rest ∧ (Blank rest ∨ ∃ c place, StopsAt source rest c place) := by
  -- every lexeme uses up some text
  induction hn : text.length using Nat.strongRecOn generalizing ls text with
  | ind n ih =>
    obtain ⟨front, hfront⟩ := h.exists_front
    cases hscan : scan (.behind front) text with
    | ending => exact ⟨ls, text, h, .inl (scan_eq_ending_iff.1 hscan)⟩
    | fault c place => exact ⟨ls, text, h, .inr ⟨c, place, (stopsAt_iff_scan hfront).2 hscan⟩⟩
    | lexeme l rest =>
      have hnext := h.next ((next_iff_scan hfront).2 hscan)
      exact ih rest.length (hn ▸ scan_shorter hscan) hnext rfl

/-- Every source can be cut up to its end or to a character that begins no token. -/
theorem exists_cuts (source : List Char) :
    ∃ ls rest, Cuts source ls rest ∧ (Blank rest ∨ ∃ c place, StopsAt source rest c place) :=
  Cuts.start.exists_end

/-! ### Replacing what follows -/

theorem Next.chars_ne_nil (h : Next source text l rest) : l.chars ≠ [] := by
  obtain ⟨-, -, spells, -, -⟩ := h
  obtain ⟨c, cs, hchars, -⟩ := spells.exists_cons
  rw [hchars]
  exact List.cons_ne_nil c cs

/-- No lexeme goes on into the text after it. -/
theorem Cuts.longest_last (h : Cuts source ls rest) :
    ∀ l ∈ ls.getLast?, l.chars ≠ [] ∧ Longest l.chars rest := by
  intro l hl
  obtain ⟨ls, rfl⟩ := List.getLast?_eq_some_iff.1 hl
  obtain ⟨text, -, hnext⟩ := h.of_append_singleton
  have hne := hnext.chars_ne_nil
  obtain ⟨-, -, -, longest, -⟩ := hnext
  exact ⟨hne, longest⟩

/-- The lexemes at the front of a source stay when what follows them is replaced, unless the last of
them goes on into the new text. -/
theorem Cuts.replace (h : Cuts source ls rest) (hfront : source = front ++ rest) (more : List Char)
    (hlast : ∀ l ∈ ls.getLast?, Longest l.chars more) : Cuts (front ++ more) ls more := by
  induction h generalizing front more with
  | start =>
    obtain rfl : front = [] := List.append_left_eq_self.1 hfront.symm
    exact .start
  | @next ls l text rest h hl ih =>
    have hne := hl.chars_ne_nil
    obtain ⟨within, skips, spells, longest, place⟩ := hl
    rename_i before blanks
    have hfront' : front = before ++ (blanks ++ l.chars) := by
      rw [within] at hfront
      simpa [← List.append_assoc] using hfront.symm
    -- the lexemes before are followed by the same character as they were
    have hhead : (blanks ++ (l.chars ++ more)).head? = (blanks ++ (l.chars ++ rest)).head? := by
      obtain ⟨c, cs, hchars⟩ := List.exists_cons_of_ne_nil hne
      cases blanks <;> simp [hchars]
    have hcuts := ih within (blanks ++ (l.chars ++ more)) fun m hm => by
      obtain ⟨hm, hlongest⟩ := h.longest_last m hm
      exact hlongest.congr hm hhead
    have hsource : front ++ more = before ++ (blanks ++ (l.chars ++ more)) := by
      rw [hfront']
      simp
    rw [hsource]
    exact .next hcuts ⟨rfl, skips, spells, hlast l (by simp), place⟩

end Cuts

end Abacus
