import Abacus.Proofs.Computation
import Abacus.Token.Terminal

/-!
# Two ways to cut a text

The lexer decides by the first characters of a text what token stands there; the table of terminals
tries its entries one after the other. Both cut the same lexemes and stop at the same characters, so
that the tokens of a text are the lexemes of the table, each of them checked.

## Main results

* `scan_eq` — the table finds the lexeme that the lexer finds
* `tokensFrom_eq_ok_iff` — the tokens of a text are its lexemes, all of which fit
-/

namespace Abacus

/-! ### Operators and brackets -/

/-- The operators that are spelled with two characters. -/
def Kind.twoCharacter : List Kind :=
  [.or, .and, .eq, .ne, .ge, .le]

/-- The operators, brackets and separators that are spelled with one character. -/
def Kind.oneCharacter : List Kind :=
  [.gt, .lt, .plus, .minus, .star, .slash, .caret, .lparen, .rparen, .lbracket, .rbracket, .lbrace,
    .rbrace, .bang, .assign, .semicolon, .comma]

theorem terminals_eq : terminals =
    .literal :: .word :: (Kind.twoCharacter ++ Kind.oneCharacter).map Terminal.fixed :=
  rfl

theorem Kind.ofTwo?_eq_some_iff {c d : Char} {kind : Kind} :
    ofTwo? c d = some kind ↔ kind ∈ twoCharacter ∧ kind.spelling.toList = [c, d] := by
  constructor
  · intro h
    unfold ofTwo? at h
    split at h <;> cases h <;> exact ⟨by decide, rfl⟩
  · rintro ⟨hmem, hspell⟩
    simp only [twoCharacter, List.mem_cons, List.not_mem_nil, or_false] at hmem
    rcases hmem with rfl | rfl | rfl | rfl | rfl | rfl <;> cases hspell <;> rfl

theorem Kind.ofOne?_eq_some_iff {c : Char} {kind : Kind} :
    ofOne? c = some kind ↔ kind ∈ oneCharacter ∧ kind.spelling.toList = [c] := by
  constructor
  · intro h
    unfold ofOne? at h
    split at h <;> cases h <;> exact ⟨by decide, rfl⟩
  · rintro ⟨hmem, hspell⟩
    simp only [oneCharacter, List.mem_cons, List.not_mem_nil, or_false] at hmem
    rcases hmem with rfl | rfl | rfl | rfl | rfl | rfl | rfl | rfl | rfl | rfl | rfl | rfl | rfl |
      rfl | rfl | rfl | rfl <;> cases hspell <;> rfl

/-- A search for the one member of a list that an option names. -/
theorem find?_eq_of_iff {α : Type} {l : List α} {p : α → Bool} {x : Option α}
    (h : ∀ a ∈ l, p a = true ↔ x = some a) (hmem : ∀ a, x = some a → a ∈ l) : l.find? p = x := by
  cases x with
  | none =>
    rw [List.find?_eq_none]
    intro a ha hp
    cases (h a ha).1 hp
  | some a =>
    have ha := hmem a rfl
    have hp := (h a ha).2 rfl
    obtain ⟨b, hb⟩ : ∃ b, l.find? p = some b := by
      rw [← Option.isSome_iff_exists, List.find?_isSome]
      exact ⟨a, ha, hp⟩
    rw [hb]
    exact ((h b (List.mem_of_find?_eq_some hb)).1 (List.find?_some hb)).symm

theorem width_fixed_pos {kind : Kind} {text : List Char} (h : kind.spelling.toList ≠ []) :
    0 < (Terminal.fixed kind).width text ↔ kind.spelling.toList <+: text := by
  rw [← List.isPrefixOf_iff_prefix]
  simp only [Terminal.fixed]
  split
  · rename_i hpre
    simp [hpre, List.length_pos_iff, h]
  · rename_i hpre
    simp [hpre]

theorem find?_two (c : Char) (cs : List Char) :
    (Kind.twoCharacter.find? fun kind => 0 < (Terminal.fixed kind).width (c :: cs)) =
      cs.head?.bind (Kind.ofTwo? c) := by
  refine find?_eq_of_iff (fun kind hkind => ?_) fun kind h => ?_
  · obtain ⟨a, b, hab⟩ : ∃ a b, kind.spelling.toList = [a, b] := by
      simp only [Kind.twoCharacter, List.mem_cons, List.not_mem_nil, or_false] at hkind
      rcases hkind with rfl | rfl | rfl | rfl | rfl | rfl <;> exact ⟨_, _, rfl⟩
    rw [decide_eq_true_iff, width_fixed_pos (by simp [hab]), hab]
    cases cs with
    | nil => simp
    | cons d cs => simp [Kind.ofTwo?_eq_some_iff, hkind, hab]
  · obtain ⟨d, -, hd⟩ := Option.bind_eq_some_iff.1 h
    exact (Kind.ofTwo?_eq_some_iff.1 hd).1

theorem find?_one (c : Char) (cs : List Char) :
    (Kind.oneCharacter.find? fun kind => 0 < (Terminal.fixed kind).width (c :: cs)) =
      Kind.ofOne? c := by
  refine find?_eq_of_iff (fun kind hkind => ?_) fun kind h => (Kind.ofOne?_eq_some_iff.1 h).1
  obtain ⟨a, ha⟩ : ∃ a, kind.spelling.toList = [a] := by
    simp only [Kind.oneCharacter, List.mem_cons, List.not_mem_nil, or_false] at hkind
    rcases hkind with rfl | rfl | rfl | rfl | rfl | rfl | rfl | rfl | rfl | rfl | rfl | rfl | rfl |
      rfl | rfl | rfl | rfl <;> exact ⟨_, rfl⟩
  rw [decide_eq_true_iff, width_fixed_pos (by simp [ha]), ha, Kind.ofOne?_eq_some_iff, ha]
  simp [hkind]

/-! ### Lexemes -/

/-- The table decides by the first characters of a text, as the lexer does. -/
theorem terminalAt?_cons (c : Char) (cs : List Char) :
    terminalAt? (c :: cs) =
      if isDigit c then some .literal
      else if isWordStart c then some .word
      else ((cs.head?.bind (Kind.ofTwo? c)).or (Kind.ofOne? c)).map Terminal.fixed := by
  have hliteral : decide (0 < Terminal.literal.width (c :: cs)) = isDigit c := by
    cases hc : isDigit c <;> simp [Terminal.literal, hc]
  have hword : decide (0 < Terminal.word.width (c :: cs)) = isWordStart c := by
    cases hc : isWordStart c <;> simp [Terminal.word, hc, isWordChar]
  -- literals and words come first, then all spellings of two characters, then those of one
  rw [terminalAt?, terminals_eq, List.find?_cons, hliteral, List.find?_cons, hword]
  cases isDigit c
  · cases isWordStart c
    · rw [List.find?_map, Function.comp_def, List.find?_append, find?_two, find?_one]
      rfl
    · rfl
  · rfl

theorem take_length_takeWhile (p : Char → Bool) (l : List Char) :
    l.take (l.takeWhile p).length = l.takeWhile p := by
  induction l with
  | nil => rfl
  | cons a l ih => cases ha : p a <;> simp [ha, ih]

theorem drop_length_takeWhile (p : Char → Bool) (l : List Char) :
    l.drop (l.takeWhile p).length = l.dropWhile p := by
  induction l with
  | nil => rfl
  | cons a l ih => cases ha : p a <;> simp [ha, ih]

theorem width_of_ofTwo? {c : Char} {cs : List Char} {kind : Kind}
    (h : cs.head?.bind (Kind.ofTwo? c) = some kind) :
    (Terminal.fixed kind).width (c :: cs) = 2 ∧ (c :: cs).take 2 = c :: cs.take 1 := by
  obtain ⟨d, hd, hkind⟩ := Option.bind_eq_some_iff.1 h
  obtain ⟨ds, rfl⟩ := List.head?_eq_some_iff.1 hd
  simp [Terminal.fixed, (Kind.ofTwo?_eq_some_iff.1 hkind).2]

theorem width_of_ofOne? {c : Char} {kind : Kind} (h : Kind.ofOne? c = some kind) (cs : List Char) :
    (Terminal.fixed kind).width (c :: cs) = 1 := by
  simp [Terminal.fixed, (Kind.ofOne?_eq_some_iff.1 h).2]

/-- Operators and brackets are no words. -/
theorem ofChars_fixed {kind : Kind} (h : kind ∈ Kind.twoCharacter ++ Kind.oneCharacter)
    (chars : List Char) (pos : Position) :
    Lexeme.ofChars (Terminal.fixed kind).kind chars pos = ⟨kind, chars, pos⟩ := by
  refine if_neg ?_
  rintro rfl
  exact absurd h (by decide)

/-- The table finds the lexeme that the lexer finds, and a fault where the lexer finds none. -/
theorem scan_of_cons {pos start : Position} {text cs : List Char} {c : Char}
    (h : skipBlanks pos text = (start, c :: cs)) :
    scan pos text =
      match Lexer.lexeme start c cs with
      | .ok (l, rest) => .lexeme l rest
      | .error _ => .fault c start := by
  rw [scan, h]
  dsimp only
  rw [terminalAt?_cons]
  cases hdigit : isDigit c with
  | true =>
    -- a literal: all digits at the front
    simp only [Lexer.lexeme, hdigit, if_true, Terminal.literal]
    rw [take_length_takeWhile, drop_length_takeWhile]
    simp [hdigit, Lexeme.ofChars]
  | false =>
  cases hword : isWordStart c with
  | true =>
    -- a word: all word characters at the front
    simp only [Lexer.lexeme, hdigit, hword, Bool.false_eq_true, if_true, if_false, Terminal.word,
      List.head?_cons, Option.any_some]
    rw [take_length_takeWhile, drop_length_takeWhile]
    simp [hword, isWordChar, Lexeme.ofChars]
  | false =>
  simp only [Lexer.lexeme, hdigit, hword, Bool.false_eq_true, if_false, Lexer.symbol]
  cases htwo : cs.head?.bind (Kind.ofTwo? c) with
  | some kind =>
    obtain ⟨d, -, hd⟩ := Option.bind_eq_some_iff.1 htwo
    have hmem := List.mem_append_left Kind.oneCharacter (Kind.ofTwo?_eq_some_iff.1 hd).1
    obtain ⟨hwidth, htake⟩ := width_of_ofTwo? htwo
    simp only [Option.some_or, Option.map_some, hwidth, htake, List.drop_succ_cons,
      ofChars_fixed hmem]
  | none =>
    cases hone : Kind.ofOne? c with
    | some kind =>
      have hmem := List.mem_append_right Kind.twoCharacter (Kind.ofOne?_eq_some_iff.1 hone).1
      -- the characters that have to come in pairs spell nothing alone
      have hpair : ¬(c = '&' ∨ c = '|') := by
        rintro (rfl | rfl) <;> cases hone
      simp only [Option.none_or, Option.map_some, width_of_ofOne? hone, ofChars_fixed hmem,
        if_neg hpair]
      rfl
    | none =>
      simp only [Option.none_or, Option.map_none]
      by_cases hpair : c = '&' ∨ c = '|'
      · rw [if_pos hpair]
      · rw [if_neg hpair]

/-- The lexer finds no lexeme only at a character that begins none. -/
theorem lexeme_eq_error {pos : Position} {c : Char} {cs : List Char} {e : LexError}
    (h : Lexer.lexeme pos c cs = .error e) : e = .ofFault c pos := by
  unfold Lexer.lexeme Lexer.symbol at h
  unfold LexError.ofFault
  repeat' split at h
  all_goals cases h
  · rename_i hpair
    rw [if_pos hpair]
  · rename_i hpair _ _
    rw [if_neg hpair]

/-- A lexeme knows where it begins. -/
theorem pos_of_lexeme {pos : Position} {c : Char} {cs rest : List Char} {l : Lexeme}
    (h : Lexer.lexeme pos c cs = .ok (l, rest)) : l.pos = pos := by
  unfold Lexer.lexeme Lexer.symbol at h
  repeat' split at h
  all_goals cases h
  all_goals rfl

/-! ### Tokens -/

/-- The lexer takes what the table finds, and checks it. -/
theorem tokensFrom_eq (pos : Position) (text : List Char) :
    Lexer.tokensFrom pos text =
      match scan pos text with
      | .ending => .ok []
      | .fault c start => .error (.ofFault c start)
      | .lexeme l rest => do
        let t ← l.token
        let ts ← Lexer.tokensFrom l.stop rest
        return t :: ts := by
  rw [Lexer.tokensFrom]
  split
  · rename_i p hs
    rw [scan, hs]
  · rename_i start c cs hs
    rw [scan_of_cons hs]
    split
    · rename_i e he
      rw [he, lexeme_eq_error he]
    · rename_i l rest hl
      simp only [hl, Lexeme.stop, pos_of_lexeme hl]

theorem tokensFrom_ending {pos : Position} {text : List Char} (h : scan pos text = .ending) :
    Lexer.tokensFrom pos text = .ok [] := by
  rw [tokensFrom_eq, h]

theorem tokensFrom_lexeme {pos : Position} {text rest : List Char} {l : Lexeme} {t : Token}
    {ts : List Token} (h : scan pos text = .lexeme l rest) (ht : l.token = .ok t)
    (hts : Lexer.tokensFrom l.stop rest = .ok ts) : Lexer.tokensFrom pos text = .ok (t :: ts) := by
  rw [tokensFrom_eq, h]
  dsimp only
  rw [ht, hts]
  rfl

theorem token_eq_ok_iff {l : Lexeme} {t : Token} :
    l.token = .ok t ↔ l.token = .ok l.bare ∧ t = l.bare := by
  unfold Lexeme.token
  repeat' split
  all_goals simp [eq_comm]

/-- The tokens of a text are its lexemes, all of which fit. -/
theorem tokensFrom_eq_ok_iff (pos : Position) (text : List Char) (ts : List Token) :
    Lexer.tokensFrom pos text = .ok ts ↔
      ∃ ls, lexemesFrom pos text = .ok ls ∧ (∀ l ∈ ls, l.token = .ok l.bare) ∧
        ts = ls.map Lexeme.bare := by
  -- over the calls of the table, which takes the same lexemes
  fun_induction lexemesFrom pos text generalizing ts with
  | case1 pos text h =>
    rw [tokensFrom_ending h]
    simp [eq_comm]
  | case2 pos text c start h =>
    rw [tokensFrom_eq, h]
    simp
  | case3 pos text l rest h ih =>
    constructor
    · intro hok
      rw [tokensFrom_eq, h] at hok
      obtain ⟨t, ht, hok⟩ := bind_eq_ok_iff.1 hok
      obtain ⟨us, hus, hend⟩ := bind_eq_ok_iff.1 hok
      cases hend
      obtain ⟨hfits, rfl⟩ := token_eq_ok_iff.1 ht
      obtain ⟨ls, hls, hall, rfl⟩ := (ih us).1 hus
      refine ⟨l :: ls, by rw [hls]; rfl, ?_, rfl⟩
      simpa [hfits] using hall
    · rintro ⟨ls, hls, hall, rfl⟩
      obtain ⟨us, hus, hend⟩ := bind_eq_ok_iff.1 hls
      cases hend
      rw [List.forall_mem_cons] at hall
      exact tokensFrom_lexeme h hall.1 ((ih _).2 ⟨us, hus, hall.2, rfl⟩)

end Abacus
