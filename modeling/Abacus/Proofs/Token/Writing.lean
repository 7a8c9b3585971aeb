import Abacus.Proofs.Token.Scanning
import Mathlib.Data.List.TakeWhile

/-!
# Texts made of tokens

The tokens of a text carry what their lexemes spell: literals a number in range, identifiers a name, all
others nothing. Conversely such tokens can be written down, with a blank between any two of them, and are
found again when the text is cut.

Both this and the joining of two texts rest on one fact: where a character stands that no token goes on
with, a text is cut as its two parts are.

## Main definitions

* `IsName` — a word that is not reserved
* `Payload.IsLiteral`, `Payload.IsIdentifier` — what literals and identifiers of a text carry
* `Token.IsSourced` — the token carries what a token of a text carries
* `Token.content` — kind and payload of a token, which say everything but its place
* `Separates` — the character ends every token before it
* `Token.Spaced` — the text is that of the tokens, with blanks between any two of them
* `Token.write` — tokens as text

## Main results

* `isSourced_of_tokensFrom` — what the tokens of a text carry
* `tokensFrom_append` — a text is cut at a separating character as its parts are
* `exists_tokensFrom_eq_of_content` — where a text begins does not matter to its tokens
* `exists_tokensFrom_spaced` — tokens are found again in every text that has blanks between them
* `exists_tokenize_write` — written tokens are found again
-/

namespace Abacus

/-! ### What the tokens of a text carry -/

/-- A word that is not reserved: a letter or an underscore, then letters, underscores and digits. -/
structure IsName (word : String) : Prop where
  begins : ∃ c ∈ word.toList.head?, isWordStart c = true
  chars : ∀ c ∈ word.toList, isWordChar c = true
  free : Kind.keyword? word = none

/-- What a literal of a text carries: a number without a sign, in range. -/
def Payload.IsLiteral (payload : Option Payload) : Prop :=
  ∃ n : Nat, (n : Int) ≤ maxInt ∧ payload = some (.int n)

/-- What an identifier of a text carries: a name. -/
def Payload.IsIdentifier (payload : Option Payload) : Prop :=
  ∃ word, IsName word ∧ payload = some (.text word)

/-- Whether a token carries what a token of a text carries. -/
def Token.IsSourced (t : Token) : Prop :=
  match t.kind with
  | .integer => Payload.IsLiteral t.payload
  | .ident => Payload.IsIdentifier t.payload
  | _ => t.payload = none

/-- The kinds that are always spelled in the same way and are no words. -/
def Kind.symbols : List Kind :=
  twoCharacter ++ oneCharacter

theorem symbol_eq_ok {pos : Position} {c : Char} {cs rest : List Char} {l : Lexeme}
    (h : Lexer.symbol pos c cs = .ok (l, rest)) :
    l.kind ∈ Kind.symbols ∧ c :: cs = l.chars ++ rest := by
  unfold Lexer.symbol at h
  split at h
  · rename_i kind htwo
    cases h
    obtain ⟨d, hd, hkind⟩ := Option.bind_eq_some_iff.1 htwo
    obtain ⟨ds, rfl⟩ := List.head?_eq_some_iff.1 hd
    exact ⟨List.mem_append_left _ (Kind.ofTwo?_eq_some_iff.1 hkind).1, rfl⟩
  · split at h
    · cases h
    · split at h
      · rename_i kind hone
        cases h
        exact ⟨List.mem_append_right _ (Kind.ofOne?_eq_some_iff.1 hone).1, rfl⟩
      · cases h

/-- A lexeme is a literal, a word or a symbol. -/
theorem lexeme_cases {pos : Position} {c : Char} {cs rest : List Char} {l : Lexeme}
    (h : Lexer.lexeme pos c cs = .ok (l, rest)) :
    (l = ⟨.integer, c :: cs.takeWhile isDigit, pos⟩ ∧ rest = cs.dropWhile isDigit) ∨
    (isWordStart c = true ∧ l = .ofWord (c :: cs.takeWhile isWordChar) pos ∧
      rest = cs.dropWhile isWordChar) ∨
    (l.kind ∈ Kind.symbols ∧ c :: cs = l.chars ++ rest) := by
  unfold Lexer.lexeme at h
  split at h
  · cases h
    exact .inl ⟨rfl, rfl⟩
  · split at h
    · rename_i hword
      cases h
      exact .inr (.inl ⟨hword, rfl, rfl⟩)
    · exact .inr (.inr (symbol_eq_ok h))

/-- A lexeme and the text after it are the whole text. -/
theorem chars_append_of_lexeme {pos : Position} {c : Char} {cs rest : List Char} {l : Lexeme}
    (h : Lexer.lexeme pos c cs = .ok (l, rest)) : c :: cs = l.chars ++ rest := by
  rcases lexeme_cases h with ⟨rfl, rfl⟩ | ⟨-, rfl, rfl⟩ | ⟨-, htext⟩
  · simp
  · simp [Lexeme.ofWord]
  · exact htext

theorem kind_ofWord_eq_ident_iff {word : List Char} {pos : Position} :
    (Lexeme.ofWord word pos).kind = .ident ↔ Kind.keyword? (String.ofList word) = none := by
  rw [Lexeme.ofWord]
  cases hkey : Kind.keyword? (String.ofList word) with
  | none => simp
  | some kind =>
    -- an identifier is no keyword
    have hmem := List.mem_of_find?_eq_some hkey
    simp only [Option.getD_some, reduceCtorEq, iff_false]
    rintro rfl
    exact absurd hmem (by decide)

/-- The word of an identifier is a name. -/
theorem isName_of_lexeme {pos : Position} {c : Char} {cs rest : List Char} {l : Lexeme}
    (h : Lexer.lexeme pos c cs = .ok (l, rest)) (hkind : l.kind = .ident) :
    IsName (String.ofList l.chars) := by
  rcases lexeme_cases h with ⟨rfl, -⟩ | ⟨hstart, rfl, -⟩ | ⟨hmem, -⟩
  · cases hkind
  · refine ⟨⟨c, by simp [Lexeme.ofWord], hstart⟩, ?_, kind_ofWord_eq_ident_iff.1 hkind⟩
    have hchar : isWordChar c = true := by simp [isWordChar, hstart]
    intro d hd
    simp only [Lexeme.ofWord, String.toList_ofList, List.mem_cons] at hd
    rcases hd with rfl | hd
    · exact hchar
    · exact List.mem_takeWhile_imp hd
  · rw [hkind] at hmem
    exact absurd hmem (by decide)

theorem payload_eq_none {l : Lexeme} (hint : l.kind ≠ .integer) (hname : l.kind ≠ .ident) :
    l.payload = none := by
  unfold Lexeme.payload
  split <;> simp_all

/-- The token of a lexeme that fits carries what a token of a text carries. -/
theorem isSourced_bare {pos : Position} {c : Char} {cs rest : List Char} {l : Lexeme}
    (h : Lexer.lexeme pos c cs = .ok (l, rest)) (hfits : l.token = .ok l.bare) :
    l.bare.IsSourced := by
  unfold Token.IsSourced
  have hkind : l.bare.kind = l.kind := rfl
  have hpayload : l.bare.payload = l.payload := rfl
  rw [hkind, hpayload]
  split
  · -- the check of a literal bounds its number
    rename_i hint
    refine ⟨Nat.ofDigitChars 10 l.chars 0, ?_, by rw [Lexeme.payload, hint]⟩
    unfold Lexeme.token at hfits
    split at hfits
    · cases hfits
    · split at hfits
      · cases hfits
      · rename_i hsmall
        exact Int.not_lt.1 fun hlarge => hsmall ⟨hint, hlarge⟩
  · rename_i hname
    exact ⟨_, isName_of_lexeme h hname, by rw [Lexeme.payload, hname]⟩
  · exact payload_eq_none ‹_› ‹_›

/-- All tokens of a text carry what their lexemes spell. -/
theorem isSourced_of_tokensFrom {pos : Position} {text : List Char} {ts : List Token}
    (h : Lexer.tokensFrom pos text = .ok ts) : ∀ t ∈ ts, t.IsSourced := by
  fun_induction Lexer.tokensFrom pos text generalizing ts with
  | case1 =>
    cases h
    exact List.forall_mem_nil _
  | case2 => cases h
  | case3 pos text start c cs hskip l rest hl ih =>
    obtain ⟨t, ht, h⟩ := bind_eq_ok_iff.1 h
    obtain ⟨us, hus, hend⟩ := bind_eq_ok_iff.1 h
    cases hend
    obtain ⟨hfits, rfl⟩ := token_eq_ok_iff.1 ht
    exact List.forall_mem_cons.2 ⟨isSourced_bare hl hfits, ih hus⟩

/-! ### Joining texts -/

/-- Whether a character ends every token before it: no word or literal goes on with it, and it is the
second character of no operator. -/
structure Separates (d : Char) : Prop where
  word : isWordChar d = false
  pair : ∀ c, Kind.ofTwo? c d = none

/-- Bars, ampersands and equals signs are the second characters of operators. -/
theorem separates_of_ne {d : Char} (hword : isWordChar d = false) (hbar : d ≠ '|') (hand : d ≠ '&')
    (heq : d ≠ '=') : Separates d := by
  refine ⟨hword, fun c => ?_⟩
  unfold Kind.ofTwo?
  split <;> simp_all

theorem separates_semicolon : Separates ';' :=
  separates_of_ne rfl nofun nofun nofun

theorem separates_of_isBlank {d : Char} (h : isBlank d = true) : Separates d := by
  simp only [isBlank, Bool.or_eq_true, decide_eq_true_eq] at h
  rcases h with ((rfl | rfl) | rfl) | rfl <;> exact separates_of_ne rfl nofun nofun nofun

section Join

variable {d : Char}

theorem Separates.digit (hd : Separates d) : isDigit d = false := by
  have hword := hd.word
  rw [isWordChar, Bool.or_eq_false_iff] at hword
  exact hword.2

theorem takeWhile_append_stop {p : Char → Bool} (hd : p d = false) (cs rest : List Char) :
    (cs ++ d :: rest).takeWhile p = cs.takeWhile p := by
  induction cs with
  | nil => simp [hd]
  | cons c cs ih => cases hc : p c <;> simp [hc, ih]

theorem dropWhile_append_stop {p : Char → Bool} (hd : p d = false) (cs rest : List Char) :
    (cs ++ d :: rest).dropWhile p = cs.dropWhile p ++ d :: rest := by
  induction cs with
  | nil => simp [hd]
  | cons c cs ih => cases hc : p c <;> simp [hc, ih]

theorem symbol_append (hd : Separates d) (pos : Position) (c : Char) (cs rest : List Char) :
    Lexer.symbol pos c (cs ++ d :: rest) =
      (Lexer.symbol pos c cs).map fun p => (p.1, p.2 ++ d :: rest) := by
  -- a second character is there already, or the separating one comes second and pairs with nothing
  have hpair : (cs ++ d :: rest).head?.bind (Kind.ofTwo? c) = cs.head?.bind (Kind.ofTwo? c) := by
    cases cs with
    | nil => exact hd.pair c
    | cons e es => rfl
  rw [Lexer.symbol, Lexer.symbol, hpair]
  split
  · rename_i kind htwo
    cases cs with
    | nil => cases htwo
    | cons e es => simp [Except.map]
  · split
    · rfl
    · split <;> rfl

/-- A separating character after a text does not change its first lexeme. -/
theorem lexeme_append (hd : Separates d) (pos : Position) (c : Char) (cs rest : List Char) :
    Lexer.lexeme pos c (cs ++ d :: rest) =
      (Lexer.lexeme pos c cs).map fun p => (p.1, p.2 ++ d :: rest) := by
  unfold Lexer.lexeme
  rw [takeWhile_append_stop hd.digit, dropWhile_append_stop hd.digit, takeWhile_append_stop hd.word,
    dropWhile_append_stop hd.word]
  split
  · rfl
  · split
    · rfl
    · exact symbol_append hd pos c cs rest

theorem skipBlanks_append (pos : Position) (text more : List Char) :
    skipBlanks pos (text ++ more) =
      match skipBlanks pos text with
      | (start, []) => skipBlanks start more
      | (start, c :: cs) => (start, c :: (cs ++ more)) := by
  induction text generalizing pos with
  | nil => rfl
  | cons c cs ih =>
    rw [List.cons_append, skipBlanks, skipBlanks]
    split
    · exact ih _
    · rfl

/-- Skipping blanks leads to where they end. -/
theorem after_skipBlanks {pos start : Position} {text rest : List Char}
    (h : skipBlanks pos text = (start, rest)) : pos.after text = start.after rest := by
  induction text generalizing pos with
  | nil =>
    cases h
    rfl
  | cons c cs ih =>
    rw [skipBlanks] at h
    split at h
    · exact ih h
    · cases h
      rfl

/-- The tokens of a text are those after the blanks at its front. -/
theorem tokensFrom_congr {pos pos' : Position} {text text' : List Char}
    (h : skipBlanks pos text = skipBlanks pos' text') :
    Lexer.tokensFrom pos text = Lexer.tokensFrom pos' text' := by
  rw [tokensFrom_eq, tokensFrom_eq pos' text', scan, scan, h]

theorem tokensFrom_of_lexeme {pos start : Position} {text cs rest : List Char} {c : Char}
    {l : Lexeme} (hskip : skipBlanks pos text = (start, c :: cs))
    (hl : Lexer.lexeme start c cs = .ok (l, rest)) :
    Lexer.tokensFrom pos text = do
      let t ← l.token
      let ts ← Lexer.tokensFrom (start.after l.chars) rest
      return t :: ts := by
  rw [tokensFrom_eq, scan_of_cons hskip, hl]
  simp only [Lexeme.stop, pos_of_lexeme hl]

/-- Where a separating character stands, a text is cut as its two parts are. -/
theorem tokensFrom_append (hd : Separates d) (pos : Position) (text rest : List Char) :
    Lexer.tokensFrom pos (text ++ d :: rest) = do
      let ts ← Lexer.tokensFrom pos text
      let us ← Lexer.tokensFrom (pos.after text) (d :: rest)
      return ts ++ us := by
  -- token by token of the first part
  fun_induction Lexer.tokensFrom pos text with
  | case1 pos text start hskip =>
    have hjoin : skipBlanks pos (text ++ d :: rest) = skipBlanks (pos.after text) (d :: rest) := by
      rw [skipBlanks_append, hskip, after_skipBlanks hskip]
      rfl
    rw [tokensFrom_congr hjoin]
    cases Lexer.tokensFrom (pos.after text) (d :: rest) <;> rfl
  | case2 pos text start c cs hskip e he =>
    have hjoin : skipBlanks pos (text ++ d :: rest) = (start, c :: (cs ++ d :: rest)) := by
      rw [skipBlanks_append, hskip]
    rw [tokensFrom_eq, scan_of_cons hjoin, lexeme_append hd, he, lexeme_eq_error he]
    rfl
  | case3 pos text start c cs hskip l rest' hl ih =>
    have hjoin : skipBlanks pos (text ++ d :: rest) = (start, c :: (cs ++ d :: rest)) := by
      rw [skipBlanks_append, hskip]
    have hl' : Lexer.lexeme start c (cs ++ d :: rest) = .ok (l, rest' ++ d :: rest) := by
      rw [lexeme_append hd, hl]
      rfl
    have hafter : pos.after text = (start.after l.chars).after rest' := by
      rw [after_skipBlanks hskip, chars_append_of_lexeme hl, Position.after_append]
    rw [tokensFrom_of_lexeme hjoin hl', ih, hafter]
    cases l.token with
    | error e => rfl
    | ok t =>
      cases Lexer.tokensFrom (start.after l.chars) rest' with
      | error e => rfl
      | ok ts => cases Lexer.tokensFrom ((start.after l.chars).after rest') (d :: rest) <;> rfl

end Join

/-! ### Tokens without their places -/

/-- What a token is, wherever it stands. -/
def Token.content (t : Token) : Kind × Option Payload :=
  (t.kind, t.payload)

theorem skipBlanks_move {pos start : Position} {text rest : List Char}
    (h : skipBlanks pos text = (start, rest)) (pos' : Position) :
    ∃ start', skipBlanks pos' text = (start', rest) := by
  induction text generalizing pos pos' with
  | nil =>
    cases h
    exact ⟨pos', rfl⟩
  | cons c cs ih =>
    rw [skipBlanks] at h ⊢
    split at h
    · rename_i hblank
      rw [if_pos hblank]
      exact ih h _
    · rename_i hblank
      cases h
      rw [if_neg hblank]
      exact ⟨pos', rfl⟩

theorem lexeme_move {pos : Position} {c : Char} {cs rest : List Char} {l : Lexeme}
    (h : Lexer.lexeme pos c cs = .ok (l, rest)) (pos' : Position) :
    Lexer.lexeme pos' c cs = .ok ({ l with pos := pos' }, rest) := by
  unfold Lexer.lexeme Lexer.symbol at h ⊢
  split at h
  · rename_i hdigit
    cases h
    rw [if_pos hdigit]
  · rename_i hdigit
    rw [if_neg hdigit]
    split at h
    · rename_i hword
      cases h
      rw [if_pos hword]
      rfl
    · rename_i hword
      rw [if_neg hword]
      split at h
      · cases h
        rfl
      · split at h
        · cases h
        · rename_i hpair
          rw [if_neg hpair]
          split at h
          · cases h
            rfl
          · cases h

theorem token_move {l : Lexeme} (h : l.token = .ok l.bare) (pos : Position) :
    ({ l with pos := pos } : Lexeme).token = .ok { l.bare with pos := pos } := by
  unfold Lexeme.token at h ⊢
  split at h
  · cases h
  · rename_i hdigits
    split at h
    · cases h
    · rename_i hsize
      rw [if_neg hdigits, if_neg hsize]
      rfl

/-- A text has the same tokens wherever it begins, but for their places. -/
theorem exists_tokensFrom_eq_of_content {pos : Position} {text : List Char} {ts : List Token}
    (h : Lexer.tokensFrom pos text = .ok ts) (pos' : Position) :
    ∃ us, Lexer.tokensFrom pos' text = .ok us ∧ us.map Token.content = ts.map Token.content := by
  fun_induction Lexer.tokensFrom pos text generalizing ts pos' with
  | case1 pos text start hskip =>
    cases h
    obtain ⟨start', hskip'⟩ := skipBlanks_move hskip pos'
    have hend : scan pos' text = .ending := by rw [scan, hskip']
    exact ⟨[], tokensFrom_ending hend, rfl⟩
  | case2 => cases h
  | case3 pos text start c cs hskip l rest hl ih =>
    obtain ⟨t, ht, h⟩ := bind_eq_ok_iff.1 h
    obtain ⟨vs, hvs, hend⟩ := bind_eq_ok_iff.1 h
    cases hend
    obtain ⟨hfits, rfl⟩ := token_eq_ok_iff.1 ht
    obtain ⟨start', hskip'⟩ := skipBlanks_move hskip pos'
    obtain ⟨us, hus, hcontent⟩ := ih hvs (start'.after l.chars)
    refine ⟨{ l.bare with pos := start' } :: us, ?_, ?_⟩
    · rw [tokensFrom_of_lexeme hskip' (lexeme_move hl start'), token_move hfits, hus]
      rfl
    · rw [List.map_cons, List.map_cons, hcontent]
      rfl

/-! ### Writing tokens -/

/-- The text is that of the tokens, in order, with one blank or more between any two of them. -/
inductive Token.Spaced : List Token → List Char → Prop
  | nil : Spaced [] []
  | single (t : Token) : Spaced [t] t.text.toList
  | cons (t : Token) {u : Token} {ts : List Token} {gap rest : List Char} (wide : gap ≠ [])
      (blank : ∀ c ∈ gap, isBlank c = true) (h : Spaced (u :: ts) rest) :
      Spaced (t :: u :: ts) (t.text.toList ++ (gap ++ rest))

/-- Tokens as text, with a blank between any two of them. -/
def Token.write (ts : List Token) : String :=
  " ".intercalate (ts.map Token.text)

theorem tokensFrom_single {pos : Position} {text : List Char} {l : Lexeme} {t : Token}
    (hscan : scan pos text = .lexeme l []) (ht : l.token = .ok t) :
    Lexer.tokensFrom pos text = .ok [t] :=
  tokensFrom_lexeme hscan ht (tokensFrom_ending rfl)

theorem skipBlanks_of_not_blank {c : Char} (h : isBlank c = false) (pos : Position)
    (cs : List Char) : skipBlanks pos (c :: cs) = (pos, c :: cs) := by
  simp [skipBlanks, h]

theorem isBlank_of_isWordChar {c : Char} (h : isWordChar c = true) : isBlank c = false := by
  cases hblank : isBlank c with
  | false => rfl
  | true =>
    simp only [isBlank, Bool.or_eq_true, decide_eq_true_eq] at hblank
    rcases hblank with ((rfl | rfl) | rfl) | rfl <;> cases h

theorem not_isDigit_of_isWordStart {c : Char} (h : isWordStart c = true) : isDigit c = false := by
  simp only [isWordStart, isDigit, Bool.or_eq_true, Bool.and_eq_true, decide_eq_true_eq,
    Bool.and_eq_false_iff, decide_eq_false_iff_not, Char.le_def, UInt32.le_iff_toNat_le,
    Char.ext_iff, ← UInt32.toNat_inj] at h ⊢
  simp at h ⊢
  omega

/-- A literal in range does not reach the limit on the number of digits. -/
theorem length_toDigits_le_digitLimit {n : Nat} (hn : (n : Int) ≤ maxInt) :
    (Nat.toDigits 10 n).length ≤ digitLimit := by
  rw [maxInt] at hn
  have hten : (Nat.toDigits 10 n).length ≤ 10 :=
    (Nat.length_toDigits_le_iff (by decide) (by decide)).2 (by omega)
  exact Nat.le_trans hten (by decide)

theorem isDigit_of_mem_toDigits (n : Nat) : ∀ c ∈ Nat.toDigits 10 n, isDigit c = true := by
  intro c hc
  have hdigit := Nat.isDigit_of_mem_toDigits (by decide) (by decide) hc
  simpa [Char.isDigit, isDigit, Char.le_def] using hdigit

/-- The digits of a number are cut as one literal. -/
theorem tokensFrom_digits (pos : Position) {n : Nat} (hn : (n : Int) ≤ maxInt) :
    Lexer.tokensFrom pos (Nat.toDigits 10 n) = .ok [⟨.integer, some (.int n), pos⟩] := by
  have hdigits := isDigit_of_mem_toDigits n
  have hlength := length_toDigits_le_digitLimit hn
  have hvalue : Nat.ofDigitChars 10 (Nat.toDigits 10 n) 0 = n :=
    Nat.ofDigitChars_toDigits (by decide) (by decide)
  -- there is a first digit, and all others are digits as well
  obtain ⟨c, cs, hcs⟩ : ∃ c cs, Nat.toDigits 10 n = c :: cs :=
    List.exists_cons_of_length_pos Nat.length_toDigits_pos
  rw [hcs] at hdigits hlength hvalue ⊢
  rw [List.forall_mem_cons] at hdigits
  have hchar : isWordChar c = true := by simp [isWordChar, hdigits.1]
  have hskip := skipBlanks_of_not_blank (isBlank_of_isWordChar hchar) pos cs
  have hl : Lexer.lexeme pos c cs = .ok (⟨.integer, c :: cs, pos⟩, []) := by
    rw [Lexer.lexeme, if_pos hdigits.1, List.takeWhile_eq_self_iff.2 hdigits.2,
      List.dropWhile_eq_nil_iff.2 hdigits.2]
  have hscan : scan pos (c :: cs) = .lexeme ⟨.integer, c :: cs, pos⟩ [] := by
    rw [scan_of_cons hskip, hl]
  refine tokensFrom_single hscan ?_
  rw [Lexeme.token, if_neg (by simp only [not_and, Nat.not_lt]; intro _; exact hlength),
    if_neg (by simp only [not_and, Int.not_lt]; intro _; rw [hvalue]; exact hn), Lexeme.bare,
    Lexeme.payload]
  simp only [hvalue]

/-- A name is cut as one identifier. -/
theorem tokensFrom_name (pos : Position) {word : String} (h : IsName word) :
    Lexer.tokensFrom pos word.toList = .ok [⟨.ident, some (.text word), pos⟩] := by
  obtain ⟨⟨c, hc, hstart⟩, hchars, hfree⟩ := h
  obtain ⟨cs, hcs⟩ := List.head?_eq_some_iff.1 hc
  have hword : String.ofList (c :: cs) = word := by rw [← hcs, String.ofList_toList]
  rw [hcs] at hchars ⊢
  rw [List.forall_mem_cons] at hchars
  have hskip := skipBlanks_of_not_blank (isBlank_of_isWordChar hchars.1) pos cs
  have hl : Lexer.lexeme pos c cs = .ok (.ofWord (c :: cs) pos, []) := by
    rw [Lexer.lexeme, if_neg (by simp [not_isDigit_of_isWordStart hstart]), if_pos hstart,
      List.takeWhile_eq_self_iff.2 hchars.2, List.dropWhile_eq_nil_iff.2 hchars.2]
  have hofWord : Lexeme.ofWord (c :: cs) pos = ⟨.ident, c :: cs, pos⟩ := by
    rw [Lexeme.ofWord, hword, hfree]
    rfl
  have hscan : scan pos (c :: cs) = .lexeme ⟨.ident, c :: cs, pos⟩ [] := by
    rw [scan_of_cons hskip, hl, hofWord]
  refine tokensFrom_single hscan ?_
  simp [Lexeme.token, Lexeme.bare, Lexeme.payload, hword]

/-- Every kind that carries nothing is cut from its spelling. -/
theorem scan_spelling {kind : Kind} (hint : kind ≠ .integer) (hname : kind ≠ .ident)
    (pos : Position) :
    scan pos kind.spelling.toList = .lexeme ⟨kind, kind.spelling.toList, pos⟩ [] := by
  cases kind with
  | integer => exact absurd rfl hint
  | ident => exact absurd rfl hname
  | _ => rfl

/-- A token that carries what a token of a text carries is cut from its own text. -/
theorem tokensFrom_text {t : Token} (h : t.IsSourced) (pos : Position) :
    Lexer.tokensFrom pos t.text.toList = .ok [{ t with pos := pos }] := by
  unfold Token.IsSourced at h
  by_cases hint : t.kind = .integer
  · rw [hint] at h
    obtain ⟨n, hn, hpayload⟩ := h
    have htext : (toString (n : Int)).toList = Nat.toDigits 10 n := Nat.toList_repr
    simp only [Token.text, hint, hpayload, Option.map_some, Payload.shown, Option.getD_some, htext]
    exact tokensFrom_digits pos hn
  by_cases hname : t.kind = .ident
  · rw [hname] at h
    obtain ⟨word, hword, hpayload⟩ := h
    simp only [Token.text, hname, hpayload, Option.map_some, Payload.shown, Option.getD_some]
    exact tokensFrom_name pos hword
  -- all other kinds carry nothing and are written as they are spelled
  have hpayload : t.payload = none := by
    split at h
    · contradiction
    · contradiction
    · exact h
  have htext : t.text = t.kind.spelling := by
    unfold Token.text
    split
    · contradiction
    · contradiction
    · rfl
  rw [htext]
  refine tokensFrom_single (scan_spelling hint hname pos) ?_
  rw [Lexeme.token, if_neg (fun hc => hint hc.1), if_neg (fun hc => hint hc.1), Lexeme.bare,
    payload_eq_none hint hname, hpayload]

/-- Blanks before a text only move it. -/
theorem tokensFrom_blank_append {gap : List Char} (h : ∀ c ∈ gap, isBlank c = true) (pos : Position)
    (rest : List Char) :
    Lexer.tokensFrom pos (gap ++ rest) = Lexer.tokensFrom (pos.after gap) rest := by
  induction gap generalizing pos with
  | nil => rfl
  | cons c gap ih =>
    rw [List.forall_mem_cons] at h
    have hskip : skipBlanks pos (c :: (gap ++ rest)) = skipBlanks (pos.next c) (gap ++ rest) := by
      rw [skipBlanks, if_pos h.1]
    rw [List.cons_append, tokensFrom_congr hskip, ih h.2, Position.after_cons]

/-- Tokens are found again in a text that has blanks between any two of them, at their new places. -/
theorem exists_tokensFrom_spaced {ts : List Token} {text : List Char} (hspaced : Token.Spaced ts text)
    (h : ∀ t ∈ ts, t.IsSourced) (pos : Position) :
    ∃ us, Lexer.tokensFrom pos text = .ok us ∧ us.map Token.content = ts.map Token.content := by
  induction hspaced generalizing pos with
  | nil => exact ⟨[], tokensFrom_ending rfl, rfl⟩
  | single t => exact ⟨[{ t with pos := pos }], tokensFrom_text (h t List.mem_cons_self) pos, rfl⟩
  | @cons t u ts gap rest wide blank _ ih =>
    rw [List.forall_mem_cons] at h
    obtain ⟨us, hus, hcontent⟩ := ih h.2 ((pos.after t.text.toList).after gap)
    refine ⟨{ t with pos := pos } :: us, ?_, by rw [List.map_cons, hcontent]; rfl⟩
    -- the first blank ends the token, and all are skipped before the next one
    rw [← tokensFrom_blank_append blank] at hus
    obtain ⟨d, gap, rfl⟩ := List.exists_cons_of_ne_nil wide
    have hd := separates_of_isBlank (blank d List.mem_cons_self)
    rw [List.cons_append] at hus ⊢
    rw [tokensFrom_append hd, tokensFrom_text h.1 pos, hus]
    rfl

theorem write_cons_cons (t u : Token) (ts : List Token) :
    (Token.write (t :: u :: ts)).toList =
      t.text.toList ++ ([' '] ++ (Token.write (u :: ts)).toList) := by
  simp only [Token.write, String.toList_intercalate, List.map_cons, List.intercalate_cons_cons]
  simp

/-- Written tokens have a blank between any two of them. -/
theorem spaced_write (ts : List Token) : Token.Spaced ts (Token.write ts).toList := by
  induction ts with
  | nil => exact .nil
  | cons t ts ih =>
    cases ts with
    | nil => simpa [Token.write] using Token.Spaced.single t
    | cons u ts =>
      rw [write_cons_cons]
      exact .cons t (List.cons_ne_nil _ _) (List.forall_mem_singleton.2 rfl) ih

/-- Written tokens are the tokens of their text. -/
theorem exists_tokenize_write {ts : List Token} (h : ∀ t ∈ ts, t.IsSourced) :
    ∃ us, tokenize (Token.write ts).toList = .ok us ∧ us.map Token.content = ts.map Token.content :=
  exists_tokensFrom_spaced (spaced_write ts) h .start

end Abacus
