import Abacus.Token.Lexeme

/-!
# Cutting a text into tokens

The lexer walks a text from left to right. Blanks separate tokens; a run of digits is a literal, a
run of word characters is a keyword or an identifier, and of the operators the longer one is taken.
Every literal is checked as soon as it is read, so the first error of the text is reported.

## Main definitions

* `skipBlanks` — the text after its leading blanks, with the position there
* `Lexer.lexeme` — the lexeme at the front of a text
* `tokenize` — all tokens of a text

## Main results

* `Lexer.rest_shorter` — every lexeme uses up some text
-/

namespace Abacus

/-- The text after its leading blanks, with the position there. -/
def skipBlanks (pos : Position) : List Char → Position × List Char
  | [] => (pos, [])
  | c :: cs => if isBlank c then skipBlanks (pos.next c) cs else (pos, c :: cs)

theorem length_skipBlanks (pos : Position) (cs : List Char) :
    (skipBlanks pos cs).2.length ≤ cs.length := by
  induction cs generalizing pos with
  | nil => simp [skipBlanks]
  | cons c cs ih =>
    rw [skipBlanks]
    split
    · exact Nat.le_succ_of_le (ih _)
    · exact Nat.le_refl _

namespace Lexer

/-- An operator or bracket at the front of a text, and the text after it. Two characters that spell
an operator together are never split. -/
def symbol (pos : Position) (c : Char) (cs : List Char) :
    Except LexError (Lexeme × List Char) :=
  match cs.head?.bind (Kind.ofTwo? c) with
  | some kind => .ok (⟨kind, c :: cs.take 1, pos⟩, cs.drop 1)
  | none =>
    if c = '&' ∨ c = '|' then .error (.unpaired c pos)
    else match Kind.ofOne? c with
      | some kind => .ok (⟨kind, [c], pos⟩, cs)
      | none => .error (.unexpected c pos)

/-- The lexeme that begins with the character `c`, and the text after it. -/
def lexeme (pos : Position) (c : Char) (cs : List Char) :
    Except LexError (Lexeme × List Char) :=
  if isDigit c then
    .ok (⟨.integer, c :: cs.takeWhile isDigit, pos⟩, cs.dropWhile isDigit)
  else if isWordStart c then
    .ok (.ofWord (c :: cs.takeWhile isWordChar) pos, cs.dropWhile isWordChar)
  else symbol pos c cs

/-- What follows a lexeme is no longer than what followed its first character. -/
theorem rest_shorter {pos : Position} {c : Char} {cs rest : List Char} {l : Lexeme}
    (h : lexeme pos c cs = .ok (l, rest)) : rest.length ≤ cs.length := by
  unfold lexeme symbol at h
  split at h
  · cases h
    exact (List.dropWhile_suffix _).length_le
  · split at h
    · cases h
      exact (List.dropWhile_suffix _).length_le
    · split at h
      · cases h
        simp
      · split at h
        · cases h
        · split at h
          · cases h
            exact Nat.le_refl _
          · cases h

/-- All tokens of a text that begins at `pos`. -/
def tokensFrom (pos : Position) (text : List Char) : Except LexError (List Token) :=
  match _hs : skipBlanks pos text with
  | (_, []) => .ok []
  | (start, c :: cs) =>
    match _hl : lexeme start c cs with
    | .error e => .error e
    | .ok (l, rest) => do
      let t ← l.token
      let ts ← tokensFrom (start.after l.chars) rest
      return t :: ts
termination_by text.length
decreasing_by
  have h := length_skipBlanks pos text
  rw [_hs] at h
  have := rest_shorter _hl
  simp at h
  omega

end Lexer

/-- All tokens of a source text, or its first error. -/
def tokenize (source : List Char) : Except LexError (List Token) :=
  Lexer.tokensFrom .start source

end Abacus
