import Abacus.Number.Numeral
import Abacus.Token.Basic

/-!
# Lexemes

A lexeme is a piece of source text that spells a token. Its kind and place are known as soon as it is
cut out; only a literal can still be refused, because its number is too large or too long.

## Main definitions

* `LexError` — why a text is no sequence of tokens
* `Lexeme` — a piece of text with its kind and place
* `Lexeme.token` — the token that a lexeme spells
-/

namespace Abacus

/-- Why a text is no sequence of tokens. -/
inductive LexError
  | unexpected (c : Char) (pos : Position)
  | unpaired (c : Char) (pos : Position)
  | tooLarge (literal : String) (pos : Position)
  | tooManyDigits (digits : Nat)
  deriving DecidableEq

namespace LexError

/-- The part of the text that an error is about. -/
def culprit : LexError → String
  | .unexpected c _ | .unpaired c _ => c.toString
  | .tooLarge literal _ => literal
  | .tooManyDigits _ => ""

/-- Where an error is; a literal with too many digits is refused without a place. -/
def pos : LexError → Position
  | .unexpected _ pos | .unpaired _ pos | .tooLarge _ pos => pos
  | .tooManyDigits _ => ⟨0, 0⟩

/-- The wording of an error. -/
def message : LexError → String
  | .unexpected c _ => "unexpected character: " ++ c.toString
  | .unpaired c _ =>
    "could not parse token: " ++ c.toString ++ ": expected " ++ c.toString ++ c.toString
  | .tooLarge literal _ =>
    "could not parse token: " ++ literal ++ ": number too large to fit in a 32-bit integer"
  | .tooManyDigits digits => digitLimitMessage digits

end LexError

/-- Blanks between tokens. -/
def isBlank (c : Char) : Bool :=
  c = ' ' || c = '\t' || c = '\r' || c = '\n'

/-- Characters that begin a word. -/
def isWordStart (c : Char) : Bool :=
  ('a' ≤ c && c ≤ 'z') || ('A' ≤ c && c ≤ 'Z') || c = '_'

/-- Characters of a literal. -/
def isDigit (c : Char) : Bool :=
  '0' ≤ c && c ≤ '9'

/-- Characters of a word. -/
def isWordChar (c : Char) : Bool :=
  isWordStart c || isDigit c

/-- A piece of source text that spells a token of the given kind. -/
structure Lexeme where
  kind : Kind
  chars : List Char
  pos : Position
  deriving DecidableEq

namespace Lexeme

/-- The lexeme of a word: a keyword if the word spells one, else an identifier. -/
def ofWord (word : List Char) (pos : Position) : Lexeme :=
  ⟨(Kind.keyword? (String.ofList word)).getD .ident, word, pos⟩

/-- The payload of a lexeme: the number of a literal, whatever its size, or the word of an
identifier. -/
def payload (l : Lexeme) : Option Payload :=
  match l.kind with
  | .integer => some (.int (Nat.ofDigitChars 10 l.chars 0))
  | .ident => some (.text (String.ofList l.chars))
  | _ => none

/-- The token of a lexeme, a literal not yet being checked. -/
def bare (l : Lexeme) : Token :=
  ⟨l.kind, l.payload, l.pos⟩

/-- The token that a lexeme spells. A literal has at most `digitLimit` digits and is at most
`maxInt`. -/
def token (l : Lexeme) : Except LexError Token :=
  if l.kind = .integer ∧ digitLimit < l.chars.length then .error (.tooManyDigits l.chars.length)
  else if l.kind = .integer ∧ maxInt < Nat.ofDigitChars 10 l.chars 0 then
    .error (.tooLarge (String.ofList l.chars) l.pos)
  else .ok l.bare

end Lexeme

end Abacus
