import Abacus.Token.Lexer

/-!
# Terminals

The classes of lexemes as a table. A terminal says how many characters at the front of a text belong to
it; the first terminal of the table that takes any characters gives the next lexeme. In this way a text
is cut lexeme by lexeme, and nothing after the lexeme is looked at. Literals are not checked.

## Main definitions

* `Terminal`, `terminals` — a class of lexemes, and the table of all classes
* `Scan`, `scan` — what stands next in a text
* `lexemes` — all lexemes of a text

## Main results

* `scan_shorter` — every lexeme uses up some text
-/

namespace Abacus

/-- A class of lexemes. The width is the number of characters at the front of a text that belong to
the class, zero if none do. -/
structure Terminal where
  kind : Kind
  width : List Char → Nat

namespace Terminal

/-- Digits. -/
def literal : Terminal :=
  ⟨.integer, fun text => (text.takeWhile isDigit).length⟩

/-- A letter or underscore, then letters, underscores and digits. -/
def word : Terminal :=
  ⟨.ident, fun text =>
    if text.head?.any isWordStart then (text.takeWhile isWordChar).length else 0⟩

/-- A fixed spelling. -/
def fixed (kind : Kind) : Terminal :=
  let spelling := kind.spelling.toList
  ⟨kind, fun text => if spelling.isPrefixOf text then spelling.length else 0⟩

end Terminal

/-- All terminals. A spelling comes before the spellings that it begins with. -/
def terminals : List Terminal :=
  [.literal, .word] ++
    [Kind.or, .and, .eq, .ne, .ge, .le, .gt, .lt, .plus, .minus, .star, .slash, .caret, .lparen,
      .rparen, .lbracket, .rbracket, .lbrace, .rbrace, .bang, .assign, .semicolon, .comma].map
      Terminal.fixed

/-- The terminal at the front of a text. -/
def terminalAt? (text : List Char) : Option Terminal :=
  terminals.find? fun terminal => 0 < terminal.width text

/-- What stands next in a text. -/
inductive Scan
  | ending
  | fault (c : Char) (pos : Position)
  | lexeme (l : Lexeme) (rest : List Char)

/-- The lexeme with the given characters; words may be keywords. -/
def Lexeme.ofChars (kind : Kind) (chars : List Char) (pos : Position) : Lexeme :=
  if kind = .ident then .ofWord chars pos else ⟨kind, chars, pos⟩

/-- What stands next in a text after blanks. -/
def scan (pos : Position) (text : List Char) : Scan :=
  match skipBlanks pos text with
  | (_, []) => .ending
  | (start, c :: cs) =>
    match terminalAt? (c :: cs) with
    | none => .fault c start
    | some terminal =>
      let width := terminal.width (c :: cs)
      .lexeme (.ofChars terminal.kind ((c :: cs).take width) start) ((c :: cs).drop width)

theorem scan_shorter {pos : Position} {text rest : List Char} {l : Lexeme}
    (h : scan pos text = .lexeme l rest) : rest.length < text.length := by
  unfold scan at h
  have hle := length_skipBlanks pos text
  split at h
  · cases h
  · rename_i start c cs hs
    rw [hs] at hle
    split at h
    · cases h
    · rename_i terminal ht
      have hw : 0 < terminal.width (c :: cs) := by
        have := List.find?_some ht
        simpa using this
      cases h
      rw [List.length_drop]
      have hpos : 0 < (c :: cs).length := Nat.succ_pos _
      exact Nat.lt_of_lt_of_le (Nat.sub_lt hpos hw) hle

/-- The position after a lexeme. -/
def Lexeme.stop (l : Lexeme) : Position :=
  l.pos.after l.chars

/-- All lexemes of a text from a position on, or the first character that begins none. -/
def lexemesFrom (pos : Position) (text : List Char) : Except (Char × Position) (List Lexeme) :=
  match _h : scan pos text with
  | .ending => .ok []
  | .fault c start => .error (c, start)
  | .lexeme l rest => do
    let ls ← lexemesFrom l.stop rest
    return l :: ls
termination_by text.length
decreasing_by exact scan_shorter _h

/-- All lexemes of a text, or the first character that begins none. -/
def lexemes (source : List Char) : Except (Char × Position) (List Lexeme) :=
  lexemesFrom .start source

/-- The error about a character that begins no token. -/
def LexError.ofFault (c : Char) (pos : Position) : LexError :=
  if c = '&' ∨ c = '|' then .unpaired c pos else .unexpected c pos

end Abacus
