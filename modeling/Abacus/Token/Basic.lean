import Abacus.Text.Basic
import Abacus.Text.Str

/-!
# Tokens

A source text is a sequence of tokens. Integer literals and identifiers carry a payload; every other
kind of token is always spelled the same way.

## Main definitions

* `Kind` — the kinds of tokens, with their `spelling` and their `label`
* `Kind.keyword?` — the keyword a word spells
* `Token` — a kind, a payload and a place in the source
* `Token.same` — equality of tokens wherever they stand
* `Token.text`, `Token.display` — a token as it is written, and as messages describe it
-/

namespace Abacus

/-- The kinds of tokens. -/
inductive Kind
  | integer
  | ident
  | kwIf
  | kwElse
  | kwLet
  | kwTrue
  | kwFalse
  | or
  | and
  | eq
  | ne
  | gt
  | lt
  | ge
  | le
  | plus
  | minus
  | star
  | slash
  | caret
  | lparen
  | rparen
  | lbracket
  | rbracket
  | lbrace
  | rbrace
  | bang
  | assign
  | semicolon
  | comma
  deriving DecidableEq

namespace Kind

/-- How a kind is written in a source; literals and identifiers are named. -/
def spelling : Kind → String
  | .integer => "integer"
  | .ident => "identifier"
  | .kwIf => "if"
  | .kwElse => "else"
  | .kwLet => "let"
  | .kwTrue => "true"
  | .kwFalse => "false"
  | .or => "||"
  | .and => "&&"
  | .eq => "=="
  | .ne => "!="
  | .gt => ">"
  | .lt => "<"
  | .ge => ">="
  | .le => "<="
  | .plus => "+"
  | .minus => "-"
  | .star => "*"
  | .slash => "/"
  | .caret => "^"
  | .lparen => "("
  | .rparen => ")"
  | .lbracket => "["
  | .rbracket => "]"
  | .lbrace => "\x7b"
  | .rbrace => "\x7d"
  | .bang => "!"
  | .assign => "="
  | .semicolon => ";"
  | .comma => ","

/-- The name under which a kind is listed. -/
def label : Kind → String
  | .integer => "INTEGER"
  | .ident => "IDENT"
  | .kwIf => "IF"
  | .kwElse => "ELSE"
  | .kwLet => "LET"
  | .kwTrue => "TRUE"
  | .kwFalse => "FALSE"
  | .or => "OR"
  | .and => "AND"
  | .eq => "REL_EQ"
  | .ne => "REL_NE"
  | .gt => "REL_GT"
  | .lt => "REL_LT"
  | .ge => "REL_GTE"
  | .le => "REL_LTE"
  | .plus => "PLUS"
  | .minus => "HYPHEN"
  | .star => "STAR"
  | .slash => "SLASH"
  | .caret => "CARET"
  | .lparen => "LEFT_PAREN"
  | .rparen => "RIGHT_PAREN"
  | .lbracket => "LEFT_BRACKET"
  | .rbracket => "RIGHT_BRACKET"
  | .lbrace => "LEFT_BRACE"
  | .rbrace => "RIGHT_BRACE"
  | .bang => "BANG"
  | .assign => "EQUAL"
  | .semicolon => "SEMICOLON"
  | .comma => "COMMA"

/-- All kinds, in the order in which they are listed. -/
def all : List Kind :=
  [.integer, .ident, .kwIf, .kwElse, .kwLet, .kwTrue, .kwFalse, .or, .and, .eq, .ne, .gt, .lt, .ge,
    .le, .plus, .minus, .star, .slash, .caret, .lparen, .rparen, .lbracket, .rbracket, .lbrace,
    .rbrace, .bang, .assign, .semicolon, .comma]

/-- The kind listed under a label. -/
def ofLabel? (label : String) : Option Kind :=
  all.find? (·.label = label)

/-- The keywords. -/
def keywords : List Kind :=
  [.kwIf, .kwElse, .kwLet, .kwTrue, .kwFalse]

/-- The keyword that a word spells; other words are identifiers. -/
def keyword? (word : String) : Option Kind :=
  keywords.find? (·.spelling = word)

/-- The operator that two characters spell. -/
def ofTwo? (c d : Char) : Option Kind :=
  match c, d with
  | '|', '|' => some .or
  | '&', '&' => some .and
  | '=', '=' => some .eq
  | '!', '=' => some .ne
  | '>', '=' => some .ge
  | '<', '=' => some .le
  | _, _ => none

/-- The operator or bracket that one character spells. -/
def ofOne? (c : Char) : Option Kind :=
  match c with
  | '>' => some .gt
  | '<' => some .lt
  | '+' => some .plus
  | '-' => some .minus
  | '*' => some .star
  | '/' => some .slash
  | '^' => some .caret
  | '(' => some .lparen
  | ')' => some .rparen
  | '[' => some .lbracket
  | ']' => some .rbracket
  | '{' => some .lbrace
  | '}' => some .rbrace
  | '!' => some .bang
  | '=' => some .assign
  | ';' => some .semicolon
  | ',' => some .comma
  | _ => none

end Kind

/-- What a token carries besides its kind. -/
inductive Payload
  | int (n : Int)
  | text (s : String)
  deriving DecidableEq

namespace Payload

/-- A payload as it is written. -/
def shown : Payload → String
  | .int n => toString n
  | .text s => s

/-- A payload as messages show it, texts in quotes. -/
def display : Payload → String
  | .int n => toString n
  | .text s => Text.quote s

end Payload

/-- A token. In a source text, every integer literal carries a number, every identifier a word, and all
other tokens nothing; a token that is made in another way may carry anything. -/
structure Token where
  kind : Kind
  payload : Option Payload := none
  pos : Position := ⟨0, 0⟩
  deriving DecidableEq

namespace Token

/-- Two tokens are the same when kind and payload agree, wherever they stand. -/
def same (s t : Token) : Bool :=
  s.kind = t.kind && s.payload = t.payload

/-- A token as it is written in a source. -/
def text (t : Token) : String :=
  match t.kind with
  | .integer | .ident => (t.payload.map Payload.shown).getD "None"
  | kind => kind.spelling

/-- A token as messages describe it. -/
def display (t : Token) : String :=
  match t.payload with
  | none => "Token(" ++ t.kind.label ++ ")"
  | some payload => "Token(" ++ t.kind.label ++ ", " ++ payload.display ++ ")"

end Token

end Abacus
