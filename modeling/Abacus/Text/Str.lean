import Abacus.Text.Printable

/-!
# Strings of documents

A document writes characters by number where it likes to. The characters beyond the first plane are
written as pairs of numbers, and a number that belongs to a pair may stand there without the other one. It is
no character, but the strings that differ in it are different. So a string of a document is a text or, where
it has halves of pairs, a list of codes.

Names and texts inside messages stand in quotes, so that their ends and their invisible characters can be
seen. Where a string is shown without quotes its halves of pairs are written by number, as streams write
what they cannot encode.

## Main definitions

* `Code` — a character or half of a pair
* `Str` — a string of a document
* `Str.ofCodes`, `Str.codes` — a string and its codes
* `Text.quote`, `Str.quote` — a string in quotes, with escapes
* `Str.shown` — a string without quotes
* `Text.hex` — a number in hexadecimal digits, with leading zeros
-/

namespace Abacus

/-- A character, or the half of a pair with the given place among the halves. -/
inductive Code
  | char (c : Char)
  | half (n : Fin 0x800)
  deriving DecidableEq

namespace Code

/-- The number of the first half. -/
def firstHalf : Nat := 0xd800

/-- The code with a given number. -/
def ofNat (n : Nat) : Code :=
  if h : firstHalf ≤ n ∧ n - firstHalf < 0x800 then .half ⟨n - firstHalf, h.2⟩ else .char (Char.ofNat n)

/-- Whether a code is half of a pair. -/
def isHalf : Code → Bool
  | .char _ => false
  | .half _ => true

/-- A code where characters are wanted: a half is replaced. -/
def toChar : Code → Char
  | .char c => c
  | .half _ => '\ufffd'

end Code

/-- A string of a document: a text, or codes some of which are halves of pairs. -/
inductive Str
  | text (s : String)
  | ragged (codes : List Code) (halved : codes.any Code.isHalf = true)
  deriving DecidableEq

instance : Coe String Str := ⟨.text⟩

namespace Str

/-- Whether a string is a text. -/
def IsText : Str → Prop
  | .text _ => True
  | .ragged _ _ => False

theorem IsText.exists_eq {s : Str} (h : s.IsText) : ∃ t, s = .text t := by
  cases s with
  | text t => exact ⟨t, rfl⟩
  | ragged codes halved => exact h.elim

/-- The string with the given codes. -/
def ofCodes (codes : List Code) : Str :=
  if h : codes.any Code.isHalf = true then .ragged codes h
  else .text (String.ofList (codes.map Code.toChar))

/-- The codes of a string. -/
def codes : Str → List Code
  | .text s => s.toList.map .char
  | .ragged codes _ => codes

/-- Codes without halves are those of their characters. -/
theorem map_char_map_toChar {codes : List Code} (h : ¬codes.any Code.isHalf = true) :
    (codes.map Code.toChar).map Code.char = codes := by
  induction codes with
  | nil => rfl
  | cons code codes ih =>
    cases code with
    | half n => exact absurd rfl h
    | char c => exact congrArg (Code.char c :: ·) (ih h)

@[simp] theorem codes_ofCodes (codes : List Code) : (ofCodes codes).codes = codes := by
  unfold ofCodes
  split
  · rfl
  · rename_i h
    rw [Str.codes, String.toList_ofList]
    exact map_char_map_toChar h

theorem ofCodes_map_char (cs : List Char) : ofCodes (cs.map .char) = .text (String.ofList cs) := by
  have hhalf : ¬(cs.map Code.char).any Code.isHalf = true := by simp [Code.isHalf]
  rw [ofCodes, dif_neg hhalf, List.map_map]
  congr
  exact List.map_id'' (fun _ => rfl) cs

/-- Different codes are different strings. -/
theorem ofCodes_inj {codes codes' : List Code} : ofCodes codes = ofCodes codes' ↔ codes = codes' := by
  refine ⟨fun h => ?_, congrArg ofCodes⟩
  rw [← codes_ofCodes codes, h, codes_ofCodes]

end Str

namespace Text

/-- The number `n` in lower-case hexadecimal, with zeros in front up to `width` digits. -/
def hex (width n : Nat) : List Char :=
  let digits := Nat.toDigits 16 n
  List.replicate (width - digits.length) '0' ++ digits

/-- Half of a pair by number. -/
def halfChars (n : Fin 0x800) : List Char :=
  '\\' :: 'u' :: hex 4 (Code.firstHalf + n)

/-- Single quotes, unless the text has a single quote and no double quote. -/
def quoteFor (codes : List Code) : Char :=
  if .char '\'' ∈ codes ∧ .char '"' ∉ codes then '"' else '\''

/-- One code between quotes: the quote and the backslash after a backslash, line ends and tabs by
letter, other invisible characters and halves of pairs by number. -/
def quoteCode (mark : Char) : Code → List Char
  | .half n => halfChars n
  | .char c =>
    if c = mark ∨ c = '\\' then ['\\', c]
    else if c = '\n' then ['\\', 'n']
    else if c = '\r' then ['\\', 'r']
    else if c = '\t' then ['\\', 't']
    else if isPrintable c then [c]
    else if c.toNat ≤ 0xff then '\\' :: 'x' :: hex 2 c.toNat
    else if c.toNat ≤ 0xffff then '\\' :: 'u' :: hex 4 c.toNat
    else '\\' :: 'U' :: hex 8 c.toNat

/-- Codes in quotes. -/
def quoteCodes (codes : List Code) : List Char :=
  let mark := quoteFor codes
  mark :: codes.flatMap (quoteCode mark) ++ [mark]

/-- A text in quotes. -/
def quote (s : String) : String :=
  String.ofList (quoteCodes (s.toList.map .char))

end Text

namespace Str

/-- A string in quotes. -/
def quote (s : Str) : String :=
  String.ofList (Text.quoteCodes s.codes)

/-- A string without quotes. -/
def shown : Str → String
  | .text s => s
  | .ragged codes _ => String.ofList (codes.flatMap shownCode)
where
  /-- One code without quotes. -/
  shownCode : Code → List Char
    | .char c => [c]
    | .half n => Text.halfChars n

end Str

end Abacus
