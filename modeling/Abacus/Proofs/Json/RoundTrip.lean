import Abacus.Json.Reader
import Abacus.Json.Writer
import Abacus.Proofs.Computation
import Mathlib.Data.List.TakeWhile

/-!
# Reading documents back

What is written for a document is read back as the document, unless the document holds binary numbers,
strings that are no texts, or an integer with more digits than are ever read. The proof follows the writer:
each part of a document is read in front of whatever text comes after it, as long as that text does not go
on with a number.

## Main definitions

* `Json.Storable` — the document is read back from what is written for it
* `Json.Follows` — the text may come after a value

## Main results

* `Json.readString_quoted` — strings are read back
* `Json.readNumber_integerChars` — integers are read back
* `Json.read_pretty` — documents are read back
-/

namespace Abacus.Json

/-! ### Strings -/

theorem isHighSurrogate_toNat (c : Char) : isHighSurrogate c.toNat = false := by
  have hvalid : c.toNat < 0xd800 ∨ 0xdfff < c.toNat ∧ c.toNat < 0x110000 := c.valid
  simp only [isHighSurrogate, Bool.and_eq_false_iff, decide_eq_false_iff_not]
  omega

theorem ofNat_toNat (c : Char) : Code.ofNat c.toNat = .char c := by
  have hvalid : c.toNat < 0xd800 ∨ 0xdfff < c.toNat ∧ c.toNat < 0x110000 := c.valid
  have hhalf : ¬(Code.firstHalf ≤ c.toNat ∧ c.toNat - Code.firstHalf < 0x800) := by
    rw [Code.firstHalf]
    omega
  rw [Code.ofNat, dif_neg hhalf, Char.ofNat_toNat]

/-- The numbers of characters stand for these characters: none of them is half a pair. -/
theorem joinPairs_map_toNat (cs : List Char) : joinPairs (cs.map Char.toNat) = cs.map .char := by
  induction cs with
  | nil => rfl
  | cons c cs ih =>
    cases cs with
    | nil => simp [joinPairs, ofNat_toNat]
    | cons d ds =>
      rw [List.map_cons, List.map_cons, joinPairs, isHighSurrogate_toNat, ofNat_toNat]
      simpa using ih

/-- The number of a control character in four digits. -/
theorem hex_four : ∀ n : Fin 32,
    Text.hex 4 n = ['0', '0', Nat.digitChar (n / 16), Nat.digitChar (n % 16)] ∧
      hexFour? '0' '0' (Nat.digitChar (n / 16)) (Nat.digitChar (n % 16)) = some n.val := by
  decide

/-- The characters that are written for one are read as its code. -/
theorem readCodes_escape (opened : Nat) (c d : Char) (cs : List Char) :
    readCodes opened (escape c ++ d :: cs) =
      (readCodes opened (d :: cs)).map fun p => (c.toNat :: p.1, p.2) := by
  unfold escape
  split
  · rename_i h
    rcases h with rfl | rfl <;> rfl
  rename_i hmark
  obtain ⟨hquote, hslash⟩ := not_or.1 hmark
  -- the short escapes
  iterate 5
    split
    · subst_vars
      rfl
  split
  · -- the escapes by number
    rename_i hcontrol
    obtain ⟨hhex, hread⟩ := hex_four ⟨c.toNat, hcontrol⟩
    simp only at hhex hread
    rw [hhex]
    simp only [List.cons_append, List.nil_append]
    rw [readCodes, hread]
    rfl
  · rename_i hcontrol
    rw [List.cons_append, List.nil_append, readCodes, if_neg (by omega)]
    · rfl
    all_goals intros; contradiction

theorem readCodes_escapes (opened : Nat) (s rest : List Char) :
    readCodes opened (s.flatMap escape ++ '"' :: rest) = .ok (s.map Char.toNat, rest) := by
  induction s with
  | nil => rfl
  | cons c s ih =>
    -- something comes after each character, if only the closing quote
    obtain ⟨d, ds, hds⟩ : ∃ d ds, s.flatMap escape ++ '"' :: rest = d :: ds := by
      cases hs : s.flatMap escape with
      | nil => exact ⟨_, _, rfl⟩
      | cons e es => exact ⟨_, _, rfl⟩
    rw [List.flatMap_cons, List.append_assoc, hds, readCodes_escape, ← hds, ih]
    rfl

/-- A string is read back from what is written for it. -/
theorem readString_quoted (s : String) (rest : List Char) :
    readString (s.toList.flatMap escape ++ '"' :: rest) = .ok (.text s, rest) := by
  rw [readString, readCodes_escapes]
  show Except.ok (Str.ofCodes (joinPairs (s.toList.map Char.toNat)), rest) = _
  rw [joinPairs_map_toNat, Str.ofCodes_map_char, String.ofList_toList]

/-- A text is written character by character. -/
theorem quoted_text (s : String) : quoted (.text s) = '"' :: s.toList.flatMap escape ++ ['"'] := by
  rw [quoted, Str.codes, List.flatMap_map]
  rfl

/-! ### Integers -/

/-- What may come after a value: nothing, or what separates it from the next part. -/
def Follows (rest : List Char) : Prop :=
  ∀ c ∈ rest.head?, c = ',' ∨ c = '\n'

theorem follows_nil : Follows [] := by
  simp [Follows]

theorem follows_comma (rest : List Char) : Follows (',' :: rest) := by
  simp [Follows]

theorem follows_newline (depth : Nat) (rest : List Char) : Follows (newline depth ++ rest) := by
  simp [Follows, newline]

section Number

variable {rest : List Char}

theorem fractionPart?_of_follows (h : Follows rest) : fractionPart? rest = none := by
  cases rest with
  | nil => rfl
  | cons c cs =>
    rcases h c rfl with rfl | rfl <;> rfl

theorem exponentPart?_of_follows (h : Follows rest) : exponentPart? rest = none := by
  cases rest with
  | nil => rfl
  | cons c cs =>
    rcases h c rfl with rfl | rfl <;> rfl

theorem spanDigits_append {digits : List Char} (hdigits : ∀ c ∈ digits, c.isDigit = true)
    (h : Follows rest) : spanDigits (digits ++ rest) = (digits, rest) := by
  have hstop : rest.takeWhile Char.isDigit = [] ∧ rest.dropWhile Char.isDigit = rest := by
    cases rest with
    | nil => exact ⟨rfl, rfl⟩
    | cons c cs => rcases h c rfl with rfl | rfl <;> exact ⟨rfl, rfl⟩
  rw [spanDigits, List.takeWhile_append_of_pos hdigits, List.dropWhile_append_of_pos hdigits,
    hstop.1, hstop.2, List.append_nil]

theorem digits_isDigit (n : Nat) : ∀ c ∈ Nat.toDigits 10 n, c.isDigit = true :=
  fun _ hc => Nat.isDigit_of_mem_toDigits (by decide) (by decide) hc

/-- The first digit of a positive number is not zero. -/
theorem head_toDigits {n : Nat} (hn : 0 < n) :
    ∃ c cs, Nat.toDigits 10 n = c :: cs ∧ c ≠ '0' := by
  induction n using Nat.strongRecOn with
  | ind n ih =>
    by_cases hsmall : n < 10
    · rw [Nat.toDigits_of_lt_base hsmall]
      refine ⟨_, _, rfl, ?_⟩
      have hall : ∀ m : Fin 10, 0 < m.val → Nat.digitChar m ≠ '0' := by decide
      exact hall ⟨n, hsmall⟩ hn
    · obtain ⟨c, cs, hcs, hc⟩ := ih (n / 10) (by omega) (by omega)
      rw [Nat.toDigits_of_base_le (by decide) (by omega), hcs]
      exact ⟨c, _, rfl, hc⟩

theorem wholePart?_toDigits (n : Nat) (h : Follows rest) :
    wholePart? (Nat.toDigits 10 n ++ rest) = some (Nat.toDigits 10 n, rest) := by
  by_cases hn : n = 0
  · subst hn
    rfl
  · obtain ⟨c, cs, hcs, hc⟩ := head_toDigits (by omega : 0 < n)
    have hdigit : c.isDigit = true := digits_isDigit n c (hcs ▸ List.mem_cons_self)
    have hspan := spanDigits_append (digits_isDigit n) h
    rw [hcs] at hspan ⊢
    rw [List.cons_append, wholePart?]
    · rw [if_pos hdigit, ← List.cons_append, hspan]
    · exact fun hzero => hc hzero

/-- Digits with or without a sign are read as the number that they stand for. -/
theorem readNumber_digits {n : Nat} (hn : (Nat.toDigits 10 n).length ≤ digitLimit)
    (h : Follows rest) :
    readNumber (Nat.toDigits 10 n ++ rest) = .ok (.int n, rest) ∧
      readNumber ('-' :: (Nat.toDigits 10 n ++ rest)) = .ok (.int (-n), rest) := by
  have hwhole := wholePart?_toDigits n h
  have hvalue : Nat.ofDigitChars 10 (Nat.toDigits 10 n) 0 = n := Nat.ofDigitChars_ten_toDigits
  have hlimit : ¬digitLimit < (Nat.toDigits 10 n).length := Nat.not_lt.2 hn
  have hdigit := digits_isDigit n
  obtain ⟨c, cs, hcs⟩ := List.exists_cons_of_ne_nil (@Nat.toDigits_ne_nil n 10)
  generalize Nat.toDigits 10 n = digits at *
  subst hcs
  have hminus : c ≠ '-' := by
    rintro rfl
    exact absurd (hdigit '-' List.mem_cons_self) (by decide)
  rw [List.cons_append] at hwhole ⊢
  have hend := fractionPart?_of_follows h
  have hend' := exponentPart?_of_follows h
  constructor
  · unfold readNumber
    split
    rename_i negative body hsign
    split at hsign
    · rename_i heq
      cases heq
      exact absurd rfl hminus
    · cases hsign
      simp only [hwhole, hend, hend', Option.getD_none, Option.isSome_none, Bool.or_self, hvalue,
        if_neg hlimit, Bool.false_eq_true, if_false]
  · unfold readNumber
    simp only [hwhole, hend, hend', Option.getD_none, Option.isSome_none, Bool.or_self, hvalue,
      if_neg hlimit, Bool.false_eq_true, if_false, if_true]

/-- An integer is read back from what is written for it. -/
theorem readNumber_integerChars {n : Int} (hn : (Nat.toDigits 10 n.natAbs).length ≤ digitLimit)
    (h : Follows rest) : readNumber (integerChars n ++ rest) = .ok (.int n, rest) := by
  cases n with
  | ofNat n =>
    rw [integerChars]
    exact (readNumber_digits hn h).1
  | negSucc n =>
    have hlength : (Nat.toDigits 10 (n + 1)).length ≤ digitLimit := hn
    rw [integerChars, List.cons_append]
    exact (readNumber_digits hlength h).2

theorem ne_of_isDigit {c d : Char} (hc : c.isDigit = true) (hd : d.isDigit = false) : d ≠ c := by
  rintro rfl
  exact absurd (hc.symm.trans hd) (by decide)

/-- No word begins with a digit, or with a dash and a digit. -/
theorem findSome?_words_digit {c : Char} (hc : c.isDigit = true) (cs : List Char) :
    (words.findSome? fun p => (after? p.1.toList (c :: cs)).map (p.2, ·)) = none ∧
      (words.findSome? fun p => (after? p.1.toList ('-' :: c :: cs)).map (p.2, ·)) = none := by
  have hn := ne_of_isDigit hc (rfl : 'n'.isDigit = false)
  have ht := ne_of_isDigit hc (rfl : 't'.isDigit = false)
  have hf := ne_of_isDigit hc (rfl : 'f'.isDigit = false)
  have hN := ne_of_isDigit hc (rfl : 'N'.isDigit = false)
  have hI := ne_of_isDigit hc (rfl : 'I'.isDigit = false)
  have hdash := ne_of_isDigit hc (rfl : '-'.isDigit = false)
  simp [words, after?, hn, ht, hf, hN, hI, hdash]

theorem readScalar_integerChars {n : Int} (hn : (Nat.toDigits 10 n.natAbs).length ≤ digitLimit)
    (h : Follows rest) : readScalar (integerChars n ++ rest) = .ok (.int n, rest) := by
  have hnone : (words.findSome? fun p =>
      (after? p.1.toList (integerChars n ++ rest)).map (p.2, ·)) = none := by
    cases n with
    | ofNat n =>
      obtain ⟨c, cs, hcs⟩ := List.exists_cons_of_ne_nil (@Nat.toDigits_ne_nil n 10)
      have hc : c.isDigit = true := digits_isDigit n c (hcs ▸ List.mem_cons_self)
      rw [integerChars, hcs]
      exact (findSome?_words_digit hc _).1
    | negSucc n =>
      obtain ⟨c, cs, hcs⟩ := List.exists_cons_of_ne_nil (@Nat.toDigits_ne_nil (n + 1) 10)
      have hc : c.isDigit = true := digits_isDigit (n + 1) c (hcs ▸ List.mem_cons_self)
      rw [integerChars, hcs]
      exact (findSome?_words_digit hc _).2
  rw [readScalar, hnone]
  exact readNumber_integerChars hn h

end Number

/-! ### Blanks and lengths -/

theorem skipBlanks_of_not_blank {c : Char} (h : isBlank c = false) (cs : List Char) :
    skipBlanks (c :: cs) = c :: cs := by
  simp [skipBlanks, h]

theorem skipBlanks_newline (depth : Nat) (cs : List Char) :
    skipBlanks (newline depth ++ cs) = skipBlanks cs := by
  have hblank : ∀ c ∈ newline depth, isBlank c = true := by
    intro c hc
    rcases List.mem_cons.1 hc with rfl | hc
    · rfl
    · rw [List.eq_of_mem_replicate hc]
      rfl
  exact List.dropWhile_append_of_pos hblank

/-- The characters with which values are written. -/
def BeginsValue (c : Char) : Prop :=
  isBlank c = false ∧ c ≠ ']' ∧ c ≠ '\ufeff'

mutual

/-- Whether a document is read back from what is written for it: it holds no binary numbers, its integers
have few enough digits, its strings are texts, and no object has a key twice. -/
def Storable : Json → Prop
  | .null | .bool _ => True
  | .int n => (Nat.toDigits 10 n.natAbs).length ≤ digitLimit
  | .float _ => False
  | .str s => s.IsText
  | .arr items => AllStorable items
  | .obj fields => (fields.map Prod.fst).Nodup ∧ FieldsStorable fields

/-- Whether several documents are storable. -/
def AllStorable : List Json → Prop
  | [] => True
  | item :: items => item.Storable ∧ AllStorable items

/-- Whether the keys of fields are texts and their values storable. -/
def FieldsStorable : List (Str × Json) → Prop
  | [] => True
  | (key, value) :: fields => key.IsText ∧ value.Storable ∧ FieldsStorable fields

end

theorem beginsValue_of_isDigit {c : Char} (h : c.isDigit = true) : BeginsValue c := by
  have hne (d : Char) (hd : d.isDigit = false) : c ≠ d := (ne_of_isDigit h hd).symm
  refine ⟨?_, hne _ rfl, hne _ rfl⟩
  simp [isBlank, hne ' ' rfl, hne '\t' rfl, hne '\n' rfl, hne '\r' rfl]

theorem exists_prettyOnto_eq_cons {j : Json} (h : j.Storable) (depth : Nat) (rest : List Char) :
    ∃ c cs, prettyOnto depth rest j = c :: cs ∧ BeginsValue c := by
  cases j with
  | null => exact ⟨'n', _, rfl, rfl, by decide, by decide⟩
  | bool b => cases b <;> exact ⟨_, _, rfl, rfl, by decide, by decide⟩
  | int n =>
    cases n with
    | ofNat n =>
      obtain ⟨c, cs, hcs⟩ := List.exists_cons_of_ne_nil (@Nat.toDigits_ne_nil n 10)
      have hc : c.isDigit = true := digits_isDigit n c (hcs ▸ List.mem_cons_self)
      refine ⟨c, cs ++ rest, ?_, beginsValue_of_isDigit hc⟩
      rw [prettyOnto, atomChars, integerChars, hcs]
      · rfl
      all_goals nofun
    | negSucc n => exact ⟨'-', _, rfl, rfl, by decide, by decide⟩
  | float x => exact h.elim
  | str s => exact ⟨'"', _, rfl, rfl, by decide, by decide⟩
  | arr items => cases items <;> exact ⟨'[', _, rfl, rfl, by decide, by decide⟩
  | obj fields =>
    rcases fields with _ | ⟨⟨key, value⟩, fields⟩ <;>
      exact ⟨'{', _, rfl, rfl, by decide, by decide⟩

theorem length_lt_append {cs rest : List Char} (h : cs ≠ []) : rest.length < (cs ++ rest).length := by
  have hpos := List.length_pos_iff.2 h
  rw [List.length_append]
  omega

mutual

/-- Something is written for every value. -/
theorem length_prettyOnto : (j : Json) → j.Storable → (depth : Nat) → (rest : List Char) →
    rest.length < (prettyOnto depth rest j).length
  | .arr (item :: items), h, depth, rest => by
    have hitem := length_prettyOnto item h.1 (depth + 1)
      (prettyItems (depth + 1) (newline depth ++ ']' :: rest) items)
    have hitems := length_prettyItems items h.2 (depth + 1) (newline depth ++ ']' :: rest)
    rw [prettyOnto]
    simp only [List.length_append, List.length_cons] at *
    omega
  | .obj ((key, value) :: fields), h, depth, rest => by
    have hvalue := length_prettyOnto value h.2.2.1 (depth + 1)
      (prettyFields (depth + 1) (newline depth ++ '}' :: rest) fields)
    have hfields := length_prettyFields fields h.2.2.2 (depth + 1) (newline depth ++ '}' :: rest)
    rw [prettyOnto]
    simp only [List.length_append, List.length_cons] at *
    omega
  | .arr [], _, _, _ | .obj [], _, _, _ | .null, _, _, _ | .bool true, _, _, _
  | .bool false, _, _, _ | .str _, _, _, _ | .int (.negSucc _), _, _, _ =>
    length_lt_append nofun
  | .int (.ofNat _), _, _, _ => length_lt_append Nat.toDigits_ne_nil
  | .float _, h, _, _ => h.elim

theorem length_prettyItems : (items : List Json) → AllStorable items → (depth : Nat) →
    (rest : List Char) → rest.length ≤ (prettyItems depth rest items).length
  | [], _, _, _ => Nat.le_refl _
  | item :: items, h, depth, rest => by
    have hitem := length_prettyOnto item h.1 depth (prettyItems depth rest items)
    have hitems := length_prettyItems items h.2 depth rest
    rw [prettyItems]
    simp only [List.length_append, List.length_cons]
    omega

theorem length_prettyFields : (fields : List (Str × Json)) → FieldsStorable fields →
    (depth : Nat) → (rest : List Char) → rest.length ≤ (prettyFields depth rest fields).length
  | [], _, _, _ => Nat.le_refl _
  | (key, value) :: fields, h, depth, rest => by
    have hvalue := length_prettyOnto value h.2.1 depth (prettyFields depth rest fields)
    have hfields := length_prettyFields fields h.2.2 depth rest
    rw [prettyFields]
    simp only [List.length_append, List.length_cons]
    omega

end

/-! ### Values -/

theorem skipBlanks_prettyOnto {j : Json} (h : j.Storable) (depth : Nat) (rest : List Char) :
    skipBlanks (prettyOnto depth rest j) = prettyOnto depth rest j := by
  obtain ⟨c, cs, hcs, hblank, -⟩ := exists_prettyOnto_eq_cons h depth rest
  rw [hcs, skipBlanks_of_not_blank hblank]

theorem setField_of_not_mem {key : Str} {value : Json} {done : List (Str × Json)}
    (h : key ∉ done.map Prod.fst) : setField key value done = done ++ [(key, value)] := by
  induction done with
  | nil => rfl
  | cons field done ih =>
    obtain ⟨k, v⟩ := field
    simp only [List.map_cons, List.mem_cons, not_or] at h
    rw [setField, if_neg (Ne.symm h.1), ih h.2]
    rfl

/-- A list is read from its first item on, after its opening bracket. -/
theorem readValue_bracket {fuel : Nat} {c : Char} {cs : List Char} (depth : Nat)
    (hblank : isBlank c = false) (hc : c ≠ ']') :
    readValue (fuel + 1) ('[' :: (newline depth ++ c :: cs)) = readItems fuel [] (c :: cs) := by
  rw [readValue, skipBlanks_newline, skipBlanks_of_not_blank hblank]
  split
  · rename_i heq
    cases heq
    exact absurd rfl hc
  · rfl

theorem readValue_brace {fuel : Nat} (depth : Nat) (cs : List Char) :
    readValue (fuel + 1) ('{' :: (newline depth ++ '"' :: cs)) = readFields fuel [] ('"' :: cs) := by
  rw [readValue, skipBlanks_newline, skipBlanks_of_not_blank rfl]
  rfl

section Steps

variable {fuel : Nat} {cs rest more : List Char} {item : Json}

theorem readItems_close {done : List Json} (h : readValue fuel cs = .ok (item, rest))
    (hrest : skipBlanks rest = ']' :: more) :
    readItems (fuel + 1) done cs = .ok (.arr (item :: done).reverse, more) := by
  rw [readItems, h]
  simp only [bind, Except.bind, hrest]
  rfl

theorem readItems_next {done : List Json} (h : readValue fuel cs = .ok (item, rest))
    (hrest : skipBlanks rest = ',' :: more) :
    readItems (fuel + 1) done cs = readItems fuel (item :: done) (skipBlanks more) := by
  rw [readItems, h]
  simp only [bind, Except.bind, hrest]

section Fields

variable {done : List (Str × Json)} {key : Str} (hkey : key.IsText)

include hkey

/-- Reading a field goes on after its key with its value. -/
theorem readFields_value (h : readValue fuel (skipBlanks cs) = .ok (item, rest)) :
    readFields (fuel + 1) done (keyChars key ++ cs) =
      match skipBlanks rest with
      | '}' :: rest => .ok (.obj (setField key item done), rest)
      | ',' :: rest => readFields fuel (setField key item done) (skipBlanks rest)
      | rest => .error (.malformed .comma rest.length) := by
  obtain ⟨key, rfl⟩ := hkey.exists_eq
  have htext : keyChars key ++ cs =
      '"' :: (key.toList.flatMap escape ++ '"' :: ':' :: ' ' :: cs) := by
    simp [keyChars, quoted_text]
  have hcolon : skipBlanks (':' :: ' ' :: cs) = ':' :: ' ' :: cs := rfl
  have hblank : skipBlanks (' ' :: cs) = skipBlanks cs := rfl
  rw [htext, readFields, readString_quoted]
  simp only [bind, Except.bind, hcolon, hblank, h]
  rfl

theorem readFields_close (h : readValue fuel (skipBlanks cs) = .ok (item, rest))
    (hrest : skipBlanks rest = '}' :: more) :
    readFields (fuel + 1) done (keyChars key ++ cs) = .ok (.obj (setField key item done), more) := by
  rw [readFields_value hkey h, hrest]
  rfl

theorem readFields_next (h : readValue fuel (skipBlanks cs) = .ok (item, rest))
    (hrest : skipBlanks rest = ',' :: more) :
    readFields (fuel + 1) done (keyChars key ++ cs) =
      readFields fuel (setField key item done) (skipBlanks more) := by
  rw [readFields_value hkey h, hrest]
  rfl

end Fields

end Steps

/-- An integer is neither a string nor a list nor an object. -/
theorem readValue_integerChars (fuel : Nat) (n : Int) (rest : List Char) :
    readValue (fuel + 1) (integerChars n ++ rest) = readScalar (integerChars n ++ rest) := by
  cases n with
  | ofNat n =>
    obtain ⟨c, cs, hcs⟩ := List.exists_cons_of_ne_nil (@Nat.toDigits_ne_nil n 10)
    have hc : c.isDigit = true := digits_isDigit n c (hcs ▸ List.mem_cons_self)
    rw [integerChars, hcs, List.cons_append, readValue]
    all_goals
      intro _ heq
      cases heq
      cases hc
  | negSucc n =>
    rw [integerChars, List.cons_append, readValue]
    all_goals nofun

/-- The items of a list from the first on, in front of a text. -/
def itemsFrom (depth : Nat) (rest : List Char) : List Json → List Char
  | [] => rest
  | item :: items => prettyOnto depth (prettyItems depth rest items) item

/-- The fields of an object from the first on, in front of a text. -/
def fieldsFrom (depth : Nat) (rest : List Char) : List (Str × Json) → List Char
  | [] => rest
  | (key, value) :: fields =>
    keyChars key ++ prettyOnto depth (prettyFields depth rest fields) value

theorem prettyItems_cons (depth : Nat) (rest : List Char) (item : Json) (items : List Json) :
    prettyItems depth rest (item :: items) =
      ',' :: (newline depth ++ itemsFrom depth rest (item :: items)) := by
  rw [prettyItems, itemsFrom, List.cons_append]

theorem prettyFields_cons (depth : Nat) (rest : List Char) (field : Str × Json)
    (fields : List (Str × Json)) :
    prettyFields depth rest (field :: fields) =
      ',' :: (newline depth ++ fieldsFrom depth rest (field :: fields)) := by
  rw [prettyFields, fieldsFrom, List.cons_append, List.cons_append, List.append_assoc]

theorem length_newline (depth : Nat) : (newline depth).length = 2 * depth + 1 := by
  simp [newline]

theorem follows_prettyItems (depth : Nat) (rest : List Char) (items : List Json) :
    Follows (prettyItems (depth + 1) (newline depth ++ rest) items) := by
  cases items with
  | nil => exact follows_newline depth rest
  | cons item items => exact follows_comma _

theorem follows_prettyFields (depth : Nat) (rest : List Char) (fields : List (Str × Json)) :
    Follows (prettyFields (depth + 1) (newline depth ++ rest) fields) := by
  rcases fields with _ | ⟨⟨key, value⟩, fields⟩
  · exact follows_newline depth rest
  · exact follows_comma _

mutual

/-- A document is read from what is written for it in front of any text that may follow. -/
theorem readValue_prettyOnto : (j : Json) → j.Storable → (depth : Nat) → {fuel : Nat} →
    {rest : List Char} → Follows rest → (prettyOnto depth rest j).length < fuel →
    readValue fuel (prettyOnto depth rest j) = .ok (j, rest)
  | .arr (item :: items), h, depth, fuel + 1, rest, _, hfuel => by
    obtain ⟨c, cs, hcs, hblank, hc, -⟩ := exists_prettyOnto_eq_cons h.1 (depth + 1)
      (prettyItems (depth + 1) (newline depth ++ ']' :: rest) items)
    rw [prettyOnto] at hfuel ⊢
    rw [hcs] at hfuel ⊢
    rw [List.cons_append, readValue_bracket _ hblank hc, ← hcs]
    refine readItems_itemsFrom (item :: items) h nofun depth ?_
    rw [itemsFrom, hcs]
    simp only [List.length_append, List.length_cons, newline] at hfuel ⊢
    omega
  | .obj ((key, value) :: fields), h, depth, fuel + 1, rest, _, hfuel => by
    have htext : prettyOnto depth rest (.obj ((key, value) :: fields)) = '{' :: (newline (depth + 1) ++
        fieldsFrom (depth + 1) (newline depth ++ '}' :: rest) ((key, value) :: fields)) := by
      rw [prettyOnto, fieldsFrom, List.cons_append, List.cons_append, List.append_assoc]
    have hkeys : (([] ++ (key, value) :: fields).map Prod.fst).Nodup := h.1
    rw [htext] at hfuel ⊢
    rw [List.length_cons, List.length_append] at hfuel
    have hfields := readFields_fieldsFrom ((key, value) :: fields) h.2 nofun hkeys depth
      (by omega : (fieldsFrom (depth + 1) (newline depth ++ '}' :: rest)
        ((key, value) :: fields)).length < fuel)
    exact (readValue_brace (depth + 1) _).trans hfields
  | .arr [], _, _, fuel + 1, _, _, _ | .obj [], _, _, fuel + 1, _, _, _
  | .null, _, _, fuel + 1, _, _, _ | .bool true, _, _, fuel + 1, _, _, _
  | .bool false, _, _, fuel + 1, _, _, _ => by
    rfl
  | .str (.text s), _, depth, fuel + 1, rest, _, _ => by
    have htext : prettyOnto depth rest (.str s) =
        '"' :: (s.toList.flatMap escape ++ '"' :: rest) := by
      simp [prettyOnto, atomChars, quoted_text]
    rw [htext, readValue, readString_quoted]
    rfl
  | .int n, h, depth, fuel + 1, rest, hrest, _ => by
    have htext : prettyOnto depth rest (.int n) = integerChars n ++ rest := by
      simp [prettyOnto, atomChars]
    rw [htext, readValue_integerChars, readScalar_integerChars h hrest]
  | .float _, h, _, _, _, _, _ | .str (.ragged _ _), h, _, _, _, _, _ => h.elim
  | _, _, _, 0, _, _, hfuel => absurd hfuel (Nat.not_lt_zero _)

theorem readItems_itemsFrom : (items : List Json) → AllStorable items → items ≠ [] → (depth : Nat) →
    {fuel : Nat} → {done : List Json} → {rest : List Char} →
    (itemsFrom (depth + 1) (newline depth ++ ']' :: rest) items).length + 1 < fuel →
    readItems fuel done (itemsFrom (depth + 1) (newline depth ++ ']' :: rest) items) =
      .ok (.arr (done.reverse ++ items), rest)
  | [], _, hne, _, _, _, _, _ => absurd rfl hne
  | [item], h, _, depth, fuel + 1, done, rest, hfuel => by
    rw [itemsFrom] at hfuel ⊢
    have hitem := readValue_prettyOnto item h.1 (depth + 1)
      (follows_prettyItems depth (']' :: rest) []) (Nat.lt_of_succ_lt_succ hfuel)
    have hclose : skipBlanks (prettyItems (depth + 1) (newline depth ++ ']' :: rest) []) =
        ']' :: rest := by
      rw [prettyItems, skipBlanks_newline, skipBlanks_of_not_blank rfl]
    rw [readItems_close hitem hclose, List.reverse_cons]
  | item :: next :: items, h, _, depth, fuel + 1, done, rest, hfuel => by
    rw [itemsFrom] at hfuel ⊢
    have hitem := readValue_prettyOnto item h.1 (depth + 1)
      (follows_prettyItems depth (']' :: rest) (next :: items)) (Nat.lt_of_succ_lt_succ hfuel)
    have hlength := length_prettyOnto item h.1 (depth + 1)
      (prettyItems (depth + 1) (newline depth ++ ']' :: rest) (next :: items))
    rw [prettyItems_cons] at hitem hlength hfuel ⊢
    have hcomma := skipBlanks_of_not_blank (rfl : isBlank ',' = false) (newline (depth + 1) ++
      itemsFrom (depth + 1) (newline depth ++ ']' :: rest) (next :: items))
    have hnext : skipBlanks (newline (depth + 1) ++
        itemsFrom (depth + 1) (newline depth ++ ']' :: rest) (next :: items)) =
          itemsFrom (depth + 1) (newline depth ++ ']' :: rest) (next :: items) := by
      rw [skipBlanks_newline, itemsFrom, skipBlanks_prettyOnto h.2.1]
    rw [readItems_next hitem hcomma, hnext,
      readItems_itemsFrom (next :: items) h.2 nofun depth ?_]
    · simp
    · rw [List.length_cons, List.length_append, length_newline] at hlength
      omega
  | _ :: _, _, _, _, 0, _, _, hfuel => absurd hfuel (Nat.not_lt_zero _)

theorem readFields_fieldsFrom : (fields : List (Str × Json)) → FieldsStorable fields →
    fields ≠ [] → {done : List (Str × Json)} → ((done ++ fields).map Prod.fst).Nodup →
    (depth : Nat) → {fuel : Nat} → {rest : List Char} →
    (fieldsFrom (depth + 1) (newline depth ++ '}' :: rest) fields).length < fuel →
    readFields fuel done (fieldsFrom (depth + 1) (newline depth ++ '}' :: rest) fields) =
      .ok (.obj (done ++ fields), rest)
  | [], _, hne, _, _, _, _, _, _ => absurd rfl hne
  | (key, value) :: fields, h, _, done, hkeys, depth, fuel + 1, rest, hfuel => by
    rw [fieldsFrom] at hfuel ⊢
    have hkey : 4 ≤ (keyChars key).length := by simp [keyChars, quoted]
    rw [List.length_append] at hfuel
    have hlength := length_prettyOnto value h.2.1 (depth + 1)
      (prettyFields (depth + 1) (newline depth ++ '}' :: rest) fields)
    have hvalue := readValue_prettyOnto value h.2.1 (depth + 1)
      (follows_prettyFields depth ('}' :: rest) fields) (by omega : _ < fuel)
    rw [← skipBlanks_prettyOnto h.2.1] at hvalue
    -- the key is new, and goes to the end
    have hnew : setField key value done = done ++ [(key, value)] := by
      apply setField_of_not_mem
      rw [List.map_append, List.nodup_append] at hkeys
      exact fun hmem => hkeys.2.2 key hmem key (by simp) rfl
    cases fields with
    | nil =>
      have hclose : skipBlanks (prettyFields (depth + 1) (newline depth ++ '}' :: rest) []) =
          '}' :: rest := by
        rw [prettyFields, skipBlanks_newline, skipBlanks_of_not_blank rfl]
      rw [readFields_close h.1 hvalue hclose, hnew]
    | cons next fields =>
      rw [prettyFields_cons] at hlength hvalue ⊢
      have hcomma := skipBlanks_of_not_blank (rfl : isBlank ',' = false) (newline (depth + 1) ++
        fieldsFrom (depth + 1) (newline depth ++ '}' :: rest) (next :: fields))
      have hnext : skipBlanks (newline (depth + 1) ++
          fieldsFrom (depth + 1) (newline depth ++ '}' :: rest) (next :: fields)) =
            fieldsFrom (depth + 1) (newline depth ++ '}' :: rest) (next :: fields) := by
        rw [skipBlanks_newline]
        exact skipBlanks_of_not_blank rfl _
      rw [readFields_next h.1 hvalue hcomma, hnext, hnew,
        readFields_fieldsFrom (next :: fields) h.2.2 nofun ?_ depth ?_]
      · simp
      · simpa using hkeys
      · rw [List.length_cons, List.length_append, length_newline] at hlength
        rw [prettyFields_cons] at hfuel
        omega
  | _ :: _, _, _, _, _, _, 0, _, hfuel => absurd hfuel (Nat.not_lt_zero _)

end

/-- A document is read back from what is written for it. -/
theorem read_pretty {j : Json} (h : j.Storable) : read (pretty j) = .ok j := by
  obtain ⟨c, cs, hcs, hblank, -, hmark⟩ := exists_prettyOnto_eq_cons h 0 []
  have hvalue := readValue_prettyOnto j h 0 follows_nil
    (by omega : (prettyOnto 0 [] j).length < 2 * (prettyOnto 0 [] j).length + 1)
  have hhead : ¬(prettyOnto 0 [] j).head? = some '\ufeff' := by
    rw [hcs]
    simpa using hmark
  have hwhole : readWhole (pretty j) = .ok j := by
    simp only [readWhole, pretty, hhead, if_false, skipBlanks_prettyOnto h, hvalue]
    rfl
  rw [read, hwhole, Except.mapError]

/-! ### Line ends -/

theorem not_mem_escape (c : Char) : '\r' ∉ escape c := by
  have hhex : ∀ n : Fin 32, '\r' ∉ Text.hex 4 n := by decide
  unfold escape
  split
  · rename_i h
    rcases h with rfl | rfl <;> decide
  split
  · decide
  split
  · decide
  rename_i hreturn
  iterate 3
    split
    · decide
  split
  · rename_i hcontrol
    have hnot := hhex ⟨c.toNat, hcontrol⟩
    simpa using hnot
  · simpa using Ne.symm hreturn

theorem not_mem_quoted {s : Str} (h : s.IsText) : '\r' ∉ quoted s := by
  obtain ⟨s, rfl⟩ := h.exists_eq
  have hescape : '\r' ∉ s.toList.flatMap escape := by
    intro hmem
    obtain ⟨c, -, hc⟩ := List.mem_flatMap.1 hmem
    exact not_mem_escape c hc
  simp [quoted_text, hescape]

theorem not_mem_newline (depth : Nat) : '\r' ∉ newline depth := by
  simp [newline]

theorem not_mem_integerChars (n : Int) : '\r' ∉ integerChars n := by
  have hdigits (m : Nat) : '\r' ∉ Nat.toDigits 10 m := fun hmem =>
    absurd (digits_isDigit m _ hmem) (by decide)
  cases n with
  | ofNat n => exact hdigits n
  | negSucc n => simpa [integerChars] using hdigits (n + 1)

mutual

/-- No carriage return is written. -/
theorem not_mem_prettyOnto : (j : Json) → j.Storable → (depth : Nat) → {rest : List Char} →
    '\r' ∉ rest → '\r' ∉ prettyOnto depth rest j
  | .arr (item :: items), h, depth, rest, hrest => by
    have hclose : '\r' ∉ newline depth ++ ']' :: rest := by simp [hrest, not_mem_newline]
    have hitem := not_mem_prettyOnto item h.1 (depth + 1)
      (not_mem_prettyItems items h.2 (depth + 1) hclose)
    simp [prettyOnto, hitem, not_mem_newline]
  | .obj ((key, value) :: fields), h, depth, rest, hrest => by
    have hclose : '\r' ∉ newline depth ++ '}' :: rest := by simp [hrest, not_mem_newline]
    have hvalue := not_mem_prettyOnto value h.2.2.1 (depth + 1)
      (not_mem_prettyFields fields h.2.2.2 (depth + 1) hclose)
    simp [prettyOnto, hvalue, not_mem_newline, keyChars, not_mem_quoted h.2.1]
  | .arr [], _, _, _, hrest | .obj [], _, _, _, hrest | .null, _, _, _, hrest
  | .bool true, _, _, _, hrest | .bool false, _, _, _, hrest => by
    simp [prettyOnto, atomChars, hrest]
  | .str s, h, _, _, hrest => by simp [prettyOnto, atomChars, hrest, not_mem_quoted h]
  | .int n, _, _, _, hrest => by simp [prettyOnto, atomChars, hrest, not_mem_integerChars]
  | .float _, h, _, _, _ => h.elim

theorem not_mem_prettyItems : (items : List Json) → AllStorable items → (depth : Nat) →
    {rest : List Char} → '\r' ∉ rest → '\r' ∉ prettyItems depth rest items
  | [], _, _, _, hrest => hrest
  | item :: items, h, depth, _, hrest => by
    have hitem := not_mem_prettyOnto item h.1 depth (not_mem_prettyItems items h.2 depth hrest)
    simp [prettyItems, hitem, not_mem_newline]

theorem not_mem_prettyFields : (fields : List (Str × Json)) → FieldsStorable fields →
    (depth : Nat) → {rest : List Char} → '\r' ∉ rest → '\r' ∉ prettyFields depth rest fields
  | [], _, _, _, hrest => hrest
  | (key, value) :: fields, h, depth, _, hrest => by
    have hvalue := not_mem_prettyOnto value h.2.1 depth (not_mem_prettyFields fields h.2.2 depth hrest)
    simp [prettyFields, hvalue, not_mem_newline, keyChars, not_mem_quoted h.1]

end

end Abacus.Json
