import Abacus.Json.Reader
import Abacus.Proofs.Computation
import Mathlib.Data.List.TakeWhile

/-!
# Reading documents to their ends

A document is read from the front of a text, and what is left is always an end of the text. The places of
faults are counted from there, and so is the fuel of the reader: whatever is read inside a list or an object
is shorter than what it stands in. The reader starts with enough fuel for every text, however many brackets
are open in it, so that more fuel never changes what it says.

## Main definitions

* `Json.LeavesEnd` — what a reading leaves of a text is an end of the text

## Main results

* `Json.leavesEnd_readValue` — reading a value leaves an end of the text
* `Json.readValue_congr_fuel` — fuel above twice the length of a text makes no difference
* `Json.readValue_eq_of_lt` — a whole text is read with enough fuel
-/

namespace Abacus.Json

variable {α β : Type} {cs ds rest : List Char}

/-! ### What is left -/

/-- What a reading leaves of a text is an end of the text. -/
def LeavesEnd (cs : List Char) (reading : Except Fault (α × List Char)) : Prop :=
  ∀ a rest, reading = .ok (a, rest) → rest <:+ cs

theorem leavesEnd_error (fault : Fault) :
    LeavesEnd cs (.error fault : Except Fault (α × List Char)) :=
  nofun

theorem leavesEnd_ok (a : α) (h : rest <:+ cs) : LeavesEnd cs (.ok (a, rest)) := by
  rintro _ _ ⟨⟩
  exact h

section Steps

variable {reading : Except Fault (α × List Char)}

theorem LeavesEnd.mono (h : LeavesEnd ds reading) (hds : ds <:+ cs) : LeavesEnd cs reading :=
  fun a rest hread => (h a rest hread).trans hds

theorem LeavesEnd.bind {next : α × List Char → Except Fault (β × List Char)}
    (h : LeavesEnd cs reading) (hnext : ∀ a rest, rest <:+ cs → LeavesEnd cs (next (a, rest))) :
    LeavesEnd cs (reading >>= next) := by
  cases reading with
  | error fault => exact leavesEnd_error fault
  | ok result => exact hnext result.1 result.2 (h _ _ rfl)

end Steps

theorem suffix_skipBlanks (h : rest <:+ cs) : skipBlanks rest <:+ cs :=
  (List.dropWhile_suffix _).trans h

/-! ### Strings, numbers and words -/

theorem leavesEnd_readCodes (opened : Nat) (cs : List Char) : LeavesEnd cs (readCodes opened cs) := by
  fun_induction readCodes opened cs with
  | case1 | case3 | case5 | case7 | case8 | case9 => exact leavesEnd_error _
  | case2 cs => exact leavesEnd_ok _ (List.suffix_cons _ _)
  | case4 a b c d cs code _ _ ih =>
    have hescape : cs <:+ '\\' :: 'u' :: a :: b :: c :: d :: cs :=
      List.suffix_append ['\\', 'u', a, b, c, d] cs
    exact (ih.mono hescape).bind fun _ _ h => leavesEnd_ok _ h
  | case6 c cs _ _ _ ih =>
    have hescape : cs <:+ '\\' :: c :: cs := List.suffix_append ['\\', c] cs
    exact (ih.mono hescape).bind fun _ _ h => leavesEnd_ok _ h
  | case10 c cs _ _ _ _ _ ih =>
    exact (ih.mono (List.suffix_cons c cs)).bind fun _ _ h => leavesEnd_ok _ h

theorem leavesEnd_readString (cs : List Char) : LeavesEnd cs (readString cs) :=
  (leavesEnd_readCodes _ cs).bind fun _ _ h => leavesEnd_ok _ h

theorem suffix_of_wholePart? {digits : List Char} (h : wholePart? cs = some (digits, rest)) :
    rest <:+ cs := by
  unfold wholePart? at h
  split at h
  · cases h
    exact List.suffix_cons _ _
  · split at h <;> cases h
    exact List.dropWhile_suffix _
  · cases h

theorem suffix_of_fractionPart? {digits : List Char} (h : fractionPart? cs = some (digits, rest)) :
    rest <:+ cs := by
  unfold fractionPart? at h
  split at h
  · split at h <;> cases h
    exact (List.dropWhile_suffix _).trans (List.suffix_cons _ _)
  · cases h

theorem suffix_of_exponentPart? {power : Int} (h : exponentPart? cs = some (power, rest)) :
    rest <:+ cs := by
  unfold exponentPart? at h
  split at h
  · cases h
  · rename_i mark cs
    split at h
    · split at h
      rename_i negative digits hsign
      -- the digits come after the mark and a sign, if there is one
      have hdigits : digits <:+ mark :: cs := by
        split at hsign <;> cases hsign
        · exact List.suffix_append [mark, '-'] _
        · exact List.suffix_append [mark, '+'] _
        · exact List.suffix_cons _ _
      dsimp only [spanDigits] at h
      split at h
      · cases h
      · cases h
        exact (List.dropWhile_suffix _).trans hdigits
    · cases h

/-- A part of a number that may be missing leaves an end of the text. -/
theorem suffix_getD {part : Option (α × List Char)} (default : α)
    (hpart : ∀ a rest, part = some (a, rest) → rest <:+ cs) : (part.getD (default, cs)).2 <:+ cs := by
  cases part with
  | none => exact List.suffix_refl _
  | some found => exact hpart _ _ rfl

theorem leavesEnd_readNumber (cs : List Char) : LeavesEnd cs (readNumber cs) := by
  unfold readNumber
  split
  rename_i negative body hsign
  have hbody : body <:+ cs := by
    split at hsign <;> cases hsign
    · exact List.suffix_cons _ _
    · exact List.suffix_refl _
  split
  · exact leavesEnd_error _
  · rename_i whole rest hwhole
    have hplaces := suffix_getD [] fun _ _ => @suffix_of_fractionPart? rest _ _
    have hpower := suffix_getD 0 fun _ _ =>
      @suffix_of_exponentPart? ((fractionPart? rest).getD ([], rest)).2 _ _
    have hrest := hpower.trans (hplaces.trans ((suffix_of_wholePart? hwhole).trans hbody))
    dsimp only
    split
    · exact leavesEnd_ok _ hrest
    · split
      · exact leavesEnd_error _
      · exact leavesEnd_ok _ hrest

theorem suffix_of_after? {word : List Char} (h : after? word cs = some rest) : rest <:+ cs := by
  induction word generalizing cs with
  | nil =>
    cases h
    exact List.suffix_refl _
  | cons w word ih =>
    cases cs with
    | nil => cases h
    | cons c cs =>
      rw [after?] at h
      split at h
      · exact (ih h).trans (List.suffix_cons _ _)
      · cases h

theorem leavesEnd_readScalar (cs : List Char) : LeavesEnd cs (readScalar cs) := by
  unfold readScalar
  split
  · rename_i result hword
    obtain ⟨⟨word, value⟩, -, hafter⟩ := List.exists_of_findSome?_eq_some hword
    obtain ⟨rest, hrest, rfl⟩ := Option.map_eq_some_iff.1 hafter
    exact leavesEnd_ok value (suffix_of_after? hrest)
  · exact leavesEnd_readNumber cs

/-! ### Values -/

/-- A text is the end of another one, and shorter. -/
def ProperEnd (more cs : List Char) : Prop :=
  more <:+ cs ∧ more.length < cs.length

/-- What comes after a character and blanks. -/
theorem properEnd_skipBlanks {c : Char} (h : c :: rest <:+ cs) : ProperEnd (skipBlanks rest) cs := by
  have hlength := h.length_le
  have hblanks := (suffix_skipBlanks (List.suffix_refl rest)).length_le
  rw [List.length_cons] at hlength
  exact ⟨suffix_skipBlanks ((List.suffix_cons c rest).trans h), by omega⟩

/-- What reading a value does with its fuel: nothing, or it goes on inside an object or a list. -/
theorem readValue_step (cs : List Char) :
    (∃ result, LeavesEnd cs result ∧ ∀ fuel, readValue (fuel + 1) cs = result) ∨
      (∃ more, ProperEnd more cs ∧ ∀ fuel, readValue (fuel + 1) cs = readFields fuel [] more) ∨
      ∃ more, ProperEnd more cs ∧ ∀ fuel, readValue (fuel + 1) cs = readItems fuel [] more := by
  by_cases hquote : ∃ more, cs = '"' :: more
  · obtain ⟨more, rfl⟩ := hquote
    refine .inl ⟨_, ?_, fun fuel => by rw [readValue]⟩
    exact ((leavesEnd_readString more).mono (List.suffix_cons _ _)).bind fun _ _ h =>
      leavesEnd_ok _ h
  by_cases hbrace : ∃ more, cs = '{' :: more
  · obtain ⟨more, rfl⟩ := hbrace
    have hmore := properEnd_skipBlanks (List.suffix_refl ('{' :: more))
    -- only an object that is not closed at once has fields to read
    by_cases hclose : ∃ rest, skipBlanks more = '}' :: rest
    · obtain ⟨rest, hrest⟩ := hclose
      refine .inl ⟨.ok (.obj [], rest), leavesEnd_ok _ ?_, fun fuel => ?_⟩
      · exact (List.suffix_cons _ _).trans (hrest ▸ hmore.1)
      · rw [readValue, hrest]
        rfl
    · refine .inr (.inl ⟨skipBlanks more, hmore, fun fuel => ?_⟩)
      rw [readValue]
      split
      · exact absurd ⟨_, ‹_›⟩ hclose
      · rfl
  by_cases hbracket : ∃ more, cs = '[' :: more
  · obtain ⟨more, rfl⟩ := hbracket
    have hmore := properEnd_skipBlanks (List.suffix_refl ('[' :: more))
    -- and the same for a list
    by_cases hclose : ∃ rest, skipBlanks more = ']' :: rest
    · obtain ⟨rest, hrest⟩ := hclose
      refine .inl ⟨.ok (.arr [], rest), leavesEnd_ok _ ?_, fun fuel => ?_⟩
      · exact (List.suffix_cons _ _).trans (hrest ▸ hmore.1)
      · rw [readValue, hrest]
        rfl
    · refine .inr (.inr ⟨skipBlanks more, hmore, fun fuel => ?_⟩)
      rw [readValue]
      split
      · exact absurd ⟨_, ‹_›⟩ hclose
      · rfl
  refine .inl ⟨readScalar cs, leavesEnd_readScalar cs, fun fuel => ?_⟩
  rw [readValue]
  · exact fun more h => hquote ⟨more, h⟩
  · exact fun more h => hbrace ⟨more, h⟩
  · exact fun more h => hbracket ⟨more, h⟩

/-- What reading fields does with its fuel: nothing, or it reads the value after a key and goes on. -/
theorem readFields_step (done : List (Str × Json)) (cs : List Char) :
    (∃ fault, ∀ fuel, readFields (fuel + 1) done cs = .error fault) ∨
      ∃ key more, ProperEnd more cs ∧ ∀ fuel, readFields (fuel + 1) done cs = (do
        let (value, rest) ← readValue fuel more
        match skipBlanks rest with
        | '}' :: rest => return (.obj (setField key value done), rest)
        | ',' :: rest => readFields fuel (setField key value done) (skipBlanks rest)
        | rest => .error (.malformed .comma rest.length)) := by
  by_cases hquote : ∃ more, cs = '"' :: more
  · obtain ⟨more, rfl⟩ := hquote
    rcases hstring : readString more with fault | ⟨key, rest⟩
    · exact .inl ⟨fault, fun fuel => by rw [readFields, hstring]; rfl⟩
    have hrest := suffix_skipBlanks (leavesEnd_readString more key rest hstring)
    by_cases hcolon : ∃ after, skipBlanks rest = ':' :: after
    · obtain ⟨after, hafter⟩ := hcolon
      rw [hafter] at hrest
      refine .inr ⟨key, skipBlanks after,
        properEnd_skipBlanks (hrest.trans (List.suffix_cons _ _)), fun fuel => ?_⟩
      rw [readFields, hstring]
      dsimp only [bind, Except.bind]
      -- what comes after the key is the same text in the match and in `hafter`
      generalize skipBlanks rest = next at hafter
      subst hafter
      rfl
    · refine .inl ⟨.malformed .colon (skipBlanks rest).length, fun fuel => ?_⟩
      rw [readFields, hstring]
      simp only [bind, Except.bind]
      split
      · exact absurd ⟨_, ‹_›⟩ hcolon
      · rfl
  · refine .inl ⟨.malformed .propertyName cs.length, fun fuel => ?_⟩
    rw [readFields]
    exact fun more h => hquote ⟨more, h⟩

mutual

/-- Reading a value leaves an end of the text. -/
theorem leavesEnd_readValue : (fuel : Nat) → (cs : List Char) → LeavesEnd cs (readValue fuel cs)
  | 0, _ => leavesEnd_error _
  | fuel + 1, cs => by
    rcases readValue_step cs with ⟨result, hresult, h⟩ | ⟨more, hmore, h⟩ | ⟨more, hmore, h⟩
    · exact h fuel ▸ hresult
    · exact h fuel ▸ (leavesEnd_readFields fuel [] more).mono hmore.1
    · exact h fuel ▸ (leavesEnd_readItems fuel [] more).mono hmore.1

theorem leavesEnd_readFields : (fuel : Nat) → (done : List (Str × Json)) → (cs : List Char) →
    LeavesEnd cs (readFields fuel done cs)
  | 0, _, _ => leavesEnd_error _
  | fuel + 1, done, cs => by
    rcases readFields_step done cs with ⟨fault, h⟩ | ⟨key, more, hmore, h⟩
    · exact h fuel ▸ leavesEnd_error fault
    rw [h fuel]
    refine ((leavesEnd_readValue fuel more).mono hmore.1).bind fun value rest h => ?_
    have hrest := suffix_skipBlanks h
    dsimp only
    split
    · rename_i heq
      rw [heq] at hrest
      exact leavesEnd_ok _ ((List.suffix_cons _ _).trans hrest)
    · rename_i heq
      rw [heq] at hrest
      exact (leavesEnd_readFields fuel _ _).mono (properEnd_skipBlanks hrest).1
    · exact leavesEnd_error _

theorem leavesEnd_readItems : (fuel : Nat) → (done : List Json) → (cs : List Char) →
    LeavesEnd cs (readItems fuel done cs)
  | 0, _, _ => leavesEnd_error _
  | fuel + 1, done, cs => by
    rw [readItems]
    refine (leavesEnd_readValue fuel cs).bind fun item rest h => ?_
    have hrest := suffix_skipBlanks h
    dsimp only
    split
    · rename_i heq
      rw [heq] at hrest
      exact leavesEnd_ok _ ((List.suffix_cons _ _).trans hrest)
    · rename_i heq
      rw [heq] at hrest
      exact (leavesEnd_readItems fuel _ _).mono (properEnd_skipBlanks hrest).1
    · exact leavesEnd_error _

end

mutual

/-- Fuel above twice the length of a text makes no difference to reading a value. -/
theorem readValue_congr_fuel : (fuel fuel' : Nat) → {cs : List Char} → 2 * cs.length < fuel →
    2 * cs.length < fuel' → readValue fuel cs = readValue fuel' cs
  | 0, _, _, h, _ | _, 0, _, _, h => absurd h (Nat.not_lt_zero _)
  | fuel + 1, fuel' + 1, cs, h, h' => by
    rcases readValue_step cs with ⟨result, -, hstep⟩ | ⟨more, hmore, hstep⟩ | ⟨more, hmore, hstep⟩
    · rw [hstep, hstep]
    · have hlength := hmore.2
      rw [hstep, hstep]
      exact readFields_congr_fuel fuel fuel' [] (by omega) (by omega)
    · have hlength := hmore.2
      rw [hstep, hstep]
      exact readItems_congr_fuel fuel fuel' [] (by omega) (by omega)

theorem readFields_congr_fuel : (fuel fuel' : Nat) → (done : List (Str × Json)) → {cs : List Char} →
    2 * cs.length < fuel → 2 * cs.length < fuel' → readFields fuel done cs = readFields fuel' done cs
  | 0, _, _, _, h, _ | _, 0, _, _, _, h => absurd h (Nat.not_lt_zero _)
  | fuel + 1, fuel' + 1, done, cs, h, h' => by
    rcases readFields_step done cs with ⟨fault, hstep⟩ | ⟨key, more, hmore, hstep⟩
    · rw [hstep, hstep]
    have hlength := hmore.2
    rw [hstep, hstep, readValue_congr_fuel fuel fuel' (by omega) (by omega)]
    refine bind_congr_of_ok fun ⟨value, rest⟩ hread => ?_
    -- the value leaves an end of what it was read from, so that the next field is shorter
    have hrest := suffix_skipBlanks (leavesEnd_readValue fuel' more value rest hread)
    dsimp only
    split
    · rfl
    · rename_i heq
      rw [heq] at hrest
      have hnext := (properEnd_skipBlanks hrest).2
      exact readFields_congr_fuel fuel fuel' _ (by omega) (by omega)
    · rfl

theorem readItems_congr_fuel : (fuel fuel' : Nat) → (done : List Json) → {cs : List Char} →
    2 * cs.length + 1 < fuel → 2 * cs.length + 1 < fuel' →
    readItems fuel done cs = readItems fuel' done cs
  | 0, _, _, _, h, _ | _, 0, _, _, _, h => absurd h (Nat.not_lt_zero _)
  | fuel + 1, fuel' + 1, done, cs, h, h' => by
    rw [readItems, readItems, readValue_congr_fuel fuel fuel' (by omega) (by omega)]
    refine bind_congr_of_ok fun ⟨item, rest⟩ hread => ?_
    have hrest := suffix_skipBlanks (leavesEnd_readValue fuel' cs item rest hread)
    dsimp only
    split
    · rfl
    · rename_i heq
      rw [heq] at hrest
      have hnext := (properEnd_skipBlanks hrest).2
      exact readItems_congr_fuel fuel fuel' _ (by omega) (by omega)
    · rfl

end

/-- The fuel that a whole text is read with is enough: more of it gives the same value or the same fault. -/
theorem readValue_eq_of_lt {text : List Char} {fuel : Nat} (hfuel : 2 * text.length < fuel) :
    readValue fuel (skipBlanks text) = readValue (2 * text.length + 1) (skipBlanks text) := by
  have hblanks := (suffix_skipBlanks (List.suffix_refl text)).length_le
  exact readValue_congr_fuel _ _ (by omega) (by omega)

/-- Lists that are never closed are read down to the innermost one. -/
example : read ['[', '[', '['] = .error (.malformed .value ⟨1, 4⟩ 3) := by
  rfl

end Abacus.Json
