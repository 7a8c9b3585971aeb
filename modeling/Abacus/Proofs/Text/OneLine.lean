import Abacus.Json.Reader
import Abacus.Proofs.Eval.Hazards
import Abacus.Proofs.Program.Diagnostics
import Abacus.Session
import Abacus.Tree.Document

/-!
# Texts of one line

What is printed for a value is one line, and so is nearly every message. Numbers are made of digits, and
texts inside messages stand in quotes, where a line feed is written as an escape. Only two kinds of
messages show a text bare: about a name that no scope binds, and about a type of node that there is not.

## Main definitions

* `OneLine` — there is no line feed in the text

## Main results

* `Value.oneLine_toText`, `Json.oneLine_display` — values and documents are shown on one line
* `SourceError.About.oneLine_message` — messages about the reading of a source
* `EvalError.oneLine_message`, `DocumentError.oneLine_message`, `Json.ReadError.oneLine_message` — messages
  about running a program and about reading a document
-/

namespace Abacus

/-- There is no line feed in a text. -/
def OneLine (s : String) : Prop :=
  '\n' ∉ s.toList

theorem OneLine.append {s t : String} (hs : OneLine s) (ht : OneLine t) : OneLine (s ++ t) := by
  rw [OneLine, String.toList_append, List.mem_append, not_or]
  exact ⟨hs, ht⟩

theorem oneLine_ofList {cs : List Char} : OneLine (String.ofList cs) ↔ '\n' ∉ cs := by
  simp [OneLine]

/-- A fixed text is looked at character by character. -/
theorem oneLine_literal {cs : List Char} (h : '\n' ∉ cs) : OneLine (String.ofList cs) :=
  oneLine_ofList.2 h

theorem oneLine_intercalate {sep : String} {ts : List String} (hsep : OneLine sep)
    (hts : ∀ t ∈ ts, OneLine t) : OneLine (sep.intercalate ts) := by
  induction ts with
  | nil => exact oneLine_literal (List.not_mem_nil)
  | cons t ts ih =>
    obtain ⟨ht, hrest⟩ := List.forall_mem_cons.1 hts
    cases ts with
    | nil => simpa using ht
    | cons u us =>
      rw [String.intercalate_cons_cons]
      exact (ht.append hsep).append (ih hrest)

theorem oneLine_comma : OneLine ", " :=
  oneLine_literal (by decide)

/-! ### Numbers -/

theorem not_mem_toDigits {base : Nat} (hbase : 1 < base) (n : Nat) : '\n' ∉ Nat.toDigits base n := by
  induction n using Nat.strongRecOn with
  | ind n ih =>
    have hdigit (d : Nat) : '\n' ≠ d.digitChar := (Nat.digitChar_ne '\n' rfl).symm
    rw [Nat.toDigits_eq_if hbase]
    split
    · exact fun h => hdigit n (List.mem_singleton.1 h)
    · have hlt : n / base < n := Nat.div_lt_self (by omega) hbase
      rw [List.mem_append, List.mem_singleton, not_or]
      exact ⟨ih _ hlt, hdigit (n % base)⟩

theorem oneLine_toString_nat (n : Nat) : OneLine (toString n) := by
  have htext : (toString n).toList = Nat.toDigits 10 n := Nat.toList_repr
  rw [OneLine, htext]
  exact not_mem_toDigits (by decide) n

theorem oneLine_toString_int (n : Int) : OneLine (toString n) := by
  rw [Int.toString_eq_repr, Int.repr_eq_if]
  split
  · exact oneLine_toString_nat _
  · exact .append (oneLine_literal (by decide)) (oneLine_toString_nat _)

theorem oneLine_digitLimitMessage (digits : Nat) : OneLine (digitLimitMessage digits) := by
  exact .append (.append (.append (.append (oneLine_literal (by decide))
    (oneLine_toString_nat digitLimit)) (oneLine_literal (by decide))) (oneLine_toString_nat digits))
    (oneLine_literal (by decide))

/-! ### Quoted texts -/

theorem not_mem_hex (width n : Nat) : '\n' ∉ Text.hex width n := by
  have hdigits : '\n' ∉ Nat.toDigits 16 n := not_mem_toDigits (by decide) n
  simp [Text.hex, hdigits]

theorem not_mem_halfChars (n : Fin 0x800) : '\n' ∉ Text.halfChars n := by
  simp [Text.halfChars, not_mem_hex]

/-- Between quotes, a line feed is written as an escape. -/
theorem not_mem_quoteCode {mark : Char} (hmark : mark ≠ '\n') (code : Code) :
    '\n' ∉ Text.quoteCode mark code := by
  cases code with
  | half n => exact not_mem_halfChars n
  | char c =>
    rw [Text.quoteCode]
    -- the mark and the backslash are escaped, then the line feed, and what is left is none
    by_cases hescape : c = mark ∨ c = '\\'
    · rw [if_pos hescape]
      rcases hescape with rfl | rfl
      · simpa using hmark.symm
      · decide
    rw [if_neg hescape]
    by_cases hline : c = '\n'
    · rw [if_pos hline]
      decide
    rw [if_neg hline]
    have hself : '\n' ∉ [c] := fun h => hline (List.mem_singleton.1 h).symm
    repeat' split
    all_goals first
      | decide
      | exact hself
      | simp [not_mem_hex]

theorem not_mem_quoteCodes (codes : List Code) : '\n' ∉ Text.quoteCodes codes := by
  have hmark : Text.quoteFor codes ≠ '\n' := by
    unfold Text.quoteFor
    split <;> decide
  have hbody : '\n' ∉ codes.flatMap (Text.quoteCode (Text.quoteFor codes)) := by
    intro h
    obtain ⟨code, -, hcode⟩ := List.mem_flatMap.1 h
    exact not_mem_quoteCode hmark code hcode
  simp [Text.quoteCodes, hbody, hmark.symm]

theorem oneLine_quote (s : String) : OneLine (Text.quote s) := by
  rw [Text.quote, oneLine_ofList]
  exact not_mem_quoteCodes _

theorem Str.oneLine_quote (s : Str) : OneLine s.quote := by
  rw [Str.quote, oneLine_ofList]
  exact not_mem_quoteCodes _

/-! ### Values and documents -/

mutual

/-- A value is printed on one line. -/
theorem Value.oneLine_toText : (v : Value) → OneLine v.toText
  | .int n => oneLine_toString_int n
  | .bool b => by cases b <;> exact oneLine_literal (by decide)
  | .list items => by
    rw [Value.toText]
    have hitems := oneLine_intercalate oneLine_comma (Value.oneLine_toTexts items)
    exact .append (.append (oneLine_literal (by decide)) hitems) (oneLine_literal (by decide))

theorem Value.oneLine_toTexts : (vs : List Value) → ∀ t ∈ Value.toTexts vs, OneLine t
  | [] => List.forall_mem_nil _
  | v :: vs => List.forall_mem_cons.2 ⟨Value.oneLine_toText v, Value.oneLine_toTexts vs⟩

end

/-- Every result of a run is printed on one line. -/
theorem Report.oneLine_lines (vs : List (Option Value)) : ∀ t ∈ Report.lines vs, OneLine t := by
  intro t ht
  obtain ⟨v, -, hv⟩ := List.mem_filterMap.1 ht
  obtain ⟨w, -, rfl⟩ := Option.map_eq_some_iff.1 hv
  exact w.oneLine_toText

theorem Binary64.not_mem_positional {ds : List Char} (h : '\n' ∉ ds) (point : Int) :
    '\n' ∉ positional ds point := by
  unfold positional
  split
  · simp [h]
  · split
    · simp [h]
    · have htake : '\n' ∉ ds.take point.toNat := fun hc => h (List.mem_of_mem_take hc)
      have hdrop : '\n' ∉ ds.drop point.toNat := fun hc => h (List.mem_of_mem_drop hc)
      simp [htake, hdrop]

theorem Binary64.not_mem_scientific {ds : List Char} (h : '\n' ∉ ds) (point : Int) :
    '\n' ∉ scientific ds point := by
  have htake : '\n' ∉ ds.take 1 := fun hc => h (List.mem_of_mem_take hc)
  have hdrop : '\n' ∉ ds.tail := fun hc => h (List.mem_of_mem_tail hc)
  have hsize : '\n' ∉ Nat.toDigits 10 (point - 1).natAbs := not_mem_toDigits (by decide) _
  have hsign : '\n' ≠ (if point - 1 < 0 then '-' else '+') := by split <;> decide
  unfold scientific
  dsimp only
  generalize (if point - 1 < 0 then '-' else '+') = sign at hsign ⊢
  split <;> simp [htake, hdrop, hsize, hsign]

theorem Binary64.not_mem_signed {ds : List Char} (h : '\n' ∉ ds) (negative : Bool) :
    '\n' ∉ if negative then '-' :: ds else ds := by
  cases negative with
  | true => simpa using h
  | false => exact h

theorem Binary64.oneLine_toText (x : Binary64) : OneLine x.toText := by
  cases x with
  | nan => exact oneLine_literal (by decide)
  | infinity negative => cases negative <;> exact oneLine_literal (by decide)
  | finite negative mantissa exponent =>
    -- the digits are those of an integer, without the zeros at their end
    have hdigits : ∀ n, '\n' ∉ ((Nat.toDigits 10 n).reverse.dropWhile (· = '0')).reverse := by
      intro n hmem
      rw [List.mem_reverse] at hmem
      have hmem := (List.dropWhile_suffix _).subset hmem
      exact not_mem_toDigits (by decide) n (List.mem_reverse.1 hmem)
    rw [toText, oneLine_ofList]
    refine not_mem_signed ?_ negative
    split
    · decide
    · dsimp only
      split
      · exact not_mem_positional (hdigits _) _
      · exact not_mem_scientific (hdigits _) _

mutual

/-- A document is shown on one line. -/
theorem Json.oneLine_display : (j : Json) → OneLine j.display
  | .null => oneLine_literal (by decide)
  | .bool b => by cases b <;> exact oneLine_literal (by decide)
  | .int n => oneLine_toString_int n
  | .float x => x.oneLine_toText
  | .str s => s.oneLine_quote
  | .arr items => by
    rw [Json.display]
    have hitems := oneLine_intercalate oneLine_comma (Json.oneLine_displayItems items)
    exact .append (.append (oneLine_literal (by decide)) hitems) (oneLine_literal (by decide))
  | .obj fields => by
    rw [Json.display]
    have hfields := oneLine_intercalate oneLine_comma (Json.oneLine_displayFields fields)
    exact .append (.append (oneLine_literal (by decide)) hfields) (oneLine_literal (by decide))

theorem Json.oneLine_displayItems : (items : List Json) → ∀ t ∈ Json.displayItems items, OneLine t
  | [] => List.forall_mem_nil _
  | item :: items =>
    List.forall_mem_cons.2 ⟨Json.oneLine_display item, Json.oneLine_displayItems items⟩

theorem Json.oneLine_displayFields : (fields : List (Str × Json)) →
    ∀ t ∈ Json.displayFields fields, OneLine t
  | [] => List.forall_mem_nil _
  | (key, value) :: fields => by
    refine List.forall_mem_cons.2 ⟨?_, Json.oneLine_displayFields fields⟩
    exact .append (.append key.oneLine_quote (oneLine_literal (by decide)))
      (Json.oneLine_display value)

end

theorem Json.oneLine_typeName (j : Json) : OneLine j.typeName := by
  cases j <;> exact oneLine_literal (by decide)

/-- Where a name is expected, only a string is shown bare. -/
theorem Json.oneLine_shown {j : Json} (h : ∀ s, j = .str s → OneLine s.shown) : OneLine j.shown := by
  cases j with
  | str s => exact h s rfl
  | _ => exact Json.oneLine_display _

/-! ### Messages about the reading of a source -/

theorem Kind.oneLine_spelling (kind : Kind) : OneLine kind.spelling := by
  cases kind <;> exact oneLine_literal (by decide)

theorem oneLine_of_isName {word : String} (h : IsName word) : OneLine word := by
  intro hmem
  have hchar := h.chars '\n' hmem
  cases hchar

/-- A token that stands in a text is written on one line. -/
theorem FoundIn.oneLine_text {source : List Char} {l : Lexeme} (h : FoundIn source l) :
    OneLine l.bare.text := by
  have hspells := h.spells
  unfold Token.text
  -- only literals and identifiers are written as they stand in the source
  have hpayload : l.bare.payload = l.payload := rfl
  split
  · rename_i hkind
    rw [hpayload, Lexeme.payload, show l.kind = .integer from hkind]
    exact oneLine_toString_int _
  · rename_i hkind
    rw [show l.kind = .ident from hkind] at hspells
    rw [hpayload, Lexeme.payload, show l.kind = .ident from hkind]
    exact oneLine_of_isName hspells
  · exact Kind.oneLine_spelling _

theorem ParseError.oneLine_message {e : ParseError} (h : ∀ t ∈ e.token, OneLine t.text) :
    OneLine e.message := by
  cases e with
  | endOfInput last =>
    cases last with
    | none => exact oneLine_literal (by decide)
    | some last =>
      exact .append (.append (oneLine_literal (by decide)) (h last rfl)) (oneLine_literal (by decide))
  | unexpected found => exact .append (oneLine_literal (by decide)) (h found rfl)
  | expected kind found =>
    exact .append (.append (.append (oneLine_literal (by decide)) kind.oneLine_spelling)
      (oneLine_literal (by decide))) (h found rfl)
  | leftover | emptyBlock => exact oneLine_literal (by decide)

theorem oneLine_tooLarge {literal : String} (h : OneLine literal) (pos : Position) :
    OneLine (LexError.tooLarge literal pos).message :=
  .append (.append (oneLine_literal (by decide)) h) (oneLine_literal (by decide))

/-- A character that is no blank is shown on one line. -/
theorem oneLine_ofFault {c : Char} (hc : isBlank c = false) (pos : Position) :
    OneLine (LexError.ofFault c pos).message := by
  have hchar : OneLine c.toString := by
    refine oneLine_literal fun h => ?_
    rw [← List.mem_singleton.1 h] at hc
    cases hc
  rw [LexError.ofFault]
  split
  · exact .append (.append (.append (.append (oneLine_literal (by decide)) hchar)
      (oneLine_literal (by decide))) hchar) hchar
  · exact .append (oneLine_literal (by decide)) hchar

/-- What is said about something in a source is said on one line, if it is about the language. -/
theorem SourceError.About.oneLine_message {source : List Char} {e : SourceError} (h : e.About source)
    (hlanguage : e.isLanguage = true) : OneLine e.message := by
  cases h with
  | grammar h =>
    refine ParseError.oneLine_message fun t ht => ?_
    obtain ⟨l, hl, -, rfl⟩ := h t ht
    exact hl.oneLine_text
  | fault _ visible => exact oneLine_ofFault visible _
  | @tooLarge l pos h hl =>
    refine oneLine_tooLarge (oneLine_literal fun hmem => ?_) pos
    have hspells := h.spells
    rw [hl.1] at hspells
    cases hspells.2 '\n' hmem
  | tooManyDigits | longLiteral => cases hlanguage

/-! ### Messages about running a program -/

theorem ValueType.oneLine_name (type : ValueType) : OneLine type.name := by
  cases type <;> exact oneLine_literal (by decide)

theorem BinaryOp.oneLine_symbol (op : BinaryOp) : OneLine (Operator.symbol op) := by
  cases op <;> exact oneLine_literal (by decide)

theorem RelOp.oneLine_symbol (op : RelOp) : OneLine (Operator.symbol op) := by
  cases op <;> exact oneLine_literal (by decide)

/-- An error about a program is worded on one line, unless it is about a name with a line feed. -/
theorem EvalError.oneLine_message {e : EvalError} (h : e.isMisuse = false)
    (hname : ∀ s, e = .unknownName (.str s) → OneLine s.shown) : OneLine e.message := by
  cases e with
  | unknownName x =>
    refine .append (oneLine_literal (by decide)) (Json.oneLine_shown fun s hs => hname s ?_)
    rw [hs]
  | notInteger v | notTruth v =>
    -- the other messages are made of fixed parts, values, operators and types
    exact .append (.append (oneLine_literal (by decide)) v.oneLine_toText)
      (oneLine_literal (by decide))
  | unsupported op left right =>
    exact .append (.append (.append (.append (.append (oneLine_literal (by decide))
      op.oneLine_symbol) (oneLine_literal (by decide))) left.oneLine_name)
      (oneLine_literal (by decide))) right.oneLine_name
  | incomparable left right =>
    exact .append (.append (.append (oneLine_literal (by decide)) left.oneLine_name)
      (oneLine_literal (by decide))) right.oneLine_name
  | unordered op type =>
    exact .append (.append (.append (oneLine_literal (by decide)) op.oneLine_symbol)
      (oneLine_literal (by decide))) type.oneLine_name
  | divideByZero | negativePower | overflow | emptyBlock => exact oneLine_literal (by decide)
  | compoundName | misplacedStatement | misplacedExpression => cases h

/-! ### Messages about reading a document -/

theorem Json.ReadError.oneLine_message (e : Json.ReadError) : OneLine e.message := by
  cases e with
  | malformed cause pos offset =>
    have hcause : OneLine cause.message := by cases cause <;> exact oneLine_literal (by decide)
    exact .append (.append (.append (.append (.append (.append (.append hcause
      (oneLine_literal (by decide))) (oneLine_toString_int _)) (oneLine_literal (by decide)))
      (oneLine_toString_int _)) (oneLine_literal (by decide))) (oneLine_toString_nat _))
      (oneLine_literal (by decide))
  | tooManyDigits digits => exact oneLine_digitLimitMessage digits

theorem NumeralError.oneLine_message (e : NumeralError) : OneLine e.message := by
  cases e with
  | malformed text =>
    refine .append (oneLine_literal (by decide)) (oneLine_literal fun h => ?_)
    exact not_mem_quoteCodes _ (List.mem_of_mem_take h)
  | tooManyDigits digits => exact oneLine_digitLimitMessage digits

/-- A fault of a document is worded on one line, unless it is about a type with a line feed. -/
theorem DocumentError.oneLine_message {e : DocumentError}
    (htype : ∀ s, e = .unknownType (.str s) → OneLine s.shown)
    (hfamily : ∀ family found, e = .unknownOperator family found → OneLine family) :
    OneLine e.message := by
  cases e with
  | notProgram found | notNode found =>
    exact .append (oneLine_literal (by decide)) found.oneLine_display
  | missing key => exact oneLine_quote key
  | unknownType type =>
    refine .append (oneLine_literal (by decide)) (Json.oneLine_shown fun s hs => htype s ?_)
    rw [hs]
  | compoundType found | notIterable found | notNumber found =>
    exact .append (.append (oneLine_literal (by decide)) found.oneLine_typeName)
      (oneLine_literal (by decide))
  | unknownOperator family found =>
    exact .append (.append found.oneLine_display (oneLine_literal (by decide)))
      (hfamily family found rfl)
  | numeral error => exact error.oneLine_message
  | notANumber | infinite => exact oneLine_literal (by decide)
  | outOfRange n => exact oneLine_tooLarge (oneLine_toString_int n) ⟨0, 0⟩
  | unsupported found => exact .append (oneLine_literal (by decide)) found.oneLine_typeName

end Abacus
