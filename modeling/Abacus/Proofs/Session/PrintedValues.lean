import Abacus.Proofs.Program.Printing
import Abacus.Proofs.Session.Composition
import Abacus.Proofs.Store.Writable
import Abacus.Proofs.Token.Segmentation

/-!
# Printed values

A value is printed as it could be written in a source: an integer in decimal, with a minus sign before it
if it is negative, and a list in brackets with commas between its items. Such a text is cut into the tokens
of an expression, whatever the size of the integers, and the value of the expression is the one that was
printed.

Literals have no sign. So the least integer is printed with a literal that is too large, and a text with it
is refused, for all others are read back.

## Main definitions

* `Value.toExpr` — the expression that a printed value is read as
* `Prints` — lexemes spell the given tokens, and their literals the given integers

## Main results

* `Value.exists_cuts_toText` — the lexemes of a printed value
* `Node.eval_toExpr` — the value of the expression is the value that was printed
* `readSource_of_large_literal` — both front ends refuse the first literal that is too large
* `runSource_toText` — running a printed value
-/

namespace Abacus

open Automaton Grammar

/-! ### Values as expressions -/

mutual

/-- The expression that a printed value is read as: a sign is an operator of its own. -/
def Value.toExpr : Value → Expr
  | .int n =>
    if n < 0 then .unary .minus (.int (some (.int n.natAbs))) else .int (some (.int n.natAbs))
  | .bool b => .bool b
  | .list items => .list (Value.toExprs items)

/-- The expressions that printed values are read as. -/
def Value.toExprs : List Value → List Expr
  | [] => []
  | v :: vs => v.toExpr :: Value.toExprs vs

end

/-- The text of the items of a list, with commas between them. -/
def Value.itemsText (vs : List Value) : List Char :=
  (", ".intercalate (Value.toTexts vs)).toList

namespace Value

theorem toList_toText_int (n : Int) :
    (toText (.int n)).toList =
      (if n < 0 then ['-'] else []) ++ Nat.toDigits 10 n.natAbs := by
  rw [toText]
  cases n with
  | ofNat m =>
    have hsign : ¬Int.ofNat m < 0 := Int.not_lt.2 (Int.natCast_nonneg m)
    rw [if_neg hsign]
    exact Nat.toList_repr
  | negSucc m =>
    rw [if_pos (Int.negSucc_lt_zero m)]
    have htext : (toString (Int.negSucc m)).toList = '-' :: (Nat.repr (m + 1)).toList := by
      simp [toString, Int.repr]
    rw [htext, Nat.toList_repr]
    rfl

theorem toList_toText_list (items : List Value) :
    (toText (.list items)).toList = '[' :: (itemsText items ++ [']']) := by
  rw [toText]
  simp [itemsText]

theorem itemsText_singleton (v : Value) : itemsText [v] = v.toText.toList := by
  simp [itemsText, toTexts]

theorem itemsText_cons_cons (v w : Value) (vs : List Value) :
    itemsText (v :: w :: vs) = v.toText.toList ++ ',' :: ' ' :: itemsText (w :: vs) := by
  simp [itemsText, toTexts, String.toList_intercalate]

end Value

/-! ### The lexemes of a printed value -/

/-- Lexemes spell the given tokens, wherever these stand, and their literals are the given integers without
their signs, in decimal. -/
structure Prints (ls : List Lexeme) (ts : List Token) (ns : List Int) : Prop where
  tokens : (ls.map Lexeme.bare).map Token.content = ts.map Token.content
  literals : (ls.filter (·.kind = .integer)).map Lexeme.chars =
    ns.map fun n => Nat.toDigits 10 n.natAbs

theorem prints_nil : Prints [] [] [] :=
  ⟨rfl, rfl⟩

theorem Prints.append {ls ms : List Lexeme} {ts us : List Token} {ns ks : List Int}
    (h : Prints ls ts ns) (h' : Prints ms us ks) : Prints (ls ++ ms) (ts ++ us) (ns ++ ks) := by
  refine ⟨?_, ?_⟩
  · simp only [List.map_append, h.tokens, h'.tokens]
  · simp only [List.filter_append, List.map_append, h.literals, h'.literals]

theorem prints_mark {kind : Kind} (hint : kind ≠ .integer) (hname : kind ≠ .ident) (chars : List Char)
    (pos : Position) : Prints [⟨kind, chars, pos⟩] [.mark kind] [] := by
  refine ⟨?_, by simp [hint]⟩
  have hpayload : Lexeme.payload ⟨kind, chars, pos⟩ = none := payload_eq_none hint hname
  simp [Lexeme.bare, hpayload, Token.content, Token.mark]

theorem prints_digits (n : Int) (pos : Position) :
    Prints [⟨.integer, Nat.toDigits 10 n.natAbs, pos⟩]
      [{ kind := .integer, payload := some (.int n.natAbs) }] [n] := by
  refine ⟨?_, by simp⟩
  have hvalue : Nat.ofDigitChars 10 (Nat.toDigits 10 n.natAbs) 0 = n.natAbs :=
    Nat.ofDigitChars_toDigits (by decide) (by decide)
  simp [Lexeme.bare, Lexeme.payload, Token.content, hvalue]

section Cut

variable {source blanks rest : List Char} {ls : List Lexeme}

/-- One more piece is cut from a source. -/
theorem Cuts.piece {kind : Kind} {chars : List Char}
    (h : Cuts source ls (blanks ++ (chars ++ rest))) (hblanks : Blank blanks)
    (hspells : kind.Spells chars) (hlongest : Longest chars rest) :
    ∃ pos, Cuts source (ls ++ [⟨kind, chars, pos⟩]) rest := by
  obtain ⟨front, hfront⟩ := h.exists_front
  let l : Lexeme := ⟨kind, chars, .behind (front ++ blanks)⟩
  have hl : Next source (blanks ++ (l.chars ++ rest)) l rest :=
    ⟨hfront, hblanks, hspells, hlongest, rfl⟩
  exact ⟨l.pos, h.next hl⟩

theorem longest_toDigits (n : Nat) (hrest : ∀ c ∈ rest.head?, Separates c) :
    Longest (Nat.toDigits 10 n) rest := by
  have hdigits := isDigit_of_mem_toDigits n
  obtain ⟨c, cs, hcs⟩ := List.exists_cons_of_ne_nil (@Nat.toDigits_ne_nil n 10)
  rw [hcs, List.forall_mem_cons] at hdigits
  rw [hcs]
  exact (longest_digits_iff hdigits.1 hdigits.2).2 fun d hd => (hrest d hd).digit

theorem Cuts.digits (n : Int) (h : Cuts source ls (blanks ++ (Nat.toDigits 10 n.natAbs ++ rest)))
    (hblanks : Blank blanks) (hrest : ∀ c ∈ rest.head?, Separates c) :
    ∃ ms, Cuts source (ls ++ ms) rest ∧
      Prints ms [{ kind := .integer, payload := some (.int n.natAbs) }] [n] := by
  have hspells : Kind.Spells .integer (Nat.toDigits 10 n.natAbs) :=
    ⟨Nat.toDigits_ne_nil, isDigit_of_mem_toDigits _⟩
  obtain ⟨pos, hcuts⟩ := h.piece hblanks hspells (longest_toDigits _ hrest)
  exact ⟨_, hcuts, prints_digits n pos⟩

/-- A piece that carries nothing is cut. -/
theorem Cuts.fixed {kind : Kind} (hkind : kind ≠ .integer ∧ kind ≠ .ident)
    (hspells : kind.Spells kind.spelling.toList) (hlongest : Longest kind.spelling.toList rest)
    (h : Cuts source ls (blanks ++ (kind.spelling.toList ++ rest))) (hblanks : Blank blanks) :
    ∃ ms, Cuts source (ls ++ ms) rest ∧ Prints ms [.mark kind] [] := by
  obtain ⟨pos, hcuts⟩ := h.piece hblanks hspells hlongest
  exact ⟨_, hcuts, prints_mark hkind.1 hkind.2 _ pos⟩

/-- Brackets, commas and minus signs are no part of a longer token. -/
theorem longest_mark (c : Char) (hc : c ∈ ['[', ']', ',', '-']) (rest : List Char) :
    Longest [c] rest := by
  simp only [List.mem_cons, List.not_mem_nil, or_false] at hc
  rcases hc with rfl | rfl | rfl | rfl <;> refine (longest_single_iff rfl rfl).2 ?_ <;>
    cases rest <;> simp [Kind.ofTwo?]

theorem Cuts.mark (kind : Kind) (hkind : kind ∈ [.lbracket, .rbracket, .comma, .minus])
    (h : Cuts source ls (blanks ++ (kind.spelling.toList ++ rest))) (hblanks : Blank blanks) :
    ∃ ms, Cuts source (ls ++ ms) rest ∧ Prints ms [.mark kind] [] := by
  simp only [List.mem_cons, List.not_mem_nil, or_false] at hkind
  rcases hkind with rfl | rfl | rfl | rfl
  · exact Cuts.fixed (by decide) rfl (longest_mark '[' (by decide) rest) h hblanks
  · exact Cuts.fixed (by decide) rfl (longest_mark ']' (by decide) rest) h hblanks
  · exact Cuts.fixed (by decide) rfl (longest_mark ',' (by decide) rest) h hblanks
  · exact Cuts.fixed (by decide) rfl (longest_mark '-' (by decide) rest) h hblanks

/-- The words for truth values go on up to a character that separates tokens. -/
theorem Cuts.truth (b : Bool) (h : Cuts source ls (blanks ++ ((Value.toText (.bool b)).toList ++ rest)))
    (hblanks : Blank blanks) (hrest : ∀ c ∈ rest.head?, Separates c) :
    ∃ ms, Cuts source (ls ++ ms) rest ∧
      Prints ms [.mark (if b then .kwTrue else .kwFalse)] [] := by
  have hword : ∀ d ∈ rest.head?, isWordChar d = false := fun d hd => (hrest d hd).word
  cases b with
  | true =>
    have hlongest : Longest ['t', 'r', 'u', 'e'] rest :=
      (longest_word_iff rfl (List.all_eq_true.1 rfl)).2 hword
    exact Cuts.fixed (by decide) rfl hlongest h hblanks
  | false =>
    have hlongest : Longest ['f', 'a', 'l', 's', 'e'] rest :=
      (longest_word_iff rfl (List.all_eq_true.1 rfl)).2 hword
    exact Cuts.fixed (by decide) rfl hlongest h hblanks

end Cut

theorem separates_comma : Separates ',' :=
  separates_of_ne rfl nofun nofun nofun

theorem separates_rbracket : Separates ']' :=
  separates_of_ne rfl nofun nofun nofun

theorem separates_head {c : Char} (hc : Separates c) (rest : List Char) :
    ∀ d ∈ (c :: rest).head?, Separates d := by
  rintro d ⟨⟩
  exact hc

mutual

/-- A printed value is cut from a source that goes on with something that separates tokens. -/
theorem Cuts.value : (v : Value) → {source blanks rest : List Char} → {ls : List Lexeme} →
    Cuts source ls (blanks ++ (v.toText.toList ++ rest)) → Blank blanks →
    (∀ c ∈ rest.head?, Separates c) →
    ∃ ms, Cuts source (ls ++ ms) rest ∧ Prints ms v.toExpr.spell v.integers
  | .int n, source, blanks, rest, ls, h, hblanks, hrest => by
    rw [Value.toList_toText_int] at h
    rw [Value.toExpr, Value.integers]
    by_cases hn : n < 0
    · rw [if_pos hn] at h ⊢
      -- the sign is cut first, and the digits follow it without a blank
      obtain ⟨sign, hsign, hprints⟩ := Cuts.mark .minus (by decide) h hblanks
      have hdigits : Cuts source (ls ++ sign) ([] ++ (Nat.toDigits 10 n.natAbs ++ rest)) := hsign
      obtain ⟨ms, hcuts, hprints'⟩ := hdigits.digits n (List.forall_mem_nil _) hrest
      rw [List.append_assoc] at hcuts
      exact ⟨sign ++ ms, hcuts, hprints.append hprints'⟩
    · rw [if_neg hn] at h ⊢
      exact Cuts.digits n h hblanks hrest
  | .bool b, source, blanks, rest, ls, h, hblanks, hrest => by
    rw [Value.toExpr, Value.integers]
    exact h.truth b hblanks hrest
  | .list items, source, blanks, rest, ls, h, hblanks, hrest => by
    rw [Value.toList_toText_list] at h
    rw [Value.toExpr, Value.integers, Expr.spell]
    have hopen : Cuts source ls (blanks ++ ('[' :: (Value.itemsText items ++ ']' :: rest))) := by
      simpa using h
    obtain ⟨left, hleft, hprints⟩ := Cuts.mark .lbracket (by decide) hopen hblanks
    -- what is between the brackets begins without a blank
    have hinside : ∃ ms, Cuts source (ls ++ left ++ ms) (']' :: rest) ∧
        Prints ms (Expr.spellItems (Value.toExprs items)) (Value.integersAll items) := by
      by_cases hnil : items = []
      · subst hnil
        exact ⟨[], by simpa [Value.itemsText, Value.toTexts] using hleft, prints_nil⟩
      · exact Cuts.items items hnil (List.nil_append _ ▸ hleft) (List.forall_mem_nil _)
    obtain ⟨ms, hms, hprints'⟩ := hinside
    have hclose : Cuts source (ls ++ left ++ ms) ([] ++ (']' :: rest)) := hms
    obtain ⟨right, hright, hprints''⟩ :=
      Cuts.mark .rbracket (by decide) hclose (List.forall_mem_nil _)
    refine ⟨left ++ (ms ++ right), by simpa using hright, ?_⟩
    simpa using hprints.append (hprints'.append hprints'')

/-- The items of a printed list are cut up to the bracket that closes it. -/
theorem Cuts.items : (vs : List Value) → vs ≠ [] → {source blanks rest : List Char} →
    {ls : List Lexeme} → Cuts source ls (blanks ++ (Value.itemsText vs ++ ']' :: rest)) →
    Blank blanks →
    ∃ ms, Cuts source (ls ++ ms) (']' :: rest) ∧
      Prints ms (Expr.spellItems (Value.toExprs vs)) (Value.integersAll vs)
  | [], hne, _, _, _, _, _, _ => absurd rfl hne
  | [v], _, source, blanks, rest, ls, h, hblanks => by
    rw [Value.itemsText_singleton] at h
    obtain ⟨ms, hcuts, hprints⟩ := h.value v hblanks (separates_head separates_rbracket rest)
    refine ⟨ms, hcuts, ?_⟩
    simpa [Value.toExprs, Expr.spellItems, Value.integersAll] using hprints
  | v :: w :: vs, _, source, blanks, rest, ls, h, hblanks => by
    rw [Value.itemsText_cons_cons, List.append_assoc] at h
    obtain ⟨ms, hcuts, hprints⟩ := h.value v hblanks (separates_head separates_comma _)
    have hcomma : Cuts source (ls ++ ms) ([] ++ (',' :: ' ' :: (Value.itemsText (w :: vs) ++
        ']' :: rest))) := hcuts
    obtain ⟨comma, hcuts', hprints'⟩ := Cuts.mark .comma (by decide) hcomma (List.forall_mem_nil _)
    -- the blank after the comma stands before the next item
    have hnext : Cuts source (ls ++ ms ++ comma) ([' '] ++ (Value.itemsText (w :: vs) ++ ']' :: rest)) :=
      hcuts'
    obtain ⟨more, hcuts'', hprints''⟩ :=
      Cuts.items (w :: vs) nofun hnext (List.forall_mem_singleton.2 rfl)
    refine ⟨ms ++ (comma ++ more), by simpa using hcuts'', ?_⟩
    simpa [Value.toExprs, Expr.spellItems, Value.integersAll] using
      hprints.append (hprints'.append hprints'')

end

/-- The lexemes of a printed value are those of its expression, and the literals among them are its
integers without their signs. -/
theorem Value.exists_cuts_toText (v : Value) :
    ∃ ls, Cuts v.toText.toList ls [] ∧ Prints ls v.toExpr.spell v.integers := by
  have hstart : Cuts v.toText.toList [] ([] ++ (v.toText.toList ++ [])) := by
    rw [List.nil_append, List.append_nil]
    exact .start
  exact hstart.value v (List.forall_mem_nil _) nofun

section Literals

variable {ls : List Lexeme} {ts : List Token} {ns : List Int} {l : Lexeme}

theorem Prints.exists_integer (h : Prints ls ts ns) (hl : l ∈ ls) (hkind : l.kind = .integer) :
    ∃ n ∈ ns, l.chars = Nat.toDigits 10 n.natAbs := by
  have hmem : l.chars ∈ (ls.filter (·.kind = .integer)).map Lexeme.chars :=
    List.mem_map_of_mem (List.mem_filter.2 ⟨hl, by simpa using hkind⟩)
  rw [h.literals] at hmem
  obtain ⟨n, hn, hchars⟩ := List.mem_map.1 hmem
  exact ⟨n, hn, hchars.symm⟩

theorem Prints.exists_literal (h : Prints ls ts ns) {n : Int} (hn : n ∈ ns) :
    ∃ l ∈ ls, l.kind = .integer ∧ l.chars = Nat.toDigits 10 n.natAbs := by
  have hmem : Nat.toDigits 10 n.natAbs ∈ ns.map fun n => Nat.toDigits 10 n.natAbs :=
    List.mem_map_of_mem hn
  rw [← h.literals] at hmem
  obtain ⟨l, hl, hchars⟩ := List.mem_map.1 hmem
  obtain ⟨hl, hkind⟩ := List.mem_filter.1 hl
  exact ⟨l, hl, by simpa using hkind, hchars⟩

theorem Lexeme.tooLarge_iff {n : Int} (hkind : l.kind = .integer)
    (hchars : l.chars = Nat.toDigits 10 n.natAbs) : l.TooLarge ↔ maxInt < n.natAbs := by
  have hvalue : Nat.ofDigitChars 10 (Nat.toDigits 10 n.natAbs) 0 = n.natAbs :=
    Nat.ofDigitChars_toDigits (by decide) (by decide)
  rw [TooLarge, hchars, hvalue]
  exact and_iff_right hkind

/-- With all integers in range, no literal is too long, and only that of the least integer is too
large. -/
theorem Prints.fits_or_least (h : Prints ls ts ns) (hns : ∀ n ∈ ns, InRange n) (hl : l ∈ ls) :
    ¬l.TooLong ∧ (l.TooLarge → minInt ∈ ns ∧ l.chars = "2147483648".toList) := by
  refine ⟨?_, ?_⟩
  · rintro ⟨hkind, hlong⟩
    obtain ⟨n, hn, hchars⟩ := h.exists_integer hl hkind
    rw [hchars] at hlong
    exact absurd (length_toDigits_natAbs_le (hns n hn)) (Nat.not_le.2 hlong)
  · intro hlarge
    obtain ⟨n, hn, hchars⟩ := h.exists_integer hl hlarge.1
    have hsize := (Lexeme.tooLarge_iff hlarge.1 hchars).1 hlarge
    -- one integer in range is larger than all others without its sign
    have hleast : n = minInt := by
      have hrange := hns n hn
      unfold InRange minInt maxInt at *
      omega
    rw [hleast] at hn hchars
    exact ⟨hn, hchars.trans (by decide)⟩

end Literals

/-! ### Reading and running -/

/-- Tokens that are those of an expression but for their places are a program. -/
theorem Prints.isProgram {ls : List Lexeme} {ns : List Int} {e : Expr} (h : Prints ls e.spell ns) :
    IsProgram (ls.map Lexeme.bare) [.expr e] :=
  .body (.last (.expr (e.isExpr_spell.of_content h.tokens)))

/-- The first literal of a program that is too large is refused by both front ends, where it stands. -/
theorem readSource_of_large_literal {source rest : List Char} {before after : List Lexeme} {l : Lexeme}
    {body : List Stmt} (h : Cuts source (before ++ l :: after) rest) (hblank : Blank rest)
    (hprogram : IsProgram ((before ++ l :: after).map Lexeme.bare) body)
    (hbefore : ∀ m ∈ before, m.Fits) (hshort : ¬l.TooLong) (hlarge : l.TooLarge)
    (frontEnd : FrontEnd) :
    readSource frontEnd source = .error (.lexical (.tooLarge (String.ofList l.chars) l.pos)) := by
  cases frontEnd with
  | descent =>
    obtain ⟨text, rest', hcuts, hnext⟩ := h.exists_next
    have htokens := hcuts.tokenize_of_refused hbefore (.tooLarge hnext hshort hlarge)
    rw [readSource, htokens]
  | automaton =>
    -- the tokens are a program, so that literals are looked at
    obtain ⟨state, hstate⟩ := exists_reaches ⟨[], body, by rwa [List.append_nil]⟩
    have hfits : ¬l.Fits := fun hl => hl.2 hlarge
    rw [h.readSource_of_blank hstate hblank, hstate.finish_eq_some_iff.2 hprogram, Option.elim_some,
      literalError?_append hbefore hfits, Option.elim_some, Lexeme.refusal, if_neg hshort]

namespace Node

mutual

/-- The expression that a printed value is read as has this value, whatever the bindings are. -/
theorem eval_toExpr (scope : Scope) : (v : Value) → (∀ n ∈ v.integers, InRange n) →
    eval scope v.toExpr.toNode = .ok v
  | .int n, h => by
    rw [Value.integers, List.forall_mem_singleton] at h
    rw [Value.toExpr]
    by_cases hn : n < 0
    · have hsign : -(n.natAbs : Int) = n := by omega
      rw [if_pos hn, Expr.toNode, Expr.toNode, Node.ofLiteral, eval, eval]
      change UnaryOp.apply .minus (.int n.natAbs) = _
      simp only [UnaryOp.apply, Value.asInt]
      change (do return Value.int (← checked (-(n.natAbs : Int)))) = _
      rw [hsign, checked_of_inRange h]
      rfl
    · have hsign : (n.natAbs : Int) = n := by omega
      rw [if_neg hn, Expr.toNode, Node.ofLiteral, eval, hsign]
  | .bool b, _ => by
    rw [Value.toExpr, Expr.toNode, eval]
  | .list items, h => by
    rw [Value.integers] at h
    rw [Value.toExpr, Expr.toNode, eval, evalAll_toExprs scope items h]
    rfl

theorem evalAll_toExprs (scope : Scope) : (vs : List Value) → (∀ n ∈ Value.integersAll vs, InRange n) →
    evalAll scope (Expr.toNodes (Value.toExprs vs)) = .ok vs
  | [], _ => rfl
  | v :: vs, h => by
    rw [Value.integersAll, List.forall_mem_append] at h
    rw [Value.toExprs, Expr.toNodes, evalAll, eval_toExpr scope v h.1, evalAll_toExprs scope vs h.2]
    rfl

end

end Node

section Run

variable {v : Value} (frontEnd : FrontEnd) (table : Table)

theorem readSource_toText (h : ∀ n ∈ v.integers, InRange n) (hleast : minInt ∉ v.integers) :
    readSource frontEnd v.toText.toList = .ok [.expr v.toExpr] := by
  obtain ⟨ls, hcuts, hprints⟩ := v.exists_cuts_toText
  have hfits : ∀ l ∈ ls, l.Fits := by
    intro l hl
    obtain ⟨hshort, hlarge⟩ := hprints.fits_or_least h hl
    exact ⟨hshort, fun hl => hleast (hlarge hl).1⟩
  have htokens := hcuts.tokenize_of_blank hfits (List.forall_mem_nil _)
  exact readSource_eq_ok_iff.2 ⟨_, htokens, hprints.isProgram⟩

theorem runSource_toText_of_lt (h : ∀ n ∈ v.integers, InRange n) (hleast : minInt ∉ v.integers) :
    (runSource (.known frontEnd) v.toText.toList table).result = .ok [some v] := by
  rw [(runSource_eq_runTree (readSource_toText frontEnd h hleast) table).1]
  have heval := Node.eval_toExpr ⟨table, []⟩ v h
  simp [Stmt.toNodes, Stmt.toNode, runTree, runIn, Node.run, Node.exec, heval, Outcome.lift,
    Outcome.andThen, Outcome.done, Except.map, Except.mapError]

/-- Where the least integer is printed, the digits after the sign are refused. -/
theorem readSource_toText_of_least (h : ∀ n ∈ v.integers, InRange n) (hleast : minInt ∈ v.integers) :
    ∃ before after, v.toText.toList = before ++ ("2147483648".toList ++ after) ∧
      readSource frontEnd v.toText.toList =
        .error (.lexical (.tooLarge "2147483648" (.behind before))) := by
  obtain ⟨ls, hcuts, hprints⟩ := v.exists_cuts_toText
  -- the literal of the least integer does not fit, so that there is a first one that does not
  have hmisfit : ¬∀ l ∈ ls, l.Fits := by
    intro hfits
    obtain ⟨l, hl, hkind, hchars⟩ := hprints.exists_literal hleast
    exact (hfits l hl).2 ((Lexeme.tooLarge_iff hkind hchars).2 (by decide))
  obtain ⟨before, l, after, rfl, hbefore, hl⟩ := exists_first_misfit hmisfit
  obtain ⟨hshort, hchars⟩ := hprints.fits_or_least h (by simp : l ∈ before ++ l :: after)
  have hlarge : l.TooLarge := by
    by_contra hlarge
    exact hl ⟨hshort, hlarge⟩
  have hread := readSource_of_large_literal hcuts (List.forall_mem_nil _) hprints.isProgram hbefore
    hshort hlarge frontEnd
  obtain ⟨text, rest, -, within, -, -, -, place⟩ := hcuts.exists_next
  rename_i front blanks
  rw [(hchars hlarge).2] at within hread
  refine ⟨front ++ blanks, rest, by rw [within]; simp, ?_⟩
  rw [hread, place, String.ofList_toList]

end Run

/-- Running what is printed for a value whose integers are in range, and none of them the least one, gives
this value, with both front ends and whatever the bindings are. Where one is the least integer, a literal
`2147483648` in the text is refused at its place. So no two of the former values are printed alike. -/
theorem runSource_toText (v : Value) :
    (∀ (frontEnd : FrontEnd) (table : Table), (∀ n ∈ v.integers, minInt + 1 ≤ n ∧ n ≤ maxInt) →
      (runSource (.known frontEnd) v.toText.toList table).result = .ok [some v]) ∧
    (∀ (frontEnd : FrontEnd) (table : Table), (∀ n ∈ v.integers, minInt ≤ n ∧ n ≤ maxInt) →
      minInt ∈ v.integers →
      ∃ before after, v.toText.toList = before ++ ("2147483648".toList ++ after) ∧
        (runSource (.known frontEnd) v.toText.toList table).result =
          .error (.source (.lexical (.tooLarge "2147483648" (.behind before))))) ∧
    ∀ w : Value, (∀ n ∈ v.integers, minInt + 1 ≤ n ∧ n ≤ maxInt) →
      (∀ n ∈ w.integers, minInt + 1 ≤ n ∧ n ≤ maxInt) → v.toText = w.toText → v = w := by
  have hback (v : Value) (h : ∀ n ∈ v.integers, minInt + 1 ≤ n ∧ n ≤ maxInt) (frontEnd : FrontEnd)
      (table : Table) : (runSource (.known frontEnd) v.toText.toList table).result = .ok [some v] := by
    refine runSource_toText_of_lt frontEnd table (fun n hn => ?_) fun hleast => ?_
    · obtain ⟨hmin, hmax⟩ := h n hn
      exact ⟨by omega, hmax⟩
    · have hmin := (h minInt hleast).1
      omega
  refine ⟨fun frontEnd table h => hback v h frontEnd table, fun frontEnd table h hleast => ?_,
    fun w hv hw htext => ?_⟩
  · obtain ⟨before, after, htext, hread⟩ := readSource_toText_of_least frontEnd h hleast
    obtain ⟨events, hrun⟩ := runSource_of_unread hread table
    exact ⟨before, after, htext, by rw [hrun]; rfl⟩
  · -- the text that both are printed as is run once
    have hrun := hback v hv .descent []
    rw [htext, hback w hw .descent []] at hrun
    cases hrun
    rfl

/-- A nested list is read back, and the least integer in one is refused. -/
theorem runSource_toText_nested :
    let v : Value := .list [.int (-2147483647), .list [.bool true, .list []], .int 2147483647]
    let w : Value := .list [.int 0, .int (-2147483648)]
    (runSource (.known .descent) v.toText.toList []).result = .ok [some v] ∧
      ∃ before after, w.toText.toList = before ++ ("2147483648".toList ++ after) ∧
        (runSource (.known .automaton) w.toText.toList []).result =
          .error (.source (.lexical (.tooLarge "2147483648" (.behind before)))) := by
  intro v w
  have hv : ∀ n ∈ v.integers, minInt + 1 ≤ n ∧ n ≤ maxInt := by decide
  have hw : ∀ n ∈ w.integers, minInt ≤ n ∧ n ≤ maxInt := by decide
  exact ⟨(runSource_toText v).1 .descent [] hv,
    (runSource_toText w).2.1 .automaton [] hw (by decide)⟩

end Abacus
