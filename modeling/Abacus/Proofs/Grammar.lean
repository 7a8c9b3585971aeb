import Abacus.Program.Automaton
import Abacus.Program.Descent

/-!
# The grammar of programs

A program is described here by the token lists that spell it, without saying how they are read. There
is one relation for each construct, and one rule for each of its productions.

Two rules keep a token list from spelling two programs. The branch of a conditional does not begin with
a sign, since a sign after a test is an operator of the test; and the first of two branches does not
end in a conditional without a second branch, since a second branch belongs to the nearest test.

## Main definitions

* `Grammar.IsExpr`, `Grammar.IsPrimary`, `Grammar.IsItems` — expressions by level, operands, and the
  items of a list
* `Grammar.IsStmt`, `Grammar.IsBody`, `Grammar.IsProgram` — statements, sequences, programs
* `Stmt.EndsOpen` — the statement ends in a conditional without a second branch
* `Grammar.BeginsWithSign` — the first token is a sign
* `Kind.beginsExpr`, `Kind.beginsStmt` — the kinds with which expressions and statements begin
* `Grammar.Stops` — no operator of a level or of a tighter one comes next

## Main results

* `Grammar.IsExpr.begins`, `Grammar.IsStmt.begins` — what expressions and statements begin with
-/

namespace Abacus

/-- Whether a statement ends in a conditional without a second branch. -/
def Stmt.EndsOpen : Stmt → Prop
  | .ifThen _ _ => True
  | .ifElse _ _ no => no.EndsOpen
  | _ => False

@[simp] theorem Stmt.endsOpen_expr (e : Expr) : ¬ (Stmt.expr e).EndsOpen := id

@[simp] theorem Stmt.endsOpen_define (x : Option Payload) (e : Expr) :
    ¬ (Stmt.define x e).EndsOpen := id

@[simp] theorem Stmt.endsOpen_ifThen (test : Expr) (yes : Stmt) :
    (Stmt.ifThen test yes).EndsOpen := trivial

@[simp] theorem Stmt.endsOpen_block (body : List Stmt) : ¬ (Stmt.block body).EndsOpen := id

namespace Grammar

/-- Whether the first token is a sign. -/
def BeginsWithSign (ts : List Token) : Prop :=
  ∃ t ∈ ts.head?, t.kind = .plus ∨ t.kind = .minus

mutual

/-- The tokens spell an expression of a level. All levels but the last group to the left; a power
has an operand on its left and a power on its right, and an operator on one operand takes a power. -/
inductive IsExpr : Level → List Token → Expr → Prop
  | tighter {level : Level} {ts : List Token} {e : Expr} (loose : level ≠ .power)
      (h : IsExpr level.tighter ts e) : IsExpr level ts e
  | binary {level : Level} {ts us : List Token} {t : Token} {join : Expr → Expr → Expr}
      {left right : Expr} (loose : level ≠ .power) (op : level.join? t.kind = some join)
      (hl : IsExpr level ts left) (hr : IsExpr level.tighter us right) :
      IsExpr level (ts ++ t :: us) (join left right)
  | power {ts us : List Token} {t : Token} {base exponent : Expr} (op : t.kind = .caret)
      (hb : IsPrimary ts base) (he : IsExpr .power us exponent) :
      IsExpr .power (ts ++ t :: us) (.binary .pow base exponent)
  | unary {us : List Token} {t : Token} {op : UnaryOp} {e : Expr}
      (sign : UnaryOp.ofKind? t.kind = some op) (h : IsExpr .power us e) :
      IsExpr .power (t :: us) (.unary op e)
  | primary {ts : List Token} {e : Expr} (h : IsPrimary ts e) : IsExpr .power ts e

/-- The tokens spell an operand: a literal, a name, an expression in brackets or a list. -/
inductive IsPrimary : List Token → Expr → Prop
  | int {t : Token} (h : t.kind = .integer) : IsPrimary [t] (.int t.payload)
  | yes {t : Token} (h : t.kind = .kwTrue) : IsPrimary [t] (.bool true)
  | no {t : Token} (h : t.kind = .kwFalse) : IsPrimary [t] (.bool false)
  | name {t : Token} (h : t.kind = .ident) : IsPrimary [t] (.name t.payload)
  | paren {left right : Token} {ts : List Token} {e : Expr} (hl : left.kind = .lparen)
      (h : IsExpr .or ts e) (hr : right.kind = .rparen) : IsPrimary (left :: (ts ++ [right])) e
  | list {left right : Token} {ts : List Token} {items : List Expr} (hl : left.kind = .lbracket)
      (h : IsItems ts items) (hr : right.kind = .rbracket) :
      IsPrimary (left :: (ts ++ [right])) (.list items)

/-- The tokens spell the items of a list. Items are separated by commas; between two commas, before
the first and after the last there may be no item. -/
inductive IsItems : List Token → List Expr → Prop
  | none : IsItems [] []
  | last {ts : List Token} {e : Expr} (h : IsExpr .or ts e) : IsItems ts [e]
  | skip {t : Token} {ts : List Token} {items : List Expr} (sep : t.kind = .comma)
      (h : IsItems ts items) : IsItems (t :: ts) items
  | item {t : Token} {ts us : List Token} {e : Expr} {items : List Expr} (he : IsExpr .or ts e)
      (sep : t.kind = .comma) (h : IsItems us items) : IsItems (ts ++ t :: us) (e :: items)

end

mutual

/-- The tokens spell a statement. -/
inductive IsStmt : List Token → Stmt → Prop
  | expr {ts : List Token} {e : Expr} (h : IsExpr .or ts e) : IsStmt ts (.expr e)
  | define {word name sign : Token} {ts : List Token} {e : Expr} (hw : word.kind = .kwLet)
      (hn : name.kind = .ident) (hs : sign.kind = .assign) (h : IsExpr .or ts e) :
      IsStmt (word :: name :: sign :: ts) (.define name.payload e)
  | ifThen {word : Token} {ts us : List Token} {test : Expr} {yes : Stmt} (hw : word.kind = .kwIf)
      (ht : IsExpr .or ts test) (hy : IsStmt us yes) (greedy : ¬ BeginsWithSign us) :
      IsStmt (word :: (ts ++ us)) (.ifThen test yes)
  | ifElse {word mid : Token} {ts us vs : List Token} {test : Expr} {yes no : Stmt}
      (hw : word.kind = .kwIf) (ht : IsExpr .or ts test) (hy : IsStmt us yes)
      (greedy : ¬ BeginsWithSign us) (nearest : ¬ yes.EndsOpen) (hm : mid.kind = .kwElse)
      (hn : IsStmt vs no) : IsStmt (word :: (ts ++ us ++ mid :: vs)) (.ifElse test yes no)
  | block {left right : Token} {ts : List Token} {body : List Stmt} (hl : left.kind = .lbrace)
      (h : IsBody ts body) (hr : right.kind = .rbrace) :
      IsStmt (left :: (ts ++ [right])) (.block body)

/-- The tokens spell one or more statements, separated by semicolons; one more semicolon may follow
the last. -/
inductive IsBody : List Token → List Stmt → Prop
  | last {ts : List Token} {s : Stmt} (h : IsStmt ts s) : IsBody ts [s]
  | closed {t : Token} {ts : List Token} {s : Stmt} (h : IsStmt ts s) (sep : t.kind = .semicolon) :
      IsBody (ts ++ [t]) [s]
  | more {t : Token} {ts us : List Token} {s : Stmt} {body : List Stmt} (hs : IsStmt ts s)
      (sep : t.kind = .semicolon) (h : IsBody us body) : IsBody (ts ++ t :: us) (s :: body)

end

/-- The tokens spell a program. -/
inductive IsProgram : List Token → List Stmt → Prop
  | empty : IsProgram [] []
  | body {ts : List Token} {body : List Stmt} (h : IsBody ts body) : IsProgram ts body

/-! ### How phrases begin -/

end Grammar

/-- The kinds of tokens with which an expression begins. -/
def Kind.beginsExpr : Kind → Bool
  | .integer | .ident | .kwTrue | .kwFalse | .lparen | .lbracket | .plus | .minus | .bang => true
  | _ => false

/-- The kinds of tokens with which a statement begins. -/
def Kind.beginsStmt : Kind → Bool
  | .kwIf | .kwLet | .lbrace => true
  | kind => kind.beginsExpr

theorem Kind.beginsStmt_of_beginsExpr {kind : Kind} (h : kind.beginsExpr = true) :
    kind.beginsStmt = true := by
  cases kind <;> simp_all [beginsExpr, beginsStmt]

namespace Grammar

theorem beginsExpr_of_unary {kind : Kind} {op : UnaryOp} (h : UnaryOp.ofKind? kind = some op) :
    kind.beginsExpr = true := by
  cases kind <;> simp_all [UnaryOp.ofKind?, Kind.beginsExpr]

theorem IsPrimary.begins {ts : List Token} {e : Expr} (h : IsPrimary ts e) :
    ∃ t us, ts = t :: us ∧ t.kind.beginsExpr = true := by
  cases h with
  | int h | yes h | no h | name h => exact ⟨_, _, rfl, by rw [h]; rfl⟩
  | paren hl _ _ | list hl _ _ => exact ⟨_, _, rfl, by rw [hl]; rfl⟩

/-- Every expression begins with a token that begins expressions. -/
theorem IsExpr.begins {level : Level} {ts : List Token} {e : Expr} (h : IsExpr level ts e) :
    ∃ t us, ts = t :: us ∧ t.kind.beginsExpr = true := by
  induction h using IsExpr.rec (motive_2 := fun _ _ _ => True) (motive_3 := fun _ _ _ => True) with
  | tighter _ _ ih => exact ih
  | binary _ _ _ _ ih _ =>
    obtain ⟨t, us, rfl, ht⟩ := ih
    exact ⟨t, _, rfl, ht⟩
  | power _ hb _ _ _ =>
    obtain ⟨t, us, rfl, ht⟩ := hb.begins
    exact ⟨t, _, rfl, ht⟩
  | unary sign _ _ => exact ⟨_, _, rfl, beginsExpr_of_unary sign⟩
  | primary h _ => exact h.begins
  | _ => trivial

/-- Every statement begins with a token that begins statements. -/
theorem IsStmt.begins {ts : List Token} {s : Stmt} (h : IsStmt ts s) :
    ∃ t us, ts = t :: us ∧ t.kind.beginsStmt = true := by
  cases h with
  | expr h =>
    obtain ⟨t, us, rfl, ht⟩ := h.begins
    exact ⟨t, us, rfl, Kind.beginsStmt_of_beginsExpr ht⟩
  | define h _ _ _ | ifThen h _ _ _ | ifElse h _ _ _ _ _ _ | block h _ _ =>
    exact ⟨_, _, rfl, by rw [h]; rfl⟩

theorem IsBody.begins {ts : List Token} {body : List Stmt} (h : IsBody ts body) :
    ∃ t us, ts = t :: us ∧ t.kind.beginsStmt = true := by
  cases h with
  | last h => exact h.begins
  | closed h _ | more h _ _ =>
    obtain ⟨t, us, rfl, ht⟩ := h.begins
    exact ⟨t, _, rfl, ht⟩

/-! ### Where expressions stop -/

open Automaton (tightness)

/-- No operator of the level or of a tighter one comes next. -/
def Stops (level : Level) (ts : List Token) : Prop :=
  ∀ t ∈ ts.head?, ∀ l, tightness level ≤ tightness l → l.join? t.kind = none

theorem stops_nil (level : Level) : Stops level [] := by
  simp [Stops]

theorem stops_cons {level : Level} {t : Token} {ts : List Token} :
    Stops level (t :: ts) ↔ ∀ l, tightness level ≤ tightness l → l.join? t.kind = none := by
  simp [Stops]

/-- The levels from a level on are the level itself and those from the next tighter one on. -/
theorem tightness_tighter_le_iff {level : Level} (loose : level ≠ .power) {l : Level} :
    tightness level ≤ tightness l ↔ l = level ∨ tightness level.tighter ≤ tightness l := by
  cases level <;> cases l <;> simp_all [tightness, Level.tighter]

theorem stops_iff_tighter {level : Level} (loose : level ≠ .power) {ts : List Token} :
    Stops level ts ↔ Stops level.tighter ts ∧ ∀ t ∈ ts.head?, level.join? t.kind = none := by
  constructor
  · intro h
    refine ⟨fun t ht l hl => h t ht l ?_, fun t ht => h t ht level (Nat.le_refl _)⟩
    exact (tightness_tighter_le_iff loose).2 (.inr hl)
  · rintro ⟨htighter, hlevel⟩ t ht l hl
    rcases (tightness_tighter_le_iff loose).1 hl with rfl | hl
    · exact hlevel t ht
    · exact htighter t ht l hl

theorem Stops.tighter {level : Level} {ts : List Token} (h : Stops level ts) :
    Stops level.tighter ts := by
  by_cases hp : level = .power
  · subst hp
    exact h
  · exact ((stops_iff_tighter hp).1 h).1

/-- Where no operator follows, expressions of every level stop. -/
theorem Stops.of_or {ts : List Token} (h : Stops .or ts) (level : Level) : Stops level ts :=
  fun t ht l _ => h t ht l (Nat.zero_le _)

/-- A token spells an operator of one level only. -/
theorem join?_eq_none_of_ne {level l : Level} {kind : Kind} {join : Expr → Expr → Expr}
    (h : level.join? kind = some join) (hne : l ≠ level) : l.join? kind = none := by
  -- only the operators of `l` itself remain, and there `level` has to be `l`
  cases l <;> cases kind <;> first
    | rfl
    | (cases level <;> first | exact absurd rfl hne | cases h)

/-- Before an operator of a level, expressions of the tighter levels stop. -/
theorem stops_tighter_of_join {level : Level} (loose : level ≠ .power) {t : Token}
    {ts : List Token} {join : Expr → Expr → Expr} (h : level.join? t.kind = some join) :
    Stops level.tighter (t :: ts) := by
  refine stops_cons.2 fun l hl => join?_eq_none_of_ne h ?_
  rintro rfl
  cases l <;> simp_all [tightness, Level.tighter]

end Grammar

end Abacus
