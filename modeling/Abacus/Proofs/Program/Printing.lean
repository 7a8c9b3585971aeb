import Abacus.Proofs.Program.WellFormed

/-!
# Printing programs

A program is printed with brackets only where its operators demand them: where an operand is looser than
its place allows. A left operand may be as loose as its operator and a right operand has to be tighter,
except that a power has an operand without operators on its left and a power on its right; operators on
one operand and what they stand before are as tight as powers. The first branch of a conditional is put in
brackets if it would begin with a sign, which would continue the test.

Printing is undone by reading, so that the programs that can be read are the well-formed ones.

## Main definitions

* `UnaryOp.kind`, `BinaryOp.kind`, `LogicOp.kind`, `RelOp.kind` — how operators are written
* `Expr.rank` — how tight an expression is
* `Expr.spell`, `Stmt.spell`, `Stmt.spellAll` — the tokens of expressions, statements and programs
* `Stmt.print` — the text of a program

## Main results

* `Expr.spelled` — the tokens of an expression spell it on every level that it is tight enough for
* `Stmt.isStmt_spell`, `Stmt.isProgram_spellAll` — the tokens of statements and programs spell them
* `readSource_image` — the programs that can be read are the well-formed ones, and they are read from
  what is printed for them
-/

namespace Abacus

open Automaton (tightness)
open Grammar

/-! ### Operators -/

/-- How an operator on one operand is written. -/
def UnaryOp.kind : UnaryOp → Kind
  | .plus => .plus
  | .minus => .minus
  | .not => .bang

/-- How an arithmetic operator is written. -/
def BinaryOp.kind : BinaryOp → Kind
  | .add => .plus
  | .sub => .minus
  | .mul => .star
  | .div => .slash
  | .pow => .caret

/-- How a logical operator is written. -/
def LogicOp.kind : LogicOp → Kind
  | .or => .or
  | .and => .and

/-- How a relational operator is written. -/
def RelOp.kind : RelOp → Kind
  | .eq => .eq
  | .ne => .ne
  | .gt => .gt
  | .lt => .lt
  | .ge => .ge
  | .le => .le

/-- The level of an arithmetic operator. -/
def BinaryOp.level : BinaryOp → Level
  | .add | .sub => .additive
  | .mul | .div => .multiplicative
  | .pow => .power

/-- The level of a logical operator. -/
def LogicOp.level : LogicOp → Level
  | .or => .or
  | .and => .and

theorem UnaryOp.ofKind?_kind (op : UnaryOp) : UnaryOp.ofKind? op.kind = some op := by
  cases op <;> rfl

theorem BinaryOp.join?_kind (op : BinaryOp) : op.level.join? op.kind = some (.binary op) := by
  cases op <;> rfl

theorem LogicOp.join?_kind (op : LogicOp) : op.level.join? op.kind = some (.logical op) := by
  cases op <;> rfl

theorem RelOp.join?_kind (op : RelOp) :
    Level.relational.join? op.kind = some (.relational op) := by
  cases op <;> rfl

theorem LogicOp.level_ne_power (op : LogicOp) : op.level ≠ .power := by
  cases op <;> decide

theorem BinaryOp.level_ne_power {op : BinaryOp} (h : op ≠ .pow) : op.level ≠ .power := by
  cases op <;> simp_all [BinaryOp.level]

/-! ### Tokens of expressions -/

/-- The rank of an expression without operators, which is above those of all levels. -/
def operandRank : Nat := tightness .power + 1

/-- How tight an expression is: as its outermost operator. -/
def Expr.rank : Expr → Nat
  | .int _ | .bool _ | .name _ | .list _ => operandRank
  | .unary _ _ => tightness .power
  | .binary op _ _ => tightness op.level
  | .logical op _ _ => tightness op.level
  | .relational _ _ _ => tightness .relational

/-- A token that carries nothing. -/
def Token.mark (kind : Kind) : Token := { kind }

/-- Tokens in brackets, where those are needed. -/
def bracketed (needed : Bool) (ts : List Token) : List Token :=
  if needed then .mark .lparen :: (ts ++ [.mark .rparen]) else ts

/-- How tight the left operand of an arithmetic operator has to be. -/
def BinaryOp.leftRank (op : BinaryOp) : Nat :=
  if op = .pow then operandRank else tightness op.level

mutual

/-- The tokens of an expression. -/
def Expr.spell : Expr → List Token
  | .int value => [{ kind := .integer, payload := value }]
  | .bool b => [.mark (if b then .kwTrue else .kwFalse)]
  | .name x => [{ kind := .ident, payload := x }]
  | .unary op e => .mark op.kind :: bracketed (e.rank < tightness .power) e.spell
  | .binary op l r =>
    bracketed (l.rank < op.leftRank) l.spell ++
      .mark op.kind :: bracketed (r.rank < tightness op.level.tighter) r.spell
  | .logical op l r =>
    bracketed (l.rank < tightness op.level) l.spell ++
      .mark op.kind :: bracketed (r.rank < tightness op.level.tighter) r.spell
  | .relational op l r =>
    bracketed (l.rank < tightness .relational) l.spell ++
      .mark op.kind :: bracketed (r.rank < tightness Level.relational.tighter) r.spell
  | .list items => .mark .lbracket :: (Expr.spellItems items ++ [.mark .rbracket])

/-- The tokens of the items of a list, with commas between them. -/
def Expr.spellItems : List Expr → List Token
  | [] => []
  | [e] => e.spell
  | e :: es => e.spell ++ .mark .comma :: Expr.spellItems es

end

/-- An expression of a tighter level is one of every looser level. -/
theorem Grammar.IsExpr.loosen {level l : Level} {ts : List Token} {e : Expr} (h : IsExpr l ts e)
    (hle : tightness level ≤ tightness l) : IsExpr level ts e := by
  -- one level at a time, from the tighter one outward
  induction hn : tightness l - tightness level generalizing level with
  | zero =>
    have heq : level = l := by
      cases level <;> cases l <;> first | rfl | (simp [tightness] at hle hn)
    exact heq ▸ h
  | succ n ih =>
    have loose : level ≠ .power := by
      rintro rfl
      have hpower : tightness .power = 5 := rfl
      have := Descent.tightness_le l
      omega
    have htight := Descent.tightness_tighter loose
    exact .tighter loose (ih (by omega) (by omega))

/-- What the tokens of an expression spell: an operand if it has no operators outside brackets, and an
expression of every level that it is tight enough for. -/
structure Expr.Spelled (e : Expr) : Prop where
  operand : e.rank = operandRank → IsPrimary e.spell e
  level : ∀ level, tightness level ≤ e.rank → IsExpr level e.spell e

namespace Expr

variable {e : Expr}

theorem Spelled.of_operand (h : IsPrimary e.spell e) : e.Spelled :=
  ⟨fun _ => h, fun level _ => (IsExpr.primary h).loosen (Descent.tightness_le level)⟩

theorem Spelled.of_level (level : Level) (hrank : e.rank = tightness level)
    (h : IsExpr level e.spell e) : e.Spelled := by
  refine ⟨fun hoperand => ?_, fun l hl => h.loosen (hrank ▸ hl)⟩
  have hrank' : operandRank = 6 := rfl
  have hle := Descent.tightness_le level
  omega

theorem Spelled.isPrimary_brackets (h : e.Spelled) :
    IsPrimary (.mark .lparen :: (e.spell ++ [.mark .rparen])) e :=
  .paren rfl (h.level .or (Nat.zero_le _)) rfl

/-- With brackets where it is too loose, an expression stands on any level. -/
theorem Spelled.isExpr_bracketed (h : e.Spelled) (level : Level) :
    IsExpr level (bracketed (e.rank < tightness level) e.spell) e := by
  unfold bracketed
  split
  · exact (IsExpr.primary h.isPrimary_brackets).loosen (Descent.tightness_le level)
  · rename_i htight
    exact h.level level (by simpa using htight)

/-- With brackets unless it has no operators, an expression is an operand. -/
theorem Spelled.isPrimary_bracketed (h : e.Spelled) :
    IsPrimary (bracketed (e.rank < operandRank) e.spell) e := by
  unfold bracketed
  split
  · exact h.isPrimary_brackets
  · rename_i htight
    have hle : e.rank ≤ operandRank := by
      unfold rank operandRank
      split <;> first | exact Nat.le_refl _ | exact Nat.le_succ_of_le (Descent.tightness_le _)
    simp only [decide_eq_true_eq, Nat.not_lt] at htight
    exact h.operand (Nat.le_antisymm hle htight)

theorem Spelled.binary {op : BinaryOp} {l r : Expr} (hl : l.Spelled) (hr : r.Spelled) :
    (Expr.binary op l r).Spelled := by
  refine .of_level op.level rfl ?_
  rw [spell]
  by_cases hpow : op = .pow
  · subst hpow
    exact .power rfl hl.isPrimary_bracketed (hr.isExpr_bracketed .power)
  · have hleft : op.leftRank = tightness op.level := if_neg hpow
    rw [hleft]
    exact .binary (BinaryOp.level_ne_power hpow) op.join?_kind (hl.isExpr_bracketed _)
      (hr.isExpr_bracketed _)

mutual

/-- The tokens of an expression spell it. -/
theorem spelled : (e : Expr) → e.Spelled
  | .int value => .of_operand (.int rfl)
  | .bool true => .of_operand (.yes rfl)
  | .bool false => .of_operand (.no rfl)
  | .name x => .of_operand (.name rfl)
  | .unary op e => by
    refine .of_level .power rfl ?_
    rw [spell]
    exact .unary op.ofKind?_kind ((spelled e).isExpr_bracketed .power)
  | .binary op l r => (spelled l).binary (spelled r)
  | .logical op l r => by
    refine .of_level op.level rfl ?_
    rw [spell]
    exact .binary op.level_ne_power op.join?_kind ((spelled l).isExpr_bracketed _)
      ((spelled r).isExpr_bracketed _)
  | .relational op l r => by
    refine .of_level .relational rfl ?_
    rw [spell]
    exact .binary nofun op.join?_kind ((spelled l).isExpr_bracketed _)
      ((spelled r).isExpr_bracketed _)
  | .list items => by
    refine .of_operand ?_
    rw [spell]
    exact .list rfl (isItems_spellItems items) rfl

theorem isItems_spellItems : (es : List Expr) → IsItems (spellItems es) es
  | [] => .none
  | [e] => .last ((spelled e).level .or (Nat.zero_le _))
  | e :: e' :: es => .item ((spelled e).level .or (Nat.zero_le _)) rfl (isItems_spellItems (e' :: es))

end

theorem isExpr_spell (e : Expr) : IsExpr .or e.spell e :=
  e.spelled.level .or (Nat.zero_le _)

end Expr

/-! ### Tokens of statements -/

instance (ts : List Token) : Decidable (BeginsWithSign ts) :=
  inferInstanceAs (Decidable (∃ t ∈ ts.head?, t.kind = .plus ∨ t.kind = .minus))

mutual

/-- The tokens of a statement. -/
def Stmt.spell : Stmt → List Token
  | .expr e => e.spell
  | .define x e => .mark .kwLet :: { kind := .ident, payload := x } :: .mark .assign :: e.spell
  | .ifThen test yes =>
    .mark .kwIf :: (test.spell ++ bracketed (BeginsWithSign yes.spell) yes.spell)
  | .ifElse test yes no =>
    .mark .kwIf ::
      (test.spell ++ bracketed (BeginsWithSign yes.spell) yes.spell ++ .mark .kwElse :: no.spell)
  | .block body => .mark .lbrace :: (Stmt.spellAll body ++ [.mark .rbrace])

/-- The tokens of statements, with semicolons between them. -/
def Stmt.spellAll : List Stmt → List Token
  | [] => []
  | [s] => s.spell
  | s :: ss => s.spell ++ .mark .semicolon :: Stmt.spellAll ss

end

/-- The text of a program. -/
def Stmt.print (body : List Stmt) : List Char :=
  (Token.write (Stmt.spellAll body)).toList

example : Stmt.print [.ifThen (.name (some (.text "x"))) (.expr (.binary .pow
    (.unary .minus (.int (some (.int 2)))) (.unary .minus (.int (some (.int 3))))))] =
    "if x ( - 2 ) ^ - 3".toList := by
  cbv

namespace Stmt

/-- Only an expression begins with a sign. -/
theorem exists_eq_expr_of_beginsWithSign {s : Stmt} (h : BeginsWithSign s.spell) :
    ∃ e, s = .expr e := by
  obtain ⟨t, ht, hk⟩ := h
  cases s with
  | expr e => exact ⟨e, rfl⟩
  | define x e | ifThen test yes | ifElse test yes no | block body =>
    rw [spell] at ht
    cases ht
    rcases hk with hk | hk <;> cases hk

theorem not_beginsWithSign_bracketed (ts : List Token) :
    ¬BeginsWithSign (bracketed (BeginsWithSign ts) ts) := by
  unfold bracketed
  split
  · rintro ⟨t, ⟨⟩, hk⟩
    rcases hk with hk | hk <;> cases hk
  · rename_i hsign
    simpa using hsign

/-- Brackets around a branch that begins with a sign do not change it. -/
theorem isStmt_bracketed {s : Stmt} (h : IsStmt s.spell s) :
    IsStmt (bracketed (BeginsWithSign s.spell) s.spell) s := by
  unfold bracketed
  split
  · rename_i hsign
    obtain ⟨e, rfl⟩ := exists_eq_expr_of_beginsWithSign (by simpa using hsign)
    rw [spell]
    exact .expr ((IsExpr.primary e.spelled.isPrimary_brackets).loosen (Nat.zero_le _))
  · exact h

mutual

/-- The tokens of a well-formed statement spell it. -/
theorem isStmt_spell : (s : Stmt) → s.WellFormed → IsStmt s.spell s
  | .expr e, _ => by
    rw [spell]
    exact .expr e.isExpr_spell
  | .define x e, _ => by
    rw [spell]
    have hname : Token.kind { kind := .ident, payload := x } = .ident := rfl
    exact .define rfl hname rfl e.isExpr_spell
  | .ifThen test yes, h => by
    rw [spell]
    exact .ifThen rfl test.isExpr_spell (isStmt_bracketed (isStmt_spell yes h.2))
      (not_beginsWithSign_bracketed _)
  | .ifElse test yes no, h => by
    obtain ⟨-, hyes, hno, nearest⟩ := h
    rw [spell]
    exact .ifElse rfl test.isExpr_spell (isStmt_bracketed (isStmt_spell yes hyes))
      (not_beginsWithSign_bracketed _) nearest rfl (isStmt_spell no hno)
  | .block body, h => by
    rw [spell]
    exact .block rfl (isBody_spellAll body h.1 h.2) rfl

theorem isBody_spellAll : (body : List Stmt) → body ≠ [] → AllWellFormed body →
    IsBody (spellAll body) body
  | [], hne, _ => absurd rfl hne
  | [s], _, h => .last (isStmt_spell s h.1)
  | s :: s' :: ss, _, h => .more (isStmt_spell s h.1) rfl (isBody_spellAll (s' :: ss) nofun h.2)

end

/-- The tokens of a well-formed program spell it. -/
theorem isProgram_spellAll {body : List Stmt} (h : AllWellFormed body) :
    IsProgram (spellAll body) body := by
  cases body with
  | nil => exact .empty
  | cons s ss => exact .body (isBody_spellAll (s :: ss) nofun h)

end Stmt

/-! ### Printing is undone by reading -/

theorem isSourced_mark {kind : Kind} (hint : kind ≠ .integer) (hname : kind ≠ .ident) :
    (Token.mark kind).IsSourced := by
  unfold Token.IsSourced
  split
  · rename_i hk
    exact absurd hk hint
  · rename_i hk
    exact absurd hk hname
  · rfl

theorem isSourced_bracketed {needed : Bool} {ts : List Token} (h : ∀ t ∈ ts, t.IsSourced) :
    ∀ t ∈ bracketed needed ts, t.IsSourced := by
  unfold bracketed
  split
  · simp only [List.forall_mem_cons, List.forall_mem_append]
    exact ⟨isSourced_mark nofun nofun, h, isSourced_mark nofun nofun, List.forall_mem_nil _⟩
  · exact h

/-- An operator between two operands in brackets or without. -/
theorem isSourced_infix {kind : Kind} {left right : Bool} {ts us : List Token}
    (hint : kind ≠ .integer) (hname : kind ≠ .ident) (hts : ∀ t ∈ ts, t.IsSourced)
    (hus : ∀ t ∈ us, t.IsSourced) :
    ∀ t ∈ bracketed left ts ++ .mark kind :: bracketed right us, t.IsSourced := by
  rw [List.forall_mem_append, List.forall_mem_cons]
  exact ⟨isSourced_bracketed hts, isSourced_mark hint hname, isSourced_bracketed hus⟩

namespace Expr

mutual

theorem isSourced_spell : (e : Expr) → e.WellFormed → ∀ t ∈ e.spell, t.IsSourced
  | .int value, h => by
    rw [spell, List.forall_mem_singleton]
    exact h
  | .bool b, _ => by
    rw [spell, List.forall_mem_singleton]
    cases b <;> exact isSourced_mark nofun nofun
  | .name x, h => by
    rw [spell, List.forall_mem_singleton]
    exact h
  | .unary op e, h => by
    rw [spell, List.forall_mem_cons]
    exact ⟨by cases op <;> exact isSourced_mark nofun nofun,
      isSourced_bracketed (isSourced_spell e h)⟩
  | .binary op l r, h => by
    rw [spell]
    exact isSourced_infix (by cases op <;> nofun) (by cases op <;> nofun)
      (isSourced_spell l h.1) (isSourced_spell r h.2)
  | .logical op l r, h => by
    rw [spell]
    exact isSourced_infix (by cases op <;> nofun) (by cases op <;> nofun)
      (isSourced_spell l h.1) (isSourced_spell r h.2)
  | .relational op l r, h => by
    rw [spell]
    exact isSourced_infix (by cases op <;> nofun) (by cases op <;> nofun)
      (isSourced_spell l h.1) (isSourced_spell r h.2)
  | .list items, h => by
    rw [spell]
    simp only [List.forall_mem_cons, List.forall_mem_append]
    exact ⟨isSourced_mark nofun nofun, isSourced_spellItems items h, isSourced_mark nofun nofun,
      List.forall_mem_nil _⟩

theorem isSourced_spellItems : (es : List Expr) → AllWellFormed es →
    ∀ t ∈ spellItems es, t.IsSourced
  | [], _ => List.forall_mem_nil _
  | [e], h => isSourced_spell e h.1
  | e :: e' :: es, h => by
    rw [spellItems, List.forall_mem_append, List.forall_mem_cons]
    · exact ⟨isSourced_spell e h.1, isSourced_mark nofun nofun, isSourced_spellItems (e' :: es) h.2⟩
    · exact nofun

end

end Expr

namespace Stmt

mutual

theorem isSourced_spell : (s : Stmt) → s.WellFormed → ∀ t ∈ s.spell, t.IsSourced
  | .expr e, h => by
    rw [spell]
    exact e.isSourced_spell h
  | .define x e, h => by
    rw [spell]
    simp only [List.forall_mem_cons]
    exact ⟨isSourced_mark nofun nofun, h.1, isSourced_mark nofun nofun, e.isSourced_spell h.2⟩
  | .ifThen test yes, h => by
    rw [spell]
    simp only [List.forall_mem_cons, List.forall_mem_append]
    exact ⟨isSourced_mark nofun nofun, test.isSourced_spell h.1,
      isSourced_bracketed (isSourced_spell yes h.2)⟩
  | .ifElse test yes no, h => by
    obtain ⟨htest, hyes, hno, -⟩ := h
    rw [spell]
    simp only [List.forall_mem_cons, List.forall_mem_append]
    exact ⟨isSourced_mark nofun nofun, ⟨test.isSourced_spell htest,
      isSourced_bracketed (isSourced_spell yes hyes)⟩, isSourced_mark nofun nofun,
      isSourced_spell no hno⟩
  | .block body, h => by
    rw [spell]
    simp only [List.forall_mem_cons, List.forall_mem_append]
    exact ⟨isSourced_mark nofun nofun, isSourced_spellAll body h.2, isSourced_mark nofun nofun,
      List.forall_mem_nil _⟩

theorem isSourced_spellAll : (body : List Stmt) → AllWellFormed body →
    ∀ t ∈ spellAll body, t.IsSourced
  | [], _ => List.forall_mem_nil _
  | [s], h => isSourced_spell s h.1
  | s :: s' :: ss, h => by
    rw [spellAll, List.forall_mem_append, List.forall_mem_cons]
    · exact ⟨isSourced_spell s h.1, isSourced_mark nofun nofun, isSourced_spellAll (s' :: ss) h.2⟩
    · exact nofun

end

/-- A well-formed program is read from what is printed for it. -/
theorem readSource_print_of_wellFormed {body : List Stmt} (h : AllWellFormed body)
    (frontEnd : FrontEnd) : readSource frontEnd (print body) = .ok body := by
  obtain ⟨ts, hts, hcontent⟩ := exists_tokenize_write (isSourced_spellAll body h)
  exact readSource_eq_ok_iff.2 ⟨ts, hts, (isProgram_spellAll h).of_content hcontent⟩

end Stmt

/-- The programs that can be read from a text are the well-formed ones, and each of them is read from what
is printed for it. -/
theorem readSource_image (frontEnd : FrontEnd) :
    (∀ source body, readSource frontEnd source = .ok body → Stmt.AllWellFormed body) ∧
      ∀ body, Stmt.AllWellFormed body → readSource frontEnd (Stmt.print body) = .ok body :=
  ⟨fun _ _ h => wellFormed_of_readSource h, fun _ h => Stmt.readSource_print_of_wellFormed h frontEnd⟩

theorem readSource_image_branches :
    Stmt.AllWellFormed [.ifElse (.bool true) (.expr (.unary .minus (.int (some (.int 1)))))
      (.define (some (.text "x")) (.list []))] ∧
    readSource .descent (Stmt.print [.ifElse (.bool true) (.expr (.unary .minus (.int (some (.int 1)))))
      (.define (some (.text "x")) (.list []))]) =
      .ok [.ifElse (.bool true) (.expr (.unary .minus (.int (some (.int 1)))))
        (.define (some (.text "x")) (.list []))] := by
  have hone : Payload.IsLiteral (some (.int 1)) := ⟨1, by decide, rfl⟩
  have hx : Payload.IsIdentifier (some (.text "x")) :=
    ⟨"x", ⟨⟨'x', rfl, rfl⟩, List.forall_mem_singleton.2 rfl, by decide⟩, rfl⟩
  have hbody : Stmt.AllWellFormed [.ifElse (.bool true)
      (.expr (.unary .minus (.int (some (.int 1))))) (.define (some (.text "x")) (.list []))] :=
    ⟨⟨trivial, hone, ⟨hx, trivial⟩, id⟩, trivial⟩
  have hread := (readSource_image .descent).2 _ hbody
  exact ⟨(readSource_image .descent).1 _ _ hread, hread⟩

end Abacus
