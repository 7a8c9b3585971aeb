import Abacus.Proofs.Descent.Depth

/-!
# The descent reads what is in the grammar

Tokens that the grammar derives are read by the rule for the construct, whatever follows them, as long
as what follows does not continue the construct. With the converse this gives the main statement: the
token lists that are read as a program are those that spell it.

## Main results

* `Descent.expr_complete`, `Descent.statement_complete` — a rule reads what the grammar derives
* `parse_eq_ok_iff_isProgram` — a program is read from the tokens that spell it and from no others
-/

namespace Abacus

namespace Descent

open Grammar
open Automaton (tightness)

/-- Where a level stops, no operator of it is read. -/
theorem chain_eq_ok_of_stops {depth : Nat} {level : Level} {e : Expr} {rest : List Token}
    (hd : 0 < depth) (h : Stops level rest) : chain depth level e rest = .ok (e, rest) := by
  obtain ⟨depth, rfl⟩ := Nat.exists_eq_succ_of_ne_zero (Nat.pos_iff_ne_zero.1 hd)
  cases rest with
  | nil => rfl
  | cons t rest => rw [chain, stops_cons.1 h level (Nat.le_refl _)]

/-! ### Expressions -/

/-- Reading the tokens of an expression leads to the operators of its level that follow. -/
def ExprRead (level : Level) (us : List Token) (e : Expr) : Prop :=
  ∀ rest depth, 12 * (us ++ rest).length + 8 ≤ depth + tightness level → Stops level.tighter rest →
    expr depth level (us ++ rest) = chain depth level e rest

/-- The tokens of an operand are read, whatever follows. -/
def PrimaryRead (us : List Token) (e : Expr) : Prop :=
  ∀ rest depth, 12 * (us ++ rest).length + 1 ≤ depth → primary depth (us ++ rest) = .ok (e, rest)

/-- The items of a list are read up to the closing bracket. -/
def ItemsRead (us : List Token) (items : List Expr) : Prop :=
  ∀ rest depth done (right : Token), right.kind = .rbracket →
    12 * (us ++ right :: rest).length + 9 ≤ depth →
    elements depth done (us ++ right :: rest) = .ok (done.reverse ++ items, rest)

theorem ExprRead.eq_ok {level : Level} {us : List Token} {e : Expr} (h : ExprRead level us e)
    {rest : List Token} {depth : Nat}
    (hd : 12 * (us ++ rest).length + 8 ≤ depth + tightness level) (hs : Stops level rest) :
    expr depth level (us ++ rest) = .ok (e, rest) := by
  have hle := tightness_le level
  rw [h rest depth hd hs.tighter, chain_eq_ok_of_stops (by omega) hs]

section Step

variable {level : Level} {ts us : List Token} {t : Token} {e : Expr}

theorem exprRead_tighter (loose : level ≠ .power) (ih : ExprRead level.tighter us e) :
    ExprRead level us e := by
  intro rest depth hd hs
  have htight := tightness_tighter loose
  have hle := tightness_le level
  obtain ⟨depth, rfl⟩ : ∃ d, depth = d + 1 := ⟨depth - 1, by omega⟩
  -- the expression of the tighter level is the first operand
  rw [expr_succ_of_ne_power loose, ih.eq_ok (by omega) hs]
  rw [List.length_append] at hd
  exact chain_stable (by omega) (by omega)

theorem exprRead_binary {join : Expr → Expr → Expr} {left right : Expr} (loose : level ≠ .power)
    (op : level.join? t.kind = some join) (ihl : ExprRead level ts left)
    (ihr : ExprRead level.tighter us right) : ExprRead level (ts ++ t :: us) (join left right) := by
  intro rest depth hd hs
  have htight := tightness_tighter loose
  have hle := tightness_le level
  obtain ⟨depth, rfl⟩ : ∃ d, depth = d + 1 := ⟨depth - 1, by omega⟩
  rw [List.append_assoc, List.cons_append] at hd ⊢
  -- the left operand leads to the chain that begins with this operator
  rw [ihl _ _ hd (stops_tighter_of_join loose op), chain, op]
  simp only [List.length_append, List.length_cons] at hd
  dsimp only
  rw [ihr.eq_ok (by rw [List.length_append]; omega) hs]
  -- the two chains differ in depth only
  change chain depth level (join left right) rest = chain (depth + 1) level (join left right) rest
  exact chain_stable (by omega) (by omega)

/-- No operators of the tightest level are left after a power. -/
theorem exprRead_of_eq_ok (h : ∀ rest depth, 12 * (us ++ rest).length + 3 ≤ depth →
    Stops .power rest → expr depth .power (us ++ rest) = .ok (e, rest)) : ExprRead .power us e := by
  intro rest depth hd (hs : Stops .power rest)
  simp only [tightness] at hd
  rw [h rest depth (by omega) hs, chain_eq_ok_of_stops (by omega) hs]

/-- An operand does not begin with a sign, so it is not taken for an operator on one operand. -/
theorem unary_eq_primary {depth : Nat} {rest : List Token} (h : IsPrimary ts e) :
    unary (depth + 1) (ts ++ rest) = primary depth (ts ++ rest) := by
  have hsign : ((ts ++ rest).head?.bind fun t => UnaryOp.ofKind? t.kind) = none := by
    cases h with
    | int h | yes h | no h | name h | paren h _ _ | list h _ _ => simp [h, UnaryOp.ofKind?]
  rw [unary, hsign]

theorem exprRead_power {base exponent : Expr} (op : t.kind = .caret) (hb : IsPrimary ts base)
    (ihb : PrimaryRead ts base) (ihe : ExprRead .power us exponent) :
    ExprRead .power (ts ++ t :: us) (.binary .pow base exponent) := by
  refine exprRead_of_eq_ok fun rest depth hd hs => ?_
  rw [List.append_assoc, List.cons_append] at hd ⊢
  simp only [List.length_append, List.length_cons] at hd
  obtain ⟨depth, rfl⟩ : ∃ d, depth = d + 2 := ⟨depth - 2, by omega⟩
  have hexp : expr (depth + 1) .power (us ++ rest) = .ok (exponent, rest) :=
    ihe.eq_ok (by simp only [List.length_append, tightness]; omega) hs
  rw [expr, unary_eq_primary hb, ihb _ _ (by simp only [List.length_append, List.length_cons]; omega)]
  change (if next .caret (t :: (us ++ rest)) then _ else _) = _
  rw [if_pos (by simp [op]), List.drop_one, List.tail_cons, hexp]
  rfl

theorem exprRead_unary {op : UnaryOp} (sign : UnaryOp.ofKind? t.kind = some op)
    (ih : ExprRead .power us e) : ExprRead .power (t :: us) (.unary op e) := by
  refine exprRead_of_eq_ok fun rest depth hd hs => ?_
  simp only [List.length_append, List.length_cons] at hd
  obtain ⟨depth, rfl⟩ : ∃ d, depth = d + 2 := ⟨depth - 2, by omega⟩
  have hoperand : expr depth .power (us ++ rest) = .ok (e, rest) :=
    ih.eq_ok (by simp only [List.length_append, tightness]; omega) hs
  -- the operand takes all carets, so none follows the sign with its operand
  have hunary : unary (depth + 1) (t :: us ++ rest) = .ok (.unary op e, rest) := by
    have hop : ((t :: us ++ rest).head?.bind fun t => UnaryOp.ofKind? t.kind) = some op := sign
    rw [unary, hop]
    change expr depth .power (us ++ rest) >>= _ = _
    rw [hoperand]
    rfl
  rw [expr, hunary]
  change (if next .caret rest then _ else _) = _
  rw [stops_power_iff.1 hs]
  rfl

theorem exprRead_primary (h : IsPrimary us e) (ih : PrimaryRead us e) : ExprRead .power us e := by
  refine exprRead_of_eq_ok fun rest depth hd hs => ?_
  obtain ⟨depth, rfl⟩ : ∃ d, depth = d + 2 := ⟨depth - 2, by omega⟩
  rw [expr, unary_eq_primary h, ih _ _ (by omega)]
  change (if next .caret rest then _ else _) = _
  rw [stops_power_iff.1 hs]
  rfl

/-- An operand of one token is read by looking at the kind of the token. -/
theorem primaryRead_token (h : ∀ depth rest, primary (depth + 1) (t :: rest) = .ok (e, rest)) :
    PrimaryRead [t] e := by
  intro rest depth hd
  obtain ⟨depth, rfl⟩ : ∃ d, depth = d + 1 := ⟨depth - 1, by omega⟩
  exact h depth rest

/-- A closing bracket is no operator. -/
theorem stops_or_of_close {rest : List Token} (h : t.kind = .rparen ∨ t.kind = .rbracket ∨
    t.kind = .comma) : Stops .or (t :: rest) := by
  refine stops_cons.2 fun l _ => ?_
  rcases h with h | h | h <;> rw [h] <;> cases l <;> rfl

theorem primaryRead_paren {left right : Token} (hl : left.kind = .lparen)
    (ih : ExprRead .or us e) (hr : right.kind = .rparen) :
    PrimaryRead (left :: (us ++ [right])) e := by
  intro rest depth hd
  simp only [List.length_append, List.length_cons] at hd
  obtain ⟨depth, rfl⟩ : ∃ d, depth = d + 1 := ⟨depth - 1, by omega⟩
  have hinner : expr depth .or (us ++ right :: rest) = .ok (e, right :: rest) :=
    ih.eq_ok (by simp only [List.length_append, List.length_cons, tightness]; omega)
      (stops_or_of_close (.inl hr))
  have hsplit : left :: (us ++ [right]) ++ rest = left :: (us ++ right :: rest) := by simp
  rw [hsplit, primary, hl]
  dsimp only
  rw [hinner]
  change expect .rparen (right :: rest) >>= _ = _
  rw [expect_eq_ok_iff.2 ⟨rfl, hr⟩]
  rfl

theorem primaryRead_list {left right : Token} {items : List Expr} (hl : left.kind = .lbracket)
    (ih : ItemsRead us items) (hr : right.kind = .rbracket) :
    PrimaryRead (left :: (us ++ [right])) (.list items) := by
  intro rest depth hd
  simp only [List.length_append, List.length_cons] at hd
  obtain ⟨depth, rfl⟩ : ∃ d, depth = d + 1 := ⟨depth - 1, by omega⟩
  have hitems := ih rest depth [] right hr
    (by simp only [List.length_append, List.length_cons]; omega)
  have hsplit : left :: (us ++ [right]) ++ rest = left :: (us ++ right :: rest) := by simp
  rw [hsplit, primary, hl]
  dsimp only
  rw [hitems]
  rfl

/-- An expression does not begin with a token of a kind that begins none. -/
theorem next_eq_false_of_isExpr {kind : Kind} (hkind : kind.beginsExpr = false)
    (h : IsExpr level us e) (rest : List Token) : next kind (us ++ rest) = false := by
  obtain ⟨t, vs, rfl, ht⟩ := h.begins
  rw [next_eq_false_iff]
  rintro u ⟨⟩ rfl
  rw [hkind] at ht
  cases ht

/-- Before an item, the rule for items reads an expression. -/
theorem elements_eq_of_begins {depth : Nat} {done : List Expr} (h : IsExpr .or us e)
    (rest : List Token) : elements (depth + 1) done (us ++ rest) =
      expr depth .or (us ++ rest) >>= fun (item, rest) =>
        if next .comma rest then elements depth (item :: done) (rest.drop 1)
        else expect .rbracket rest >>= fun (_, rest) => .ok ((item :: done).reverse, rest) := by
  rw [elements, next_eq_false_of_isExpr rfl h, next_eq_false_of_isExpr rfl h]
  rfl

theorem itemsRead_none : ItemsRead [] [] := by
  intro rest depth done right hr hd
  obtain ⟨depth, rfl⟩ : ∃ d, depth = d + 1 := ⟨depth - 1, by omega⟩
  simp [elements, hr]

theorem itemsRead_last (h : IsExpr .or us e) (ih : ExprRead .or us e) : ItemsRead us [e] := by
  intro rest depth done right hr hd
  obtain ⟨depth, rfl⟩ : ∃ d, depth = d + 1 := ⟨depth - 1, by omega⟩
  rw [elements_eq_of_begins h, ih.eq_ok (by simp only [tightness]; omega)
    (stops_or_of_close (.inr (.inl hr)))]
  change (if next .comma (right :: rest) then _ else _) = _
  rw [if_neg (by simp [hr]), expect_eq_ok_iff.2 ⟨rfl, hr⟩]
  change Except.ok _ = _
  rw [List.reverse_cons]

theorem itemsRead_skip {items : List Expr} (sep : t.kind = .comma) (ih : ItemsRead us items) :
    ItemsRead (t :: us) items := by
  intro rest depth done right hr hd
  simp only [List.cons_append, List.length_cons] at hd ⊢
  obtain ⟨depth, rfl⟩ : ∃ d, depth = d + 1 := ⟨depth - 1, by omega⟩
  rw [elements, if_pos (by simp [sep])]
  exact ih rest depth done right hr (by omega)

theorem itemsRead_item {items : List Expr} (he : IsExpr .or ts e) (ihe : ExprRead .or ts e)
    (sep : t.kind = .comma) (ih : ItemsRead us items) : ItemsRead (ts ++ t :: us) (e :: items) := by
  intro rest depth done right hr hd
  rw [List.append_assoc, List.cons_append] at hd ⊢
  obtain ⟨depth, rfl⟩ : ∃ d, depth = d + 1 := ⟨depth - 1, by omega⟩
  rw [elements_eq_of_begins he, ihe.eq_ok (by simp only [tightness]; omega)
    (stops_or_of_close (.inr (.inr sep)))]
  change (if next .comma (t :: (us ++ right :: rest)) then _ else _) = _
  simp only [List.length_append, List.length_cons] at hd
  rw [if_pos (by simp [sep]), List.drop_one, List.tail_cons,
    ih rest depth (e :: done) right hr (by simp only [List.length_append, List.length_cons]; omega)]
  simp

end Step

theorem exprRead {level : Level} {us : List Token} {e : Expr} (h : IsExpr level us e) :
    ExprRead level us e := by
  -- over the derivation, with operands and items of lists at the same time
  induction h using IsExpr.rec (motive_2 := fun us e _ => PrimaryRead us e)
    (motive_3 := fun us items _ => ItemsRead us items) with
  | tighter loose _ ih => exact exprRead_tighter loose ih
  | binary loose op _ _ ihl ihr => exact exprRead_binary loose op ihl ihr
  | power op hb _ ihb ihe => exact exprRead_power op hb ihb ihe
  | unary sign _ ih => exact exprRead_unary sign ih
  | primary h ih => exact exprRead_primary h ih
  | int h | yes h | no h | name h => exact primaryRead_token fun depth rest => by rw [primary, h]
  | paren hl _ hr ih => exact primaryRead_paren hl ih hr
  | list hl _ hr ih => exact primaryRead_list hl ih hr
  | none => exact itemsRead_none
  | last h ih => exact itemsRead_last h ih
  | skip sep _ ih => exact itemsRead_skip sep ih
  | item he sep _ ihe ih => exact itemsRead_item he ihe sep ih

/-- An expression that the grammar derives is read wherever its level stops after it. -/
theorem expr_complete {level : Level} {us rest : List Token} {e : Expr} {depth : Nat}
    (h : IsExpr level us e) (hd : 12 * (us ++ rest).length + 8 ≤ depth + tightness level)
    (hs : Stops level rest) : expr depth level (us ++ rest) = .ok (e, rest) :=
  (exprRead h).eq_ok hd hs

/-! ### Statements -/

/-- A statement can end before the tokens: they are at an end, or begin with a separator, a closing
brace or the word for a second branch. -/
def Ends (rest : List Token) : Prop :=
  ∀ t ∈ rest.head?, t.kind = .semicolon ∨ t.kind = .rbrace ∨ t.kind = .kwElse

theorem Ends.stops {rest : List Token} (h : Ends rest) : Stops .or rest := by
  intro t ht l _
  rcases h t ht with h | h | h <;> rw [h] <;> cases l <;> rfl

theorem ends_nil : Ends [] := by
  simp [Ends]

theorem ends_cons {t : Token} {rest : List Token}
    (h : t.kind = .semicolon ∨ t.kind = .rbrace ∨ t.kind = .kwElse) : Ends (t :: rest) := by
  simpa [Ends] using h

/-- The tokens of a statement are read wherever a statement can end, but for a conditional without a
second branch not before the word for one. -/
def StmtRead (us : List Token) (s : Stmt) : Prop :=
  ∀ rest depth, 12 * (us ++ rest).length + 9 ≤ depth → Ends rest →
    (s.EndsOpen → next .kwElse rest = false) → statement depth (us ++ rest) = .ok (s, rest)

/-- The statements of a block are read up to the closing brace. The first of them is read by the rule
for the block, and the others by the rule for its rest. -/
def BodyRead (us : List Token) (body : List Stmt) : Prop :=
  ∀ rest depth done (right : Token), right.kind = .rbrace →
    12 * (us ++ right :: rest).length + 9 ≤ depth →
    (statement depth (us ++ right :: rest) >>= fun (s, rest) => blockTail depth (s :: done) rest) =
      .ok (.block (done.reverse ++ body), rest)

section Step

variable {ts us : List Token} {t : Token} {s : Stmt}

theorem stmtRead_expr {e : Expr} (h : IsExpr .or us e) : StmtRead us (.expr e) := by
  intro rest depth hd hends _
  obtain ⟨depth, rfl⟩ : ∃ d, depth = d + 1 := ⟨depth - 1, by omega⟩
  have hexpr : expr depth .or (us ++ rest) = .ok (e, rest) :=
    expr_complete h (by simp only [tightness]; omega) hends.stops
  rw [statement, next_eq_false_of_isExpr rfl h, next_eq_false_of_isExpr rfl h,
    next_eq_false_of_isExpr rfl h]
  change expr depth .or _ >>= _ = _
  rw [hexpr]
  rfl

theorem stmtRead_define {word name sign : Token} {e : Expr} (hw : word.kind = .kwLet)
    (hn : name.kind = .ident) (hs : sign.kind = .assign) (h : IsExpr .or us e) :
    StmtRead (word :: name :: sign :: us) (.define name.payload e) := by
  intro rest depth hd hends _
  simp only [List.cons_append, List.length_cons] at hd ⊢
  obtain ⟨depth, rfl⟩ : ∃ d, depth = d + 2 := ⟨depth - 2, by omega⟩
  have hexpr : expr depth .or (us ++ rest) = .ok (e, rest) :=
    expr_complete h (by simp only [tightness]; omega) hends.stops
  rw [statement, if_neg (by simp [hw]), if_pos (by simp [hw]), definition,
    expect_eq_ok_iff.2 ⟨rfl, hw⟩]
  change expect .ident (name :: sign :: (us ++ rest)) >>= _ = _
  rw [expect_eq_ok_iff.2 ⟨rfl, hn⟩]
  change expect .assign (sign :: (us ++ rest)) >>= _ = _
  rw [expect_eq_ok_iff.2 ⟨rfl, hs⟩]
  change expr depth .or (us ++ rest) >>= _ = _
  rw [hexpr]
  rfl

/-- A test ends before a branch that does not begin with a sign. -/
theorem stops_of_isStmt {rest : List Token} (h : IsStmt us s) (greedy : ¬ BeginsWithSign us) :
    Stops .or (us ++ rest) := by
  obtain ⟨t, vs, rfl, ht⟩ := h.begins
  refine stops_cons.2 fun l _ => ?_
  have hplus : t.kind ≠ .plus := fun hk => greedy ⟨t, rfl, .inl hk⟩
  have hminus : t.kind ≠ .minus := fun hk => greedy ⟨t, rfl, .inr hk⟩
  -- of the tokens that begin a statement, only the signs are operators
  cases hk : t.kind <;> first
    | (cases l <;> rfl)
    | contradiction
    | simp [hk, Kind.beginsStmt, Kind.beginsExpr] at ht

/-- A conditional is read by reading its test and its first branch. -/
theorem statement_conditional {word : Token} {test : Expr} {yes : Stmt} {rest : List Token}
    {depth : Nat} (hw : word.kind = .kwIf) (ht : IsExpr .or ts test) (hy : IsStmt us yes)
    (greedy : ¬ BeginsWithSign us) (ihy : StmtRead us yes)
    (hd : 12 * (word :: (ts ++ us ++ rest)).length + 9 ≤ depth + 2) (hends : Ends rest)
    (hopen : yes.EndsOpen → next .kwElse rest = false) :
    statement (depth + 2) (word :: (ts ++ us ++ rest)) =
      if next .kwElse rest then
        statement depth (rest.drop 1) >>= fun (no, rest) => .ok (.ifElse test yes no, rest)
      else .ok (.ifThen test yes, rest) := by
  simp only [List.length_cons, List.length_append] at hd
  -- the test ends where the branch begins
  have htest : expr depth .or (ts ++ us ++ rest) = .ok (test, us ++ rest) := by
    rw [List.append_assoc]
    exact expr_complete ht (by simp only [List.length_append, tightness]; omega)
      (stops_of_isStmt hy greedy)
  have hyes := ihy rest depth (by simp only [List.length_append]; omega) hends hopen
  rw [statement, if_pos (by simp [hw]), conditional, expect_eq_ok_iff.2 ⟨rfl, hw⟩]
  change expr depth .or (ts ++ us ++ rest) >>= _ = _
  rw [htest]
  change statement depth (us ++ rest) >>= _ = _
  rw [hyes]
  rfl

theorem stmtRead_ifThen {word : Token} {test : Expr} {yes : Stmt} (hw : word.kind = .kwIf)
    (ht : IsExpr .or ts test) (hy : IsStmt us yes) (greedy : ¬ BeginsWithSign us)
    (ihy : StmtRead us yes) : StmtRead (word :: (ts ++ us)) (.ifThen test yes) := by
  intro rest depth hd hends hopen
  have helse := hopen (Stmt.endsOpen_ifThen test yes)
  rw [List.cons_append] at hd ⊢
  obtain ⟨depth, rfl⟩ : ∃ d, depth = d + 2 := ⟨depth - 2, by omega⟩
  rw [statement_conditional hw ht hy greedy ihy hd hends fun _ => helse, helse]
  rfl

theorem stmtRead_ifElse {word mid : Token} {vs : List Token} {test : Expr} {yes no : Stmt}
    (hw : word.kind = .kwIf) (ht : IsExpr .or ts test) (hy : IsStmt us yes)
    (greedy : ¬ BeginsWithSign us) (nearest : ¬ yes.EndsOpen) (hm : mid.kind = .kwElse)
    (ihy : StmtRead us yes) (ihn : StmtRead vs no) :
    StmtRead (word :: (ts ++ us ++ mid :: vs)) (.ifElse test yes no) := by
  intro rest depth hd hends hopen
  have hsplit : word :: (ts ++ us ++ mid :: vs) ++ rest = word :: (ts ++ us ++ mid :: (vs ++ rest)) := by
    simp
  rw [hsplit] at hd ⊢
  obtain ⟨depth, rfl⟩ : ∃ d, depth = d + 2 := ⟨depth - 2, by omega⟩
  rw [statement_conditional hw ht hy greedy ihy hd (ends_cons (.inr (.inr hm)))
    fun ho => absurd ho nearest]
  simp only [List.length_cons, List.length_append] at hd
  have hno := ihn rest depth (by simp only [List.length_append]; omega) hends hopen
  rw [if_pos (by simp [hm]), List.drop_one, List.tail_cons, hno]
  rfl

/-- A sequence of statements does not begin with a closing brace. -/
theorem next_rbrace_of_isBody {body : List Stmt} {rest : List Token} (h : IsBody us body) :
    next .rbrace (us ++ rest) = false := by
  obtain ⟨t, vs, rfl, ht⟩ := h.begins
  cases hk : t.kind <;> simp_all [Kind.beginsStmt, Kind.beginsExpr]

theorem stmtRead_block {left right : Token} {body : List Stmt} (hl : left.kind = .lbrace)
    (h : IsBody us body) (ih : BodyRead us body) (hr : right.kind = .rbrace) :
    StmtRead (left :: (us ++ [right])) (.block body) := by
  intro rest depth hd _ _
  have hsplit : left :: (us ++ [right]) ++ rest = left :: (us ++ right :: rest) := by simp
  rw [hsplit, List.length_cons] at hd
  rw [hsplit]
  obtain ⟨depth, rfl⟩ : ∃ d, depth = d + 2 := ⟨depth - 2, by omega⟩
  have hbody := ih rest depth [] right hr (by omega)
  rw [statement, if_neg (by simp [hl]), if_neg (by simp [hl]), if_pos (by simp [hl]), block,
    expect_eq_ok_iff.2 ⟨rfl, hl⟩]
  change (if next .rbrace (us ++ right :: rest) then _ else _) = _
  rw [next_rbrace_of_isBody h]
  exact hbody

/-- The rest of a block that is only its closing brace. -/
theorem blockTail_close {right : Token} {rest : List Token} {done : List Stmt} {depth : Nat}
    (hr : right.kind = .rbrace) :
    blockTail (depth + 1) done (right :: rest) = .ok (.block done.reverse, rest) := by
  rw [blockTail, if_neg (by simp [hr]), if_neg (by simp [hr]), expect_eq_ok_iff.2 ⟨rfl, hr⟩]
  rfl

theorem bodyRead_last (ih : StmtRead us s) : BodyRead us [s] := by
  intro rest depth done right hr hd
  obtain ⟨depth, rfl⟩ : ∃ d, depth = d + 1 := ⟨depth - 1, by omega⟩
  rw [ih _ _ hd (ends_cons (.inr (.inl hr))) fun _ => by simp [hr]]
  change blockTail (depth + 1) (s :: done) (right :: rest) = _
  rw [blockTail_close hr, List.reverse_cons]

theorem bodyRead_closed (ih : StmtRead us s) (sep : t.kind = .semicolon) :
    BodyRead (us ++ [t]) [s] := by
  intro rest depth done right hr hd
  rw [List.append_assoc, List.singleton_append] at hd ⊢
  obtain ⟨depth, rfl⟩ : ∃ d, depth = d + 1 := ⟨depth - 1, by omega⟩
  rw [ih _ _ hd (ends_cons (.inl sep)) fun _ => by simp [sep]]
  change blockTail (depth + 1) (s :: done) (t :: right :: rest) = _
  -- the closing brace follows the semicolon, so no other statement does
  rw [blockTail, if_neg (by simp [hr]), if_pos (by simp [sep]), List.drop_one, List.tail_cons,
    expect_eq_ok_iff.2 ⟨rfl, hr⟩, List.reverse_cons]
  rfl

theorem bodyRead_more {body : List Stmt} (ihs : StmtRead ts s) (sep : t.kind = .semicolon)
    (h : IsBody us body) (ih : BodyRead us body) : BodyRead (ts ++ t :: us) (s :: body) := by
  intro rest depth done right hr hd
  rw [List.append_assoc, List.cons_append] at hd ⊢
  obtain ⟨depth, rfl⟩ : ∃ d, depth = d + 1 := ⟨depth - 1, by omega⟩
  rw [ihs _ _ hd (ends_cons (.inl sep)) fun _ => by simp [sep]]
  simp only [List.length_append, List.length_cons] at hd
  have hbody := ih rest depth (s :: done) right hr
    (by simp only [List.length_append, List.length_cons]; omega)
  rw [List.reverse_cons, List.append_assoc, List.singleton_append] at hbody
  change blockTail (depth + 1) (s :: done) (t :: (us ++ right :: rest)) = _
  rw [blockTail, if_pos (by simp [sep, next_rbrace_of_isBody h])]
  exact hbody

end Step

theorem stmtRead {us : List Token} {s : Stmt} (h : IsStmt us s) : StmtRead us s := by
  induction h using IsStmt.rec (motive_2 := fun us body _ => BodyRead us body) with
  | expr h => exact stmtRead_expr h
  | define hw hn hs h => exact stmtRead_define hw hn hs h
  | ifThen hw ht hy greedy ihy => exact stmtRead_ifThen hw ht hy greedy ihy
  | ifElse hw ht hy greedy nearest hm _ ihy ihn =>
    exact stmtRead_ifElse hw ht hy greedy nearest hm ihy ihn
  | block hl h hr ih => exact stmtRead_block hl h ih hr
  | last _ ih => exact bodyRead_last ih
  | closed _ sep ih => exact bodyRead_closed ih sep
  | more _ sep h ihs ih => exact bodyRead_more ihs sep h ih

/-- A statement that the grammar derives is read wherever it can end. -/
theorem statement_complete {us rest : List Token} {s : Stmt} {depth : Nat} (h : IsStmt us s)
    (hd : 12 * (us ++ rest).length + 9 ≤ depth) (hends : Ends rest)
    (hopen : s.EndsOpen → next .kwElse rest = false) :
    statement depth (us ++ rest) = .ok (s, rest) :=
  stmtRead h rest depth hd hends hopen

/-! ### Programs -/

theorem statements_complete {us : List Token} {body : List Stmt} (h : IsBody us body) :
    ∀ {depth : Nat} {done : List Stmt}, 12 * us.length + 10 ≤ depth →
      statements depth done us = .ok (done.reverse ++ body, []) := by
  induction h using IsBody.rec (motive_1 := fun _ _ _ => True) with
  | @last ts s h _ =>
    intro depth done hd
    obtain ⟨depth, rfl⟩ : ∃ d, depth = d + 1 := ⟨depth - 1, by omega⟩
    have hs : statement depth (ts ++ []) = .ok (s, []) :=
      statement_complete h (by simp; omega) ends_nil fun _ => rfl
    rw [List.append_nil] at hs
    rw [statements, hs]
    change Except.ok _ = _
    rw [List.reverse_cons]
  | @closed t ts s h sep _ =>
    intro depth done hd
    rw [List.length_append, List.length_singleton] at hd
    obtain ⟨depth, rfl⟩ : ∃ d, depth = d + 1 := ⟨depth - 1, by omega⟩
    have hs : statement depth (ts ++ [t]) = .ok (s, [t]) :=
      statement_complete h (by simp; omega) (ends_cons (.inl sep)) fun _ => by simp [sep]
    rw [statements, hs]
    simp only [bind, Except.bind, sep, ↓reduceIte, List.isEmpty_nil, List.reverse_cons]
    rfl
  | @more t ts us s body hs sep h _ ih =>
    intro depth done hd
    rw [List.length_append, List.length_cons] at hd
    obtain ⟨depth, rfl⟩ : ∃ d, depth = d + 1 := ⟨depth - 1, by omega⟩
    have hstmt : statement depth (ts ++ t :: us) = .ok (s, t :: us) :=
      statement_complete hs (by simp; omega) (ends_cons (.inl sep)) fun _ => by simp [sep]
    -- the rest is not empty, so the semicolon is not the last token
    obtain ⟨u, vs, rfl, -⟩ := h.begins
    have hmore : statements depth (s :: done) (u :: vs) = .ok ((s :: done).reverse ++ body, []) :=
      ih (by omega)
    rw [statements, hstmt]
    simp [bind, Except.bind, sep, hmore]
  | _ => trivial

theorem program_complete {ts : List Token} {body : List Stmt} (h : IsProgram ts body) :
    program (depthFor ts) ts = .ok (body, []) := by
  cases h with
  | empty => rfl
  | body h =>
    obtain ⟨t, us, rfl, -⟩ := h.begins
    exact statements_complete h (by rw [depthFor]; omega)

end Descent

open Grammar Descent

/-- A token list is read as a program exactly when the grammar derives the program from it. -/
theorem parse_eq_ok_iff_isProgram (ts : List Token) (body : List Stmt) :
    parse ts = .ok body ↔ IsProgram ts body := by
  constructor
  · intro h
    unfold parse at h
    split at h
    · rename_i hread
      cases h
      exact program_sound hread
    · cases h
  · intro h
    rw [parse, program_complete h]

end Abacus
