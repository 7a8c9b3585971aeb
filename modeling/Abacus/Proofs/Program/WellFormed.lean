import Abacus.Proofs.Descent.Completeness
import Abacus.Proofs.FrontEnds
import Abacus.Proofs.Token.Writing

/-!
# Well-formed programs

A program that is read from a text has literals without a sign that are in range, names that are not
reserved, and no empty blocks; and the first of two branches never ends in a conditional without a second
branch. This follows from the grammar and from what the tokens of a text carry.

The grammar looks at what tokens are and not at where they stand, so that texts can be moved and joined.

## Main definitions

* `Expr.WellFormed`, `Stmt.WellFormed`, `Stmt.AllWellFormed` — well-formed expressions, statements and
  programs

## Main results

* `Grammar.IsProgram.wellFormed` — what the tokens of a text spell is well formed
* `Grammar.IsProgram.of_content` — the places of tokens do not matter to what they spell
* `readSource_eq_ok_iff` — a front end reads the programs that the tokens of a text spell
-/

namespace Abacus

mutual

/-- Whether the literals of an expression are numbers without a sign and in range, and its names not
reserved. -/
def Expr.WellFormed : Expr → Prop
  | .int value => Payload.IsLiteral value
  | .bool _ => True
  | .name x => Payload.IsIdentifier x
  | .unary _ e => e.WellFormed
  | .binary _ l r | .logical _ l r | .relational _ l r => l.WellFormed ∧ r.WellFormed
  | .list items => Expr.AllWellFormed items

/-- Whether several expressions are well formed. -/
def Expr.AllWellFormed : List Expr → Prop
  | [] => True
  | e :: es => e.WellFormed ∧ Expr.AllWellFormed es

end

mutual

/-- Whether the expressions and names of a statement are well formed, its blocks are not empty, and each
second branch belongs to the nearest test. -/
def Stmt.WellFormed : Stmt → Prop
  | .expr e => e.WellFormed
  | .define x e => Payload.IsIdentifier x ∧ e.WellFormed
  | .ifThen test yes => test.WellFormed ∧ yes.WellFormed
  | .ifElse test yes no =>
    test.WellFormed ∧ yes.WellFormed ∧ no.WellFormed ∧ ¬yes.EndsOpen
  | .block body => body ≠ [] ∧ Stmt.AllWellFormed body

/-- Whether several statements are well formed. -/
def Stmt.AllWellFormed : List Stmt → Prop
  | [] => True
  | s :: ss => s.WellFormed ∧ Stmt.AllWellFormed ss

end

namespace Grammar

/-! ### What the tokens of a text spell -/

theorem isLiteral_of_isSourced {t : Token} (h : t.IsSourced) (hk : t.kind = .integer) :
    Payload.IsLiteral t.payload := by
  unfold Token.IsSourced at h
  rwa [hk] at h

theorem isIdentifier_of_isSourced {t : Token} (h : t.IsSourced) (hk : t.kind = .ident) :
    Payload.IsIdentifier t.payload := by
  unfold Token.IsSourced at h
  rwa [hk] at h

/-- An operator adds nothing that could be malformed. -/
theorem wellFormed_join {level : Level} {kind : Kind} {join : Expr → Expr → Expr} {left right : Expr}
    (h : level.join? kind = some join) (hl : left.WellFormed) (hr : right.WellFormed) :
    (join left right).WellFormed := by
  unfold Level.join? at h
  split at h <;> cases h <;> exact ⟨hl, hr⟩

theorem IsExpr.wellFormed {level : Level} {ts : List Token} {e : Expr} (h : IsExpr level ts e)
    (hts : ∀ t ∈ ts, t.IsSourced) : e.WellFormed := by
  induction h using IsExpr.rec
    (motive_2 := fun ts e _ => (∀ t ∈ ts, t.IsSourced) → e.WellFormed)
    (motive_3 := fun ts items _ => (∀ t ∈ ts, t.IsSourced) → Expr.AllWellFormed items) with
  | tighter _ _ ih => exact ih hts
  | binary _ op _ _ ihl ihr =>
    rw [List.forall_mem_append, List.forall_mem_cons] at hts
    exact wellFormed_join op (ihl hts.1) (ihr hts.2.2)
  | power _ _ _ ihb ihe =>
    rw [List.forall_mem_append, List.forall_mem_cons] at hts
    exact ⟨ihb hts.1, ihe hts.2.2⟩
  | unary _ _ ih => exact ih (List.forall_mem_cons.1 hts).2
  | primary _ ih => exact ih hts
  | int hk hts => exact isLiteral_of_isSourced (hts _ List.mem_cons_self) hk
  | yes _ _ | no _ _ => trivial
  | name hk hts => exact isIdentifier_of_isSourced (hts _ List.mem_cons_self) hk
  | paren _ _ _ ih hts | list _ _ _ ih hts =>
    rw [List.forall_mem_cons, List.forall_mem_append] at hts
    exact ih hts.2.1
  | none => trivial
  | last _ ih hts => exact ⟨ih hts, trivial⟩
  | skip _ _ ih hts => exact ih (List.forall_mem_cons.1 hts).2
  | item _ _ _ ihe ih hts =>
    rw [List.forall_mem_append, List.forall_mem_cons] at hts
    exact ⟨ihe hts.1, ih hts.2.2⟩

theorem IsStmt.wellFormed {ts : List Token} {s : Stmt} (h : IsStmt ts s)
    (hts : ∀ t ∈ ts, t.IsSourced) : s.WellFormed := by
  induction h using IsStmt.rec
    (motive_2 := fun ts body _ => (∀ t ∈ ts, t.IsSourced) → body ≠ [] ∧ Stmt.AllWellFormed body) with
  | expr h => exact h.wellFormed hts
  | define _ hn _ h =>
    simp only [List.forall_mem_cons] at hts
    exact ⟨isIdentifier_of_isSourced hts.2.1 hn, h.wellFormed hts.2.2.2⟩
  | ifThen _ ht _ _ ih =>
    rw [List.forall_mem_cons, List.forall_mem_append] at hts
    exact ⟨ht.wellFormed hts.2.1, ih hts.2.2⟩
  | ifElse _ ht _ _ nearest _ _ ihy ihn =>
    rw [List.forall_mem_cons, List.forall_mem_append, List.forall_mem_append, List.forall_mem_cons]
      at hts
    exact ⟨ht.wellFormed hts.2.1.1, ihy hts.2.1.2, ihn hts.2.2.2, nearest⟩
  | block _ _ _ ih =>
    rw [List.forall_mem_cons, List.forall_mem_append] at hts
    exact ih hts.2.1
  | last _ ih hts => exact ⟨nofun, ih hts, trivial⟩
  | closed _ _ ih hts => exact ⟨nofun, ih (List.forall_mem_append.1 hts).1, trivial⟩
  | more _ _ _ ihs ih hts =>
    rw [List.forall_mem_append, List.forall_mem_cons] at hts
    exact ⟨nofun, ihs hts.1, (ih hts.2.2).2⟩

theorem IsBody.wellFormed {ts : List Token} {body : List Stmt} (h : IsBody ts body)
    (hts : ∀ t ∈ ts, t.IsSourced) : Stmt.AllWellFormed body := by
  induction h using IsBody.rec (motive_1 := fun _ _ _ => True) with
  | last h _ => exact ⟨h.wellFormed hts, trivial⟩
  | closed h _ _ => exact ⟨h.wellFormed (List.forall_mem_append.1 hts).1, trivial⟩
  | more hs _ _ _ ih =>
    rw [List.forall_mem_append, List.forall_mem_cons] at hts
    exact ⟨hs.wellFormed hts.1, ih hts.2.2⟩
  | _ => trivial

/-- The programs that tokens of a text spell are well formed. -/
theorem IsProgram.wellFormed {ts : List Token} {body : List Stmt} (h : IsProgram ts body)
    (hts : ∀ t ∈ ts, t.IsSourced) : Stmt.AllWellFormed body := by
  cases h with
  | empty => trivial
  | body h => exact h.wellFormed hts

/-! ### The places of tokens -/

section Content

variable {ts us : List Token} {t : Token}

theorem content_eq_cons_iff {t : Token} {ts us : List Token} :
    us.map Token.content = (t :: ts).map Token.content ↔
      ∃ u vs, us = u :: vs ∧ u.kind = t.kind ∧ u.payload = t.payload ∧
        vs.map Token.content = ts.map Token.content := by
  rw [List.map_cons, List.map_eq_cons_iff]
  simp only [Token.content, Prod.mk.injEq, and_assoc]

theorem content_eq_append_iff {ts vs us : List Token} :
    us.map Token.content = (ts ++ vs).map Token.content ↔
      ∃ as bs, us = as ++ bs ∧ as.map Token.content = ts.map Token.content ∧
        bs.map Token.content = vs.map Token.content := by
  rw [List.map_append, List.map_eq_append_iff]

theorem content_eq_singleton {t : Token} {us : List Token}
    (h : us.map Token.content = [t].map Token.content) :
    ∃ u, us = [u] ∧ u.kind = t.kind ∧ u.payload = t.payload := by
  obtain ⟨u, vs, rfl, hk, hp, hvs⟩ := content_eq_cons_iff.1 h
  rw [List.map_nil, List.map_eq_nil_iff] at hvs
  exact ⟨u, by rw [hvs], hk, hp⟩

/-- Tokens in brackets are tokens in brackets wherever they stand. -/
theorem content_eq_enclosed {left right : Token} {ts us : List Token}
    (h : us.map Token.content = (left :: (ts ++ [right])).map Token.content) :
    ∃ l vs r, us = l :: (vs ++ [r]) ∧ l.kind = left.kind ∧ r.kind = right.kind ∧
      vs.map Token.content = ts.map Token.content := by
  obtain ⟨l, ws, rfl, hl, -, hws⟩ := content_eq_cons_iff.1 h
  obtain ⟨vs, rs, rfl, hvs, hrs⟩ := content_eq_append_iff.1 hws
  obtain ⟨r, rfl, hr, -⟩ := content_eq_singleton hrs
  exact ⟨l, vs, r, rfl, hl, hr, hvs⟩

theorem IsExpr.of_content {level : Level} {e : Expr} (h : IsExpr level ts e)
    (hus : us.map Token.content = ts.map Token.content) : IsExpr level us e := by
  induction h using IsExpr.rec
    (motive_2 := fun ts e _ => ∀ {us : List Token},
      us.map Token.content = ts.map Token.content → IsPrimary us e)
    (motive_3 := fun ts items _ => ∀ {us : List Token},
      us.map Token.content = ts.map Token.content → IsItems us items) generalizing us with
  | tighter loose _ ih => exact .tighter loose (ih hus)
  | binary loose op _ _ ihl ihr =>
    obtain ⟨as, bs, rfl, has, hbs⟩ := content_eq_append_iff.1 hus
    obtain ⟨u, vs, rfl, hk, -, hvs⟩ := content_eq_cons_iff.1 hbs
    exact .binary loose (hk ▸ op) (ihl has) (ihr hvs)
  | power op _ _ ihb ihe =>
    obtain ⟨as, bs, rfl, has, hbs⟩ := content_eq_append_iff.1 hus
    obtain ⟨u, vs, rfl, hk, -, hvs⟩ := content_eq_cons_iff.1 hbs
    exact .power (hk.trans op) (ihb has) (ihe hvs)
  | unary sign _ ih =>
    obtain ⟨u, vs, rfl, hk, -, hvs⟩ := content_eq_cons_iff.1 hus
    exact .unary (hk ▸ sign) (ih hvs)
  | primary _ ih => exact .primary (ih hus)
  | int hk hus =>
    obtain ⟨u, rfl, huk, hup⟩ := content_eq_singleton hus
    exact hup ▸ .int (huk.trans hk)
  | yes hk hus =>
    obtain ⟨u, rfl, huk, -⟩ := content_eq_singleton hus
    exact .yes (huk.trans hk)
  | no hk hus =>
    obtain ⟨u, rfl, huk, -⟩ := content_eq_singleton hus
    exact .no (huk.trans hk)
  | name hk hus =>
    obtain ⟨u, rfl, huk, hup⟩ := content_eq_singleton hus
    exact hup ▸ .name (huk.trans hk)
  | paren hl _ hr ih hus =>
    obtain ⟨l, vs, r, rfl, hlk, hrk, hvs⟩ := content_eq_enclosed hus
    exact .paren (hlk.trans hl) (ih hvs) (hrk.trans hr)
  | list hl _ hr ih hus =>
    obtain ⟨l, vs, r, rfl, hlk, hrk, hvs⟩ := content_eq_enclosed hus
    exact .list (hlk.trans hl) (ih hvs) (hrk.trans hr)
  | none hus =>
    rw [List.map_nil, List.map_eq_nil_iff] at hus
    exact hus ▸ .none
  | last _ ih hus => exact .last (ih hus)
  | skip sep _ ih hus =>
    obtain ⟨u, vs, rfl, hk, -, hvs⟩ := content_eq_cons_iff.1 hus
    exact .skip (hk.trans sep) (ih hvs)
  | item _ sep _ ihe ih hus =>
    obtain ⟨as, bs, rfl, has, hbs⟩ := content_eq_append_iff.1 hus
    obtain ⟨u, vs, rfl, hk, -, hvs⟩ := content_eq_cons_iff.1 hbs
    exact .item (ihe has) (hk.trans sep) (ih hvs)

theorem beginsWithSign_of_content (h : us.map Token.content = ts.map Token.content)
    (hsign : BeginsWithSign us) : BeginsWithSign ts := by
  obtain ⟨u, hu, hk⟩ := hsign
  obtain ⟨vs, rfl⟩ := List.head?_eq_some_iff.1 hu
  obtain ⟨t, ws, rfl, htk, -, -⟩ := content_eq_cons_iff.1 h.symm
  exact ⟨t, rfl, by rwa [htk]⟩

theorem IsStmt.of_content {s : Stmt} (h : IsStmt ts s)
    (hus : us.map Token.content = ts.map Token.content) : IsStmt us s := by
  induction h using IsStmt.rec
    (motive_2 := fun ts body _ => ∀ {us : List Token},
      us.map Token.content = ts.map Token.content → IsBody us body) generalizing us with
  | expr h => exact .expr (h.of_content hus)
  | define hw hn hs h =>
    obtain ⟨word, us, rfl, hwk, -, hus⟩ := content_eq_cons_iff.1 hus
    obtain ⟨name, us, rfl, hnk, hnp, hus⟩ := content_eq_cons_iff.1 hus
    obtain ⟨sign, us, rfl, hsk, -, hus⟩ := content_eq_cons_iff.1 hus
    exact hnp ▸ .define (hwk.trans hw) (hnk.trans hn) (hsk.trans hs) (h.of_content hus)
  | ifThen hw ht _ greedy ih =>
    obtain ⟨word, us, rfl, hwk, -, hus⟩ := content_eq_cons_iff.1 hus
    obtain ⟨as, bs, rfl, has, hbs⟩ := content_eq_append_iff.1 hus
    exact .ifThen (hwk.trans hw) (ht.of_content has) (ih hbs)
      fun hsign => greedy (beginsWithSign_of_content hbs hsign)
  | ifElse hw ht _ greedy nearest hm _ ihy ihn =>
    obtain ⟨word, us, rfl, hwk, -, hus⟩ := content_eq_cons_iff.1 hus
    obtain ⟨as, bs, rfl, has, hbs⟩ := content_eq_append_iff.1 hus
    obtain ⟨cs, ds, rfl, hcs, hds⟩ := content_eq_append_iff.1 has
    obtain ⟨mid, vs, rfl, hmk, -, hvs⟩ := content_eq_cons_iff.1 hbs
    exact .ifElse (hwk.trans hw) (ht.of_content hcs) (ihy hds)
      (fun hsign => greedy (beginsWithSign_of_content hds hsign)) nearest (hmk.trans hm) (ihn hvs)
  | block hl _ hr ih =>
    obtain ⟨l, vs, r, rfl, hlk, hrk, hvs⟩ := content_eq_enclosed hus
    exact .block (hlk.trans hl) (ih hvs) (hrk.trans hr)
  | last _ ih hus => exact .last (ih hus)
  | closed _ sep ih hus =>
    obtain ⟨as, bs, rfl, has, hbs⟩ := content_eq_append_iff.1 hus
    obtain ⟨u, rfl, hk, -⟩ := content_eq_singleton hbs
    exact .closed (ih has) (hk.trans sep)
  | more _ sep _ ihs ih hus =>
    obtain ⟨as, bs, rfl, has, hbs⟩ := content_eq_append_iff.1 hus
    obtain ⟨u, vs, rfl, hk, -, hvs⟩ := content_eq_cons_iff.1 hbs
    exact .more (ihs has) (hk.trans sep) (ih hvs)

theorem IsBody.of_content {body : List Stmt} (h : IsBody ts body)
    (hus : us.map Token.content = ts.map Token.content) : IsBody us body := by
  induction h using IsBody.rec (motive_1 := fun _ _ _ => True) generalizing us with
  | last h _ => exact .last (h.of_content hus)
  | closed h sep _ =>
    obtain ⟨as, bs, rfl, has, hbs⟩ := content_eq_append_iff.1 hus
    obtain ⟨u, rfl, hk, -⟩ := content_eq_singleton hbs
    exact .closed (h.of_content has) (hk.trans sep)
  | more hs sep _ _ ih =>
    obtain ⟨as, bs, rfl, has, hbs⟩ := content_eq_append_iff.1 hus
    obtain ⟨u, vs, rfl, hk, -, hvs⟩ := content_eq_cons_iff.1 hbs
    exact .more (hs.of_content has) (hk.trans sep) (ih hvs)
  | _ => trivial

/-- Tokens spell the same program wherever they stand. -/
theorem IsProgram.of_content {body : List Stmt} (h : IsProgram ts body)
    (hus : us.map Token.content = ts.map Token.content) : IsProgram us body := by
  cases h with
  | empty =>
    rw [List.map_nil, List.map_eq_nil_iff] at hus
    exact hus ▸ .empty
  | body h => exact .body (h.of_content hus)

end Content

end Grammar

/-! ### Reading -/

open Grammar Descent

theorem readTokens_eq_ok_iff {ts : List Token} {body : List Stmt} :
    readTokens ts = .ok body ↔ IsProgram ts body := by
  rw [readTokens, mapError_eq_ok_iff, parse]
  constructor
  · intro h
    split at h
    · rename_i hread
      cases h
      exact program_sound hread
    · cases h
  · intro h
    rw [program_complete h]

theorem readSource_automaton_of_tokenize {source : List Char} {ts : List Token} {body : List Stmt}
    (h : tokenize source = .ok ts) :
    readSource .automaton source = .ok body ↔ readTokens ts = .ok body := by
  rw [readSource, read_eq_readAll h, readTokens, parse_eq_readAll]
  simp only [mapError_eq_ok_iff]
  exact readAll_eq_ok_iff

/-- Either front end reads a text as a program exactly when the tokens of the text spell it. -/
theorem readSource_eq_ok_iff {frontEnd : FrontEnd} {source : List Char} {body : List Stmt} :
    readSource frontEnd source = .ok body ↔
      ∃ ts, tokenize source = .ok ts ∧ IsProgram ts body := by
  constructor
  · intro h
    obtain ⟨ts, hts⟩ : ∃ ts, tokenize source = .ok ts := by
      cases frontEnd with
      | automaton => exact exists_tokenize_eq_of_read h
      | descent =>
        cases htok : tokenize source with
        | ok ts => exact ⟨ts, rfl⟩
        | error e => simp [readSource, htok] at h
    refine ⟨ts, hts, readTokens_eq_ok_iff.1 ?_⟩
    cases frontEnd with
    | automaton => exact (readSource_automaton_of_tokenize hts).1 h
    | descent => simpa [readSource, hts] using h
  · rintro ⟨ts, hts, hbody⟩
    have hread := readTokens_eq_ok_iff.2 hbody
    cases frontEnd with
    | automaton => exact (readSource_automaton_of_tokenize hts).2 hread
    | descent => simpa [readSource, hts] using hread

/-- Every program that is read from a text is well formed. -/
theorem wellFormed_of_readSource {frontEnd : FrontEnd} {source : List Char} {body : List Stmt}
    (h : readSource frontEnd source = .ok body) : Stmt.AllWellFormed body := by
  obtain ⟨ts, hts, hbody⟩ := readSource_eq_ok_iff.1 h
  exact hbody.wellFormed (isSourced_of_tokensFrom hts)

end Abacus
