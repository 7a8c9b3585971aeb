import Abacus.Proofs.Eval.Outcome
import Abacus.Proofs.Program.WellFormed
import Abacus.Session

/-!
# Joining sources

Two sources can be joined by a semicolon and run as one, with the outcome of running them one after the
other. Three things make this so. A semicolon ends every token before it, so that the text is cut as its
parts are; it separates statements wherever a program could end, so that the joined text spells the two
programs one after the other; and statements run in order up to the first that fails, with the bindings
that were made before.

## Main results

* `Grammar.IsBody.append` — programs are joined by a semicolon
* `readSource_join` — the program of a joined source
* `runSource_of_read`, `runSource_of_unread` — running a source is running the program that is read, if
  it can be read
* `runSource_join` — running a joined source is running its parts
-/

namespace Abacus

/-! ### Running one after the other -/

section Tree

variable {body : List Node} {table : Table} (more : List Node)

/-- A failing tree fails alike when more statements come after it. -/
theorem runTree_append_of_error {e : RunError} (h : (runTree body table).result = .error e) :
    (runTree (body ++ more) table).result = .error e ∧
      (runTree (body ++ more) table).table = (runTree body table).table := by
  obtain ⟨e, hrun, rfl⟩ := mapError_eq_error_iff.1 h
  obtain ⟨hresult, htable⟩ := Outcome.andThen_of_error hrun fun vs table =>
    (Node.run [] more table).andThen fun ws table => .done (vs ++ ws) table
  simp only [runTree, runIn, Node.run_append]
  exact ⟨by rw [hresult]; rfl, htable⟩

/-- After a tree that succeeds, more statements run with the bindings that it made. -/
theorem runTree_append_of_ok {vs : List (Option Value)}
    (h : (runTree body table).result = .ok vs) :
    (runTree (body ++ more) table).result =
        (runTree more (runTree body table).table).result.map (vs ++ ·) ∧
      (runTree (body ++ more) table).table = (runTree more (runTree body table).table).table := by
  have hrun := mapError_eq_ok_iff.1 h
  obtain ⟨hresult, htable⟩ := Outcome.andThen_of_ok hrun fun vs table =>
    (Node.run [] more table).andThen fun ws table => .done (vs ++ ws) table
  simp only [runTree, runIn, Node.run_append]
  rw [hresult, htable]
  obtain ⟨hmore, hmore'⟩ := Outcome.andThen_done_map (Node.run [] more (Node.run [] body table).table)
    (vs ++ ·)
  rw [hmore, hmore']
  exact ⟨mapError_map _ _ _, rfl⟩

end Tree

theorem Stmt.toNodes_append (body more : List Stmt) :
    Stmt.toNodes (body ++ more) = Stmt.toNodes body ++ Stmt.toNodes more := by
  induction body with
  | nil => rfl
  | cons s ss ih => simp [Stmt.toNodes, ih]

/-! ### Reading a joined source -/

/-- A program without a semicolon at its end is joined to another by a semicolon. -/
theorem Grammar.IsBody.append {ts us : List Token} {t : Token} {body more : List Stmt}
    (h : IsBody ts body) (hlast : ∀ last ∈ ts.getLast?, last.kind ≠ .semicolon)
    (sep : t.kind = .semicolon) (hmore : IsProgram us more) :
    IsBody (ts ++ t :: us) (body ++ more) := by
  induction h using IsBody.rec (motive_1 := fun _ _ _ => True) with
  | last hs _ =>
    -- the semicolon separates two statements, or is one more after the last
    cases hmore with
    | empty => exact .closed hs sep
    | body hmore => exact .more hs sep hmore
  | closed _ sep _ => exact absurd sep (hlast _ (by simp))
  | @more u ts us' s body hs sep' hbody _ ih =>
    obtain ⟨first, rest, rfl, -⟩ := hbody.begins
    have hlast' : ∀ last ∈ (first :: rest).getLast?, last.kind ≠ .semicolon := by
      intro last hmem
      exact hlast last (by simpa using hmem)
    rw [List.append_assoc, List.cons_append, List.cons_append]
    exact .more hs sep' (ih hlast')
  | _ => trivial

theorem tokensFrom_semicolon (pos : Position) (text : List Char) :
    Lexer.tokensFrom pos (';' :: text) = do
      let ts ← Lexer.tokensFrom (pos.next ';') text
      return ⟨.semicolon, none, pos⟩ :: ts := by
  have hl : Lexer.lexeme pos ';' text = .ok (⟨.semicolon, [';'], pos⟩, text) := by
    have hpair : text.head?.bind (Kind.ofTwo? ';') = none := by
      cases text with
      | nil => rfl
      | cons c cs => simp [Kind.ofTwo?]
    simp [Lexer.lexeme, Lexer.symbol, hpair, isDigit, isWordStart, Kind.ofOne?]
  rw [tokensFrom_of_lexeme (skipBlanks_of_not_blank rfl pos text) hl]
  rfl

/-- The tokens of a joined source are those of its parts, but for their places. -/
theorem exists_tokenize_join {a b : List Char} {ts us : List Token} (ha : tokenize a = .ok ts)
    (hb : tokenize b = .ok us) :
    ∃ t us', tokenize (a ++ ';' :: b) = .ok (ts ++ t :: us') ∧ t.kind = .semicolon ∧
      us'.map Token.content = us.map Token.content := by
  let pos := Position.start.after a
  obtain ⟨us', hus', hcontent⟩ := exists_tokensFrom_eq_of_content hb (pos.next ';')
  refine ⟨⟨.semicolon, none, pos⟩, us', ?_, rfl, hcontent⟩
  rw [tokenize] at ha
  rw [tokenize, tokensFrom_append separates_semicolon, ha, tokensFrom_semicolon, hus']
  rfl

section Join

variable {frontEnd : FrontEnd} {a b : List Char} {program more : List Stmt}

/-- A joined source is read as the programs of its parts, one after the other. -/
theorem readSource_join (ha : readSource frontEnd a = .ok program) (hne : program ≠ [])
    (hlast : ∀ ts, tokenize a = .ok ts → ∀ t ∈ ts.getLast?, t.kind ≠ .semicolon)
    (hb : readSource frontEnd b = .ok more) :
    readSource frontEnd (a ++ ';' :: b) = .ok (program ++ more) := by
  obtain ⟨ts, hts, hprogram⟩ := readSource_eq_ok_iff.1 ha
  obtain ⟨us, hus, hmore⟩ := readSource_eq_ok_iff.1 hb
  obtain ⟨t, us', htok, sep, hcontent⟩ := exists_tokenize_join hts hus
  refine readSource_eq_ok_iff.2 ⟨_, htok, ?_⟩
  cases hprogram with
  | empty => exact absurd rfl hne
  | body hbody => exact .body (hbody.append (hlast ts hts) sep (hmore.of_content hcontent))

/-! ### Running a joined source -/

/-- Running a source is running the program that is read from it, after the events of reading. -/
theorem runSource_of_read {source : List Char} (h : readSource frontEnd source = .ok program)
    (table : Table) :
    ∃ events, runSource (.known frontEnd) source table = (runProgram program table).after events := by
  cases frontEnd with
  | automaton => exact ⟨[], by simp [runSource, readSourceAs, h, Report.after]⟩
  | descent =>
    obtain ⟨ts, hts, hprogram⟩ := readSource_eq_ok_iff.1 h
    refine ⟨[.tokens ts], ?_⟩
    simp [runSource, runByDescent, hts, readTokens_eq_ok_iff.2 hprogram]

/-- A source that cannot be read is not run. -/
theorem runSource_of_unread {source : List Char} {e : SourceError}
    (h : readSource frontEnd source = .error e) (table : Table) :
    ∃ events, runSource (.known frontEnd) source table = .unread e table events := by
  cases frontEnd with
  | automaton => exact ⟨[], by simp [runSource, readSourceAs, h]⟩
  | descent =>
    rw [readSource] at h
    rcases htok : tokenize source with e' | ts
    · rw [htok] at h
      cases h
      exact ⟨[], by simp [runSource, runByDescent, htok]⟩
    · rw [htok] at h
      exact ⟨[.tokens ts], by simp [runSource, runByDescent, htok, h]⟩

/-- What a source gives and binds is what its statements give and bind. -/
theorem runSource_eq_runTree {source : List Char} (h : readSource frontEnd source = .ok program)
    (table : Table) :
    (runSource (.known frontEnd) source table).result =
        (runTree (Stmt.toNodes program) table).result ∧
      (runSource (.known frontEnd) source table).table =
        (runTree (Stmt.toNodes program) table).table := by
  obtain ⟨events, hrun⟩ := runSource_of_read h table
  rw [hrun]
  exact ⟨rfl, rfl⟩

/-- A source that gives a program, and does not end with a semicolon, can be joined to another by one.
If both parts succeed, the joined source has the results of both, and leaves the bindings that running
them one after the other leaves; if one of them fails, it fails as that one does, and leaves the same
bindings. -/
theorem runSource_join (table : Table) (ha : readSource frontEnd a = .ok program)
    (hne : program ≠ [])
    (hlast : ∀ ts, tokenize a = .ok ts → ∀ t ∈ ts.getLast?, t.kind ≠ .semicolon)
    (hb : readSource frontEnd b = .ok more) :
    let first := runSource (.known frontEnd) a table
    let second := runSource (.known frontEnd) b first.table
    let whole := runSource (.known frontEnd) (a ++ ';' :: b) table
    (∀ vs ws, first.result = .ok vs → second.result = .ok ws →
      whole.result = .ok (vs ++ ws) ∧ whole.table = second.table) ∧
    (∀ e, first.result = .error e → whole.result = .error e ∧ whole.table = first.table) ∧
    (∀ vs e, first.result = .ok vs → second.result = .error e →
      whole.result = .error e ∧ whole.table = second.table) := by
  intro first second whole
  obtain ⟨hfirst, hfirst'⟩ := runSource_eq_runTree ha table
  obtain ⟨hsecond, hsecond'⟩ := runSource_eq_runTree hb first.table
  obtain ⟨hwhole, hwhole'⟩ := runSource_eq_runTree (readSource_join ha hne hlast hb) table
  rw [Stmt.toNodes_append] at hwhole hwhole'
  -- where the first part succeeds, the whole is decided by the second
  have hgo {vs : List (Option Value)} (h : first.result = .ok vs) :
      whole.result = second.result.map (vs ++ ·) ∧ whole.table = second.table := by
    obtain ⟨hresult, htable⟩ := runTree_append_of_ok (Stmt.toNodes more) (hfirst.symm.trans h)
    rw [← hfirst'] at hresult htable
    exact ⟨by rw [hwhole, hresult, hsecond], by rw [hwhole', htable, hsecond']⟩
  refine ⟨fun vs ws h hws => ?_, fun e h => ?_, fun vs e h he => ?_⟩
  · obtain ⟨hresult, htable⟩ := hgo h
    exact ⟨by rw [hresult, hws]; rfl, htable⟩
  · obtain ⟨hresult, htable⟩ := runTree_append_of_error (Stmt.toNodes more) (hfirst.symm.trans h)
    exact ⟨by rw [hwhole, hresult], by rw [hwhole', htable, hfirst']⟩
  · obtain ⟨hresult, htable⟩ := hgo h
    exact ⟨by rw [hresult, he]; rfl, htable⟩

theorem runSource_join_quotient :
    (runSource (.known .automaton) (['l', 'e', 't', ' ', 'x', '=', '2'] ++ ';' :: ['x', '/', '0'])
      []).result = .error (.eval .divideByZero) ∧
    (runSource (.known .automaton) (['l', 'e', 't', ' ', 'x', '=', '2'] ++ ';' :: ['x', '/', '0'])
      []).table = [⟨.text "x", .str "x", some (.int 2)⟩] := by
  have htokens : tokenize ['l', 'e', 't', ' ', 'x', '=', '2'] =
      .ok [⟨.kwLet, none, ⟨1, 1⟩⟩, ⟨.ident, some (.text "x"), ⟨1, 5⟩⟩, ⟨.assign, none, ⟨1, 6⟩⟩,
        ⟨.integer, some (.int 2), ⟨1, 7⟩⟩] :=
    tokensFrom_lexeme rfl rfl (tokensFrom_lexeme rfl rfl (tokensFrom_lexeme rfl rfl
      (tokensFrom_lexeme rfl rfl (tokensFrom_ending rfl))))
  have hmore : tokenize ['x', '/', '0'] =
      .ok [⟨.ident, some (.text "x"), ⟨1, 1⟩⟩, ⟨.slash, none, ⟨1, 2⟩⟩,
        ⟨.integer, some (.int 0), ⟨1, 3⟩⟩] :=
    tokensFrom_lexeme rfl rfl (tokensFrom_lexeme rfl rfl (tokensFrom_lexeme rfl rfl
      (tokensFrom_ending rfl)))
  have ha := (readSource_automaton_of_tokenize htokens).2 rfl
  have hb := (readSource_automaton_of_tokenize hmore).2 rfl
  have hlast : ∀ ts, tokenize ['l', 'e', 't', ' ', 'x', '=', '2'] = .ok ts →
      ∀ t ∈ ts.getLast?, t.kind ≠ .semicolon := by
    intro ts hts t ht
    cases htokens.symm.trans hts
    cases ht
    exact nofun
  obtain ⟨-, -, hfails⟩ := runSource_join [] ha nofun hlast hb
  obtain ⟨hresult, htable⟩ := runSource_eq_runTree ha []
  obtain ⟨hresult', htable'⟩ := runSource_eq_runTree hb [⟨.text "x", .str "x", some (.int 2)⟩]
  rw [htable.trans rfl] at hfails
  obtain ⟨hwhole, hbindings⟩ := hfails _ _ (hresult.trans rfl) (hresult'.trans rfl)
  exact ⟨hwhole, hbindings.trans htable'⟩

end Join

end Abacus
