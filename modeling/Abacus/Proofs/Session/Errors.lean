import Abacus.Proofs.Eval.Hazards
import Abacus.Proofs.Session.Values

/-!
# How a source can fail

A source whose tokens are sound runs to its results, or fails in one of a few ways: it is no program, it
uses a word that no scope binds, or an operator or a test does not suit its operands. Neither front end
builds a tree with an empty block or with a node in the wrong place, and every token that is taken for an
operator spells one.

## Main definitions

* `Session.StepError.IsOrdinary` — the ways in which a source with sound tokens can fail

## Main results

* `runSource_raises` — what running a source that can be read raises
* `Session.reply_isOrdinary` — how a source with sound tokens can fail
-/

namespace Abacus

/-! ### Operators in sources -/

/-- A token that joins two operands spells an operator of the family whose node it builds. -/
theorem Level.exists_ofSymbol? {level : Level} {kind : Kind} {join : Expr → Expr → Expr}
    (h : level.join? kind = some join) :
    (∃ op : BinaryOp, Operator.ofSymbol? kind.spelling = some op ∧ join = .binary op) ∨
      (∃ op : LogicOp, Operator.ofSymbol? kind.spelling = some op ∧ join = .logical op) ∨
        ∃ op : RelOp, Operator.ofSymbol? kind.spelling = some op ∧ join = .relational op := by
  cases level with
  | or | and =>
    cases kind <;> cases h
    exact .inr (.inl ⟨_, rfl, rfl⟩)
  | relational => cases kind <;> cases h <;> exact .inr (.inr ⟨_, rfl, rfl⟩)
  | additive | multiplicative | power =>
    cases kind <;> cases h <;> exact .inl ⟨_, rfl, rfl⟩

/-- A sign before an operand spells an operator on one operand. -/
theorem UnaryOp.ofSymbol?_of_ofKind? {kind : Kind} {op : UnaryOp} (h : ofKind? kind = some op) :
    Operator.ofSymbol? kind.spelling = some op := by
  cases kind <;> cases h <;> rfl

/-! ### Sources that are run -/

section Source

variable {frontEnd : FrontEnd} {source : List Char}

/-- A text whose tokens are sound can only fail to be read because it is no program. -/
theorem exists_grammar_of_readSource {ts : List Token} {e : SourceError}
    (htokens : tokenize source = .ok ts) (h : readSource frontEnd source = .error e) :
    ∃ e', e = .grammar e' := by
  cases frontEnd with
  | automaton =>
    rw [readSource, read_eq_readAll htokens, mapError_eq_error_iff] at h
    obtain ⟨e', -, rfl⟩ := h
    exact ⟨_, rfl⟩
  | descent =>
    simp only [readSource, htokens, readTokens, mapError_eq_error_iff] at h
    obtain ⟨e', -, rfl⟩ := h
    exact ⟨e', rfl⟩

/-- Running a source fails because it cannot be read, or with an error about values or about an unknown
word. -/
theorem runSource_raises {table : Table} {e : RunError}
    (h : (runSource (.known frontEnd) source table).result = .error e) :
    (∃ e', readSource frontEnd source = .error e' ∧ e = .source e') ∨
      ∃ e', e = .eval e' ∧ (e'.isOperation = true ∨ e'.IsUnknownWord) := by
  cases hread : readSource frontEnd source with
  | error e' =>
    obtain ⟨events, hrun⟩ := runSource_of_unread hread table
    rw [hrun] at h
    cases h
    exact .inl ⟨e', rfl, rfl⟩
  | ok program =>
    -- the tree of a program lists nothing but unknown words
    rw [(runSource_eq_runTree hread table).1, runTree, runIn, mapError_eq_error_iff] at h
    obtain ⟨e', hrun, rfl⟩ := h
    refine .inr ⟨e', rfl, ?_⟩
    refine (Node.run_raises (Stmt.toNodes program) [] table e' hrun).imp_right fun hmem => ?_
    exact Stmt.runHazards_toNodes program (wellFormed_of_readSource hread) e' hmem

end Source

namespace Session

/-- The ways in which a source with sound tokens can fail: it is no program, a word is unknown, or an
operator or a test does not suit its operands. -/
inductive StepError.IsOrdinary : StepError → Prop
  | grammar (e : ParseError) : IsOrdinary (.run (.source (.grammar e)))
  | unknownWord {e : EvalError} (h : e.IsUnknownWord) : IsOrdinary (.run (.eval e))
  | operation {e : EvalError} (h : e.isOperation = true) : IsOrdinary (.run (.eval e))

theorem StepError.IsOrdinary.ne_emptyBlock {e : EvalError}
    (h : StepError.IsOrdinary (.run (.eval e))) : e ≠ .emptyBlock ∧ e.isMisuse = false := by
  cases h with
  | unknownWord h =>
    obtain ⟨word, -, rfl⟩ := h
    exact ⟨nofun, rfl⟩
  | operation h => cases e <;> cases h <;> exact ⟨nofun, rfl⟩

/-- A source whose tokens are sound, read in either way, at any level of detail and with any bindings,
ends in its results or fails in one of the ordinary ways. No block turns out to be empty and no node is
misplaced; and every token that is taken for an operator spells one. -/
theorem reply_isOrdinary {source : List Char} {ts : List Token} (htokens : tokenize source = .ok ts)
    (frontEnd : FrontEnd) (level : Int) (table : Table) :
    (∀ e, (Step.reply ⟨level, .source frontEnd source⟩ table).result = .error e → e.IsOrdinary) ∧
    (∀ e, (Step.reply ⟨level, .source frontEnd source⟩ table).result = .error (.run (.eval e)) →
      e ≠ .emptyBlock ∧ e.isMisuse = false) ∧
    ∀ t ∈ ts,
      (∀ (l : Level) (join : Expr → Expr → Expr), l.join? t.kind = some join →
        (∃ op : BinaryOp, Operator.ofSymbol? t.kind.spelling = some op ∧ join = .binary op) ∨
        (∃ op : LogicOp, Operator.ofSymbol? t.kind.spelling = some op ∧ join = .logical op) ∨
        ∃ op : RelOp, Operator.ofSymbol? t.kind.spelling = some op ∧ join = .relational op) ∧
      ∀ op, UnaryOp.ofKind? t.kind = some op → Operator.ofSymbol? t.kind.spelling = some op := by
  have hordinary : ∀ e, (Step.reply ⟨level, .source frontEnd source⟩ table).result = .error e →
      e.IsOrdinary := by
    intro e he
    obtain ⟨e, hrun, rfl⟩ := mapError_eq_error_iff.1 he
    rcases runSource_raises hrun with ⟨e, hread, rfl⟩ | ⟨e, rfl, hoperation | hword⟩
    · obtain ⟨e, rfl⟩ := exists_grammar_of_readSource htokens hread
      exact .grammar e
    · exact .operation hoperation
    · exact .unknownWord hword
  refine ⟨hordinary, fun e he => (hordinary _ he).ne_emptyBlock, fun t _ => ⟨fun l join h => ?_, ?_⟩⟩
  · exact l.exists_ofSymbol? h
  · exact fun op h => UnaryOp.ofSymbol?_of_ofKind? h

/-- A quotient by zero has sound tokens, and fails in an ordinary way. -/
theorem reply_isOrdinary_quotient :
    ∃ ts, tokenize ['7', '/', '0'] = .ok ts ∧
      (Step.reply ⟨3, .source .automaton ['7', '/', '0']⟩ []).result =
        .error (.run (.eval .divideByZero)) ∧
      StepError.IsOrdinary (.run (.eval .divideByZero)) ∧
      ∀ t ∈ ts, ∀ op, UnaryOp.ofKind? t.kind = some op →
        Operator.ofSymbol? t.kind.spelling = some op := by
  have htokens : tokenize ['7', '/', '0'] =
      .ok [⟨.integer, some (.int 7), ⟨1, 1⟩⟩, ⟨.slash, none, ⟨1, 2⟩⟩,
        ⟨.integer, some (.int 0), ⟨1, 3⟩⟩] :=
    tokensFrom_lexeme rfl rfl (tokensFrom_lexeme rfl rfl (tokensFrom_lexeme rfl rfl
      (tokensFrom_ending rfl)))
  have hread := (readSource_automaton_of_tokenize htokens).2 rfl
  have hrun : (runSource (.known .automaton) ['7', '/', '0'] []).result =
      .error (.eval .divideByZero) :=
    (runSource_eq_runTree hread []).1
  have hreply : (Step.reply ⟨3, .source .automaton ['7', '/', '0']⟩ []).result =
      .error (.run (.eval .divideByZero)) :=
    mapError_eq_error_iff.2 ⟨_, hrun, rfl⟩
  obtain ⟨hordinary, -, hspells⟩ := reply_isOrdinary htokens .automaton 3 []
  exact ⟨_, htokens, hreply, hordinary _ hreply, fun t ht => (hspells t ht).2⟩

end Session

end Abacus
