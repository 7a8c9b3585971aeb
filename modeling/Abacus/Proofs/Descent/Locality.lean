import Abacus.Proofs.Descent.Progress
import Abacus.Proofs.Token.Writing

/-!
# One token ahead

A rule that ends at a position has seen the kinds and payloads of the tokens that it has used up, and the
kind of the token at that position. So it does the same on every token list that agrees with the first one
in these: the places of the tokens do not matter to it, nor does anything that comes later.

An expression ends where its level does: after it comes no operator of the level, and none of a tighter one.

## Main results

* `Descent.Plan.Returns.of_agree` — what a plan sees of the tokens
* `Descent.Rule.runAt_local` — what a rule sees of the tokens
-/

namespace Abacus

namespace Descent

open Grammar

variable {ts ts' : List Token}

/-- Two token lists agree up to a position: before it they have tokens of the same kinds and payloads, and
at it tokens of the same kind, or no token. -/
structure AgreeTo (stop : Nat) (ts ts' : List Token) : Prop where
  before : ∀ i < stop, (ts'[i]?).map Token.content = (ts[i]?).map Token.content
  ahead : (ts'[stop]?).map Token.kind = (ts[stop]?).map Token.kind

namespace AgreeTo

variable {stop p : Nat}

/-- Up to the position, the kinds are the same. -/
theorem kind_eq (h : AgreeTo stop ts ts') (hp : p ≤ stop) :
    (ts'[p]?).map Token.kind = (ts[p]?).map Token.kind := by
  rcases Nat.lt_or_eq_of_le hp with hlt | rfl
  · have hfst := congrArg (Option.map Prod.fst) (h.before p hlt)
    rwa [Option.map_map, Option.map_map] at hfst
  · exact h.ahead

theorem mono (h : AgreeTo stop ts ts') (hp : p ≤ stop) : AgreeTo p ts ts' :=
  ⟨fun i hi => h.before i (Nat.lt_of_lt_of_le hi hp), h.kind_eq hp⟩

theorem le_length (h : AgreeTo stop ts ts') (hstop : stop ≤ ts.length) : stop ≤ ts'.length := by
  -- the last token before the position is in both lists
  cases stop with
  | zero => exact Nat.zero_le _
  | succ stop =>
    have hlast := h.before stop (Nat.lt_succ_self stop)
    rw [List.getElem?_eq_getElem hstop] at hlast
    obtain ⟨t, ht, -⟩ := Option.map_eq_some_iff.1 hlast
    exact (List.getElem?_eq_some_iff.1 ht).1

end AgreeTo

/-- A plan sees the tokens that it takes and the kind of the one after them. -/
theorem Plan.Returns.of_agree {α : Type} {plan : Plan α} {p q : Nat} {read : Option α}
    (h : plan.Returns ts p read q) (hagree : AgreeTo q ts ts') : plan.Returns ts' p read q := by
  induction h with
  | ret => exact .ret
  | fail => exact .fail
  | look h ih =>
    -- a plan looks at the position where it is, which is not after its end
    refine .look ?_
    rw [hagree.kind_eq h.le]
    exact ih hagree
  | @take _ next t p q read ht h ih =>
    have hcontent := hagree.before p h.le
    rw [ht] at hcontent
    obtain ⟨t', ht', hsame⟩ := Option.map_eq_some_iff.1 hcontent
    obtain ⟨hkind, hpayload⟩ := Prod.mk.inj hsame
    refine .take ht' ?_
    rw [hkind, hpayload]
    exact ih hagree
  | @takeNone _ next p ht =>
    refine .takeNone ?_
    simpa [ht] using hagree.ahead
  | call hc h ihc ih => exact .call (ihc (hagree.mono h.le)) (ih hagree)
  | callNone hc ihc => exact .callNone (ihc hagree)

/-- A rule that ends at a position ends there on every token list that agrees with the first one up to the
position. -/
theorem Rule.answer_of_agree {rule : Rule} {start stop : Nat} {read : Option Part}
    (hstart : start ≤ stop) (hstop : stop ≤ ts.length)
    (h : answer (rule.runAt ts start) = (read, ts.drop stop)) (hagree : AgreeTo stop ts ts') :
    answer (rule.runAt ts' start) = (read, ts'.drop stop) := by
  have hstart' : start ≤ ts'.length := Nat.le_trans hstart (hagree.le_length hstop)
  obtain ⟨read₁, stop₁, hreturns₁, hanswer₁, hlands₁⟩ :=
    rule.exists_returns ts (Nat.le_trans hstart hstop)
  obtain ⟨read₂, stop₂, hreturns₂, hanswer₂, -⟩ := rule.exists_returns ts' hstart'
  -- the tokens that are left tell the position on the first list
  obtain ⟨rfl, hdrop⟩ := Prod.mk.inj (h.symm.trans hanswer₁)
  obtain rfl : stop = stop₁ := by
    have hlength := congrArg List.length hdrop
    rw [List.length_drop, List.length_drop] at hlength
    have hle := hlands₁.le_length
    omega
  -- on the second list there is one end only
  obtain ⟨rfl, rfl⟩ := hreturns₂.unique (hreturns₁.of_agree hagree)
  exact hanswer₂

theorem answer_eq_some_iff {α : Type} {x : Except Failure (α × List Token)} {a : α}
    {rest : List Token} : answer x = (some a, rest) ↔ x = .ok (a, rest) := by
  cases x <;> simp [answer, Prod.ext_iff]

/-- An expression that a rule reads ends where its level does. -/
theorem Rule.stops_of_runAt {level : Level} {start : Nat} {part : Part} {rest : List Token}
    (h : (Rule.expr level).runAt ts start = .ok (part, rest)) : Stops level rest := by
  rw [runAt, mapError_eq_ok_iff, run_eq, mapError_eq_ok_iff] at h
  cases hread : Descent.expr (depthFor (ts.drop start)) level (ts.drop start) with
  | error f =>
    simp only [call, Call.run, hread] at h
    cases h
  | ok result =>
    obtain ⟨e, rest⟩ := result
    simp only [call, Call.run, hread] at h
    cases h
    obtain ⟨-, -, -, hstops⟩ := expr_sound hread
    exact hstops

/-- A rule reads a part and ends at a position of a token list. On every other token list that has the same
kinds and payloads before that position and there a token of the same kind, or like the first one no token,
it reads the same part and ends at the same position. After an expression comes no operator of its level and
none of a tighter one. -/
theorem Rule.runAt_local {rule : Rule} {start stop : Nat} {part : Part} (hstart : start ≤ stop)
    (hstop : stop ≤ ts.length) (h : rule.runAt ts start = .ok (part, ts.drop stop))
    (hbefore : ∀ i < stop, (ts'[i]?).map Token.content = (ts[i]?).map Token.content)
    (hahead : (ts'[stop]?).map Token.kind = (ts[stop]?).map Token.kind) :
    rule.runAt ts' start = .ok (part, ts'.drop stop) ∧ stop ≤ ts'.length ∧
      ∀ level, rule = .expr level → Stops level (ts.drop stop) := by
  have hagree : AgreeTo stop ts ts' := ⟨hbefore, hahead⟩
  refine ⟨?_, hagree.le_length hstop, ?_⟩
  · rw [← answer_eq_some_iff] at h ⊢
    exact Rule.answer_of_agree hstart hstop h hagree
  · rintro level rfl
    exact Rule.stops_of_runAt h

/-- The power in `2 ^ 3 + 1` ends before the sum does. In other places, and with anything after the sign of
the sum, it is the same. -/
theorem Rule.runAt_local_power :
    let ts : List Token := [⟨.integer, some (.int 2), ⟨1, 1⟩⟩, ⟨.caret, none, ⟨1, 3⟩⟩,
      ⟨.integer, some (.int 3), ⟨1, 5⟩⟩, ⟨.plus, none, ⟨1, 7⟩⟩, ⟨.integer, some (.int 1), ⟨1, 9⟩⟩]
    let ts' : List Token := [⟨.integer, some (.int 2), ⟨4, 2⟩⟩, ⟨.caret, none, ⟨4, 3⟩⟩,
      ⟨.integer, some (.int 3), ⟨4, 4⟩⟩, ⟨.plus, none, ⟨5, 1⟩⟩, ⟨.rbrace, none, ⟨5, 2⟩⟩]
    let power : Part := .expr (.binary .pow (.int (some (.int 2))) (.int (some (.int 3))))
    (Rule.expr .power).runAt ts 0 = .ok (power, ts.drop 3) ∧
      (Rule.expr .power).runAt ts' 0 = .ok (power, ts'.drop 3) ∧ Stops .power (ts.drop 3) := by
  intro ts ts' power
  have hread : (Rule.expr .power).runAt ts 0 = .ok (power, ts.drop 3) := rfl
  have hbefore : ∀ i < 3, (ts'[i]?).map Token.content = (ts[i]?).map Token.content := by decide
  have hahead : (ts'[3]?).map Token.kind = (ts[3]?).map Token.kind := by decide
  obtain ⟨hread', -, hstops⟩ :=
    Rule.runAt_local (Nat.zero_le 3) (by decide) hread hbefore hahead
  exact ⟨hread, hread', hstops .power rfl⟩

end Descent

end Abacus
