import Abacus.Proofs.Descent.Soundness

/-!
# The depth of calls

Between two tokens that are used up, rules call each other at most eleven times. So twelve calls for
each token that is left are enough for every rule, and then the depth has no influence on the result.

## Main results

* `Descent.exprStable` — with enough depth, any depth gives the same result
-/

namespace Abacus

namespace Descent

open Grammar
open Automaton (tightness)

theorem tightness_tighter {level : Level} (loose : level ≠ .power) :
    tightness level.tighter = tightness level + 1 := by
  cases level <;> first | rfl | exact absurd rfl loose

theorem tightness_le (level : Level) : tightness level ≤ 5 := by
  cases level <;> decide

theorem length_drop_one_of_next {kind : Kind} {ts : List Token} (h : next kind ts = true) :
    (ts.drop 1).length + 1 = ts.length := by
  obtain ⟨t, us, rfl, -⟩ := next_eq_true_iff.1 h
  rfl

/-- With enough depth, the rules for expressions do not depend on it. The number of calls that a rule
can make before it uses up a token is one for chains and operands, two for signs, three to eight for
the levels from the tightest on, and nine for the items of a list. -/
structure ExprStable (depth : Nat) : Prop where
  expr {depth' : Nat} {level : Level} {ts : List Token}
    (h : 12 * ts.length + 8 ≤ depth + tightness level)
    (h' : 12 * ts.length + 8 ≤ depth' + tightness level) :
    expr depth level ts = expr depth' level ts
  chain {depth' : Nat} {level : Level} {left : Expr} {ts : List Token}
    (h : 12 * ts.length + 1 ≤ depth) (h' : 12 * ts.length + 1 ≤ depth') :
    chain depth level left ts = chain depth' level left ts
  unary {depth' : Nat} {ts : List Token} (h : 12 * ts.length + 2 ≤ depth)
    (h' : 12 * ts.length + 2 ≤ depth') : unary depth ts = unary depth' ts
  primary {depth' : Nat} {ts : List Token} (h : 12 * ts.length + 1 ≤ depth)
    (h' : 12 * ts.length + 1 ≤ depth') : primary depth ts = primary depth' ts
  elements {depth' : Nat} {done : List Expr} {ts : List Token} (h : 12 * ts.length + 9 ≤ depth)
    (h' : 12 * ts.length + 9 ≤ depth') : elements depth done ts = elements depth' done ts

section Step

variable {depth depth' : Nat} {ts : List Token}

theorem expr_power_stable_step (ih : ExprStable depth) (h : 12 * ts.length + 3 ≤ depth + 1)
    (h' : 12 * ts.length + 3 ≤ depth' + 1) :
    expr (depth + 1) .power ts = expr (depth' + 1) .power ts := by
  rw [expr, expr, ih.unary (by omega) (by omega : _ ≤ depth')]
  refine bind_congr_of_ok ?_
  rintro ⟨base, rest⟩ hbase
  have hrest := unary_shorter hbase
  dsimp only
  split
  · rename_i hcaret
    have hdrop := length_drop_one_of_next hcaret
    rw [ih.expr (by simp only [tightness]; omega) (by simp only [tightness]; omega : _ ≤ depth' + _)]
  · rfl

theorem expr_stable_step (ih : ExprStable depth) {level : Level}
    (h : 12 * ts.length + 8 ≤ depth + 1 + tightness level)
    (h' : 12 * ts.length + 8 ≤ depth' + 1 + tightness level) :
    expr (depth + 1) level ts = expr (depth' + 1) level ts := by
  by_cases hp : level = .power
  · subst hp
    exact expr_power_stable_step ih (by simp only [tightness] at h; omega)
      (by simp only [tightness] at h'; omega)
  · have htight := tightness_tighter hp
    have hle := tightness_le level
    rw [expr_succ_of_ne_power hp, expr_succ_of_ne_power hp,
      ih.expr (by omega) (by omega : _ ≤ depth' + _)]
    refine bind_congr_of_ok ?_
    rintro ⟨left, rest⟩ hleft
    have hrest := expr_shorter hleft
    exact ih.chain (by omega) (by omega)

theorem chain_stable_step (ih : ExprStable depth) {level : Level} {left : Expr}
    (h : 12 * ts.length + 1 ≤ depth + 1) (h' : 12 * ts.length + 1 ≤ depth' + 1) :
    chain (depth + 1) level left ts = chain (depth' + 1) level left ts := by
  cases ts with
  | nil => rfl
  | cons t ts =>
    rw [List.length_cons] at h h'
    rw [chain, chain]
    split
    · rfl
    · rw [ih.expr (by omega) (by omega : _ ≤ depth' + _)]
      refine bind_congr_of_ok ?_
      rintro ⟨right, rest⟩ hright
      have hrest := expr_shorter hright
      exact ih.chain (by omega) (by omega)

theorem unary_stable_step (ih : ExprStable depth) (h : 12 * ts.length + 2 ≤ depth + 1)
    (h' : 12 * ts.length + 2 ≤ depth' + 1) : unary (depth + 1) ts = unary (depth' + 1) ts := by
  rw [unary, unary]
  split
  · rename_i op hop
    cases ts with
    | nil => cases hop
    | cons t ts =>
      rw [List.length_cons] at h h'
      change expr depth .power ts >>= _ = expr depth' .power ts >>= _
      rw [ih.expr (by omega) (by omega : _ ≤ depth' + _)]
  · exact ih.primary (by omega) (by omega)

theorem primary_stable_step (ih : ExprStable depth) (h : 12 * ts.length + 1 ≤ depth + 1)
    (h' : 12 * ts.length + 1 ≤ depth' + 1) :
    primary (depth + 1) ts = primary (depth' + 1) ts := by
  cases ts with
  | nil => rfl
  | cons t ts =>
    rw [List.length_cons] at h h'
    rw [primary, primary]
    split <;> try rfl
    · rw [ih.expr (by omega) (by omega : _ ≤ depth' + _)]
    · rw [ih.elements (by omega) (by omega : _ ≤ depth')]

theorem elements_stable_step (ih : ExprStable depth) {done : List Expr}
    (h : 12 * ts.length + 9 ≤ depth + 1) (h' : 12 * ts.length + 9 ≤ depth' + 1) :
    elements (depth + 1) done ts = elements (depth' + 1) done ts := by
  rw [elements, elements]
  split
  · rename_i hcomma
    have hdrop := length_drop_one_of_next hcomma
    exact ih.elements (by omega) (by omega)
  · split
    · rfl
    · rw [ih.expr (by simp only [tightness]; omega) (by simp only [tightness]; omega : _ ≤ depth' + _)]
      refine bind_congr_of_ok ?_
      rintro ⟨item, rest⟩ hitem
      have hrest := expr_shorter hitem
      dsimp only
      split
      · rename_i hcomma
        have hdrop := length_drop_one_of_next hcomma
        exact ih.elements (by omega) (by omega)
      · rfl

end Step

theorem exprStable (depth : Nat) : ExprStable depth := by
  -- by induction on one depth, the other one being any that is enough
  induction depth with
  | zero =>
    constructor <;> intros
    case expr level _ _ _ => exact absurd (tightness_le level) (by omega)
    all_goals omega
  | succ depth ih =>
    constructor <;> intro depth' <;> intros <;> obtain _ | depth' := depth'
    case expr.zero level _ _ _ => exact absurd (tightness_le level) (by omega)
    case expr.succ h h' => exact expr_stable_step ih h h'
    case chain.succ h h' => exact chain_stable_step ih h h'
    case unary.succ h h' => exact unary_stable_step ih h h'
    case primary.succ h h' => exact primary_stable_step ih h h'
    case elements.succ h h' => exact elements_stable_step ih h h'
    all_goals omega

/-- Operators of a level are read in the same way at every depth that is enough. -/
theorem chain_stable {depth depth' : Nat} {level : Level} {left : Expr} {ts : List Token}
    (h : 12 * ts.length + 1 ≤ depth) (h' : 12 * ts.length + 1 ≤ depth') :
    chain depth level left ts = chain depth' level left ts :=
  (exprStable depth).chain h h'

end Descent

end Abacus
