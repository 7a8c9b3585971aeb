import Abacus.Proofs.Eval.Checked
import Mathlib.Algebra.Order.Ring.Int

/-!
# The arithmetic operators

An arithmetic operator can be given integers of any size, also such as are in no value of a program. Its
result is the exact one if that is in range. There is no result for a divisor zero and for a negative
exponent, and in all other cases there is just one.

Quotients are described here without saying how they are computed: a quotient is rounded toward zero when
what it leaves of the dividend is smaller than the divisor and does not change the sign. Powers are those of
the integers, which are never computed when their size is known.

## Main definitions

* `IsQuotient` — the quotient rounded toward zero
* `BinaryOp.Gives` — the exact result of an operator

## Main results

* `isQuotient_iff` — there is one quotient by every divisor other than zero
* `BinaryOp.gives_iff` — there is one exact result, wherever an operator has any
* `BinaryOp.apply_int` — an operator on two integers
-/

namespace Abacus

/-! ### Quotients -/

/-- `q` is the quotient of `x` by `y` rounded toward zero: what is left of `x` is smaller than `y`, and is
zero or has the sign of `x`. -/
def IsQuotient (x y q : Int) : Prop :=
  ∃ s, x = q * y + s ∧ |s| < |y| ∧ (s = 0 ∨ s.sign = x.sign)

section Quotient

variable {x y q s : Int}

theorem nonneg_of_sign (h : s = 0 ∨ s.sign = x.sign) (hx : 0 ≤ x) : 0 ≤ s := by
  rcases h with rfl | h
  · exact Int.le_refl 0
  · rwa [← Int.sign_nonneg_iff, h, Int.sign_nonneg_iff]

theorem nonpos_of_sign (h : s = 0 ∨ s.sign = x.sign) (hx : x ≤ 0) : s ≤ 0 := by
  rcases h with rfl | h
  · exact Int.le_refl 0
  · rwa [← Int.sign_nonpos_iff, h, Int.sign_nonpos_iff]

theorem isQuotient_tdiv (hy : y ≠ 0) : IsQuotient x y (x.tdiv y) := by
  refine ⟨x.tmod y, (Int.tdiv_mul_add_tmod x y).symm, ?_, ?_⟩
  · rw [Int.abs_eq_natAbs, Int.abs_eq_natAbs, Int.natAbs_tmod, Int.ofNat_lt]
    exact Nat.mod_lt _ (Int.natAbs_pos.2 hy)
  · rw [Int.sign_tmod]
    by_cases hdvd : y ∣ x
    · exact .inl (Int.tmod_eq_zero_of_dvd hdvd)
    · exact .inr (if_neg hdvd)

/-- There is one quotient by every divisor other than zero. -/
theorem isQuotient_iff (hy : y ≠ 0) : IsQuotient x y q ↔ q = x.tdiv y := by
  constructor
  · rintro ⟨s, hx, hsmall, hsign⟩
    have hsum : s + y * q = x := by rw [hx, Int.mul_comm y, Int.add_comm]
    rw [Int.abs_eq_natAbs, Int.abs_eq_natAbs] at hsmall
    -- the remainder is on the side of the dividend, and so on one side of zero
    rcases Int.le_total 0 x with hpos | hneg
    · have hs := nonneg_of_sign hsign hpos
      exact ((Int.tdiv_tmod_unique hpos hy).2 ⟨hsum, hs, by omega⟩).1.symm
    · have hs := nonpos_of_sign hsign hneg
      exact ((Int.tdiv_tmod_unique' hneg hy).2 ⟨hsum, by omega, hs⟩).1.symm
  · rintro rfl
    exact isQuotient_tdiv hy

end Quotient

/-! ### Exact results -/

theorem checked_eq (n : Int) :
    checked n = if -2 ^ 31 ≤ n ∧ n ≤ 2 ^ 31 - 1 then .ok n else .error .overflow :=
  rfl

namespace BinaryOp

/-- `r` is the exact result of an arithmetic operator. -/
def Gives : BinaryOp → Int → Int → Int → Prop
  | .add, x, y, r => r = x + y
  | .sub, x, y, r => r = x - y
  | .mul, x, y, r => r = x * y
  | .div, x, y, r => IsQuotient x y r
  | .pow, x, y, r => 0 ≤ y ∧ r = x ^ y.toNat

variable {op : BinaryOp} {x y r : Int}

/-- The exact result is the one that evaluation with unbounded integers gives. -/
theorem gives_iff : op.Gives x y r ↔ op.exactInt x y = .ok r := by
  cases op with
  | add | sub | mul => simp [Gives, exactInt, eq_comm]
  | div =>
    rw [Gives, exactInt]
    by_cases hy : y = 0
    · -- no remainder is smaller than a divisor zero
      have hnone : ¬IsQuotient x 0 r := by
        rintro ⟨s, -, hsmall, -⟩
        rw [abs_zero] at hsmall
        exact absurd hsmall (Int.not_lt.2 (abs_nonneg s))
      simp [hnone, hy]
    · simp [isQuotient_iff hy, hy, eq_comm]
  | pow =>
    rw [Gives, exactInt]
    by_cases hy : y < 0
    · simp [hy]
    · simp [hy, Int.not_lt.1 hy, eq_comm]

/-- There are two reasons for which an operator has no exact result. -/
theorem exactInt_cases (op : BinaryOp) (x y : Int) :
    (op = .div ∧ y = 0 ∧ op.exactInt x y = .error .divideByZero) ∨
    (op = .pow ∧ y < 0 ∧ op.exactInt x y = .error .negativePower) ∨
    ∃ r, op.exactInt x y = .ok r := by
  cases op with
  | add | sub | mul => exact .inr (.inr ⟨_, rfl⟩)
  | div =>
    by_cases hy : y = 0
    · exact .inl ⟨rfl, hy, if_pos hy⟩
    · exact .inr (.inr ⟨_, if_neg hy⟩)
  | pow =>
    by_cases hy : y < 0
    · exact .inr (.inl ⟨rfl, hy, if_pos hy⟩)
    · exact .inr (.inr ⟨_, if_neg hy⟩)

/-- Where an operator has no exact result, it fails for the same reason. -/
theorem apply_of_exactInt_error {e : EvalError} (h : op.exactInt x y = .error e) :
    op.apply (.int x) (.int y) = .error e := by
  rw [apply, compute_eq, h]
  rfl

/-- An exact result is returned if it is in range. -/
theorem apply_of_gives (h : op.Gives x y r) :
    op.apply (.int x) (.int y) =
      if -2 ^ 31 ≤ r ∧ r ≤ 2 ^ 31 - 1 then .ok (.int r) else .error .overflow := by
  have hcompute : op.compute x y = checked r := by
    rw [compute_eq, gives_iff.1 h]
    rfl
  rw [apply, hcompute, checked_eq]
  split <;> rfl

/-- Where an operator has an exact result, it has just one. -/
theorem existsUnique_gives (hdiv : ¬(op = .div ∧ y = 0)) (hpow : ¬(op = .pow ∧ y < 0)) :
    ∃! r, op.Gives x y r := by
  rcases exactInt_cases op x y with ⟨hop, hy, -⟩ | ⟨hop, hy, -⟩ | ⟨r, hr⟩
  · exact absurd ⟨hop, hy⟩ hdiv
  · exact absurd ⟨hop, hy⟩ hpow
  · refine ⟨r, gives_iff.2 hr, fun r' hr' => ?_⟩
    have hsame := gives_iff.1 hr'
    rw [hr] at hsame
    exact (Except.ok.inj hsame).symm

/-- An arithmetic operator on two integers of any size. Division by zero and powers with a negative exponent
are errors. In all other cases there is one exact result, which is returned if it is in range and is an
overflow if it is not. Powers are the exact ones also where they are known without being computed. -/
theorem apply_int (op : BinaryOp) (x y : Int) :
    (op = .div ∧ y = 0 → op.apply (.int x) (.int y) = .error .divideByZero) ∧
    (op = .pow ∧ y < 0 → op.apply (.int x) (.int y) = .error .negativePower) ∧
    (¬(op = .div ∧ y = 0) → ¬(op = .pow ∧ y < 0) → ∃! r, op.Gives x y r) ∧
    (∀ r, op.Gives x y r → op.apply (.int x) (.int y) =
      if -2 ^ 31 ≤ r ∧ r ≤ 2 ^ 31 - 1 then .ok (.int r) else .error .overflow) ∧
    ∀ n : Nat, power x n =
      if -2 ^ 31 ≤ x ^ n ∧ x ^ n ≤ 2 ^ 31 - 1 then .ok (x ^ n) else .error .overflow := by
  refine ⟨?_, ?_, existsUnique_gives, fun r => apply_of_gives, fun n => ?_⟩
  · rintro ⟨rfl, hy⟩
    exact apply_of_exactInt_error (if_pos hy)
  · rintro ⟨rfl, hy⟩
    exact apply_of_exactInt_error (if_pos hy)
  · rw [power_eq_checked (Int.natCast_nonneg n), Int.toNat_natCast, checked_eq]
    rfl

/-- The least integer is a power of minus two, but its quotient by minus one is out of range. A quotient of
different signs is rounded up, and even zero has no negative power. -/
theorem apply_int_least :
    (Gives .pow (-2) 31 (-2147483648) ∧
      apply .pow (.int (-2)) (.int 31) = .ok (.int (-2147483648))) ∧
    (Gives .div (-2147483648) (-1) 2147483648 ∧
      apply .div (.int (-2147483648)) (.int (-1)) = .error .overflow) ∧
    (Gives .div (-7) 2 (-3) ∧ apply .div (.int (-7)) (.int 2) = .ok (.int (-3))) ∧
    apply .pow (.int 0) (.int (-1)) = .error .negativePower := by
  have hpow : Gives .pow (-2) 31 (-2147483648) := ⟨by decide, rfl⟩
  have hlarge : Gives .div (-2147483648) (-1) 2147483648 := ⟨0, by decide⟩
  have hup : Gives .div (-7) 2 (-3) := ⟨-1, by decide⟩
  exact ⟨⟨hpow, (apply_int .pow (-2) 31).2.2.2.1 _ hpow⟩, ⟨hlarge, (apply_int .div _ _).2.2.2.1 _ hlarge⟩,
    ⟨hup, (apply_int .div (-7) 2).2.2.2.1 _ hup⟩, (apply_int .pow 0 (-1)).2.1 ⟨rfl, by decide⟩⟩

end BinaryOp

end Abacus
