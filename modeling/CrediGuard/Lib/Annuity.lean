import Mathlib.Algebra.Order.Field.Basic
import Mathlib.Tactic.Ring
import Mathlib.Tactic.FieldSimp
import Mathlib.Tactic.Linarith

/-!
Level payments on a debt that grows by a factor `q` a period.

`payment q P n` is the amount that pays `P` off in exactly `n` periods. All that
is said of it here comes from the closed form of the balance after `k` payments.
-/

namespace Annuity
universe u
variable {K : Type u} [Field K]

/-- What is owed after `k` periods, each of which ends with a payment of `m`. -/
def balance (q m P : K) : Nat → K
  | 0 => P
  | k + 1 => q * balance q m P k - m

def payment (q P : K) (n : Nat) : K := P * ((q - 1) * q ^ n) / (q ^ n - 1)

theorem balance_payment {q : K} {n : Nat} (hq : q ^ n - 1 ≠ 0) (P : K) (k : Nat) :
    balance q (payment q P n) P k = P * (q ^ n - q ^ k) / (q ^ n - 1) := by
  induction k with
  | zero => rw [balance, pow_zero, mul_div_cancel_right₀ P hq]
  | succ k ih =>
      rw [balance, ih, payment, pow_succ]
      field_simp
      ring

/-- The payment is the interest on the debt and a part that pays it off. -/
theorem payment_eq {q : K} {n : Nat} (hq : q ^ n - 1 ≠ 0) (P : K) :
    payment q P n = P * (q - 1) + P * (q - 1) / (q ^ n - 1) := by
  rw [payment]
  field_simp
  ring

variable [LinearOrder K] [IsStrictOrderedRing K] {q P : K} {n k : Nat}

theorem factor_pos (hq : 1 < q) (hn : n ≠ 0) : 0 < q ^ n - 1 :=
  sub_pos.mpr (one_lt_pow₀ hq hn)

section Balances
variable (hq : 1 < q) (hn : n ≠ 0) (hP : 0 < P)
include hq hn

theorem balance_last (P : K) : balance q (payment q P n) P n = 0 := by
  rw [balance_payment (factor_pos hq hn).ne', sub_self, mul_zero, zero_div]

include hP

theorem balance_pos (hk : k < n) : 0 < balance q (payment q P n) P k := by
  rw [balance_payment (factor_pos hq hn).ne']
  have hpow : 0 < q ^ n - q ^ k := sub_pos.mpr (pow_lt_pow_right₀ hq hk)
  exact div_pos (mul_pos hP hpow) (factor_pos hq hn)

theorem balance_succ_lt (k : Nat) :
    balance q (payment q P n) P (k + 1) < balance q (payment q P n) P k := by
  have hfactor := factor_pos hq hn
  rw [balance_payment hfactor.ne', balance_payment hfactor.ne']
  apply div_lt_div_of_pos_right _ hfactor
  apply mul_lt_mul_of_pos_left _ hP
  exact sub_lt_sub_left (pow_lt_pow_right₀ hq k.lt_succ_self) _

/-- While something is owed, a payment pays more than the part of the debt that
goes with it. -/
theorem repaid_lt (hk : k < n) :
    P - balance q (payment q P n) P (k + 1) < (k + 1 : Nat) * payment q P n := by
  induction k with
  | zero =>
      have hpos := balance_pos hq hn hP hk
      have hinterest := mul_lt_mul_of_pos_right hq hpos
      simp only [balance] at hinterest hpos ⊢
      push_cast
      linarith
  | succ k ih =>
      have hpos := balance_pos hq hn hP hk
      have hinterest := mul_lt_mul_of_pos_right hq hpos
      have hbefore := ih (Nat.lt_of_succ_lt hk)
      rw [balance]
      push_cast at hbefore ⊢
      linarith

theorem lt_total : P < n * payment q P n := by
  obtain ⟨k, rfl⟩ := Nat.exists_eq_succ_of_ne_zero hn
  have hrepaid := repaid_lt hq hn hP k.lt_succ_self
  rwa [balance_last hq hn, sub_zero] at hrepaid

end Balances

theorem payment_lt_of_lt (hq : 1 < q) (hn : n ≠ 0) {P' : K} (hP : P < P') :
    payment q P n < payment q P' n := by
  have hfactor := factor_pos hq hn
  have hgrowth : 0 < (q - 1) * q ^ n :=
    mul_pos (sub_pos.mpr hq) (pow_pos (zero_lt_one.trans hq) n)
  apply div_lt_div_of_pos_right _ hfactor
  exact mul_lt_mul_of_pos_right hP hgrowth

theorem payment_lt_of_longer (hq : 1 < q) (hn : n ≠ 0) (hP : 0 < P) {n' : Nat} (h : n < n') :
    payment q P n' < payment q P n := by
  have hfactor := factor_pos hq hn
  have hfactor' := factor_pos hq (Nat.ne_of_gt (Nat.zero_lt_of_lt h))
  rw [payment_eq hfactor.ne', payment_eq hfactor'.ne']
  apply add_lt_add_of_le_of_lt le_rfl
  apply div_lt_div_of_pos_left (mul_pos hP (sub_pos.mpr hq)) hfactor
  exact sub_lt_sub_right (pow_lt_pow_right₀ hq h) 1

end Annuity
