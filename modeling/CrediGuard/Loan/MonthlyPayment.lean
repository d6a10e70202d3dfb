import CrediGuard.Lib.Annuity
import CrediGuard.Loan.Domain

/-!
`monthly_payment` as the level payment on a loan at one percent a month.
-/

namespace CrediGuard.Loan
namespace LoanApplication

/-- What is owed after `k` months: a percent is added, the payment is taken off. -/
def balance (payment amount : ℚ) : Nat → ℚ
  | 0 => amount
  | k + 1 => (101 / 100) * balance payment amount k - payment

/-- Paying `monthlyPaymentOf` every month pays the amount off with the term. -/
structure Amortises (amount : ℚ) (termMonths : Int) : Prop where
  entity : ∀ loan : LoanApplication, loan.amount.toRat = amount →
    loan.termMonths = termMonths → loan.monthlyPayment = monthlyPaymentOf amount termMonths
  owed : ∀ k : Nat, k < termMonths →
    0 < balance (monthlyPaymentOf amount termMonths) amount k ∧
      balance (monthlyPaymentOf amount termMonths) amount (k + 1) <
        balance (monthlyPaymentOf amount termMonths) amount k
  paid : ∀ n : Nat, (n : Int) = termMonths →
    balance (monthlyPaymentOf amount termMonths) amount n = 0
  total : amount < termMonths * monthlyPaymentOf amount termMonths
  denominator : (1 + 1 / 100 : ℚ) ^ termMonths - 1 ≠ 0
  larger : ∀ amount', amount < amount' →
    monthlyPaymentOf amount termMonths < monthlyPaymentOf amount' termMonths
  longer : ∀ termMonths', termMonths < termMonths' →
    monthlyPaymentOf amount termMonths' < monthlyPaymentOf amount termMonths

theorem balance_eq_annuity (payment amount : ℚ) (k : Nat) :
    balance payment amount k = Annuity.balance (101 / 100) payment amount k := by
  induction k with
  | zero => rfl
  | succ k ih => rw [balance, Annuity.balance, ih]

theorem monthlyPaymentOf_eq_annuity (amount : ℚ) {n : Nat} (hn : n ≠ 0) :
    monthlyPaymentOf amount n = Annuity.payment (101 / 100) amount n := by
  have hterm : (n : Int) ≠ 0 := Int.natCast_ne_zero.mpr hn
  have hrate : (1 / 100 : ℚ) ≠ 0 := by norm_num
  have hfactor : (1 + 1 / 100 : ℚ) = 101 / 100 := by norm_num
  have hgrowth : (1 / 100 : ℚ) = 101 / 100 - 1 := by norm_num
  simp only [monthlyPaymentOf, if_neg hterm, if_neg hrate, Annuity.payment, hfactor, zpow_natCast]
  rw [hgrowth]

theorem monthlyPayment_amortises (amount : ℚ) (termMonths : Int) (hamount : 0 < amount)
    (hterm : 1 ≤ termMonths) : Amortises amount termMonths := by
  obtain ⟨n, rfl⟩ := Int.eq_ofNat_of_zero_le (by omega : 0 ≤ termMonths)
  have hn : n ≠ 0 := by omega
  have hrate : (1 : ℚ) < 101 / 100 := by norm_num
  have hfactor : (1 + 1 / 100 : ℚ) = 101 / 100 := by norm_num
  have hpayment := monthlyPaymentOf_eq_annuity amount hn
  refine ⟨?_, ?_, ?_, ?_, ?_, ?_, ?_⟩
  · intro loan ha ht
    rw [monthlyPayment, ha, ht]
  · intro k hk
    rw [hpayment, balance_eq_annuity, balance_eq_annuity]
    have hlt : k < n := Int.ofNat_lt.mp hk
    exact ⟨Annuity.balance_pos hrate hn hamount hlt, Annuity.balance_succ_lt hrate hn hamount k⟩
  · intro k hk
    obtain rfl := Int.ofNat_inj.mp hk
    rw [hpayment, balance_eq_annuity]
    exact Annuity.balance_last hrate hn amount
  · rw [hpayment, Int.cast_natCast]
    exact Annuity.lt_total hrate hn hamount
  · rw [hfactor, zpow_natCast]
    exact (Annuity.factor_pos hrate hn).ne'
  · intro amount' hlt
    rw [hpayment, monthlyPaymentOf_eq_annuity amount' hn]
    exact Annuity.payment_lt_of_lt hrate hn hlt
  · intro termMonths' hlt
    obtain ⟨n', rfl⟩ := Int.eq_ofNat_of_zero_le (by omega : 0 ≤ termMonths')
    have hlt' : n < n' := Int.ofNat_lt.mp hlt
    rw [hpayment, monthlyPaymentOf_eq_annuity amount (by omega : n' ≠ 0)]
    exact Annuity.payment_lt_of_longer hrate hn hamount hlt'

theorem monthlyPayment_amortises_year : Amortises 12000 12 :=
  monthlyPayment_amortises 12000 12 (by norm_num) (by decide)

end LoanApplication
end CrediGuard.Loan
