import CrediGuard.Lib.Decimal
import Mathlib.Algebra.Order.Ring.Rat
import Mathlib.Tactic.FieldSimp
import Mathlib.Tactic.Linarith
import Mathlib.Tactic.Positivity
import Mathlib.Tactic.Ring

/-!
What a `NUMERIC` column makes of a decimal number that is not negative: the
nearest multiple of its unit, the upper one of two.
-/

namespace Decimal
variable {d : Decimal} {scale : Nat}

theorem toRat_eq_zpow (d : Decimal) : d.toRat = d.coeff * (10 : ℚ) ^ d.exponent := by
  rw [toRat]
  split
  · rename_i h
    rw [← zpow_natCast, Int.toNat_of_nonneg h]
  · rename_i h
    have hnat : ((-d.exponent).toNat : Int) = -d.exponent := Int.toNat_of_nonneg (by omega)
    rw [div_eq_mul_inv, ← zpow_natCast, hnat, zpow_neg, inv_inv]

theorem toRat_of_scale (n : Int) (scale : Nat) :
    (⟨n, -scale⟩ : Decimal).toRat = n / 10 ^ scale := by
  rw [toRat_eq_zpow, zpow_neg, zpow_natCast, div_eq_mul_inv]

/-- The number in units of the last place of the column. -/
theorem toRat_mul_scale (d : Decimal) (scale : Nat) :
    d.toRat * 10 ^ scale = d.coeff * (10 : ℚ) ^ (d.exponent + scale) := by
  rw [toRat_eq_zpow, mul_assoc, ← zpow_natCast, ← zpow_add₀ (by norm_num)]

theorem coeff_pos (h : 0 < d.toRat) : 0 < d.coeff := by
  rw [toRat_eq_zpow] at h
  have hpow : (0 : ℚ) < 10 ^ d.exponent := zpow_pos (by norm_num) _
  exact_mod_cast (mul_pos_iff_of_pos_right hpow).mp h

theorem floor_add_half (n : Int) : ⌊(n : ℚ) + 1 / 2⌋ = n := by
  have hhalf : ⌊(1 / 2 : ℚ)⌋ = 0 := by norm_num
  rw [Int.floor_intCast_add, hhalf, add_zero]

/-- Rounding half away from zero, for a number above zero. -/
theorem roundedCoeff_eq_floor (h : 0 < d.toRat) :
    d.roundedCoeff scale = ⌊d.toRat * 10 ^ scale + 1 / 2⌋ := by
  have hcoeff := coeff_pos h
  rw [toRat_mul_scale, roundedCoeff]
  split
  · rename_i hshift
    have hpow :
        (10 : ℚ) ^ (d.exponent + scale) = ((10 ^ (d.exponent + scale).toNat : Int) : ℚ) := by
      rw [Int.cast_pow, Int.cast_ofNat, ← zpow_natCast, Int.toNat_of_nonneg hshift]
    rw [hpow, ← Int.cast_mul, floor_add_half]
  · rename_i hshift
    generalize hplaces : (-(d.exponent + scale)).toNat = places
    have hpow : (10 : ℚ) ^ (d.exponent + scale) = ((10 : ℚ) ^ places)⁻¹ := by
      rw [← zpow_natCast, ← zpow_neg]
      congr 1
      omega
    have hnatAbs : (d.coeff : ℚ) = (d.coeff.natAbs : ℚ) := by
      rw [← Int.cast_natCast, Int.natAbs_of_nonneg hcoeff.le]
    have hquotient : (d.coeff.natAbs : ℚ) * ((10 : ℚ) ^ places)⁻¹ + 1 / 2 =
        ((2 * d.coeff.natAbs + 10 ^ places : Nat) : ℚ) / ((2 * 10 ^ places : Nat) : ℚ) := by
      push_cast
      field_simp
    rw [hpow, hnatAbs, hquotient, Rat.floor_natCast_div_natCast, Int.sign_eq_one_of_pos hcoeff,
      one_mul]
    norm_cast

/-- The row holds the number itself just if the number has no digit behind the scale. -/
theorem rounded_eq_iff (scale : Nat) (h : 0 < d.toRat) :
    (⟨d.roundedCoeff scale, -scale⟩ : Decimal).toRat = d.toRat ↔
      ∃ n : Int, d.toRat * 10 ^ scale = n := by
  have hunit : (0 : ℚ) < 10 ^ scale := by positivity
  rw [toRat_of_scale, div_eq_iff hunit.ne']
  constructor
  · intro heq
    exact ⟨_, heq.symm⟩
  · intro hn
    obtain ⟨n, hn⟩ := hn
    rw [roundedCoeff_eq_floor h, hn, floor_add_half]

theorem le_roundedCoeff_iff (scale : Nat) (h : 0 < d.toRat) (n : Int) :
    n ≤ d.roundedCoeff scale ↔ (n : ℚ) - 1 / 2 ≤ d.toRat * 10 ^ scale := by
  rw [roundedCoeff_eq_floor h, Int.le_floor, sub_le_iff_le_add]

theorem roundedCoeff_le_iff (scale : Nat) (h : 0 < d.toRat) (n : Int) :
    d.roundedCoeff scale ≤ n ↔ d.toRat * 10 ^ scale < n + 1 / 2 := by
  have hsucc := le_roundedCoeff_iff scale h (n + 1)
  push_cast at hsucc
  have hhalf : (n : ℚ) + 1 - 1 / 2 = n + 1 / 2 := by ring
  rw [hhalf] at hsucc
  rw [← not_le, ← hsucc]
  omega

theorem toNumeric_eq_some_iff {precision : Nat} {a : Decimal} :
    d.toNumeric precision scale = some a ↔
      a = ⟨d.roundedCoeff scale, -scale⟩ ∧ (d.roundedCoeff scale).natAbs < 10 ^ precision := by
  simp only [toNumeric]
  split
  · rename_i hfits
    rw [Option.some.injEq, eq_comm]
    exact (and_iff_left hfits).symm
  · rename_i hfits
    exact iff_of_false nofun fun h => hfits h.2

end Decimal
