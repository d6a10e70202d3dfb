import Mathlib.Data.Rat.Floor
import Mathlib.Algebra.Order.Field.Rat

/-!
Finite decimal numbers: an integer coefficient and a power of ten. Two values
can be numerically equal and print differently (`1.0` and `1.00`).

`str` is Python's `str(Decimal)`, `toNumeric` the rounding of a database column
`NUMERIC(precision, scale)`: half away from zero, and an error where the rounded
value does not fit.
-/

structure Decimal where
  coeff : Int
  exponent : Int
  deriving DecidableEq

namespace Decimal

def toRat (d : Decimal) : ℚ :=
  if 0 ≤ d.exponent then d.coeff * 10 ^ d.exponent.toNat
  else d.coeff / 10 ^ (-d.exponent).toNat

/-- Digits with a point `leftDigits` places in, zeros filled in on either side. -/
def pointText (digits : List Char) (dotPlace : Int) : List Char :=
  if dotPlace ≤ 0 then '0' :: '.' :: (List.replicate (-dotPlace).toNat '0' ++ digits)
  else if digits.length ≤ dotPlace.toNat then
    digits ++ List.replicate (dotPlace.toNat - digits.length) '0'
  else digits.take dotPlace.toNat ++ '.' :: digits.drop dotPlace.toNat

def str (d : Decimal) : String :=
  let digits := Nat.toDigits 10 d.coeff.natAbs
  let leftDigits : Int := d.exponent + digits.length
  -- scientific notation for a positive exponent and for values below 10^-6
  let dotPlace := if d.exponent ≤ 0 ∧ -6 < leftDigits then leftDigits else 1
  let exp :=
    if leftDigits = dotPlace then []
    else 'E' :: (if 0 ≤ leftDigits - dotPlace then '+' else '-') ::
      Nat.toDigits 10 (leftDigits - dotPlace).natAbs
  String.ofList ((if d.coeff < 0 then ['-'] else []) ++ pointText digits dotPlace ++ exp)

/-- The coefficient at exponent `-scale`, rounded half away from zero. -/
def roundedCoeff (d : Decimal) (scale : Nat) : Int :=
  let shift := d.exponent + scale
  if 0 ≤ shift then d.coeff * 10 ^ shift.toNat
  else
    let unit : Nat := 10 ^ (-shift).toNat
    d.coeff.sign * ((2 * d.coeff.natAbs + unit) / (2 * unit) : Nat)

def toNumeric (precision scale : Nat) (d : Decimal) : Option Decimal :=
  let n := d.roundedCoeff scale
  if n.natAbs < 10 ^ precision then some ⟨n, -scale⟩ else none

example : (⟨12345, -2⟩ : Decimal).str = "123.45" ∧ (⟨5, 3⟩ : Decimal).str = "5E+3" ∧
    (⟨5, -8⟩ : Decimal).str = "5E-8" ∧ (⟨12, -4⟩ : Decimal).str = "0.0012" := by
  decide

end Decimal
