import Mathlib.Data.Rat.Floor
import Mathlib.Algebra.Order.Field.Rat

/-!
Instants and their ISO 8601 text. An instant is a number of seconds since the
epoch; a stamp adds the offset from UTC it was written with, if any.
-/

/-- Seconds since 1970-01-01T00:00:00Z. -/
abbrev Datetime := ℚ

structure Stamp where
  instant : Datetime
  utcoffset : Option Int
  deriving DecidableEq

namespace Stamp

def utc (instant : Datetime) : Stamp := ⟨instant, some 0⟩

/-- Year, month and day of a day count, in the proleptic Gregorian calendar. -/
def civil (days : Int) : Int × Int × Int :=
  -- years start in March, so that a leap day is the last of its year
  let z := days + 719468
  let era := z / 146097
  let doe := z % 146097
  let yoe := (doe - doe / 1460 + doe / 36524 - doe / 146096) / 365
  let doy := doe - (365 * yoe + yoe / 4 - yoe / 100)
  let mp := (5 * doy + 2) / 153
  let month := if mp < 10 then mp + 3 else mp - 9
  (yoe + era * 400 + (if month ≤ 2 then 1 else 0), month, doy - (153 * mp + 2) / 5 + 1)

def padText (width : Nat) (n : Int) : List Char :=
  let ds := Nat.toDigits 10 n.toNat
  List.replicate (width - ds.length) '0' ++ ds

def offsetText : Option Int → List Char
  | none => []
  | some o =>
      let a : Int := o.natAbs
      (if o < 0 then '-' else '+') :: (padText 2 (a / 3600) ++ ':' :: padText 2 (a / 60 % 60) ++
        if a % 60 = 0 then [] else ':' :: padText 2 (a % 60))

def isoformat (t : Stamp) : String :=
  let micros := ⌊t.instant * 1000000⌋ + t.utcoffset.getD 0 * 1000000
  let seconds := micros / 1000000
  let (year, month, day) := civil (seconds / 86400)
  let s := seconds % 86400
  let fraction := if micros % 1000000 = 0 then [] else '.' :: padText 6 (micros % 1000000)
  String.ofList (padText 4 year ++ '-' :: padText 2 month ++ '-' :: padText 2 day ++
    'T' :: padText 2 (s / 3600) ++ ':' :: padText 2 (s / 60 % 60) ++ ':' :: padText 2 (s % 60) ++
    fraction ++ offsetText t.utcoffset)

example : (Stamp.utc 1709164800).isoformat = "2024-02-29T00:00:00+00:00" := by decide +kernel

end Stamp
