import CrediGuard.Lib.Decimal
import Mathlib.Data.List.TakeWhile

/-!
The reader of finite decimal numbers, Python's `Decimal(text)` without the
infinities, NaN and underscores, and the round trip with `str`.
-/

namespace Decimal

section Read

def isDigits (cs : List Char) : Bool := !cs.isEmpty && cs.all Char.isDigit

def unsigned : List Char → Bool × List Char
  | '-' :: cs => (true, cs)
  | '+' :: cs => (false, cs)
  | cs => (false, cs)

/-- What stands behind the digits: nothing, or an exponent. -/
def readExponent : List Char → Option Int
  | [] => some 0
  | e :: cs =>
      if e = 'E' ∨ e = 'e' then
        let (negative, digits) := unsigned cs
        if isDigits digits then
          let n : Int := Nat.ofDigitChars 10 digits 0
          some (if negative then -n else n)
        else none
      else none

/-- The digits behind a point. -/
def fractionDigits : List Char → List Char × List Char
  | '.' :: cs => (cs.takeWhile Char.isDigit, cs.dropWhile Char.isDigit)
  | cs => ([], cs)

def ofChars (cs : List Char) : Option Decimal :=
  let (negative, body) := unsigned cs
  let whole := body.takeWhile Char.isDigit
  let (fraction, rest) := fractionDigits (body.dropWhile Char.isDigit)
  if isDigits (whole ++ fraction) then
    (readExponent rest).map fun e =>
      let n : Int := Nat.ofDigitChars 10 (whole ++ fraction) 0
      ⟨if negative then -n else n, e - fraction.length⟩
  else none

def ofStr (s : String) : Option Decimal := ofChars s.toList

example : ofStr "123.45" = some ⟨12345, -2⟩ ∧ ofStr "-5e+3" = some ⟨-5, 3⟩ ∧
    ofStr ".5" = some ⟨5, -1⟩ ∧ ofStr "1.2.3" = none ∧ ofStr "." = none := by
  decide

end Read

section RoundTrip
variable {digits whole fraction rest : List Char}

theorem takeWhile_digits (rest : List Char) (hdigits : ∀ c ∈ digits, c.isDigit = true)
    (hrest : ∀ c, rest.head? = some c → c.isDigit = false) :
    (digits ++ rest).takeWhile Char.isDigit = digits ∧
      (digits ++ rest).dropWhile Char.isDigit = rest := by
  rw [List.takeWhile_append_of_pos hdigits, List.dropWhile_append_of_pos hdigits]
  cases rest with
  | nil => exact ⟨List.append_nil _, rfl⟩
  | cons c cs =>
      have hc : ¬ c.isDigit = true := by
        rw [hrest c rfl]
        exact Bool.false_ne_true
      rw [List.takeWhile_cons_of_neg hc, List.dropWhile_cons_of_neg hc]
      exact ⟨List.append_nil _, rfl⟩

theorem isDigits_toDigits (n : Nat) : isDigits (Nat.toDigits 10 n) = true := by
  have hdigits : ∀ c ∈ Nat.toDigits 10 n, c.isDigit = true := fun c hc =>
    Nat.isDigit_of_mem_toDigits (by decide) (by decide) hc
  have hne : (Nat.toDigits 10 n).isEmpty = false :=
    List.isEmpty_eq_false_iff.mpr Nat.toDigits_ne_nil
  rw [isDigits, hne, List.all_eq_true.mpr hdigits]
  rfl

theorem readExponent_signed (k : Int) :
    readExponent ('E' :: (if 0 ≤ k then '+' else '-') :: Nat.toDigits 10 k.natAbs) = some k := by
  by_cases hk : 0 ≤ k
  · simp only [readExponent, hk, if_true, true_or, unsigned, isDigits_toDigits,
      Nat.ofDigitChars_ten_toDigits, Bool.false_eq_true, if_false, Option.some.injEq]
    omega
  · simp only [readExponent, hk, if_true, if_false, true_or, unsigned, isDigits_toDigits,
      Nat.ofDigitChars_ten_toDigits, Option.some.injEq]
    omega

/-- The exponent as `str` writes it: none where it is zero. -/
def exponentText (k : Int) : List Char :=
  if k = 0 then [] else 'E' :: (if 0 ≤ k then '+' else '-') :: Nat.toDigits 10 k.natAbs

def pointedText (fraction : List Char) : List Char :=
  if fraction = [] then [] else '.' :: fraction

theorem readExponent_exponentText (k : Int) : readExponent (exponentText k) = some k := by
  by_cases hk : k = 0
  · rw [exponentText, if_pos hk, hk]
    rfl
  · rw [exponentText, if_neg hk]
    exact readExponent_signed k

theorem head?_exponentText (k : Int) :
    (exponentText k).head? = none ∨ (exponentText k).head? = some 'E' := by
  rw [exponentText]
  split
  · exact .inl rfl
  · exact .inr rfl

theorem fractionDigits_text (hfraction : ∀ c ∈ fraction, c.isDigit = true) (k : Int) :
    fractionDigits (pointedText fraction ++ exponentText k) = (fraction, exponentText k) := by
  have hhead := head?_exponentText k
  by_cases hnil : fraction = []
  · rw [pointedText, if_pos hnil, hnil, List.nil_append]
    cases htext : exponentText k with
    | nil => rfl
    | cons c cs =>
        rw [htext] at hhead
        obtain rfl : c = 'E' := by simpa using hhead
        rfl
  · have hspan := takeWhile_digits (exponentText k) hfraction (by
      intro c hc
      rw [hc] at hhead
      obtain rfl : c = 'E' := by simpa using hhead
      rfl)
    rw [pointedText, if_neg hnil, List.cons_append, fractionDigits, hspan.1, hspan.2]

theorem unsigned_digits (hwhole : ∀ c ∈ whole, c.isDigit = true) (hne : whole ≠ [])
    (negative : Bool) :
    unsigned ((if negative then ['-'] else []) ++ (whole ++ rest)) = (negative, whole ++ rest) := by
  cases negative with
  | true => rfl
  | false =>
      cases whole with
      | nil => exact absurd rfl hne
      | cons c cs =>
          have hc := hwhole c List.mem_cons_self
          have hminus : c ≠ '-' := by
            intro h
            rw [h] at hc
            contradiction
          have hplus : c ≠ '+' := by
            intro h
            rw [h] at hc
            contradiction
          simp only [Bool.false_eq_true, if_false, List.nil_append, List.cons_append]
          rw [unsigned.eq_3 _ (fun _ h => hminus (List.cons.inj h).1)
            (fun _ h => hplus (List.cons.inj h).1)]

/-- A numeral is read as its digits and its exponent. -/
theorem ofChars_text (hwhole : ∀ c ∈ whole, c.isDigit = true) (hne : whole ≠ [])
    (hfraction : ∀ c ∈ fraction, c.isDigit = true) (negative : Bool) (k : Int) :
    ofChars ((if negative then ['-'] else []) ++
        (whole ++ (pointedText fraction ++ exponentText k))) =
      some ⟨if negative then -(Nat.ofDigitChars 10 (whole ++ fraction) 0 : Int)
        else Nat.ofDigitChars 10 (whole ++ fraction) 0, k - fraction.length⟩ := by
  have hspan := takeWhile_digits (pointedText fraction ++ exponentText k) hwhole (by
    intro c hc
    have hhead := head?_exponentText k
    by_cases hnil : fraction = []
    · rw [pointedText, if_pos hnil, List.nil_append] at hc
      rw [hc] at hhead
      obtain rfl : c = 'E' := by simpa using hhead
      rfl
    · rw [pointedText, if_neg hnil, List.cons_append, List.head?_cons] at hc
      obtain rfl := Option.some.inj hc
      rfl)
  have hdigits : isDigits (whole ++ fraction) = true := by
    have hall : ∀ c ∈ whole ++ fraction, c.isDigit = true := by
      intro c hc
      cases List.mem_append.mp hc with
      | inl hc => exact hwhole c hc
      | inr hc => exact hfraction c hc
    have hempty : (whole ++ fraction).isEmpty = false :=
      List.isEmpty_eq_false_iff.mpr (List.append_ne_nil_of_left_ne_nil hne _)
    rw [isDigits, hempty, List.all_eq_true.mpr hall]
    rfl
  simp only [ofChars, unsigned_digits hwhole hne, hspan.1, hspan.2,
    fractionDigits_text hfraction, hdigits, if_true, readExponent_exponentText,
    Option.map_some]

/-- Digits with a point are digits before and digits behind it. -/
theorem pointText_eq {dotPlace : Int} (hdigits : ∀ c ∈ digits, c.isDigit = true)
    (hne : digits ≠ []) (hplace : dotPlace ≤ digits.length) :
    ∃ whole fraction, pointText digits dotPlace = whole ++ pointedText fraction ∧
      (∀ c ∈ whole, c.isDigit = true) ∧ whole ≠ [] ∧ (∀ c ∈ fraction, c.isDigit = true) ∧
      Nat.ofDigitChars 10 (whole ++ fraction) 0 = Nat.ofDigitChars 10 digits 0 ∧
      (fraction.length : Int) = digits.length - dotPlace := by
  rw [pointText]
  split
  · rename_i hneg
    have hzeros : List.replicate (-dotPlace).toNat '0' ++ digits ≠ [] :=
      List.append_ne_nil_of_right_ne_nil _ hne
    have hzero : ∀ c ∈ ['0'], c.isDigit = true := by
      intro c hc
      rw [List.mem_singleton.mp hc]
      rfl
    refine ⟨['0'], List.replicate (-dotPlace).toNat '0' ++ digits, ?_, hzero,
      List.cons_ne_nil _ _, ?_, ?_, ?_⟩
    · rw [pointedText, if_neg hzeros]
      rfl
    · intro c hc
      cases List.mem_append.mp hc with
      | inl hc =>
          rw [(List.mem_replicate.mp hc).2]
          rfl
      | inr hc => exact hdigits c hc
    · rw [Nat.ofDigitChars_append, Nat.ofDigitChars_append, Nat.ofDigitChars_replicate_zero]
      rfl
    · rw [List.length_append, List.length_replicate]
      omega
  · split
    · rename_i hpos hlength
      have hzeros : dotPlace.toNat - digits.length = 0 := by omega
      refine ⟨digits, [], ?_, hdigits, hne, by simp, by rw [List.append_nil], ?_⟩
      · rw [hzeros]
        rfl
      · rw [List.length_nil]
        omega
    · rename_i hpos hlength
      have hdrop : digits.drop dotPlace.toNat ≠ [] := by
        intro h
        have := List.drop_eq_nil_iff.mp h
        omega
      refine ⟨digits.take dotPlace.toNat, digits.drop dotPlace.toNat, ?_,
        fun c hc => hdigits c (List.mem_of_mem_take hc), ?_,
        fun c hc => hdigits c (List.mem_of_mem_drop hc), ?_, ?_⟩
      · rw [pointedText, if_neg hdrop]
      · intro h
        have hlen := congrArg List.length h
        rw [List.length_take, List.length_nil] at hlen
        omega
      · rw [List.take_append_drop]
      · rw [List.length_drop]
        omega

/-- What `str` writes is read back, digit by digit. -/
theorem ofStr_str (d : Decimal) : ofStr d.str = some d := by
  have hdigits : ∀ c ∈ Nat.toDigits 10 d.coeff.natAbs, c.isDigit = true := fun c hc =>
    Nat.isDigit_of_mem_toDigits (by decide) (by decide) hc
  have hne : Nat.toDigits 10 d.coeff.natAbs ≠ [] := Nat.toDigits_ne_nil
  have hlength : 0 < (Nat.toDigits 10 d.coeff.natAbs).length := List.length_pos_iff.mpr hne
  generalize hleft : d.exponent + ((Nat.toDigits 10 d.coeff.natAbs).length : Int) = left
  generalize hdot : (if d.exponent ≤ 0 ∧ -6 < left then left else 1) = dot
  have hplace : dot ≤ ((Nat.toDigits 10 d.coeff.natAbs).length : Int) := by
    rw [← hdot]
    split <;> omega
  obtain ⟨whole, fraction, htext, hwhole, hwhole_ne, hfraction, hvalue, hplaces⟩ :=
    pointText_eq hdigits hne hplace
  have hexp : (if left = dot then []
      else 'E' :: (if 0 ≤ left - dot then '+' else '-') :: Nat.toDigits 10 (left - dot).natAbs) =
      exponentText (left - dot) := by
    rw [exponentText]
    by_cases h : left = dot
    · have hzero : left - dot = 0 := by omega
      rw [if_pos h, if_pos hzero]
    · have hnonzero : left - dot ≠ 0 := by omega
      rw [if_neg h, if_neg hnonzero]
  have hchars : d.str.toList = (if decide (d.coeff < 0) then ['-'] else []) ++
      (whole ++ (pointedText fraction ++ exponentText (left - dot))) := by
    simp only [str, String.toList_ofList, hleft, hdot, htext, hexp, List.append_assoc,
      decide_eq_true_eq]
  rw [ofStr, hchars, ofChars_text hwhole hwhole_ne hfraction, hvalue,
    Nat.ofDigitChars_ten_toDigits]
  refine congrArg some ?_
  obtain ⟨coeff, exponent⟩ := d
  simp only [Decimal.mk.injEq]
  refine ⟨?_, ?_⟩
  · by_cases h : coeff < 0
    · simp only [h, decide_true, if_true]
      omega
    · simp only [h, decide_false, Bool.false_eq_true, if_false]
      omega
  · simp only at hleft hplaces
    omega

end RoundTrip

end Decimal
