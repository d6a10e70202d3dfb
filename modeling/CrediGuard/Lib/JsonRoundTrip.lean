import CrediGuard.Lib.Json
import Mathlib.Data.Bool.AllAny
import Mathlib.Tactic.IntervalCases

/-!
The reader inverts the printer: `loads (dumps j) = some j` for every value
without floats (a float is kept as text, and not every text is a literal).
Each lexical level has its own lemma, stated with the text that follows. What is
printed is printable ASCII, so it stands on one line.
-/

namespace Json

mutual
def Exact : Json → Prop
  | .float _ => False
  | .arr xs => ExactItems xs
  | .obj ps => ExactPairs ps
  | _ => True
def ExactItems : List Json → Prop
  | [] => True
  | x :: xs => Exact x ∧ ExactItems xs
def ExactPairs : List (String × Json) → Prop
  | [] => True
  | (_, v) :: ps => Exact v ∧ ExactPairs ps
end

theorem hexVal_digitChar {d : Nat} (h : d < 16) : hexVal (Nat.digitChar d) = some d := by
  interval_cases d <;> rfl

theorem hexVal4_hexText4 {n : Nat} (h : n < 65536) :
    hexVal4 (Nat.digitChar (n / 4096 % 16)) (Nat.digitChar (n / 256 % 16))
      (Nat.digitChar (n / 16 % 16)) (Nat.digitChar (n % 16)) = some n := by
  simp only [hexVal4, hexVal_digitChar (Nat.mod_lt _ (by decide : 0 < 16)), Option.bind_eq_bind,
    Option.bind_some, Option.some.injEq]
  omega

theorem char_not_surrogate (c : Char) : c.toNat < 55296 ∨ 57343 < c.toNat := by
  have h := c.valid
  change c.toNat < 55296 ∨ 57343 < c.toNat ∧ c.toNat < 1114112 at h
  omega

theorem scanString_unicodeEscape (n : Nat) (h : n < 55296 ∨ 57343 < n ∧ n < 65536)
    (rest : List Char) :
    scanString (unicodeEscape n ++ rest) =
      (scanString rest).map fun r => (Char.ofNat n :: r.1, r.2) := by
  simp only [unicodeEscape, hexText4, List.cons_append, List.nil_append, scanString]
  rw [hexVal4_hexText4 (by omega)]
  have h1 : ¬(55296 ≤ n ∧ n ≤ 56319) := by omega
  have h2 : ¬(56320 ≤ n ∧ n ≤ 57343) := by omega
  simp only [h1, h2, if_false]

theorem scanString_surrogates (n m : Nat) (hn : n < 1024) (hm : m < 1024) (rest : List Char) :
    scanString (unicodeEscape (55296 + n) ++ (unicodeEscape (56320 + m) ++ rest)) =
      (scanString rest).map fun r => (Char.ofNat (65536 + n * 1024 + m) :: r.1, r.2) := by
  have hval (k : Nat) (hk : k < 65536) := hexVal4_hexText4 hk
  simp only [unicodeEscape, hexText4, List.cons_append, List.nil_append, scanString]
  rw [hval (55296 + n) (by omega), hval (56320 + m) (by omega)]
  have h1 : 55296 ≤ 55296 + n ∧ 55296 + n ≤ 56319 := by omega
  have h2 : 56320 ≤ 56320 + m ∧ 56320 + m ≤ 57343 := by omega
  simp only [h1, h2, and_self, if_true, Nat.add_sub_cancel_left]

theorem scanString_escapeChar (c : Char) (rest : List Char) :
    scanString (escapeChar c ++ rest) = (scanString rest).map fun r => (c :: r.1, r.2) := by
  unfold escapeChar
  split
  · subst c; rfl
  split
  · subst c; rfl
  split
  · subst c; rfl
  split
  · subst c; rfl
  split
  · subst c; rfl
  split
  · rename_i h
    obtain rfl : c = Char.ofNat 12 := by rw [← h, Char.ofNat_toNat]
    rfl
  split
  · rename_i h
    obtain rfl : c = Char.ofNat 8 := by rw [← h, Char.ofNat_toNat]
    rfl
  split
  · rename_i hq hb _ _ _ _ _ h
    have h32 : ¬c.toNat < 32 := by omega
    simp only [List.cons_append, List.nil_append]
    rw [scanString.eq_5 c rest hq (fun _ _ _ _ _ h _ => hb h) (fun _ _ h _ => hb h)]
    simp only [h32, if_false]
  split
  · rename_i h
    rw [scanString_unicodeEscape _ (by have := char_not_surrogate c; omega), Char.ofNat_toNat]
  · rename_i h
    have hmax : c.toNat < 1114112 := by
      have hv := c.valid
      change c.toNat < 55296 ∨ 57343 < c.toNat ∧ c.toNat < 1114112 at hv
      omega
    rw [List.append_assoc, scanString_surrogates _ _ (by omega) (by omega)]
    have hsum : 65536 + (c.toNat - 65536) / 1024 * 1024 + (c.toNat - 65536) % 1024 = c.toNat := by
      omega
    rw [hsum, Char.ofNat_toNat]

theorem scanString_escapeBody (cs rest : List Char) :
    scanString (escapeBody cs ++ '"' :: rest) = some (cs, rest) := by
  induction cs with
  | nil => rfl
  | cons c cs ih =>
      simp only [escapeBody, List.flatMap_cons, List.append_assoc] at ih ⊢
      rw [scanString_escapeChar, ih, Option.map_some]

/-- What may follow a number: nothing that would make it longer. -/
def EndsNumber (rest : List Char) : Prop :=
  ∀ c, rest.head? = some c → c.isDigit = false ∧ c ≠ '.' ∧ c ≠ 'e' ∧ c ≠ 'E'

theorem endsNumber_nil : EndsNumber [] := by
  intro c h
  contradiction

theorem endsNumber_cons {c : Char} {rest : List Char}
    (h : c.isDigit = false ∧ c ≠ '.' ∧ c ≠ 'e' ∧ c ≠ 'E') : EndsNumber (c :: rest) := by
  intro d hd
  obtain rfl := Option.some.inj hd
  exact h

theorem spanDigits_append (ds : List Char) {rest : List Char} (hds : ∀ c ∈ ds, c.isDigit = true)
    (hrest : EndsNumber rest) : spanDigits (ds ++ rest) = (ds, rest) := by
  induction ds with
  | nil =>
      cases rest with
      | nil => rfl
      | cons c cs => simp [spanDigits, (hrest c rfl).1]
  | cons d ds ih =>
      have htail := ih fun c hc => hds c (List.mem_cons_of_mem _ hc)
      simp only [List.cons_append, spanDigits, hds d (List.mem_cons_self ..), if_true, htail]

theorem head_toDigits_ne_zero {n : Nat} (h : n ≠ 0) : (Nat.toDigits 10 n).head? ≠ some '0' := by
  induction n using Nat.strong_induction_on with
  | _ n ih =>
      by_cases hn : n < 10
      · rw [Nat.toDigits_of_lt_base hn]
        interval_cases n <;> first | contradiction | decide
      · rw [Nat.toDigits_of_base_le (by decide) (by omega), List.head?_append]
        have hrec := ih (n / 10) (by omega) (by omega)
        cases hd : (Nat.toDigits 10 (n / 10)).head? with
        | none => exact absurd (List.head?_eq_none_iff.mp hd) Nat.toDigits_ne_nil
        | some c => simpa [hd] using hrec

theorem integerPart_toDigits (n : Nat) {rest : List Char} (h : EndsNumber rest) :
    integerPart (Nat.toDigits 10 n ++ rest) = some (Nat.toDigits 10 n, rest) := by
  have hspan := spanDigits_append (Nat.toDigits 10 n)
    (fun c hc => Nat.isDigit_of_mem_toDigits (by decide) (by decide) hc) h
  by_cases hn : n = 0
  · subst n
    simp only [integerPart, hspan]
    simp
  · have hhead := head_toDigits_ne_zero hn
    cases hd : Nat.toDigits 10 n with
    | nil => exact absurd hd Nat.toDigits_ne_nil
    | cons c cs =>
        rw [hd] at hspan hhead
        have hc : c ≠ '0' := fun hc => hhead (by simp [hc])
        simp only [integerPart, hspan]
        split
        · rename_i heq
          exact absurd (Prod.mk.inj heq).1 (by simp)
        · rename_i heq
          exact absurd (List.cons.inj (Prod.mk.inj heq).1).1 hc
        · rename_i heq
          obtain ⟨rfl, rfl⟩ := Prod.mk.inj heq
          rfl

theorem fraction_of_ends {rest : List Char} (h : EndsNumber rest) :
    fraction rest = ([], rest) := by
  cases rest with
  | nil => rfl
  | cons c cs =>
      rw [fraction.eq_2 _ fun cs' heq => (h c rfl).2.1 (List.cons.inj heq).1]

theorem exponent_of_ends {rest : List Char} (h : EndsNumber rest) :
    exponent rest = ([], rest) := by
  cases rest with
  | nil => rfl
  | cons c cs =>
      have hc := (h c rfl).2.2
      simp [exponent, hc.1, hc.2]

theorem unsignedNumber_toDigits (sign : List Char) (n : Nat) {rest : List Char}
    (h : EndsNumber rest) :
    unsignedNumber sign (Nat.toDigits 10 n ++ rest) =
      some (.int (if sign = [] then (n : Int) else -(n : Int)), rest) := by
  simp only [unsignedNumber, integerPart_toDigits n h, Option.map_some, fraction_of_ends h,
    exponent_of_ends h, and_self, if_true, Nat.ofDigitChars_ten_toDigits]

theorem toDigits_head (n : Nat) :
    ∃ d ds, Nat.toDigits 10 n = d :: ds ∧ d.isDigit = true := by
  cases h : Nat.toDigits 10 n with
  | nil => exact absurd h Nat.toDigits_ne_nil
  | cons d ds =>
      have hd : d ∈ Nat.toDigits 10 n := h ▸ List.mem_cons_self ..
      exact ⟨d, ds, rfl, Nat.isDigit_of_mem_toDigits (by decide) (by decide) hd⟩

/-- Digits and the minus sign start nothing but a number, and are not blank. -/
def StartsNumber (c : Char) : Prop := c = '-' ∨ c.isDigit = true

theorem StartsNumber.ne {c d : Char} (h : StartsNumber c) (hd : d.isDigit = false)
    (hm : d ≠ '-') : c ≠ d := by
  rintro rfl
  cases h with
  | inl h => exact hm h
  | inr h => simp [hd] at h

theorem intText_head (n : Int) : ∃ c cs, intText n = c :: cs ∧ StartsNumber c := by
  by_cases h : n < 0
  · exact ⟨'-', Nat.toDigits 10 n.natAbs, by simp [intText, h], .inl rfl⟩
  · obtain ⟨d, ds, hds, hd⟩ := toDigits_head n.natAbs
    exact ⟨d, ds, by simp [intText, h, hds], .inr hd⟩

theorem scanNumber_intText (n : Int) {rest : List Char} (h : EndsNumber rest) :
    scanNumber (intText n ++ rest) = some (.int n, rest) := by
  obtain ⟨d, ds, hds, hd⟩ := toDigits_head n.natAbs
  by_cases hn : n < 0
  · have hI : literal "Infinity".toList (Nat.toDigits 10 n.natAbs ++ rest) = none := by
      have hne : ¬ 'I' = d := by
        rintro rfl
        simp at hd
      have htext : "Infinity".toList = ['I', 'n', 'f', 'i', 'n', 'i', 't', 'y'] := rfl
      simp only [hds, htext, List.cons_append, literal, hne, if_false]
    simp only [intText, hn, if_true, List.cons_append, scanNumber, hI,
      unsignedNumber_toDigits _ _ h, reduceCtorEq, if_false, Option.some.injEq, Prod.mk.injEq,
      Json.int.injEq, and_true]
    omega
  · have hm : d ≠ '-' := by
      rintro rfl
      simp at hd
    have hun := unsignedNumber_toDigits [] n.natAbs h
    simp only [hds, List.cons_append] at hun
    simp only [intText, hn, if_false, hds, List.cons_append]
    rw [scanNumber.eq_2 _ fun cs heq => hm (List.cons.inj heq).1, hun]
    simp only [if_true, Option.some.injEq, Prod.mk.injEq, Json.int.injEq, and_true]
    omega

theorem skipWs_cons {c : Char} {cs : List Char}
    (h : ¬(c = ' ' ∨ c = '\t' ∨ c = '\n' ∨ c = '\r')) : skipWs (c :: cs) = c :: cs := by
  simp only [skipWs, h, if_false]

theorem StartsNumber.not_blank {c : Char} (h : StartsNumber c) :
    ¬(c = ' ' ∨ c = '\t' ∨ c = '\n' ∨ c = '\r') := by
  rintro (hc | hc | hc | hc) <;> exact h.ne (by decide) (by decide) hc

/-- Every printed value starts with a character that is neither blank nor a
closing bracket. -/
theorem text_head {j : Json} (h : Exact j) :
    ∃ c cs, text j = c :: cs ∧ ¬(c = ' ' ∨ c = '\t' ∨ c = '\n' ∨ c = '\r') ∧
      c ≠ ']' ∧ c ≠ '}' := by
  cases j with
  | null => exact ⟨_, _, by simp only [text]; rfl, by decide, by decide, by decide⟩
  | bool b => cases b <;> exact ⟨_, _, by simp only [text]; rfl, by decide, by decide, by decide⟩
  | int n =>
      obtain ⟨c, cs, htext, hc⟩ := intText_head n
      refine ⟨c, cs, by simp only [text, htext], hc.not_blank, ?_, ?_⟩
      · exact hc.ne (by decide) (by decide)
      · exact hc.ne (by decide) (by decide)
  | float t => exact absurd h (by simp [Exact])
  | str s => exact ⟨_, _, by simp only [text, strText]; rfl, by decide, by decide, by decide⟩
  | arr xs =>
      cases xs <;> exact ⟨_, _, by simp only [text]; rfl, by decide, by decide, by decide⟩
  | obj ps =>
      cases ps with
      | nil => exact ⟨_, _, by simp only [text]; rfl, by decide, by decide, by decide⟩
      | cons p ps => exact ⟨_, _, by simp only [text]; rfl, by decide, by decide, by decide⟩

theorem scanValue_int (fuel : Nat) (n : Int) {rest : List Char} (h : EndsNumber rest) :
    scanValue (fuel + 1) (intText n ++ rest) = some (.int n, rest) := by
  obtain ⟨c, cs, htext, hc⟩ := intText_head n
  have hscan := scanNumber_intText n h
  have hne (d : Char) (hd : d.isDigit = false) (hm : d ≠ '-') : c ≠ d := hc.ne hd hm
  simp only [htext, List.cons_append] at hscan ⊢
  simp only [scanValue, hscan, hne '"' rfl (by decide), hne '[' rfl (by decide),
    hne '{' rfl (by decide), hne 'n' rfl (by decide), hne 't' rfl (by decide),
    hne 'f' rfl (by decide), hne 'N' rfl (by decide), hne 'I' rfl (by decide), if_false]

theorem length_textItems_pos (xs : List Json) : 0 < (textItems xs).length := by
  cases xs <;> simp [textItems]

theorem length_textPairs_pos (ps : List (String × Json)) : 0 < (textPairs ps).length := by
  cases ps <;> simp [textPairs]

theorem endsNumber_textItems (xs : List Json) (rest : List Char) :
    EndsNumber (textItems xs ++ rest) := by
  cases xs <;> exact endsNumber_cons (by decide)

theorem endsNumber_textPairs (ps : List (String × Json)) (rest : List Char) :
    EndsNumber (textPairs ps ++ rest) := by
  cases ps <;> exact endsNumber_cons (by decide)

theorem skipWs_text {j : Json} (h : Exact j) (rest : List Char) :
    skipWs (text j ++ rest) = text j ++ rest := by
  obtain ⟨c, cs, htext, hblank, -⟩ := text_head h
  simp only [htext, List.cons_append]
  exact skipWs_cons hblank

theorem skipWs_space (cs : List Char) : skipWs (' ' :: cs) = skipWs cs := by
  simp [skipWs]

-- The fuel is the length of the text that is left to read.
mutual
theorem scanValue_text {j : Json} (hj : Exact j) (fuel : Nat)
    (hfuel : (text j).length ≤ fuel) {rest : List Char} (hrest : EndsNumber rest) :
    scanValue fuel (text j ++ rest) = some (j, rest) := by
  obtain ⟨c, cs, htext, -⟩ := text_head hj
  match fuel with
  | 0 => simp [htext] at hfuel
  | fuel + 1 =>
      match j with
      | .null => rfl
      | .bool true => rfl
      | .bool false => rfl
      | .int n => simpa only [text] using scanValue_int fuel n hrest
      | .str s =>
          simp only [text, strText, List.cons_append, List.append_assoc, List.nil_append,
            scanValue, if_true, scanString_escapeBody, Option.map_some, String.ofList_toList]
      | .arr [] => rfl
      | .arr (x :: xs) =>
          have hitems := scanItems_text x xs hj fuel
            (by simpa [text] using hfuel) rest
          obtain ⟨d, ds, hx, hblank, hclose, -⟩ := text_head hj.1
          simp only [hx, List.cons_append] at hitems
          simp only [text, hx, List.cons_append, scanValue]
          rw [skipWs_cons hblank]
          have hopen : ¬ '[' = '"' := by decide
          simp only [hopen, if_false, if_true]
          split
          · rename_i heq
            exact absurd (List.cons.inj heq).1 hclose
          · rw [hitems, Option.map_some]
      | .obj [] => rfl
      | .obj ((k, v) :: ps) =>
          have hpairs := scanPairs_text k v ps hj fuel
            (by simpa [text] using hfuel) rest
          simp only [strText, List.cons_append] at hpairs
          simp only [text, strText, List.cons_append, scanValue]
          rw [skipWs_cons (by decide)]
          have hquote : ¬ '{' = '"' := by decide
          have hopen : ¬ '{' = '[' := by decide
          simp only [hquote, hopen, if_false, if_true]
          split
          · rename_i heq
            exact absurd (List.cons.inj heq).1 (by decide)
          · rw [hpairs, Option.map_some]
theorem scanItems_text (x : Json) (xs : List Json) (hxs : ExactItems (x :: xs)) (fuel : Nat)
    (hfuel : (text x ++ textItems xs).length ≤ fuel) (rest : List Char) :
    scanItems fuel (text x ++ textItems xs ++ rest) = some (x :: xs, rest) := by
  have hpos := length_textItems_pos xs
  rw [List.length_append] at hfuel
  match fuel with
  | 0 => omega
  | fuel + 1 =>
      have hvalue := scanValue_text hxs.1 fuel (by omega)
        (endsNumber_textItems xs rest)
      rw [List.append_assoc, scanItems, hvalue]
      match xs with
      | [] => rfl
      | y :: ys =>
          have hlen : (textItems (y :: ys)).length = (text y ++ textItems ys).length + 2 := by
            simp [textItems]
          have hitems := scanItems_text y ys hxs.2 fuel (by omega) rest
          simp only [textItems, List.cons_append]
          rw [skipWs_cons (by decide)]
          simp only [skipWs_space]
          rw [List.append_assoc, skipWs_text hxs.2.1, ← List.append_assoc, hitems]
          rfl
theorem scanPairs_text (k : String) (v : Json) (ps : List (String × Json))
    (hps : ExactPairs ((k, v) :: ps)) (fuel : Nat)
    (hfuel : (strText k ++ ':' :: ' ' :: (text v ++ textPairs ps)).length ≤ fuel)
    (rest : List Char) :
    scanPairs fuel (strText k ++ ':' :: ' ' :: (text v ++ textPairs ps) ++ rest) =
      some ((k, v) :: ps, rest) := by
  have hpos := length_textPairs_pos ps
  simp only [List.length_append, List.length_cons] at hfuel
  match fuel with
  | 0 => omega
  | fuel + 1 =>
      have hvalue := scanValue_text hps.1 fuel (by omega)
        (endsNumber_textPairs ps rest)
      simp only [strText, List.cons_append, List.append_assoc, List.nil_append, scanPairs,
        scanString_escapeBody]
      rw [skipWs_cons (by decide)]
      simp only [skipWs_space]
      rw [skipWs_text hps.1, hvalue]
      match ps with
      | [] => simp [textPairs, skipWs]
      | (k', v') :: ps =>
          have hlen : (textPairs ((k', v') :: ps)).length =
              (strText k' ++ ':' :: ' ' :: (text v' ++ textPairs ps)).length + 2 := by
            simp [textPairs]
          have hpairs := scanPairs_text k' v' ps hps.2 fuel
            (by omega) rest
          simp only [strText, List.cons_append] at hpairs
          simp only [textPairs, strText, List.cons_append]
          rw [skipWs_cons (by decide)]
          simp only [skipWs_space]
          rw [skipWs_cons (by decide), hpairs]
          simp
end

theorem loads_dumps {j : Json} (h : Exact j) : loads (dumps j) = some j := by
  have hws : skipWs (text j) = text j := by simpa using skipWs_text h []
  have hscan := scanValue_text h _ (Nat.le_succ (text j).length) endsNumber_nil
  rw [List.append_nil] at hscan
  simp only [loads, dumps, String.toList_ofList, hws, hscan]
  simp [skipWs]

theorem fromUTF8?_toUTF8 (s : String) : String.fromUTF8? s.toUTF8 = some s := by
  have h : s.toUTF8.IsValidUTF8 := s.isValidUTF8
  simp only [String.fromUTF8?, Option.dite_none_right_eq_some, Option.some.injEq]
  exact ⟨h, rfl⟩

/-- What a producer prints, a consumer of the bytes reads. -/
theorem loadsBytes_toUTF8_dumps {j : Json} (h : Exact j) :
    loadsBytes (dumps j).toUTF8 = some j := by
  simp only [loadsBytes, fromUTF8?_toUTF8, Option.bind_some, loads_dumps h]

theorem exactItems_map_str (texts : List String) : ExactItems (texts.map .str) := by
  induction texts with
  | nil => simp only [List.map_nil, ExactItems]
  | cons t texts ih => simp only [List.map_cons, ExactItems, Exact, ih, and_self]

section Printable

/-- Printable ASCII. -/
def Printable (c : Char) : Prop := 32 ≤ c.toNat ∧ c.toNat ≤ 126

instance (c : Char) : Decidable (Printable c) :=
  inferInstanceAs (Decidable (32 ≤ c.toNat ∧ c.toNat ≤ 126))

theorem printable_digitChar {d : Nat} (h : d < 16) : Printable (Nat.digitChar d) := by
  interval_cases d <;> decide

theorem printable_unicodeEscape (n : Nat) : ∀ c ∈ unicodeEscape n, Printable c := by
  have hdigit (m : Nat) : Printable (Nat.digitChar (m % 16)) :=
    printable_digitChar (Nat.mod_lt m (by decide))
  simp only [unicodeEscape, hexText4, List.forall_mem_cons, hdigit, List.not_mem_nil,
    IsEmpty.forall_iff, implies_true, and_true]
  decide

theorem printable_escapeChar (c : Char) : ∀ d ∈ escapeChar c, Printable d := by
  unfold escapeChar
  repeat' split
  all_goals try first | exact List.all_iff_forall_prop.mp rfl | exact printable_unicodeEscape _
  · rename_i h
    intro d hd
    exact List.mem_singleton.mp hd ▸ h
  · intro d hd
    cases List.mem_append.mp hd with
    | inl h => exact printable_unicodeEscape _ d h
    | inr h => exact printable_unicodeEscape _ d h

theorem printable_intText (n : Int) : ∀ c ∈ intText n, Printable c := by
  have hdigits : ∀ c ∈ Nat.toDigits 10 n.natAbs, Printable c := by
    intro c hc
    have hdigit := Nat.isDigit_of_mem_toDigits (by decide) (by decide) hc
    simp only [Char.isDigit, Bool.and_eq_true, decide_eq_true_eq, ge_iff_le,
      UInt32.le_iff_toNat_le] at hdigit
    have hlow : 48 ≤ c.toNat := hdigit.1
    have hhigh : c.toNat ≤ 57 := hdigit.2
    refine ⟨by omega, by omega⟩
  unfold intText
  split
  · exact List.forall_mem_cons.mpr ⟨by decide, hdigits⟩
  · exact hdigits

theorem printable_strText (s : String) : ∀ c ∈ strText s, Printable c := by
  have hbody : ∀ c ∈ escapeBody s.toList, Printable c := by
    intro c hc
    obtain ⟨d, _, hd⟩ := List.mem_flatMap.mp hc
    exact printable_escapeChar d c hd
  simp only [strText, List.forall_mem_cons, List.forall_mem_append]
  refine ⟨by decide, hbody, by decide, ?_⟩
  exact fun c hc => absurd hc List.not_mem_nil

mutual
/-- What the printer writes is printable ASCII, whatever the texts in the value. -/
theorem printable_text : {j : Json} → Exact j → ∀ c ∈ text j, Printable c
  | .null, _ | .bool true, _ | .bool false, _ | .arr [], _ | .obj [], _ => by
      simp only [text]
      exact List.all_iff_forall_prop.mp rfl
  | .int n, _ => by
      simp only [text]
      exact printable_intText n
  | .str s, _ => by
      simp only [text]
      exact printable_strText s
  | .arr (x :: xs), h => by
      simp only [text, List.forall_mem_cons, List.forall_mem_append]
      simp only [Exact, ExactItems] at h
      exact ⟨by decide, printable_text h.1, printable_textItems h.2⟩
  | .obj ((k, v) :: ps), h => by
      simp only [text, List.forall_mem_cons, List.forall_mem_append]
      simp only [Exact, ExactPairs] at h
      exact ⟨by decide, printable_strText k, by decide, by decide, printable_text h.1,
        printable_textPairs h.2⟩
theorem printable_textItems : {xs : List Json} → ExactItems xs → ∀ c ∈ textItems xs, Printable c
  | [], _ => by
      simp only [textItems]
      exact List.all_iff_forall_prop.mp rfl
  | x :: xs, h => by
      simp only [textItems, List.forall_mem_cons, List.forall_mem_append]
      simp only [ExactItems] at h
      exact ⟨by decide, by decide, printable_text h.1, printable_textItems h.2⟩
theorem printable_textPairs : {ps : List (String × Json)} → ExactPairs ps →
    ∀ c ∈ textPairs ps, Printable c
  | [], _ => by
      simp only [textPairs]
      exact List.all_iff_forall_prop.mp rfl
  | (k, v) :: ps, h => by
      simp only [textPairs, List.forall_mem_cons, List.forall_mem_append]
      simp only [ExactPairs] at h
      exact ⟨by decide, by decide, printable_strText k, by decide, by decide,
        printable_text h.1, printable_textPairs h.2⟩
end

end Printable

end Json
