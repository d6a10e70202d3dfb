import Mathlib.Data.List.Basic
import Mathlib.Data.BitVec
import Mathlib.Tactic.IntervalCases

/-!
128-bit identifiers and their text form: `str` prints 32 lower-case hexadecimal
digits in groups 8-4-4-4-12, and `parse` is the constructor that reads a text
form back. It removes `urn:` and `uuid:`, strips braces, drops hyphens and hands
the 32 characters left to the base-16 integer reader, which takes a sign, a `0x`
prefix and single underscores between digits.
-/

structure Uuid where
  bits : BitVec 128
  deriving DecidableEq

namespace Uuid

def hexVal (c : Char) : Option Nat :=
  if '0' ≤ c ∧ c ≤ '9' then some (c.toNat - 48)
  else if 'a' ≤ c ∧ c ≤ 'f' then some (c.toNat - 87)
  else if 'A' ≤ c ∧ c ≤ 'F' then some (c.toNat - 55)
  else none

/-- The last `k` base-16 digits of `n`, most significant first. -/
def lastDigits : Nat → Nat → List Nat
  | 0, _ => []
  | k + 1, n => lastDigits k (n / 16) ++ [n % 16]

def hexPad (k n : Nat) : List Char := (lastDigits k n).map Nat.digitChar

def hyphenate (h : List Char) : List Char :=
  h.take 8 ++ '-' :: (h.drop 8).take 4 ++ '-' :: (h.drop 12).take 4 ++
    '-' :: (h.drop 16).take 4 ++ '-' :: h.drop 20

def str (u : Uuid) : String :=
  String.ofList (hyphenate (hexPad 32 u.bits.toNat))

/-- Every occurrence of `pat` removed from left to right; the counter runs over
the rest of an occurrence already found. -/
def removeAll (pat : List Char) : Nat → List Char → List Char
  | _, [] => []
  | skip + 1, _ :: cs => removeAll pat skip cs
  | 0, c :: cs =>
      if pat.isPrefixOf (c :: cs) then removeAll pat (pat.length - 1) cs
      else c :: removeAll pat 0 cs

/-- The digits of an integer literal: single underscores may stand between them. -/
def hexDigits : List Char → Option (List Nat)
  | [] => none
  | c :: '_' :: cs => do (← hexVal c) :: (← hexDigits cs)
  | [c] => do [← hexVal c]
  | c :: cs => do (← hexVal c) :: (← hexDigits cs)

def ofDigits (ds : List Nat) : Nat := ds.foldl (fun n d => 16 * n + d) 0

def unsignedInt : List Char → Option Nat
  | '0' :: x :: cs =>
      if x = 'x' ∨ x = 'X' then
        (hexDigits (if cs.head? = some '_' then cs.tail else cs)).map ofDigits
      else (hexDigits ('0' :: x :: cs)).map ofDigits
  | cs => (hexDigits cs).map ofDigits

def signedInt : List Char → Option Int
  | '+' :: cs => (unsignedInt cs).map Int.ofNat
  | '-' :: cs => (unsignedInt cs).map fun n => -Int.ofNat n
  | cs => (unsignedInt cs).map Int.ofNat

def strip (p : Char → Bool) (cs : List Char) : List Char :=
  ((cs.dropWhile p).reverse.dropWhile p).reverse

def parseChars (cs : List Char) : Option Uuid :=
  let cs := removeAll "uuid:".toList 0 (removeAll "urn:".toList 0 cs)
  let hex := (strip (fun c => c = '{' ∨ c = '}') cs).filter (· ≠ '-')
  if hex.length = 32 then
    match signedInt (strip Char.isWhitespace hex) with
    | some (.ofNat n) => if n < 2 ^ 128 then some ⟨BitVec.ofNat 128 n⟩ else none
    | _ => none
  else none

def parse (s : String) : Option Uuid := parseChars s.toList

theorem lastDigits_lt (k n : Nat) : ∀ d ∈ lastDigits k n, d < 16 := by
  induction k generalizing n with
  | zero => simp [lastDigits]
  | succ k ih =>
      intro d hd
      rcases List.mem_append.mp hd with hd | hd
      · exact ih (n / 16) d hd
      · obtain rfl := List.mem_singleton.mp hd
        exact Nat.mod_lt n (by decide)

theorem lastDigits_length (k n : Nat) : (lastDigits k n).length = k := by
  induction k generalizing n with
  | zero => rfl
  | succ k ih => simp [lastDigits, ih]

theorem ofDigits_lastDigits (k n : Nat) : ofDigits (lastDigits k n) = n % 16 ^ k := by
  induction k generalizing n with
  | zero => simp [lastDigits, ofDigits, Nat.mod_one]
  | succ k ih =>
      have hk := ih (n / 16)
      simp only [ofDigits] at hk
      simp only [lastDigits, ofDigits, List.foldl_append, List.foldl_cons, List.foldl_nil, hk]
      rw [pow_succ', Nat.mod_mul]
      omega

theorem hexVal_digitChar {d : Nat} (h : d < 16) : hexVal (Nat.digitChar d) = some d := by
  interval_cases d <;> rfl

/-- No digit character is a separator, a sign, a brace, a prefix letter or blank. -/
theorem digitChar_plain {d : Nat} (h : d < 16) :
    Nat.digitChar d ≠ '_' ∧ Nat.digitChar d ≠ '-' ∧ Nat.digitChar d ≠ '+' ∧
      Nat.digitChar d ≠ 'u' ∧ Nat.digitChar d ≠ 'x' ∧ Nat.digitChar d ≠ 'X' ∧
      Nat.digitChar d ≠ '{' ∧ Nat.digitChar d ≠ '}' ∧
      (Nat.digitChar d).isWhitespace = false := by
  interval_cases d <;> decide

theorem hexDigits_map {ds : List Nat} (h : ∀ d ∈ ds, d < 16) (hne : ds ≠ []) :
    hexDigits (ds.map Nat.digitChar) = some ds := by
  induction ds with
  | nil => contradiction
  | cons d ds ih =>
      have hd := hexVal_digitChar (h d (List.mem_cons_self ..))
      cases ds with
      | nil => simp [hexDigits, hd]
      | cons e ds =>
          have he := h e (by simp)
          have hrest := ih (fun x hx => h x (List.mem_cons_of_mem _ hx)) (by simp)
          have hu := (digitChar_plain he).1
          simp only [List.map_cons] at hrest ⊢
          rw [hexDigits.eq_4 _ _ (fun cs heq => hu (List.cons.inj heq).1) (by simp), hd, hrest]
          rfl

theorem removeAll_of_not_mem {p : Char} {pat cs : List Char} (h : p ∉ cs) :
    removeAll (p :: pat) 0 cs = cs := by
  induction cs with
  | nil => rfl
  | cons c cs ih =>
      have hc : (p == c) = false := by
        have : p ≠ c := fun hpc => h (hpc ▸ List.mem_cons_self ..)
        simpa using this
      rw [removeAll]
      simp [List.isPrefixOf, hc, ih fun hm => h (List.mem_cons_of_mem _ hm)]

theorem strip_of_forall {p : Char → Bool} {cs : List Char} (h : ∀ c ∈ cs, p c = false) :
    strip p cs = cs := by
  have hdrop (l : List Char) (hl : ∀ c ∈ l, p c = false) : l.dropWhile p = l := by
    cases l with
    | nil => rfl
    | cons c l => simp [hl c (List.mem_cons_self ..)]
  unfold strip
  rw [hdrop cs h, hdrop cs.reverse (by simpa using h), List.reverse_reverse]

theorem mem_hyphenate {h : List Char} {c : Char} (hc : c ∈ hyphenate h) : c = '-' ∨ c ∈ h := by
  simp only [hyphenate, List.mem_append, List.mem_cons] at hc
  rcases hc with ((((hc | hc | hc) | hc | hc) | hc | hc) | hc | hc) <;>
    first
    | exact .inl hc
    | exact .inr (List.mem_of_mem_take hc)
    | exact .inr (List.mem_of_mem_drop (List.mem_of_mem_take hc))
    | exact .inr (List.mem_of_mem_drop hc)

theorem hyphenate_filter {h : List Char} (hh : ∀ c ∈ h, c ≠ '-') :
    (hyphenate h).filter (· ≠ '-') = h := by
  have hself (l : List Char) (hl : ∀ c ∈ l, c ∈ h) : l.filter (· ≠ '-') = l :=
    List.filter_eq_self.mpr fun c hc => by simpa using hh c (hl c hc)
  have htake (n m : Nat) : ((h.drop n).take m).filter (· ≠ '-') = (h.drop n).take m :=
    hself _ fun c hc => List.mem_of_mem_drop (List.mem_of_mem_take hc)
  have hfirst := hself (h.take 8) fun c hc => List.mem_of_mem_take hc
  have hlast := hself (h.drop 20) fun c hc => List.mem_of_mem_drop hc
  have hsplit (n m : Nat) : (h.drop n).take m ++ h.drop (n + m) = h.drop n := by
    rw [← List.drop_drop, List.take_append_drop]
  have hmid : (h.drop 8).take 4 ++ ((h.drop 12).take 4 ++ ((h.drop 16).take 4 ++ h.drop 20)) =
      h.drop 8 := by
    rw [hsplit 16 4, hsplit 12 4, hsplit 8 4]
  simp only [hyphenate, List.filter_append, List.filter_cons, hfirst, htake, hlast]
  simp [List.append_assoc, hmid]

theorem signedInt_map {ds : List Nat} (h : ∀ d ∈ ds, d < 16) (hne : ds ≠ []) :
    signedInt (ds.map Nat.digitChar) = some (Int.ofNat (ofDigits ds)) := by
  have hds := hexDigits_map h hne
  cases ds with
  | nil => contradiction
  | cons d ds =>
      obtain ⟨-, hm, hp, -⟩ := digitChar_plain (h d (List.mem_cons_self ..))
      have hun : unsignedInt ((d :: ds).map Nat.digitChar) = some (ofDigits (d :: ds)) := by
        cases ds with
        | nil =>
            have hx : ∀ x cs, [Nat.digitChar d] ≠ '0' :: x :: cs := by simp
            simp only [List.map_cons, List.map_nil] at hds ⊢
            rw [unsignedInt.eq_2 _ hx, hds, Option.map_some]
        | cons e ds =>
            obtain ⟨-, -, -, -, hx, hX, -⟩ := digitChar_plain (h e (by simp))
            simp only [List.map_cons] at hds ⊢
            unfold unsignedInt
            split
            · rename_i x cs heq
              obtain ⟨h0, rfl, rfl⟩ : Nat.digitChar d = '0' ∧ Nat.digitChar e = x ∧
                  ds.map Nat.digitChar = cs := by simpa using heq
              rw [if_neg (by simp [hx, hX]), ← h0, hds, Option.map_some]
            · rw [hds, Option.map_some]
      simp only [List.map_cons] at hun ⊢
      unfold signedInt
      split
      · rename_i cs heq
        exact absurd (List.cons.inj heq).1 hp
      · rename_i cs heq
        exact absurd (List.cons.inj heq).1 hm
      · rw [hun, Option.map_some]

/-- The 32 digits are read back, whatever hyphens stand between them. -/
theorem parseChars_of_hyphens {u : Uuid} {cs : List Char}
    (hmem : ∀ c ∈ cs, c = '-' ∨ c ∈ hexPad 32 u.bits.toNat)
    (hfilter : cs.filter (· ≠ '-') = hexPad 32 u.bits.toNat) : parseChars cs = some u := by
  have hlt := lastDigits_lt 32 u.bits.toNat
  have hlen : (hexPad 32 u.bits.toNat).length = 32 := by simp [hexPad, lastDigits_length]
  have hplain : ∀ c ∈ hexPad 32 u.bits.toNat, c ≠ 'u' ∧ c ≠ '{' ∧ c ≠ '}' ∧
      c.isWhitespace = false := by
    intro c hc
    obtain ⟨d, hd, rfl⟩ := List.mem_map.mp hc
    obtain ⟨-, -, -, h2, -, -, h3, h4, h5⟩ := digitChar_plain (hlt d hd)
    exact ⟨h2, h3, h4, h5⟩
  have hu : 'u' ∉ cs := by
    intro h
    cases hmem 'u' h with
    | inl h => exact absurd h (by decide)
    | inr h => exact (hplain _ h).1 rfl
  have hbrace : ∀ c ∈ cs, (c = '{' ∨ c = '}') = False := by
    intro c hc
    cases hmem c hc with
    | inl h =>
        rw [h]
        decide
    | inr h => simp [(hplain c h).2.1, (hplain c h).2.2.1]
  have hstrip : strip (fun c => c = '{' ∨ c = '}') cs = cs :=
    strip_of_forall fun c hc => by simpa using hbrace c hc
  have hblank : strip Char.isWhitespace (hexPad 32 u.bits.toNat) = hexPad 32 u.bits.toNat :=
    strip_of_forall fun c hc => (hplain c hc).2.2.2
  have hval : signedInt (hexPad 32 u.bits.toNat) = some (Int.ofNat u.bits.toNat) := by
    rw [hexPad, signedInt_map hlt, ofDigits_lastDigits, Nat.mod_eq_of_lt]
    · exact lt_of_lt_of_eq u.bits.isLt (by norm_num)
    · intro hnil
      simpa [hnil] using lastDigits_length 32 u.bits.toNat
  have hurn : "urn:".toList = ['u', 'r', 'n', ':'] := rfl
  have huuid : "uuid:".toList = ['u', 'u', 'i', 'd', ':'] := rfl
  unfold parseChars
  simp only [hurn, huuid, removeAll_of_not_mem hu, hstrip, hfilter, hlen, hblank, hval,
    u.bits.isLt, if_true, BitVec.ofNat_toNat, BitVec.setWidth_eq]

theorem hexPad_ne_hyphen {u : Uuid} : ∀ c ∈ hexPad 32 u.bits.toNat, c ≠ '-' := by
  intro c hc
  obtain ⟨d, hd, rfl⟩ := List.mem_map.mp hc
  exact (digitChar_plain (lastDigits_lt 32 u.bits.toNat d hd)).2.1

theorem mem_str {u : Uuid} {c : Char} (hc : c ∈ u.str.toList) :
    c = '-' ∨ ∃ d < 16, c = Nat.digitChar d := by
  rw [str, String.toList_ofList] at hc
  cases mem_hyphenate hc with
  | inl hyphen => exact .inl hyphen
  | inr hpad =>
      obtain ⟨d, hd, rfl⟩ := List.mem_map.mp hpad
      exact .inr ⟨d, lastDigits_lt 32 u.bits.toNat d hd, rfl⟩

theorem parse_str (u : Uuid) : parse u.str = some u := by
  rw [parse, str, String.toList_ofList]
  exact parseChars_of_hyphens (fun c hc => mem_hyphenate hc) (hyphenate_filter hexPad_ne_hyphen)

/-- The 32 digits alone. -/
def hex (u : Uuid) : String := String.ofList (hexPad 32 u.bits.toNat)

theorem parse_hex (u : Uuid) : parse u.hex = some u := by
  rw [parse, hex, String.toList_ofList]
  refine parseChars_of_hyphens (fun c hc => .inr hc) (List.filter_eq_self.mpr ?_)
  intro c hc
  exact decide_eq_true (hexPad_ne_hyphen c hc)

theorem str_injective : Function.Injective str := by
  intro u v h
  have := congrArg parse h
  simpa only [parse_str, Option.some.injEq] using this

/-- A text that names a value spells it in the way `str` does, or as no value is spelled. -/
theorem eq_of_str_eq_of_parse {s : String} {u v : Uuid} (hs : parse s = some u)
    (hv : v.str = s) : v = u := by
  rw [← hv, parse_str] at hs
  exact Option.some.inj hs

end Uuid
