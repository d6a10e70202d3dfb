import Mathlib.Data.List.Basic
import Mathlib.Data.Char

/-!
JSON values, the printer `dumps` (ASCII only, separators `", "` and `": "`) and
the reader `loads`.

Texts are read as lists of characters. Integers are exact; a number with a
fraction or an exponent, and the literals `NaN` and `±Infinity`, are kept as the
text they were written in. A `\u` escape that leaves a lone surrogate is not a
character and is refused.
-/

inductive Json where
  | null
  | bool (b : Bool)
  | int (n : Int)
  | float (text : String)
  | str (s : String)
  | arr (items : List Json)
  | obj (pairs : List (String × Json))

namespace Json

/-- The member named `key`; a repeated key has the value of its last occurrence. -/
def get? (pairs : List (String × Json)) (key : String) : Option Json :=
  (pairs.reverse.find? fun p => p.1 = key).map Prod.snd

def truthy : Json → Bool
  | .null => false
  | .bool b => b
  | .int n => n ≠ 0
  | .float text =>
      text.toList.any fun c => c ∈ ['1', '2', '3', '4', '5', '6', '7', '8', '9', 'N', 'I']
  | .str s => s ≠ ""
  | .arr items => !items.isEmpty
  | .obj pairs => !pairs.isEmpty

def intText (n : Int) : List Char :=
  if n < 0 then '-' :: Nat.toDigits 10 n.natAbs else Nat.toDigits 10 n.natAbs

section Print

def hexText4 (n : Nat) : List Char :=
  [Nat.digitChar (n / 4096 % 16), Nat.digitChar (n / 256 % 16),
    Nat.digitChar (n / 16 % 16), Nat.digitChar (n % 16)]

def unicodeEscape (n : Nat) : List Char := '\\' :: 'u' :: hexText4 n

def escapeChar (c : Char) : List Char :=
  if c = '"' then ['\\', '"']
  else if c = '\\' then ['\\', '\\']
  else if c = '\n' then ['\\', 'n']
  else if c = '\r' then ['\\', 'r']
  else if c = '\t' then ['\\', 't']
  else if c.toNat = 12 then ['\\', 'f']
  else if c.toNat = 8 then ['\\', 'b']
  else if 32 ≤ c.toNat ∧ c.toNat ≤ 126 then [c]
  else if c.toNat < 65536 then unicodeEscape c.toNat
  else unicodeEscape (55296 + (c.toNat - 65536) / 1024) ++
    unicodeEscape (56320 + (c.toNat - 65536) % 1024)

def escapeBody (cs : List Char) : List Char := cs.flatMap escapeChar

def strText (s : String) : List Char := '"' :: (escapeBody s.toList ++ ['"'])

mutual
def text : Json → List Char
  | .null => ['n', 'u', 'l', 'l']
  | .bool true => ['t', 'r', 'u', 'e']
  | .bool false => ['f', 'a', 'l', 's', 'e']
  | .int n => intText n
  | .float t => t.toList
  | .str s => strText s
  | .arr [] => ['[', ']']
  | .arr (x :: xs) => '[' :: (text x ++ textItems xs)
  | .obj [] => ['{', '}']
  | .obj ((k, v) :: ps) => '{' :: (strText k ++ ':' :: ' ' :: (text v ++ textPairs ps))
def textItems : List Json → List Char
  | [] => [']']
  | x :: xs => ',' :: ' ' :: (text x ++ textItems xs)
def textPairs : List (String × Json) → List Char
  | [] => ['}']
  | (k, v) :: ps => ',' :: ' ' :: (strText k ++ ':' :: ' ' :: (text v ++ textPairs ps))
end

def dumps (j : Json) : String := String.ofList (text j)

end Print

section Read

def skipWs : List Char → List Char
  | [] => []
  | c :: cs =>
      if c = ' ' ∨ c = '\t' ∨ c = '\n' ∨ c = '\r' then skipWs cs else c :: cs

def hexVal (c : Char) : Option Nat :=
  if '0' ≤ c ∧ c ≤ '9' then some (c.toNat - 48)
  else if 'a' ≤ c ∧ c ≤ 'f' then some (c.toNat - 87)
  else if 'A' ≤ c ∧ c ≤ 'F' then some (c.toNat - 55)
  else none

def hexVal4 (a b c d : Char) : Option Nat := do
  some (4096 * (← hexVal a) + 256 * (← hexVal b) + 16 * (← hexVal c) + (← hexVal d))

def unescape (c : Char) : Option Char :=
  if c = '"' ∨ c = '\\' ∨ c = '/' then some c
  else if c = 'b' then some (Char.ofNat 8)
  else if c = 'f' then some (Char.ofNat 12)
  else if c = 'n' then some '\n'
  else if c = 'r' then some '\r'
  else if c = 't' then some '\t'
  else none

/-- The rest of a string literal: its characters and the text behind the quote. -/
def scanString : List Char → Option (List Char × List Char)
  | [] => none
  | '"' :: cs => some ([], cs)
  | '\\' :: 'u' :: a :: b :: c :: d :: cs =>
      match hexVal4 a b c d with
      | none => none
      | some n =>
          if 55296 ≤ n ∧ n ≤ 56319 then
            match cs with
            | '\\' :: 'u' :: e :: f :: g :: h :: cs' =>
                match hexVal4 e f g h with
                | none => none
                | some m =>
                    if 56320 ≤ m ∧ m ≤ 57343 then
                      (scanString cs').map fun r =>
                        (Char.ofNat (65536 + (n - 55296) * 1024 + (m - 56320)) :: r.1, r.2)
                    else none
            | _ => none
          else if 56320 ≤ n ∧ n ≤ 57343 then none
          else (scanString cs).map fun r => (Char.ofNat n :: r.1, r.2)
  | '\\' :: e :: cs =>
      (unescape e).bind fun c => (scanString cs).map fun r => (c :: r.1, r.2)
  | c :: cs =>
      if c.toNat < 32 then none else (scanString cs).map fun r => (c :: r.1, r.2)

def literal : List Char → List Char → Option (List Char)
  | [], cs => some cs
  | p :: ps, c :: cs => if p = c then literal ps cs else none
  | _ :: _, [] => none

def spanDigits : List Char → List Char × List Char
  | [] => ([], [])
  | c :: cs =>
      if c.isDigit then ((c :: (spanDigits cs).1), (spanDigits cs).2) else ([], c :: cs)

/-- The digits of the integer part: a leading zero stands alone. -/
def integerPart (cs : List Char) : Option (List Char × List Char) :=
  match spanDigits cs with
  | ([], _) => none
  | ('0' :: ds, rest) => some (['0'], ds ++ rest)
  | (ds, rest) => some (ds, rest)

def fraction : List Char → List Char × List Char
  | '.' :: cs =>
      match spanDigits cs with
      | ([], _) => ([], '.' :: cs)
      | (ds, rest) => ('.' :: ds, rest)
  | cs => ([], cs)

def exponent : List Char → List Char × List Char
  | e :: cs =>
      if e = 'e' ∨ e = 'E' then
        let (sign, body) := match cs with
          | '+' :: t => (['+'], t)
          | '-' :: t => (['-'], t)
          | t => ([], t)
        match spanDigits body with
        | ([], _) => ([], e :: cs)
        | (ds, rest) => (e :: (sign ++ ds), rest)
      else ([], e :: cs)
  | [] => ([], [])

def unsignedNumber (sign : List Char) (cs : List Char) : Option (Json × List Char) :=
  (integerPart cs).map fun (ds, rest) =>
    let (frac, rest') := fraction rest
    let (exp, rest'') := exponent rest'
    if frac = [] ∧ exp = [] then
      let n := Nat.ofDigitChars 10 ds 0
      (.int (if sign = [] then n else -n), rest'')
    else (.float (String.ofList (sign ++ ds ++ frac ++ exp)), rest'')

def scanNumber : List Char → Option (Json × List Char)
  | '-' :: cs =>
      match literal "Infinity".toList cs with
      | some rest => some (.float "-Infinity", rest)
      | none => unsignedNumber ['-'] cs
  | cs => unsignedNumber [] cs

mutual
def scanValue : Nat → List Char → Option (Json × List Char)
  | 0, _ => none
  | _ + 1, [] => none
  | fuel + 1, c :: cs =>
      if c = '"' then
        (scanString cs).map fun r => (.str (String.ofList r.1), r.2)
      else if c = '[' then
        match skipWs cs with
        | ']' :: rest => some (.arr [], rest)
        | rest => (scanItems fuel rest).map fun r => (.arr r.1, r.2)
      else if c = '{' then
        match skipWs cs with
        | '}' :: rest => some (.obj [], rest)
        | rest => (scanPairs fuel rest).map fun r => (.obj r.1, r.2)
      else if c = 'n' then (literal ['u', 'l', 'l'] cs).map fun r => (.null, r)
      else if c = 't' then (literal ['r', 'u', 'e'] cs).map fun r => (.bool true, r)
      else if c = 'f' then (literal ['a', 'l', 's', 'e'] cs).map fun r => (.bool false, r)
      else if c = 'N' then (literal ['a', 'N'] cs).map fun r => (.float "NaN", r)
      else if c = 'I' then
        (literal "nfinity".toList cs).map fun r => (.float "Infinity", r)
      else scanNumber (c :: cs)
def scanItems : Nat → List Char → Option (List Json × List Char)
  | 0, _ => none
  | fuel + 1, cs =>
      match scanValue fuel cs with
      | none => none
      | some (x, rest) =>
          match skipWs rest with
          | ',' :: rest => (scanItems fuel (skipWs rest)).map fun r => (x :: r.1, r.2)
          | ']' :: rest => some ([x], rest)
          | _ => none
def scanPairs : Nat → List Char → Option (List (String × Json) × List Char)
  | 0, _ => none
  | fuel + 1, '"' :: cs =>
      match scanString cs with
      | none => none
      | some (k, rest) =>
          match skipWs rest with
          | ':' :: rest =>
              match scanValue fuel (skipWs rest) with
              | none => none
              | some (v, rest) =>
                  match skipWs rest with
                  | ',' :: rest =>
                      (scanPairs fuel (skipWs rest)).map fun r =>
                        ((String.ofList k, v) :: r.1, r.2)
                  | '}' :: rest => some ([(String.ofList k, v)], rest)
                  | _ => none
          | _ => none
  | _ + 1, _ => none
end

def loads (s : String) : Option Json :=
  match scanValue (s.toList.length + 1) (skipWs s.toList) with
  | some (j, rest) => if skipWs rest = [] then some j else none
  | none => none

theorem loads_ofList (cs : List Char) : loads (String.ofList cs) =
    match scanValue (cs.length + 1) (skipWs cs) with
    | some (j, rest) => if skipWs rest = [] then some j else none
    | none => none := by
  rw [loads, String.toList_ofList]

/-- Bytes are read as UTF-8. -/
def loadsBytes (raw : ByteArray) : Option Json :=
  (String.fromUTF8? raw).bind loads

end Read

section Equality

mutual
def beq : Json → Json → Bool
  | .null, .null => true
  | .bool a, .bool b => a = b
  | .int a, .int b => a = b
  | .float a, .float b => a = b
  | .str a, .str b => a = b
  | .arr xs, .arr ys => beqItems xs ys
  | .obj ps, .obj qs => beqPairs ps qs
  | _, _ => false
def beqItems : List Json → List Json → Bool
  | [], [] => true
  | x :: xs, y :: ys => beq x y && beqItems xs ys
  | _, _ => false
def beqPairs : List (String × Json) → List (String × Json) → Bool
  | [], [] => true
  | (k, v) :: ps, (l, w) :: qs => decide (k = l) && (beq v w && beqPairs ps qs)
  | _, _ => false
end

mutual
theorem beq_self : (j : Json) → beq j j = true
  | .null => rfl
  | .bool _ | .int _ | .float _ | .str _ => decide_eq_true rfl
  | .arr xs => beqItems_self xs
  | .obj ps => beqPairs_self ps
theorem beqItems_self : (xs : List Json) → beqItems xs xs = true
  | [] => rfl
  | x :: xs => by simp only [beqItems, beq_self x, beqItems_self xs, Bool.and_self]
theorem beqPairs_self : (ps : List (String × Json)) → beqPairs ps ps = true
  | [] => rfl
  | (k, v) :: ps => by
      simp only [beqPairs, decide_true, beq_self v, beqPairs_self ps, Bool.and_self]
end

mutual
theorem eq_of_beq : (a b : Json) → beq a b = true → a = b
  | .null, b, h => by cases b <;> first | rfl | exact absurd h Bool.false_ne_true
  | .bool _, b, h => by
      cases b <;> first | exact congrArg _ (of_decide_eq_true h) | exact absurd h Bool.false_ne_true
  | .int _, b, h => by
      cases b <;> first | exact congrArg _ (of_decide_eq_true h) | exact absurd h Bool.false_ne_true
  | .float _, b, h => by
      cases b <;> first | exact congrArg _ (of_decide_eq_true h) | exact absurd h Bool.false_ne_true
  | .str _, b, h => by
      cases b <;> first | exact congrArg _ (of_decide_eq_true h) | exact absurd h Bool.false_ne_true
  | .arr xs, b, h => by
      cases b with
      | arr ys => exact congrArg _ (eq_of_beqItems xs ys h)
      | _ => exact absurd h Bool.false_ne_true
  | .obj ps, b, h => by
      cases b with
      | obj qs => exact congrArg _ (eq_of_beqPairs ps qs h)
      | _ => exact absurd h Bool.false_ne_true
theorem eq_of_beqItems : (xs ys : List Json) → beqItems xs ys = true → xs = ys
  | [], [], _ => rfl
  | [], _ :: _, h => absurd h Bool.false_ne_true
  | _ :: _, [], h => absurd h Bool.false_ne_true
  | x :: xs, y :: ys, h => by
      obtain ⟨hx, hxs⟩ := Bool.and_eq_true_iff.mp h
      rw [eq_of_beq x y hx, eq_of_beqItems xs ys hxs]
theorem eq_of_beqPairs : (ps qs : List (String × Json)) → beqPairs ps qs = true → ps = qs
  | [], [], _ => rfl
  | [], _ :: _, h => absurd h Bool.false_ne_true
  | _ :: _, [], h => absurd h Bool.false_ne_true
  | (k, v) :: ps, (l, w) :: qs, h => by
      obtain ⟨hk, hrest⟩ := Bool.and_eq_true_iff.mp h
      obtain ⟨hv, hps⟩ := Bool.and_eq_true_iff.mp hrest
      rw [of_decide_eq_true hk, eq_of_beq v w hv, eq_of_beqPairs ps qs hps]
end

instance : DecidableEq Json := fun a b =>
  decidable_of_iff (beq a b = true) ⟨eq_of_beq a b, fun h => h ▸ beq_self a⟩

end Equality
end Json
