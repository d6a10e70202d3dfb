import CrediGuard.Lib.JsonRoundTrip
import Mathlib.Data.Bool.AllAny

/-!
Latin-1, in which every byte is a character.

`encode` leaves out what is not Latin-1, `decode` reads every byte, and `lower` is
the lower case of the Latin-1 letters, which on ASCII is the one of every text.
-/

namespace Latin1

section Codec

/-- `bytes.decode("latin-1")`. -/
def decode (bytes : ByteArray) : String :=
  String.ofList (bytes.data.toList.map fun b => Char.ofNat b.toNat)

/-- `s.encode("latin-1", "ignore")`. -/
def encode (s : String) : ByteArray :=
  ⟨((s.toList.filter fun c => c.toNat < 256).map fun c => c.toNat.toUInt8).toArray⟩

def IsText (s : String) : Prop := ∀ c ∈ s.toList, c.toNat < 256

def IsAscii (s : String) : Prop := ∀ c ∈ s.toList, c.toNat < 128

theorem isText_of_all {s : String} (h : (s.toList.all fun c => c.toNat < 256) = true) :
    IsText s :=
  fun c hc => of_decide_eq_true (List.all_eq_true.mp h c hc)

theorem isAscii_of_all {s : String} (h : (s.toList.all fun c => c.toNat < 128) = true) :
    IsAscii s :=
  fun c hc => of_decide_eq_true (List.all_eq_true.mp h c hc)

theorem IsAscii.isText {s : String} (h : IsAscii s) : IsText s :=
  fun c hc => (h c hc).trans (by decide)

theorem toNat_ofNat_of_lt {n : Nat} (h : n < 256) : (Char.ofNat n).toNat = n := by
  have hvalid : n.isValidChar := .inl (h.trans (by decide))
  rw [Char.ofNat, dif_pos hvalid]
  rfl

theorem decode_encode {s : String} (h : IsText s) : decode (encode s) = s := by
  have hall : s.toList.filter (fun c => decide (c.toNat < 256)) = s.toList :=
    List.filter_eq_self.mpr fun c hc => decide_eq_true (h c hc)
  have hbyte : ∀ c ∈ s.toList, Char.ofNat c.toNat.toUInt8.toNat = c := by
    intro c hc
    have hmod : c.toNat.toUInt8.toNat = c.toNat := Nat.mod_eq_of_lt (h c hc)
    rw [hmod, Char.ofNat_toNat]
  simp only [decode, encode, hall, List.map_map]
  have hmap : s.toList.map ((fun b : UInt8 => Char.ofNat b.toNat) ∘ fun c => c.toNat.toUInt8) =
      s.toList := by
    conv_rhs => rw [← List.map_id s.toList]
    exact List.map_congr_left hbyte
  rw [hmap, String.ofList_toList]

theorem decode_eq_empty_iff {bytes : ByteArray} : decode bytes = "" ↔ bytes = ByteArray.empty := by
  rw [decode, String.ofList_eq_empty_iff, List.map_eq_nil_iff]
  constructor
  · intro h
    exact ByteArray.ext (Array.toList_inj.mp h)
  · intro h
    rw [h]
    rfl

end Codec

section Utf8
variable {bytes : ByteArray}

theorem flatMap_utf8EncodeChar {cs : List Char} (h : ∀ c ∈ cs, c.toNat < 128) :
    cs.flatMap String.utf8EncodeChar = cs.map fun c => c.toNat.toUInt8 := by
  induction cs with
  | nil => rfl
  | cons c cs ih =>
      have hsize : c.utf8Size = 1 := by
        apply Char.utf8Size_eq_one_iff.mpr
        have hc : c.val.toNat < 128 := h c List.mem_cons_self
        exact UInt32.le_iff_toNat_le.mpr (Nat.le_of_lt_succ hc)
      rw [List.flatMap_cons, String.utf8EncodeChar_eq_singleton hsize,
        ih fun d hd => h d (List.mem_cons_of_mem _ hd)]
      rfl

/-- ASCII text is the same bytes in UTF-8. -/
theorem toUTF8_eq_encode {s : String} (h : IsAscii s) : s.toUTF8 = encode s := by
  have hall : s.toList.filter (fun c => decide (c.toNat < 256)) = s.toList :=
    List.filter_eq_self.mpr fun c hc => decide_eq_true (h.isText c hc)
  rw [String.toUTF8_eq_toByteArray, ← String.utf8Encode_toList, List.utf8Encode,
    flatMap_utf8EncodeChar h, encode, hall]
  apply ByteArray.ext
  exact List.data_toByteArray

theorem decode_toUTF8 {s : String} (h : IsAscii s) : decode s.toUTF8 = s := by
  rw [toUTF8_eq_encode h]
  exact decode_encode h.isText

theorem toUTF8_of_fromUTF8? {s : String} (h : String.fromUTF8? bytes = some s) :
    s.toUTF8 = bytes := by
  rw [String.fromUTF8?] at h
  split at h
  · rw [← Option.some.inj h]
    rfl
  · contradiction

/-- The UTF-8 text of a byte that was read as Latin-1. -/
def reencode (b : UInt8) : List UInt8 := String.utf8EncodeChar (Char.ofNat b.toNat)

theorem reencode_cases (b : UInt8) :
    (b < 128 → reencode b = [b]) ∧ (¬ b < 128 → (reencode b).length = 2) := by
  have hall : ∀ n < 256, (n < 128 → String.utf8EncodeChar (Char.ofNat n) = [UInt8.ofNat n]) ∧
      (¬ n < 128 → (String.utf8EncodeChar (Char.ofNat n)).length = 2) := by decide +kernel
  have hb := hall b.toNat b.toNat_lt
  rw [UInt8.ofNat_toNat] at hb
  exact hb

theorem toUTF8_decode (bytes : ByteArray) :
    (decode bytes).toUTF8.data.toList = bytes.data.toList.flatMap reencode := by
  rw [decode, String.toUTF8_eq_toByteArray, String.toByteArray_ofList, List.utf8Encode,
    List.flatMap_map, List.data_toByteArray]
  rfl

theorem length_le_flatMap_reencode (bs : List UInt8) :
    bs.length ≤ (bs.flatMap reencode).length := by
  induction bs with
  | nil => exact Nat.le_refl _
  | cons b bs ih =>
      have hpos : 0 < (reencode b).length := List.length_pos_iff.mpr String.utf8EncodeChar_ne_nil
      simp only [List.flatMap_cons, List.length_append, List.length_cons]
      omega

theorem flatMap_reencode_eq_iff (bs : List UInt8) :
    bs.flatMap reencode = bs ↔ ∀ b ∈ bs, b < 128 := by
  induction bs with
  | nil => exact iff_of_true rfl fun b hb => absurd hb List.not_mem_nil
  | cons b bs ih =>
      rw [List.flatMap_cons, List.forall_mem_cons]
      by_cases hb : b < 128
      · rw [(reencode_cases b).1 hb, List.singleton_append, List.cons.injEq, ih]
        exact ⟨fun h => ⟨hb, h.2⟩, fun h => ⟨rfl, h.2⟩⟩
      · refine iff_of_false ?_ fun h => hb h.1
        intro heq
        -- a byte above takes two, and no byte takes less than one
        have hlength := congrArg List.length heq
        have hrest := length_le_flatMap_reencode bs
        rw [List.length_append, (reencode_cases b).2 hb, List.length_cons] at hlength
        omega

/-- Bytes read the same as UTF-8 and as Latin-1 just if they are ASCII. -/
theorem fromUTF8?_eq_decode_iff :
    String.fromUTF8? bytes = some (decode bytes) ↔ ∀ b ∈ bytes.data.toList, b < 128 := by
  rw [← flatMap_reencode_eq_iff, ← toUTF8_decode]
  constructor
  · intro h
    rw [toUTF8_of_fromUTF8? h]
  · intro h
    have hbytes : (decode bytes).toUTF8 = bytes :=
      ByteArray.ext (Array.toList_inj.mp h)
    have hback := Json.fromUTF8?_toUTF8 (decode bytes)
    rwa [hbytes] at hback

end Utf8

section Case

/-- The ASCII letters and those from `À` to `Þ`. -/
def lowerChar (c : Char) : Char :=
  if 192 ≤ c.toNat ∧ c.toNat ≤ 222 ∧ c.toNat ≠ 215 then Char.ofNat (c.toNat + 32) else c.toLower

/-- `str.lower` on Latin-1. -/
def lower (s : String) : String := String.ofList (s.toList.map lowerChar)

theorem toNat_toLower (c : Char) :
    c.toLower.toNat = if 65 ≤ c.toNat ∧ c.toNat ≤ 90 then c.toNat + 32 else c.toNat := by
  have hrange : (c.val ≥ 'A'.val ∧ c.val ≤ 'Z'.val) ↔ 65 ≤ c.toNat ∧ c.toNat ≤ 90 := by
    simp only [ge_iff_le, UInt32.le_iff_toNat_le]
    rfl
  unfold Char.toLower
  by_cases h : 65 ≤ c.toNat ∧ c.toNat ≤ 90
  · rw [dif_pos (hrange.mpr h), if_pos h]
    change (c.val + 32).toNat = c.val.toNat + 32
    rw [UInt32.toNat_add]
    have : c.val.toNat ≤ 90 := h.2
    exact Nat.mod_eq_of_lt (by simp; omega)
  · rw [dif_neg (mt hrange.mp h), if_neg h]

/-- On Latin-1 the two ways to lower a name agree about ASCII names. -/
theorem lowerChar_eq_iff {c a : Char} (hc : c.toNat < 256) (ha : a.toNat < 128) :
    lowerChar c = a ↔ c.toLower = a := by
  unfold lowerChar
  split
  · rename_i hhigh
    have hleft : (Char.ofNat (c.toNat + 32)).toNat = c.toNat + 32 :=
      toNat_ofNat_of_lt (by omega)
    have hright := toNat_toLower c
    rw [if_neg (by omega)] at hright
    refine iff_of_false ?_ ?_
    · intro h
      rw [h] at hleft
      omega
    · intro h
      rw [h] at hright
      omega
  · rfl

theorem map_eq_iff_of_forall {α β : Type} {f g : α → β} {P : α → Prop} {Q : β → Prop}
    (h : ∀ a b, P a → Q b → (f a = b ↔ g a = b)) {as : List α} {bs : List β}
    (ha : ∀ a ∈ as, P a) (hb : ∀ b ∈ bs, Q b) : as.map f = bs ↔ as.map g = bs := by
  induction as generalizing bs with
  | nil => rfl
  | cons a as ih =>
      cases bs with
      | nil => simp
      | cons b bs =>
          rw [List.map_cons, List.map_cons, List.cons.injEq, List.cons.injEq,
            h a b (ha a List.mem_cons_self) (hb b List.mem_cons_self),
            ih (fun x hx => ha x (List.mem_cons_of_mem _ hx))
              fun x hx => hb x (List.mem_cons_of_mem _ hx)]

theorem lower_eq_iff {k n : String} (hk : IsText k) (hn : IsAscii n) :
    lower k = n ↔ k.toLower = n := by
  have hlower : lower k = n ↔ k.toList.map lowerChar = n.toList := by
    rw [← String.toList_inj, lower, String.toList_ofList]
  have htoLower : k.toLower = n ↔ k.toList.map Char.toLower = n.toList := by
    change k.map Char.toLower = n ↔ _
    rw [← String.toList_inj, String.toList_map]
  rw [hlower, htoLower]
  exact map_eq_iff_of_forall (fun _ _ => lowerChar_eq_iff) hk hn

/-- A name of Latin-1 is among ASCII ones in either lower case. -/
theorem lower_mem_iff {k : String} {names : List String} (hk : IsText k)
    (hnames : ∀ n ∈ names, IsAscii n) : lower k ∈ names ↔ k.toLower ∈ names := by
  constructor
  · intro h
    exact (lower_eq_iff hk (hnames _ h)).mp rfl ▸ h
  · intro h
    exact (lower_eq_iff hk (hnames _ h)).mpr rfl ▸ h

end Case

end Latin1
