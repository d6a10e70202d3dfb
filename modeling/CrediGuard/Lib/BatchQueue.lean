import Mathlib.Data.List.Sort
import Mathlib.Data.List.Perm.Basic
import Mathlib.Order.Lattice

/-!
A queue that is worked off in batches of bounded size, oldest items first.

An item of a batch leaves the queue, unless it is one that never does: such an item
is back in the next batch. How items of one time are ordered is open in each round.
An item is sure to leave just if fewer of the stuck ones than a batch holds are as
old as it is.
-/

namespace BatchQueue

section Model
variable {α ι : Type} [LinearOrder ι] (time : α → ι) (stuck : α → Bool) (size : Nat)

/-- An order in which the waiting items may be taken. -/
structure Order (waiting order : List α) : Prop where
  perm : order.Perm waiting
  sorted : order.Pairwise fun a b => time a ≤ time b

/-- What still waits behind a round. -/
def remaining (order : List α) : List α := (order.take size).filter stuck ++ order.drop size

def Round (waiting waiting' : List α) : Prop :=
  ∃ order, Order time waiting order ∧ (remaining stuck size order).Perm waiting'

inductive Rounds : Nat → List α → List α → Prop where
  | refl (waiting : List α) : Rounds 0 waiting waiting
  | step {n : Nat} {waiting next waiting' : List α} : Round time stuck size waiting next →
      Rounds n next waiting' → Rounds (n + 1) waiting waiting'

/-- The stuck items that are as old as `a` or older. -/
def crowd (waiting : List α) (a : α) : Nat := waiting.countP fun b => stuck b && time b ≤ time a

/-- The items that can leave. -/
def movable (waiting : List α) : Nat := waiting.countP fun b => !stuck b

end Model

section Round
variable {α ι : Type} [LinearOrder ι] {time : α → ι} {stuck : α → Bool} {size : Nat}
  {waiting waiting' order : List α} {a : α}

theorem crowd_congr (h : waiting.Perm waiting') (a : α) :
    crowd time stuck waiting a = crowd time stuck waiting' a :=
  h.countP_eq _

theorem crowd_remaining (order : List α) (a : α) :
    crowd time stuck (remaining stuck size order) a = crowd time stuck order a := by
  have hkept : ((order.take size).filter stuck).countP (fun b => stuck b && time b ≤ time a) =
      (order.take size).countP fun b => stuck b && time b ≤ time a := by
    rw [List.countP_filter]
    apply List.countP_congr
    intro b _
    simp only [Bool.and_eq_true]
    exact ⟨fun h => h.1, fun h => ⟨h, h.1⟩⟩
  simp only [crowd, remaining]
  rw [List.countP_append, hkept, ← List.countP_append, List.take_append_drop]

/-- The stuck items all stay. -/
theorem Round.crowd_eq (h : Round time stuck size waiting waiting') (a : α) :
    crowd time stuck waiting' a = crowd time stuck waiting a := by
  obtain ⟨order, horder, hperm⟩ := h
  rw [← crowd_congr hperm, crowd_remaining, crowd_congr horder.perm]

theorem movable_remaining (order : List α) :
    movable stuck (remaining stuck size order) = movable stuck (order.drop size) := by
  have hnone : ((order.take size).filter stuck).countP (fun b => !stuck b) = 0 := by
    apply List.countP_eq_zero.mpr
    intro b hb
    simp [(List.mem_filter.mp hb).2]
  simp only [movable, remaining]
  rw [List.countP_append, hnone, Nat.zero_add]

/-- A batch that is not crowded out has an item that leaves. -/
theorem exists_movable (horder : Order time waiting order) (ha : a ∈ waiting)
    (hmovable : stuck a = false) (hcrowd : crowd time stuck waiting a < size) :
    ∃ b ∈ order.take size, stuck b = false := by
  by_contra hnone
  push Not at hnone
  have hstuck : ∀ b ∈ order.take size, stuck b = true := by
    intro b hb
    exact Bool.eq_true_of_not_eq_false (hnone b hb)
  have hsplit : a ∈ order.take size ++ order.drop size := by
    rw [List.take_append_drop]
    exact horder.perm.mem_iff.mpr ha
  cases List.mem_append.mp hsplit with
  | inl htake => exact hnone a htake hmovable
  | inr hdrop =>
      have hsorted : (order.take size ++ order.drop size).Pairwise
          fun a b => time a ≤ time b := by
        rw [List.take_append_drop]
        exact horder.sorted
      have holder : ∀ b ∈ order.take size, time b ≤ time a :=
        fun b hb => (List.pairwise_append.mp hsorted).2.2 b hb a hdrop
      have hfull : (order.take size).length = size := by
        rw [List.length_take]
        have : 0 < (order.drop size).length := List.length_pos_of_mem hdrop
        rw [List.length_drop] at this
        omega
      have hall : (order.take size).countP (fun b => stuck b && time b ≤ time a) = size := by
        rw [List.countP_eq_length.mpr, hfull]
        intro b hb
        simp [hstuck b hb, holder b hb]
      have hle : (order.take size).countP (fun b => stuck b && time b ≤ time a) ≤
          crowd time stuck order a := (List.take_sublist size order).countP_le
      rw [crowd_congr horder.perm, hall] at hle
      omega

/-- While an item waits that is not crowded out, each round lets one leave. -/
theorem Round.progress (h : Round time stuck size waiting waiting') (ha : a ∈ waiting)
    (hmovable : stuck a = false) (hcrowd : crowd time stuck waiting a < size) :
    movable stuck waiting' < movable stuck waiting := by
  obtain ⟨order, horder, hperm⟩ := h
  obtain ⟨b, hb, hleaves⟩ := exists_movable horder ha hmovable hcrowd
  have hpositive : 0 < (order.take size).countP fun b => !stuck b :=
    List.countP_pos_iff.mpr ⟨b, hb, by simp [hleaves]⟩
  have hsplit : movable stuck order = (order.take size).countP (fun b => !stuck b) +
      movable stuck (order.drop size) := by
    simp only [movable]
    rw [← List.countP_append, List.take_append_drop]
  have hbefore : movable stuck order = movable stuck waiting := horder.perm.countP_eq _
  have hafter : movable stuck (remaining stuck size order) = movable stuck waiting' :=
    hperm.countP_eq _
  rw [movable_remaining] at hafter
  omega

theorem Round.mem_of_mem (h : Round time stuck size waiting waiting') (ha : a ∈ waiting') :
    a ∈ waiting := by
  obtain ⟨order, horder, hperm⟩ := h
  apply horder.perm.mem_iff.mp
  cases List.mem_append.mp (hperm.mem_iff.mpr ha) with
  | inl htake => exact List.mem_of_mem_take (List.mem_filter.mp htake).1
  | inr hdrop => exact List.mem_of_mem_drop hdrop

theorem Rounds.mem_of_mem {n : Nat} (h : Rounds time stuck size n waiting waiting')
    (ha : a ∈ waiting') : a ∈ waiting := by
  induction h with
  | refl _ => exact ha
  | step hround _ ih => exact hround.mem_of_mem (ih ha)

/-- An item that is not crowded out has left after as many rounds as items can leave. -/
theorem Rounds.not_mem {n : Nat} (h : Rounds time stuck size n waiting waiting')
    (hmovable : stuck a = false) (hcrowd : crowd time stuck waiting a < size)
    (hn : movable stuck waiting ≤ n) : a ∉ waiting' := by
  induction h with
  | refl waiting =>
      intro ha
      have hpositive : 0 < movable stuck waiting :=
        List.countP_pos_iff.mpr ⟨a, ha, by simp [hmovable]⟩
      omega
  | @step n waiting next waiting' hround hrest ih =>
      by_cases ha : a ∈ waiting
      · have hless := hround.progress ha hmovable hcrowd
        apply ih
        · rwa [hround.crowd_eq]
        · omega
      · intro hlast
        exact ha (hround.mem_of_mem (hrest.mem_of_mem hlast))

end Round

section Blocked
variable {α ι : Type} [LinearOrder ι] {time : α → ι} {stuck : α → Bool} {size : Nat}
  {waiting order : List α} {a : α}

/-- Oldest first, and of one time the stuck items first. -/
def stuckFirst (time : α → ι) (stuck : α → Bool) (a b : α) : Bool :=
  time a < time b || (time a = time b && (stuck a || !stuck b))

theorem stuckFirst_trans {a b c : α} (hab : stuckFirst time stuck a b = true)
    (hbc : stuckFirst time stuck b c = true) : stuckFirst time stuck a c = true := by
  simp only [stuckFirst, Bool.or_eq_true, Bool.and_eq_true, decide_eq_true_eq,
    Bool.not_eq_true'] at hab hbc ⊢
  cases hab with
  | inl hlt =>
      cases hbc with
      | inl hlt' => exact .inl (hlt.trans hlt')
      | inr heq => exact .inl (heq.1 ▸ hlt)
  | inr heq =>
      cases hbc with
      | inl hlt => exact .inl (heq.1 ▸ hlt)
      | inr heq' =>
          refine .inr ⟨heq.1.trans heq'.1, ?_⟩
          cases heq.2 with
          | inl hstuck => exact .inl hstuck
          | inr hb =>
              cases heq'.2 with
              | inl hb' => rw [hb] at hb'; contradiction
              | inr hc => exact .inr hc

theorem stuckFirst_total (a b : α) :
    (stuckFirst time stuck a b || stuckFirst time stuck b a) = true := by
  simp only [stuckFirst]
  obtain hlt | heq | hlt := lt_trichotomy (time a) (time b)
  · simp [hlt]
  · cases stuck a <;> cases stuck b <;> simp [heq]
  · simp [hlt]

/-- A crowded item stays behind, if the stuck ones of its time come first. -/
theorem mem_remaining_of_crowd (hsorted : order.Pairwise fun a b => stuckFirst time stuck a b)
    (ha : a ∈ order) (hmovable : stuck a = false) (hcrowd : size ≤ crowd time stuck order a) :
    a ∈ remaining stuck size order := by
  have hsplit : a ∈ order.take size ++ order.drop size := by rwa [List.take_append_drop]
  cases List.mem_append.mp hsplit with
  | inr hdrop => exact List.mem_append_right _ hdrop
  | inl htake =>
      obtain ⟨before, behind, hbatch⟩ := List.append_of_mem htake
      have horder : order = before ++ a :: (behind ++ order.drop size) := by
        rw [← List.cons_append, ← List.append_assoc, ← hbatch, List.take_append_drop]
      have hshort : before.length < size := by
        have hlength := List.length_take_le size order
        rw [hbatch, List.length_append, List.length_cons] at hlength
        omega
      have hyounger : ∀ b ∈ behind ++ order.drop size,
          ¬ (stuck b && decide (time b ≤ time a)) = true := by
        intro b hb hcounted
        rw [horder] at hsorted
        have hle := (List.pairwise_cons.mp (List.pairwise_append.mp hsorted).2.1).1 b hb
        simp only [stuckFirst, hmovable, Bool.and_eq_true, decide_eq_true_eq] at hle hcounted
        simp only [hcounted.1, Bool.not_true, Bool.or_self, Bool.and_false, Bool.or_false,
          decide_eq_true_eq] at hle
        exact absurd hle (not_lt_of_ge hcounted.2)
      have hbound : crowd time stuck order a ≤ before.length := by
        rw [horder, crowd, List.countP_append, List.countP_cons_of_neg (by simp [hmovable]),
          List.countP_eq_zero.mpr hyounger]
        exact List.countP_le_length
      omega

theorem exists_order_of_crowd (ha : a ∈ waiting) (hmovable : stuck a = false)
    (hcrowd : size ≤ crowd time stuck waiting a) :
    ∃ order, Order time waiting order ∧ a ∈ remaining stuck size order := by
  have hperm := List.mergeSort_perm waiting (stuckFirst time stuck)
  have hsorted : (waiting.mergeSort (stuckFirst time stuck)).Pairwise
      fun a b => stuckFirst time stuck a b :=
    List.pairwise_mergeSort (fun _ _ _ => stuckFirst_trans) stuckFirst_total waiting
  refine ⟨waiting.mergeSort (stuckFirst time stuck), ⟨hperm, ?_⟩, ?_⟩
  · refine hsorted.imp ?_
    intro a b hab
    simp only [stuckFirst, Bool.or_eq_true, Bool.and_eq_true, decide_eq_true_eq] at hab
    cases hab with
    | inl hlt => exact hlt.le
    | inr heq => exact heq.1.le
  · apply mem_remaining_of_crowd hsorted (hperm.mem_iff.mpr ha) hmovable
    rwa [crowd_congr hperm]

end Blocked

end BatchQueue
