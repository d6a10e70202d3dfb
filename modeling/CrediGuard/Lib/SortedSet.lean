import Mathlib.Data.List.Nodup
import Mathlib.Data.List.Perm.Subperm
import Mathlib.Order.Lattice

/-!
Redis sorted sets with a time to live.

A key without a sorted set reads as the empty one. Members are unique: adding
one that is there only changes its score.
-/

universe u v w

structure SortedSet (μ : Type u) (σ : Type v) (τ : Type w) where
  entries : List (μ × σ)
  nodup : (entries.map Prod.fst).Nodup
  expiresAt : Option τ

namespace SortedSet
variable {μ : Type u} {σ : Type v} {τ : Type w}

section Commands

def empty : SortedSet μ σ τ := ⟨[], List.nodup_nil, none⟩

def members (z : SortedSet μ σ τ) : List μ := z.entries.map Prod.fst

def zcard (z : SortedSet μ σ τ) : Nat := z.entries.length

/-- The set as a command at the time `now` finds it. -/
def live [LinearOrder τ] (z : SortedSet μ σ τ) (now : τ) : SortedSet μ σ τ :=
  match z.expiresAt with
  | none => z
  | some deadline => if now < deadline then z else empty

/-- Both bounds are inclusive. A set that gets empty is deleted, with its time to live. -/
def zremrangebyscore [LinearOrder σ] (z : SortedSet μ σ τ) (lo hi : σ) : SortedSet μ σ τ :=
  let kept := z.entries.filter fun e => ¬ (lo ≤ e.2 ∧ e.2 ≤ hi)
  { entries := kept
    nodup := z.nodup.sublist (List.filter_sublist.map _)
    expiresAt := if kept.isEmpty then none else z.expiresAt }

theorem map_fst_rescore [DecidableEq μ] (entries : List (μ × σ)) (member : μ) (score : σ) :
    (entries.map fun e => if e.1 = member then (member, score) else e).map Prod.fst =
      entries.map Prod.fst := by
  induction entries with
  | nil => rfl
  | cons e entries ih =>
      simp only [List.map_cons, ih, List.cons.injEq, and_true]
      split
      · rename_i h
        exact h.symm
      · rfl

def zadd [DecidableEq μ] (z : SortedSet μ σ τ) (member : μ) (score : σ) : SortedSet μ σ τ :=
  if h : member ∈ z.entries.map Prod.fst then
    { entries := z.entries.map fun e => if e.1 = member then (member, score) else e
      nodup := by
        rw [map_fst_rescore]
        exact z.nodup
      expiresAt := z.expiresAt }
  else
    { entries := z.entries ++ [(member, score)]
      nodup := by
        rw [List.map_append, List.map_singleton]
        exact z.nodup.append (List.nodup_singleton _) (List.disjoint_singleton.mpr h)
      expiresAt := z.expiresAt }

/-- There is nothing to expire where there is no set. -/
def expire (z : SortedSet μ σ τ) (deadline : τ) : SortedSet μ σ τ :=
  if z.entries.isEmpty then z else { z with expiresAt := some deadline }

end Commands

section Members
variable {z : SortedSet μ σ τ} {m : μ}

@[simp] theorem members_empty : (empty : SortedSet μ σ τ).members = [] := rfl

theorem nodup_members (z : SortedSet μ σ τ) : z.members.Nodup := z.nodup

theorem zcard_eq_length_members (z : SortedSet μ σ τ) : z.zcard = z.members.length :=
  (List.length_map ..).symm

/-- Members that are named without repetition are all counted. -/
theorem length_le_zcard {ms : List μ} (hnodup : ms.Nodup) (h : ∀ m ∈ ms, m ∈ z.members) :
    ms.length ≤ z.zcard := by
  rw [zcard_eq_length_members]
  exact (hnodup.subperm h).length_le

theorem zcard_le_length {ms : List μ} (h : ∀ m ∈ z.members, m ∈ ms) : z.zcard ≤ ms.length := by
  rw [zcard_eq_length_members]
  exact (z.nodup_members.subperm h).length_le

theorem zcard_eq_length {ms : List μ} (hnodup : ms.Nodup) (h : ∀ m, m ∈ z.members ↔ m ∈ ms) :
    z.zcard = ms.length :=
  Nat.le_antisymm (zcard_le_length fun m => (h m).mp) (length_le_zcard hnodup fun m => (h m).mpr)

@[simp] theorem entries_expire (deadline : τ) : (z.expire deadline).entries = z.entries := by
  rw [expire]
  split <;> rfl

theorem mem_live [LinearOrder τ] {now : τ} (h : m ∈ (z.live now).members) : m ∈ z.members := by
  rw [live] at h
  split at h
  · exact h
  · split at h
    · exact h
    · exact absurd h List.not_mem_nil

/-- A set that is given a deadline is found until then, and no longer. -/
theorem mem_live_expire [LinearOrder τ] {deadline now : τ} :
    m ∈ ((z.expire deadline).live now).members ↔ now < deadline ∧ m ∈ z.members := by
  cases hz : z.entries with
  | nil =>
      have hmembers : z.members = [] := by simp only [members, hz, List.map_nil]
      have hexpire : z.expire deadline = z := if_pos (by rw [hz]; rfl)
      rw [hexpire, hmembers]
      constructor
      · intro h
        have hm := mem_live h
        rw [hmembers] at hm
        exact absurd hm List.not_mem_nil
      · intro h
        exact absurd h.2 List.not_mem_nil
  | cons e entries =>
      have hexpire : z.expire deadline = { z with expiresAt := some deadline } :=
        if_neg (by rw [hz]; exact Bool.false_ne_true)
      rw [hexpire, live]
      by_cases hnow : now < deadline
      · simp only [hnow, if_true, true_and]
        rfl
      · simp only [hnow, if_false, false_and, members_empty, List.not_mem_nil]

theorem mem_zadd [DecidableEq μ] {member : μ} {score : σ} :
    m ∈ (z.zadd member score).members ↔ m = member ∨ m ∈ z.members := by
  rw [zadd]
  split
  · rename_i hmem
    rw [members, map_fst_rescore, members]
    constructor
    · exact .inr
    · intro h
      cases h with
      | inl heq => rwa [heq]
      | inr h => exact h
  · rw [members, List.map_append, List.map_singleton, List.mem_append, List.mem_singleton]
    exact or_comm

end Members

section Scores
variable {z : SortedSet μ σ τ} {f : μ → σ} {m : μ}

/-- The score of a member is known from the member. -/
def ScoredBy (f : μ → σ) (z : SortedSet μ σ τ) : Prop := ∀ e ∈ z.entries, e.2 = f e.1

theorem scoredBy_empty : ScoredBy f (empty : SortedSet μ σ τ) := by
  intro e he
  exact absurd he List.not_mem_nil

theorem ScoredBy.live [LinearOrder τ] {now : τ} (h : z.ScoredBy f) : (z.live now).ScoredBy f := by
  rw [SortedSet.live]
  split
  · exact h
  · split
    · exact h
    · exact scoredBy_empty

theorem ScoredBy.zremrangebyscore [LinearOrder σ] {lo hi : σ} (h : z.ScoredBy f) :
    (z.zremrangebyscore lo hi).ScoredBy f :=
  fun e he => h e (List.mem_of_mem_filter he)

theorem ScoredBy.zadd [DecidableEq μ] {member : μ} (h : z.ScoredBy f) :
    (z.zadd member (f member)).ScoredBy f := by
  rw [SortedSet.zadd]
  split
  · intro e he
    obtain ⟨e', he', rfl⟩ := List.mem_map.mp he
    split
    · rfl
    · exact h e' he'
  · intro e he
    cases List.mem_append.mp he with
    | inl he => exact h e he
    | inr he =>
        obtain rfl := List.mem_singleton.mp he
        rfl

theorem ScoredBy.expire {deadline : τ} (h : z.ScoredBy f) : (z.expire deadline).ScoredBy f := by
  intro e he
  rw [entries_expire] at he
  exact h e he

theorem mem_zremrangebyscore [LinearOrder σ] {lo hi : σ} (h : z.ScoredBy f) :
    m ∈ (z.zremrangebyscore lo hi).members ↔ m ∈ z.members ∧ ¬ (lo ≤ f m ∧ f m ≤ hi) := by
  simp only [members, SortedSet.zremrangebyscore, List.mem_map, List.mem_filter, decide_eq_true_eq]
  constructor
  · intro ⟨e, ⟨he, hscore⟩, hm⟩
    rw [h e he, hm] at hscore
    exact ⟨⟨e, he, hm⟩, hscore⟩
  · intro ⟨⟨e, he, hm⟩, hscore⟩
    refine ⟨e, ⟨he, ?_⟩, hm⟩
    rwa [h e he, hm]

end Scores

end SortedSet
