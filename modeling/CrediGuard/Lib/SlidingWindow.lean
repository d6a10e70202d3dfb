import Mathlib.Algebra.Order.Group.Defs
import Mathlib.Data.List.Basic
import Mathlib.Data.List.Induction
import Mathlib.Tactic.Linarith

/-!
A quota per key over a sliding window.

Every attempt counts, the refused ones too. A log is metered when each attempt was
admitted just if fewer than the limit were made in the window that ends with it; in no
window are more than the limit admitted then.
-/

namespace SlidingWindow
universe u v
variable {α : Type u} {κ : Type u} {τ : Type v}

/-- `P` holds of every entry and the entries before it. -/
def EachEntry (P : List α → α → Prop) (log : List α) : Prop :=
  ∀ before a after, log = before ++ a :: after → P before a

theorem eachEntry_nil {P : List α → α → Prop} : EachEntry P [] := by
  intro before a after h
  simp at h

theorem eachEntry_concat {P : List α → α → Prop} {log : List α} {a : α} :
    EachEntry P (log ++ [a]) ↔ EachEntry P log ∧ P log a := by
  constructor
  · intro h
    refine ⟨?_, h log a [] rfl⟩
    intro before b after hlog
    refine h before b (after ++ [a]) ?_
    rw [hlog, List.append_assoc, List.cons_append]
  · rintro ⟨hlog, ha⟩ before b after h
    cases List.eq_nil_or_concat after with
    | inl hnil =>
        rw [hnil] at h
        obtain ⟨rfl, hb⟩ := List.append_inj' h rfl
        obtain rfl := List.head_eq_of_cons_eq hb
        exact ha
    | inr hlast =>
        obtain ⟨init, c, rfl⟩ := hlast
        rw [List.concat_eq_append] at h
        have h' : log ++ [a] = (before ++ b :: init) ++ [c] := by
          rw [h, List.append_assoc, List.cons_append]
        exact hlog before b init (List.append_inj' h' rfl).1

structure Attempt (κ : Type u) (τ : Type v) where
  key : κ
  time : τ
  admitted : Bool

variable [DecidableEq κ] [LinearOrder τ]

/-- The attempts of the key after a time. -/
def recent (key : κ) (since : τ) (log : List (Attempt κ τ)) : List (Attempt κ τ) :=
  log.filter fun a => a.key = key && since < a.time

variable [AddCommGroup τ]

/-- The attempts that were admitted in the window that ends at `t`. -/
def admittedIn (window : κ → τ) (key : κ) (t : τ) (log : List (Attempt κ τ)) :
    List (Attempt κ τ) :=
  log.filter fun a => a.key = key && a.admitted && t - window key < a.time && a.time ≤ t

def Metered (limit : κ → Int) (window : κ → τ) : List (Attempt κ τ) → Prop :=
  EachEntry fun before a =>
    a.admitted = true ↔
      ((recent a.key (a.time - window a.key) before).length : Int) < limit a.key

variable {limit : κ → Int} {window : κ → τ} {log : List (Attempt κ τ)} {a : Attempt κ τ}

variable [IsOrderedAddMonoid τ]

theorem Metered.bounded (h : Metered limit window log) (key : κ) (t : τ) :
    ((admittedIn window key t log).length : Int) ≤ max 0 (limit key) := by
  induction log using List.reverseRecOn with
  | nil => exact le_max_left ..
  | append_singleton log a ih =>
      obtain ⟨hlog, ha⟩ := eachEntry_concat.mp h
      have hold := ih hlog
      by_cases hin : (a.key = key && a.admitted && t - window key < a.time && a.time ≤ t) = true
      · have hlast : admittedIn window key t (log ++ [a]) = admittedIn window key t log ++ [a] := by
          rw [admittedIn, List.filter_append, List.filter_singleton, hin]
          rfl
        rw [hlast, List.length_append, List.length_singleton]
        simp only [Bool.and_eq_true, decide_eq_true_eq] at hin
        obtain ⟨⟨⟨rfl, hadmitted⟩, _⟩, hle⟩ := hin
        -- the window of the attempt reaches back further than the one that ends at `t`
        have hsub : (admittedIn window a.key t log).length ≤
            (recent a.key (a.time - window a.key) log).length := by
          refine (List.monotone_filter_right _ ?_).length_le
          intro x hx
          simp only [Bool.and_eq_true, decide_eq_true_eq] at hx ⊢
          exact ⟨hx.1.1.1, (sub_le_sub_right hle _).trans_lt hx.1.2⟩
        have hlimit := ha.mp hadmitted
        have := le_max_right 0 (limit a.key)
        omega
      · have hlast : admittedIn window key t (log ++ [a]) = admittedIn window key t log := by
          rw [admittedIn, List.filter_append, List.filter_singleton, Bool.eq_false_iff.mpr hin]
          exact List.append_nil _
        rw [hlast]
        exact hold

end SlidingWindow
