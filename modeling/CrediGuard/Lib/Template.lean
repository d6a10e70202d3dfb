import Mathlib.Data.List.MinMax
import Mathlib.Data.List.Infix

/-!
Templates of segments, where a hole stands for any one segment that fills it, and
the choice of the most specific of those that match.
-/

namespace Template

section Most
variable {α : Type} {f : α → Nat} {p : α → Bool} {xs : List α} {a : α}

/-- Where no two that are eligible are equally specific, the choice is the greatest. -/
theorem maxOn?_filter_eq_some_iff
    (hinj : ∀ a ∈ xs, ∀ b ∈ xs, p a = true → p b = true → f a = f b → a = b) :
    (xs.filter p).maxOn? f = some a ↔
      a ∈ xs ∧ p a = true ∧ ∀ b ∈ xs, p b = true → f b ≤ f a := by
  have hgreatest (a : α) (ha : (xs.filter p).maxOn? f = some a) :
      (a ∈ xs ∧ p a = true) ∧ ∀ b ∈ xs, p b = true → f b ≤ f a := by
    refine ⟨List.mem_filter.mp (List.maxOn?_mem ha), ?_⟩
    intro b hb hpb
    have hle := List.le_apply_get_maxOn?_of_mem (f := f) (List.mem_filter.mpr ⟨hb, hpb⟩)
    rwa [Option.get_of_eq_some _ ha] at hle
  constructor
  · intro h
    obtain ⟨⟨hmem, hp⟩, hmax⟩ := hgreatest a h
    exact ⟨hmem, hp, hmax⟩
  · intro h
    obtain ⟨hmem, hp, hmax⟩ := h
    cases hchoice : (xs.filter p).maxOn? f with
    | none =>
        have hsome := List.isSome_maxOn?_of_mem (f := f) (List.mem_filter.mpr ⟨hmem, hp⟩)
        rw [hchoice] at hsome
        contradiction
    | some b =>
        obtain ⟨⟨hb, hpb⟩, hbmax⟩ := hgreatest b hchoice
        have heq := Nat.le_antisymm (hmax b hb hpb) (hbmax a hmem hp)
        rw [hinj b hb a hmem hpb hp heq]

theorem maxOn?_filter_eq_none_iff :
    (xs.filter p).maxOn? f = none ↔ ∀ a ∈ xs, p a = false := by
  rw [← Option.not_isSome_iff_eq_none, List.isSome_maxOn?_iff, not_not, List.filter_eq_nil_iff]
  simp only [Bool.not_eq_true]

end Most

section Matching
variable {α : Type} [DecidableEq α] (hole : α) (fills : α → Bool)

/-- The template matches the front of the segments. -/
def matchesFront : List α → List α → Bool
  | [], _ => true
  | _ :: _, [] => false
  | t :: ts, s :: ss => (if t = hole then fills s else s = t) && matchesFront ts ss

variable {hole fills} {t s : α} {ts us ss : List α}

theorem matchesFront_cons_iff : matchesFront hole fills (t :: ts) (s :: ss) = true ↔
    (if t = hole then fills s = true else s = t) ∧ matchesFront hole fills ts ss = true := by
  rw [matchesFront, Bool.and_eq_true]
  split
  · rfl
  · rw [decide_eq_true_eq]

theorem exists_cons_of_matchesFront (h : matchesFront hole fills (t :: ts) ss = true) :
    ∃ s rest, ss = s :: rest := by
  cases ss with
  | nil => exact absurd h Bool.false_ne_true
  | cons s rest => exact ⟨s, rest, rfl⟩

/-- The last part of a template that matches as a whole is a hole or the last segment. -/
theorem last_of_matchesFront (h : matchesFront hole fills (ts ++ [t]) (ss ++ [s]) = true)
    (hlength : ts.length = ss.length) : t = hole ∨ s = t := by
  induction ts generalizing ss with
  | nil =>
      obtain rfl := List.length_eq_zero_iff.mp hlength.symm
      rw [List.nil_append, List.nil_append, matchesFront_cons_iff] at h
      by_cases hhole : t = hole
      · exact .inl hhole
      · rw [if_neg hhole] at h
        exact .inr h.1
  | cons u ts ih =>
      cases ss with
      | nil => contradiction
      | cons x ss =>
          rw [List.cons_append, List.cons_append, matchesFront_cons_iff] at h
          exact ih h.2 (Nat.succ.inj hlength)

/-- A template without holes matches what continues it. -/
theorem matchesFront_iff_of_no_hole (h : hole ∉ ts) :
    matchesFront hole fills ts ss = true ↔ ts <+: ss := by
  induction ts generalizing ss with
  | nil => exact iff_of_true rfl List.nil_prefix
  | cons t ts ih =>
      have hplain : t ≠ hole := fun heq => h (heq ▸ List.mem_cons_self)
      cases ss with
      | nil =>
          refine iff_of_false Bool.false_ne_true ?_
          exact fun hnil => absurd (List.prefix_nil.mp hnil) (List.cons_ne_nil t ts)
      | cons s ss =>
          rw [matchesFront_cons_iff, if_neg hplain, ih fun hmem => h (List.mem_cons_of_mem _ hmem),
            List.cons_prefix_cons, eq_comm]

/-- A template matches its own text. -/
theorem matchesFront_of_prefix (hhole : fills hole = true) (h : ts <+: ss) :
    matchesFront hole fills ts ss = true := by
  induction ts generalizing ss with
  | nil => rfl
  | cons t ts ih =>
      obtain ⟨rest, rfl⟩ := h
      rw [List.cons_append, matchesFront_cons_iff]
      refine ⟨?_, ih (List.prefix_append ..)⟩
      split
      · rename_i heq
        rwa [heq]
      · rfl

/-- Position by position, the templates are the same or one has a hole. -/
def Compatible (hole : α) (ts us : List α) : Prop :=
  ∀ p ∈ ts.zip us, p.1 = p.2 ∨ p.1 = hole ∨ p.2 = hole

instance : Decidable (Compatible hole ts us) := inferInstanceAs (Decidable (∀ p ∈ _, _))

/-- Templates that match the same segments are compatible. -/
theorem compatible_of_matchesFront (ht : matchesFront hole fills ts ss = true)
    (hu : matchesFront hole fills us ss = true) : Compatible hole ts us := by
  induction ts generalizing us ss with
  | nil => exact fun p hp => absurd hp List.not_mem_nil
  | cons t ts ih =>
      cases us with
      | nil => exact fun p hp => absurd hp List.not_mem_nil
      | cons u us =>
          obtain ⟨s, rest, rfl⟩ := exists_cons_of_matchesFront ht
          rw [matchesFront_cons_iff] at ht hu
          intro p hp
          cases List.mem_cons.mp hp with
          | inl hhead =>
              subst hhead
              by_cases hthole : t = hole
              · exact .inr (.inl hthole)
              · by_cases huhole : u = hole
                · exact .inr (.inr huhole)
                · rw [if_neg hthole] at ht
                  rw [if_neg huhole] at hu
                  exact .inl (ht.1.symm.trans hu.1)
          | inr htail => exact ih ht.2 hu.2 p htail

end Matching

end Template
