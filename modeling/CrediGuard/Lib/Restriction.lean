import CrediGuard.Lib.ReadCommitted

/-!
A table seen by some of its transactions.

`restrict` keeps the rows and the transactions of a party. Where the party's
transactions insert rows of the party and the others' do not, the restricted table
does for the party what the whole table does: it shows the party's rows, commits and
rolls back alike, and takes an insert alike when no row of the others clashes with it.
-/

namespace ReadCommitted.Table
universe u v
variable {τ : Type u} {ρ : Type v}

def restrict (keepRow : ρ → Bool) (keepTx : τ → Bool) (T : Table τ ρ) : Table τ ρ :=
  ⟨T.committed.filter keepRow, T.pending.filter fun p => keepTx p.1⟩

/-- The writes insert rows of the party, or rows of the others. -/
def InsertsOnly (keepRow : ρ → Bool) (kept : Bool) (ws : List (Write ρ)) : Prop :=
  ∀ w ∈ ws, ∃ r, w = .insert r ∧ keepRow r = kept

section Writes
variable {keepRow : ρ → Bool} {kept : Bool} {ws : List (Write ρ)}

theorem filter_applyAll (h : InsertsOnly keepRow true ws) (rows : List ρ) :
    (applyAll ws rows).filter keepRow = applyAll ws (rows.filter keepRow) := by
  induction ws generalizing rows with
  | nil => rfl
  | cons w ws ih =>
      obtain ⟨r, rfl, hr⟩ := h w (List.mem_cons_self ..)
      rw [applyAll_cons, applyAll_cons, ih fun w hw => h w (List.mem_cons_of_mem _ hw),
        apply_insert, apply_insert, List.filter_append, List.filter_cons_of_pos hr,
        List.filter_nil]

theorem filter_applyAll_other (h : InsertsOnly keepRow false ws) (rows : List ρ) :
    (applyAll ws rows).filter keepRow = rows.filter keepRow := by
  induction ws generalizing rows with
  | nil => rfl
  | cons w ws ih =>
      obtain ⟨r, rfl, hr⟩ := h w (List.mem_cons_self ..)
      rw [applyAll_cons, ih fun w hw => h w (List.mem_cons_of_mem _ hw), apply_insert,
        List.filter_append, List.filter_cons_of_neg (by simp [hr]), List.filter_nil,
        List.append_nil]

theorem mem_applyAll_of_insertsOnly (h : InsertsOnly keepRow kept ws) {rows : List ρ} {r : ρ}
    (hr : r ∈ applyAll ws rows) : r ∈ rows ∨ keepRow r = kept := by
  induction ws generalizing rows with
  | nil => exact .inl hr
  | cons w ws ih =>
      obtain ⟨x, rfl, hx⟩ := h w (List.mem_cons_self ..)
      cases ih (fun w hw => h w (List.mem_cons_of_mem _ hw)) hr with
      | inr hkept => exact .inr hkept
      | inl hrows =>
          refine (List.mem_append.mp hrows).imp_right fun hlast => ?_
          rw [List.mem_singleton.mp hlast]
          exact hx

end Writes

variable {keepRow : ρ → Bool} {keepTx : τ → Bool} {T : Table τ ρ} {t : τ}

section Kept
variable [DecidableEq τ] (ht : keepTx t = true)
include ht

theorem writes_restrict : (T.restrict keepRow keepTx).writes t = T.writes t := by
  simp only [writes, restrict, List.filter_filter]
  congr 1
  apply List.filter_congr
  intro p _
  by_cases hp : p.1 = t <;> simp [hp, ht]

theorem visible_restrict (hown : InsertsOnly keepRow true (T.writes t)) :
    (T.restrict keepRow keepTx).visible t = (T.visible t).filter keepRow := by
  rw [visible, writes_restrict ht, visible, filter_applyAll hown]
  rfl

theorem restrict_commit (hown : InsertsOnly keepRow true (T.writes t)) :
    (T.commit t).restrict keepRow keepTx = (T.restrict keepRow keepTx).commit t := by
  have hvisible := visible_restrict ht hown
  simp only [commit, hvisible]
  simp only [restrict, List.filter_filter, Bool.and_comm]

end Kept

theorem restrict_write (ht : keepTx t = true) (w : Write ρ) :
    (T.write t w).restrict keepRow keepTx = (T.restrict keepRow keepTx).write t w := by
  simp [write, restrict, List.filter_append, ht]

theorem restrict_rollback [DecidableEq τ] :
    (T.rollback t).restrict keepRow keepTx = (T.restrict keepRow keepTx).rollback t := by
  simp only [rollback, restrict, List.filter_filter, Bool.and_comm]

section Insert
variable [DecidableEq τ] {clash : ρ → ρ → Bool} {r : ρ}

/-- The others' open inserts are in nobody's way. -/
theorem any_openInserts_restrict
    (hopen : ∀ p ∈ T.pending, ∀ a, p.2.inserted? = some a → keepTx p.1 = false →
      clash r a = false) :
    ((T.restrict keepRow keepTx).openInserts t).any (clash r) =
      (T.openInserts t).any (clash r) := by
  rw [Bool.eq_iff_iff, List.any_eq_true, List.any_eq_true]
  constructor
  · rintro ⟨a, ha, hclash⟩
    obtain ⟨p, hp, hinserted⟩ := List.mem_filterMap.mp ha
    obtain ⟨hp, hne⟩ := List.mem_filter.mp hp
    refine ⟨a, List.mem_filterMap.mpr ⟨p, ?_, hinserted⟩, hclash⟩
    exact List.mem_filter.mpr ⟨(List.mem_filter.mp hp).1, hne⟩
  · rintro ⟨a, ha, hclash⟩
    obtain ⟨p, hp, hinserted⟩ := List.mem_filterMap.mp ha
    obtain ⟨hp, hne⟩ := List.mem_filter.mp hp
    refine ⟨a, List.mem_filterMap.mpr ⟨p, ?_, hinserted⟩, hclash⟩
    refine List.mem_filter.mpr ⟨List.mem_filter.mpr ⟨hp, ?_⟩, hne⟩
    by_contra hother
    rw [hopen p hp a hinserted (by simpa using hother)] at hclash
    contradiction

/-- The others' committed rows are in nobody's way. -/
theorem any_visible_restrict (ht : keepTx t = true)
    (hown : InsertsOnly keepRow true (T.writes t))
    (hcommitted : ∀ a ∈ T.committed, keepRow a = false → clash r a = false) :
    ((T.restrict keepRow keepTx).visible t).any (clash r) = (T.visible t).any (clash r) := by
  rw [visible_restrict ht hown, Bool.eq_iff_iff, List.any_eq_true, List.any_eq_true]
  constructor
  · rintro ⟨a, ha, hclash⟩
    exact ⟨a, (List.mem_filter.mp ha).1, hclash⟩
  · rintro ⟨a, ha, hclash⟩
    refine ⟨a, List.mem_filter.mpr ⟨ha, ?_⟩, hclash⟩
    cases mem_applyAll_of_insertsOnly hown ha with
    | inr hkept => exact hkept
    | inl hstored =>
        by_contra hother
        rw [hcommitted a hstored (by simpa using hother)] at hclash
        contradiction

/-- An insert that clashes with no row of the others. -/
theorem insert_restrict (ht : keepTx t = true) (hown : InsertsOnly keepRow true (T.writes t))
    (hopen : ∀ p ∈ T.pending, ∀ a, p.2.inserted? = some a → keepTx p.1 = false →
      clash r a = false)
    (hcommitted : ∀ a ∈ T.committed, keepRow a = false → clash r a = false) :
    (T.restrict keepRow keepTx).insert clash t r =
      match T.insert clash t r with
      | .waits => .waits
      | .violates => .violates
      | .done T' => .done (T'.restrict keepRow keepTx) := by
  rw [insert, insert, any_openInserts_restrict hopen, any_visible_restrict ht hown hcommitted]
  split
  · rfl
  · split
    · rfl
    · rw [← restrict_write ht]

end Insert

theorem restrict_write_other (ht : keepTx t = false) (w : Write ρ) :
    (T.write t w).restrict keepRow keepTx = T.restrict keepRow keepTx := by
  simp [write, restrict, List.filter_append, ht]

section Others
variable [DecidableEq τ] (ht : keepTx t = false)
include ht

theorem filter_pending_other :
    (T.pending.filter fun p => p.1 ≠ t).filter (fun p => keepTx p.1) =
      T.pending.filter fun p => keepTx p.1 := by
  rw [List.filter_filter]
  apply List.filter_congr
  intro p _
  by_cases hp : p.1 = t <;> simp [hp, ht]

theorem restrict_commit_other (hown : InsertsOnly keepRow false (T.writes t)) :
    (T.commit t).restrict keepRow keepTx = T.restrict keepRow keepTx := by
  simp only [restrict, commit, visible, filter_applyAll_other hown, filter_pending_other ht]

theorem restrict_rollback_other :
    (T.rollback t).restrict keepRow keepTx = T.restrict keepRow keepTx := by
  simp only [restrict, rollback, filter_pending_other ht]

end Others

end ReadCommitted.Table
