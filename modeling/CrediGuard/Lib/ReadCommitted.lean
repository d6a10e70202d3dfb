import Mathlib.Data.List.Basic
import Mathlib.Data.List.Perm.Lattice
import Mathlib.Data.List.Pairwise

/-!
Tables of a READ COMMITTED store.

A table keeps its committed rows and the writes of the transactions that are
still open. A statement of transaction `t` sees the rows that are committed when
it runs and the effect of `t`'s own writes, never those of another open
transaction. Updates are applied, at commit, to the rows committed then.

A unique index is a symmetric relation `clash` between rows. An insert waits
while an open transaction has inserted a clashing row, and fails when a visible
row clashes; `Unique` is the invariant this keeps.
-/

namespace ReadCommitted
universe u v
variable {τ : Type u} {ρ : Type v}

inductive Write (ρ : Type v) where
  | insert (row : ρ)
  | update (change : ρ → ρ)

def Write.apply : Write ρ → List ρ → List ρ
  | .insert r, rows => rows ++ [r]
  | .update f, rows => rows.map f

def Write.inserted? : Write ρ → Option ρ
  | .insert r => some r
  | .update _ => none

@[simp] theorem apply_insert (r : ρ) (rows : List ρ) :
    (Write.insert r).apply rows = rows ++ [r] := rfl

@[simp] theorem apply_update (f : ρ → ρ) (rows : List ρ) :
    (Write.update f).apply rows = rows.map f := rfl

@[simp] theorem inserted?_insert (r : ρ) : (Write.insert r).inserted? = some r := rfl

@[simp] theorem inserted?_update (f : ρ → ρ) : (Write.update f).inserted? = none := rfl

def applyAll (ws : List (Write ρ)) (rows : List ρ) : List ρ :=
  ws.foldl (fun rs w => w.apply rs) rows

@[simp] theorem applyAll_nil (rows : List ρ) : applyAll [] rows = rows := rfl

@[simp] theorem applyAll_cons (w : Write ρ) (ws : List (Write ρ)) (rows : List ρ) :
    applyAll (w :: ws) rows = applyAll ws (w.apply rows) := rfl

structure Table (τ : Type u) (ρ : Type v) where
  committed : List ρ
  pending : List (τ × Write ρ) := []

namespace Table

/-- Every row the store holds, committed or inserted by an open transaction. -/
def rows (T : Table τ ρ) : List ρ :=
  T.committed ++ T.pending.filterMap fun p => p.2.inserted?

def Unique (clash : ρ → ρ → Bool) (T : Table τ ρ) : Prop :=
  T.rows.Pairwise fun a b => clash a b = false

theorem Unique.committed {clash : ρ → ρ → Bool} {T : Table τ ρ} (h : T.Unique clash) :
    T.committed.Pairwise fun a b => clash a b = false :=
  (List.pairwise_append.mp h).1

/-- Of rows that do not clash with each other, two that do are one row. -/
theorem eq_of_clash {clash : ρ → ρ → Bool} {rows : List ρ}
    (h : rows.Pairwise fun a b => clash a b = false)
    (hsymm : ∀ a b, clash a b = clash b a) {a b : ρ} (ha : a ∈ rows) (hb : b ∈ rows)
    (hclash : clash a b = true) : a = b := by
  by_contra hne
  have : Std.Symm fun a b => clash a b = false := ⟨fun a b hab => by rw [hsymm]; exact hab⟩
  have hfalse := h.forall ha hb hne
  simp [hclash] at hfalse

/-- Two committed rows that clash are one row. -/
theorem Unique.eq_of_clash {clash : ρ → ρ → Bool} {T : Table τ ρ} (h : T.Unique clash)
    (hsymm : ∀ a b, clash a b = clash b a) {a b : ρ} (ha : a ∈ T.committed)
    (hb : b ∈ T.committed) (hclash : clash a b = true) : a = b :=
  Table.eq_of_clash h.committed hsymm ha hb hclash

/-- Of rows that all clash with each other one at most is committed. -/
theorem Unique.length_filter_le_one {clash : ρ → ρ → Bool} {T : Table τ ρ} (h : T.Unique clash)
    {p : ρ → Bool} (hp : ∀ a b, p a = true → p b = true → clash a b = true) :
    (T.committed.filter p).length ≤ 1 := by
  have hpair := h.committed.filter p
  match hrows : T.committed.filter p with
  | [] => exact Nat.zero_le _
  | [a] => exact Nat.le_refl _
  | a :: b :: rest =>
      rw [hrows] at hpair
      have hclash := List.rel_of_pairwise_cons hpair (List.mem_cons_self ..)
      have ha : a ∈ T.committed.filter p := by rw [hrows]; exact List.mem_cons_self ..
      have hb : b ∈ T.committed.filter p := by
        rw [hrows]
        exact List.mem_cons_of_mem _ (List.mem_cons_self ..)
      rw [hp a b (List.mem_filter.mp ha).2 (List.mem_filter.mp hb).2] at hclash
      exact absurd hclash nofun

/-- The row that a query by an indexed column finds. -/
theorem Unique.filter_eq_singleton {clash : ρ → ρ → Bool} {T : Table τ ρ} (h : T.Unique clash)
    {p : ρ → Bool} (hp : ∀ a b, p a = true → p b = true → clash a b = true) {r : ρ}
    (hr : r ∈ T.committed) (hpr : p r = true) : T.committed.filter p = [r] := by
  have hlength := h.length_filter_le_one hp
  have hmem : r ∈ T.committed.filter p := List.mem_filter.mpr ⟨hr, hpr⟩
  match hrows : T.committed.filter p with
  | [] =>
      rw [hrows] at hmem
      exact absurd hmem List.not_mem_nil
  | [a] =>
      rw [hrows] at hmem
      rw [List.mem_singleton.mp hmem]
  | a :: b :: rest =>
      rw [hrows] at hlength
      exact absurd hlength (by simp)

def write (T : Table τ ρ) (t : τ) (w : Write ρ) : Table τ ρ :=
  { T with pending := T.pending ++ [(t, w)] }

@[simp] theorem committed_write (T : Table τ ρ) (t : τ) (w : Write ρ) :
    (T.write t w).committed = T.committed := rfl

theorem rows_write (T : Table τ ρ) (t : τ) (w : Write ρ) :
    (T.write t w).rows = T.rows ++ (w.inserted?).toList := by
  cases w <;> simp [rows, write, List.filterMap_append]

theorem Unique.update {clash : ρ → ρ → Bool} {T : Table τ ρ} (t : τ) (f : ρ → ρ)
    (h : T.Unique clash) : (T.write t (.update f)).Unique clash := by
  unfold Unique
  rw [rows_write]
  simpa [Unique] using h

variable [DecidableEq τ]

def writes (T : Table τ ρ) (t : τ) : List (Write ρ) :=
  (T.pending.filter fun p => p.1 = t).map Prod.snd

/-- The rows a statement of transaction `t` sees. -/
def visible (T : Table τ ρ) (t : τ) : List ρ :=
  applyAll (T.writes t) T.committed

def commit (T : Table τ ρ) (t : τ) : Table τ ρ :=
  ⟨T.visible t, T.pending.filter fun p => p.1 ≠ t⟩

def rollback (T : Table τ ρ) (t : τ) : Table τ ρ :=
  ⟨T.committed, T.pending.filter fun p => p.1 ≠ t⟩

/-- Rows inserted by open transactions other than `t`. -/
def openInserts (T : Table τ ρ) (t : τ) : List ρ :=
  (T.pending.filter fun p => p.1 ≠ t).filterMap fun p => p.2.inserted?

inductive Insert (τ : Type u) (ρ : Type v) where
  | waits
  | violates
  | done (table : Table τ ρ)

def insert (clash : ρ → ρ → Bool) (T : Table τ ρ) (t : τ) (r : ρ) : Insert τ ρ :=
  if (T.openInserts t).any (clash r) then .waits
  else if (T.visible t).any (clash r) then .violates
  else .done (T.write t (.insert r))

@[simp] theorem committed_rollback (T : Table τ ρ) (t : τ) :
    (T.rollback t).committed = T.committed := rfl

@[simp] theorem committed_commit (T : Table τ ρ) (t : τ) :
    (T.commit t).committed = applyAll (T.writes t) T.committed := rfl

theorem writes_write (T : Table τ ρ) (t u : τ) (w : Write ρ) :
    (T.write t w).writes u = T.writes u ++ if t = u then [w] else [] := by
  by_cases h : t = u <;> simp [writes, write, h]

@[simp] theorem writes_write_self (T : Table τ ρ) (t : τ) (w : Write ρ) :
    (T.write t w).writes t = T.writes t ++ [w] := by
  simp [writes_write]

theorem writes_write_of_ne (T : Table τ ρ) {t u : τ} (w : Write ρ) (h : t ≠ u) :
    (T.write t w).writes u = T.writes u := by
  simp [writes_write, h]

theorem writes_commit (T : Table τ ρ) (t u : τ) :
    (T.commit t).writes u = if t = u then [] else T.writes u := by
  by_cases h : t = u
  · subst h
    simp [writes, commit, List.filter_filter]
  · simp only [writes, commit, List.filter_filter, h, if_false]
    congr 1
    apply List.filter_congr
    intro p _
    by_cases hp : p.1 = u <;> simp [hp, Ne.symm h]

theorem writes_rollback (T : Table τ ρ) (t u : τ) :
    (T.rollback t).writes u = if t = u then [] else T.writes u :=
  T.writes_commit t u

@[simp] theorem writes_commit_self (T : Table τ ρ) (t : τ) : (T.commit t).writes t = [] := by
  simp [writes_commit]

@[simp] theorem writes_rollback_self (T : Table τ ρ) (t : τ) :
    (T.rollback t).writes t = [] := by
  simp [writes_rollback]

@[simp] theorem rollback_write (T : Table τ ρ) (t : τ) (w : Write ρ) :
    (T.write t w).rollback t = T.rollback t := by
  simp [write, rollback]

theorem rollback_of_pending_nil {T : Table τ ρ} (t : τ) (h : T.pending = []) :
    T.rollback t = T := by
  cases T
  simp_all [rollback]

theorem commit_of_pending_nil {T : Table τ ρ} (t : τ) (h : T.pending = []) :
    T.commit t = T := by
  cases T
  simp_all [commit, visible, writes]

theorem writes_of_pending_nil {T : Table τ ρ} (t : τ) (h : T.pending = []) :
    T.writes t = [] := by
  simp [writes, h]

/-- The only open transaction inserts a row and commits. -/
theorem commit_write_of_pending_nil {T : Table τ ρ} (t : τ) (h : T.pending = []) (r : ρ) :
    (T.write t (.insert r)).commit t = ⟨T.committed ++ [r], []⟩ := by
  simp [commit, visible, writes, write, h]

theorem visible_of_writes_nil {T : Table τ ρ} {t : τ} (h : T.writes t = []) :
    T.visible t = T.committed := by
  simp [visible, h]

/-- A transaction sees what it writes. -/
theorem visible_write_self (T : Table τ ρ) (t : τ) (w : Write ρ) :
    (T.write t w).visible t = w.apply (T.visible t) := by
  simp [visible, applyAll, writes_write_self]

theorem insert_eq_done {clash : ρ → ρ → Bool} {T T' : Table τ ρ} {t : τ} {r : ρ}
    (h : T.insert clash t r = .done T') :
    T' = T.write t (.insert r) ∧ (∀ a ∈ T.openInserts t, clash r a = false) ∧
      ∀ a ∈ T.visible t, clash r a = false := by
  unfold insert at h
  split at h
  · contradiction
  · rename_i hopen
    split at h
    · contradiction
    · rename_i hvis
      refine ⟨(Insert.done.inj h).symm, ?_, ?_⟩
      · simpa using hopen
      · simpa using hvis

/-- A transaction's own writes are in nobody's way but its own. -/
theorem openInserts_write (T : Table τ ρ) (t : τ) (w : Write ρ) :
    (T.write t w).openInserts t = T.openInserts t := by
  simp [openInserts, write, List.filter_append]

theorem openInserts_of_pending_nil {T : Table τ ρ} (t : τ) (h : T.pending = []) :
    T.openInserts t = [] := by
  simp [openInserts, h]

section Alone
variable {clash : ρ → ρ → Bool} {T : Table τ ρ} {t : τ} {r : ρ}

theorem insert_of_free (hopen : T.openInserts t = [])
    (hfree : ∀ a ∈ T.visible t, clash r a = false) :
    T.insert clash t r = .done (T.write t (.insert r)) := by
  have hvisible : (T.visible t).any (clash r) = false := by simpa using hfree
  simp only [insert, hopen, List.any_nil, hvisible, Bool.false_eq_true, if_false]

theorem insert_of_clash {a : ρ} (hopen : T.openInserts t = []) (ha : a ∈ T.visible t)
    (hclash : clash r a = true) : T.insert clash t r = .violates := by
  have hvisible : (T.visible t).any (clash r) = true := List.any_eq_true.mpr ⟨a, ha, hclash⟩
  simp only [insert, hopen, List.any_nil, hvisible, Bool.false_eq_true, if_false, if_true]

end Alone

end Table

/-- The updates of `ws` do not touch the indexed columns. -/
def Keeps (clash : ρ → ρ → Bool) (ws : List (Write ρ)) : Prop :=
  ∀ f, Write.update f ∈ ws → ∀ a b, clash (f a) b = clash a b

theorem pairwise_applyAll {clash : ρ → ρ → Bool} (hsymm : ∀ a b, clash a b = clash b a)
    {ws : List (Write ρ)} (hkeeps : Keeps clash ws) (rows others : List ρ) :
    (applyAll ws rows ++ others).Pairwise (fun a b => clash a b = false) ↔
      (rows ++ ws.filterMap Write.inserted? ++ others).Pairwise
        fun a b => clash a b = false := by
  induction ws generalizing rows with
  | nil => simp
  | cons w ws ih =>
      have hrest : Keeps clash ws := fun f hf => hkeeps f (List.mem_cons_of_mem _ hf)
      cases w with
      | insert r =>
          rw [applyAll_cons, ih hrest]
          simp [List.append_assoc]
      | update f =>
          have hf := hkeeps f (List.mem_cons_self ..)
          have hff (a b : ρ) : clash (f a) (f b) = clash a b := by
            rw [hf, hsymm, hf, hsymm]
          rw [applyAll_cons, ih hrest, List.filterMap_cons_none (inserted?_update f)]
          simp [List.pairwise_append, List.pairwise_map, hff, hf]

namespace Table
variable [DecidableEq τ]

theorem mem_rows_of_mem_visible_insert {clash : ρ → ρ → Bool} {T : Table τ ρ} {t : τ} {r : ρ}
    (hsymm : ∀ a b, clash a b = clash b a) (hkeeps : Keeps clash (T.writes t))
    (hopen : ∀ a ∈ T.openInserts t, clash r a = false)
    (hvis : ∀ a ∈ T.visible t, clash r a = false) :
    ∀ a ∈ T.rows, clash a r = false := by
  have hown : ∀ a ∈ T.committed ++ (T.writes t).filterMap Write.inserted?,
      clash a r = false := by
    have step (ws : List (Write ρ)) (rows : List ρ) (hk : Keeps clash ws)
        (h : ∀ a ∈ applyAll ws rows, clash r a = false) :
        ∀ a ∈ rows ++ ws.filterMap Write.inserted?, clash a r = false := by
      induction ws generalizing rows with
      | nil =>
          intro a ha
          rw [hsymm]
          exact h a (by simpa using ha)
      | cons w ws ih =>
          have hk' : Keeps clash ws := fun f hf => hk f (List.mem_cons_of_mem _ hf)
          have hrec := ih (w.apply rows) hk' h
          cases w with
          | insert x => simpa [List.append_assoc] using hrec
          | update f =>
              have hf := hk f (List.mem_cons_self ..)
              intro a ha
              rcases List.mem_append.mp ha with ha | ha
              · rw [← hf]
                exact hrec (f a) (List.mem_append_left _ (List.mem_map_of_mem ha))
              · exact hrec a (List.mem_append_right _ ha)
    exact step (T.writes t) T.committed hkeeps hvis
  intro a ha
  rcases List.mem_append.mp ha with ha | ha
  · exact hown a (List.mem_append_left _ ha)
  · obtain ⟨p, hp, hins⟩ := List.mem_filterMap.mp ha
    by_cases ht : p.1 = t
    · refine hown a (List.mem_append_right _ ?_)
      refine List.mem_filterMap.mpr ⟨p.2, ?_, hins⟩
      exact List.mem_map.mpr ⟨p, List.mem_filter.mpr ⟨hp, by simpa using ht⟩, rfl⟩
    · rw [hsymm]
      refine hopen a (List.mem_filterMap.mpr ⟨p, ?_, hins⟩)
      exact List.mem_filter.mpr ⟨hp, by simpa using ht⟩

/-- An insert that no row clashes with keeps every coarser index. -/
theorem Unique.insert_of_imp {clash clash' : ρ → ρ → Bool} {T T' : Table τ ρ} {t : τ} {r : ρ}
    (himp : ∀ a b, clash a b = false → clash' a b = false)
    (hsymm : ∀ a b, clash' a b = clash' b a) (hkeeps : Keeps clash' (T.writes t))
    (h : T.Unique clash') (hins : T.insert clash t r = .done T') : T'.Unique clash' := by
  obtain ⟨rfl, hopen, hvis⟩ := insert_eq_done hins
  unfold Unique
  rw [rows_write]
  refine List.pairwise_append.mpr ⟨h, by simp, ?_⟩
  intro a ha b hb
  obtain rfl : b = r := by simpa using hb
  exact mem_rows_of_mem_visible_insert hsymm hkeeps (fun a ha => himp _ _ (hopen a ha))
    (fun a ha => himp _ _ (hvis a ha)) a ha

theorem Unique.insert {clash : ρ → ρ → Bool} {T T' : Table τ ρ} {t : τ} {r : ρ}
    (hsymm : ∀ a b, clash a b = clash b a) (hkeeps : Keeps clash (T.writes t))
    (h : T.Unique clash) (hins : T.insert clash t r = .done T') : T'.Unique clash :=
  h.insert_of_imp (fun _ _ h => h) hsymm hkeeps hins

theorem Unique.rollback {clash : ρ → ρ → Bool} {T : Table τ ρ} (t : τ)
    (h : T.Unique clash) : (T.rollback t).Unique clash := by
  refine List.Pairwise.sublist ?_ h
  refine List.Sublist.append (List.Sublist.refl _) ?_
  exact List.Sublist.filterMap _ List.filter_sublist

theorem Unique.commit {clash : ρ → ρ → Bool} {T : Table τ ρ} (t : τ)
    (hsymm : ∀ a b, clash a b = clash b a) (hkeeps : Keeps clash (T.writes t))
    (h : T.Unique clash) : (T.commit t).Unique clash := by
  unfold Unique rows Table.commit visible
  rw [pairwise_applyAll hsymm hkeeps]
  refine (List.Perm.pairwise_iff ?_ ?_).mp h
  · intro a b hab
    rw [hsymm]
    exact hab
  · unfold rows
    rw [List.append_assoc]
    refine List.Perm.append_left _ ?_
    have hsplit := List.filter_append_perm (fun p : τ × Write ρ => decide (p.1 = t)) T.pending
    have hmap := (hsplit.filterMap fun p => p.2.inserted?).symm
    rw [List.filterMap_append] at hmap
    simpa [writes, List.filterMap_map, Function.comp_def] using hmap

end Table
end ReadCommitted
