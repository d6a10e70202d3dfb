import CrediGuard.Lib.Runs

/-!
Noninterference by unwinding.

Some steps of a system are of a party, the others are of the rest of the world.
`purge` takes the others out of a run. When a relation between states is kept by
the party's steps on both sides, and by the others' on one side alone, the purged
run exists and ends in a related state: what the relation shows of the state was
not influenced by the others.
-/

namespace Runs
universe u v
variable {σ : Type u} {ℓ : Type v} (step : σ → ℓ → Option σ) (keeps : σ → ℓ → Bool)

/-- The labels of a run whose steps `keeps` holds of. -/
def purge : σ → List ℓ → List ℓ
  | _, [] => []
  | s, l :: ls =>
      match step s l with
      | none => []
      | some t => if keeps s l then l :: purge t ls else purge t ls

/-- The unwinding conditions, for steps whose labels meet `L`. -/
structure Unwinds (L : ℓ → Prop) (R : σ → σ → Prop) : Prop where
  kept : ∀ s s' l t, R s s' → L l → keeps s l = true → step s l = some t →
    ∃ t', step s' l = some t' ∧ R t t'
  skipped : ∀ s s' l t, R s s' → L l → keeps s l = false → step s l = some t → R t s'

variable {step keeps}

theorem Unwinds.run {L : ℓ → Prop} {R : σ → σ → Prop} (h : Unwinds step keeps L R)
    {s s' t : σ} {ls : List ℓ} (hR : R s s') (hL : ∀ l ∈ ls, L l)
    (hrun : run step s ls = some t) :
    ∃ t', Runs.run step s' (purge step keeps s ls) = some t' ∧ R t t' := by
  induction ls generalizing s s' with
  | nil =>
      obtain rfl := Option.some.inj hrun
      exact ⟨s', rfl, hR⟩
  | cons l ls ih =>
      obtain ⟨u, hu, hrest⟩ := run_cons_eq_some.mp hrun
      have hl := hL l (List.mem_cons_self ..)
      have hls (m : ℓ) (hm : m ∈ ls) : L m := hL m (List.mem_cons_of_mem _ hm)
      simp only [purge, hu]
      cases hkeeps : keeps s l with
      | true =>
          obtain ⟨u', hu', hR'⟩ := h.kept s s' l u hR hl hkeeps hu
          obtain ⟨t', ht', hRt⟩ := ih hR' hls hrest
          exact ⟨t', run_cons_eq_some.mpr ⟨u', hu', ht'⟩, hRt⟩
      | false => exact ih (h.skipped s s' l u hR hl hkeeps hu) hls hrest

/-- Where no step is impossible and the state has no say, the labels are filtered. -/
theorem purge_eq_filter {keep : ℓ → Bool} (htotal : ∀ s l, (step s l).isSome = true) {s : σ}
    {ls : List ℓ} : purge step (fun _ => keep) s ls = ls.filter keep := by
  induction ls generalizing s with
  | nil => rfl
  | cons l ls ih =>
      obtain ⟨t, ht⟩ := Option.isSome_iff_exists.mp (htotal s l)
      rw [List.filter_cons]
      simp only [purge, ht, ih]

end Runs
