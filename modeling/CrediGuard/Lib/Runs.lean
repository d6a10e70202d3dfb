import Mathlib.Data.List.Basic

/-!
Runs of a labelled step function.

A system is a function `step` from a state and a label to the state after the
step, or to `none` where the label is not possible. Every source of
nondeterminism (which party moves, what the environment answers) is in the
label, so a run is a list of labels and can be replayed.
-/

namespace Runs
universe u v
variable {σ : Type u} {ℓ : Type v} (step : σ → ℓ → Option σ)

def run : σ → List ℓ → Option σ
  | s, [] => some s
  | s, l :: ls => (step s l).bind fun s' => run s' ls

/-- `P` holds in the first state of the run and in every state it visits. -/
def Throughout (P : σ → Prop) : σ → List ℓ → Prop
  | s, [] => P s
  | s, l :: ls => P s ∧ ∀ s', step s l = some s' → Throughout P s' ls

/-- Every step the run takes meets `C`, a condition on the state before the
step and on its label. -/
def EachStep (C : σ → ℓ → Prop) : σ → List ℓ → Prop
  | _, [] => True
  | s, l :: ls => ∀ s', step s l = some s' → C s l ∧ EachStep C s' ls

variable {step}

@[simp] theorem run_nil (s : σ) : run step s [] = some s := rfl

theorem run_cons_eq_some {s s' : σ} {l : ℓ} {ls : List ℓ} :
    run step s (l :: ls) = some s' ↔ ∃ t, step s l = some t ∧ run step t ls = some s' := by
  simp [run, Option.bind_eq_some_iff]

theorem run_append {s : σ} {ls ms : List ℓ} :
    run step s (ls ++ ms) = (run step s ls).bind fun t => run step t ms := by
  induction ls generalizing s with
  | nil => rfl
  | cons l ls ih =>
      cases h : step s l with
      | none => simp [run, h]
      | some t => simp [run, h, ih]

theorem run_concat_eq_some {s s' : σ} {l : ℓ} {ls : List ℓ} :
    run step s (ls ++ [l]) = some s' ↔ ∃ t, run step s ls = some t ∧ step t l = some s' := by
  rw [run_append, Option.bind_eq_some_iff]
  simp [run]

/-- `Throughout` says exactly what its name says: `P` after every prefix. -/
theorem throughout_iff_prefix {P : σ → Prop} {s : σ} {ls : List ℓ} :
    Throughout step P s ls ↔
      ∀ pre, pre <+: ls → ∀ s', run step s pre = some s' → P s' := by
  induction ls generalizing s with
  | nil =>
      constructor
      · intro h pre hpre s' hrun
        obtain rfl := List.prefix_nil.mp hpre
        obtain rfl := Option.some.inj hrun
        exact h
      · intro h
        exact h [] List.prefix_rfl s rfl
  | cons l ls ih =>
      constructor
      · rintro ⟨hs, hrest⟩ pre hpre s' hrun
        cases pre with
        | nil =>
            obtain rfl := Option.some.inj hrun
            exact hs
        | cons m pre =>
            obtain ⟨rfl, hpre'⟩ := List.cons_prefix_cons.mp hpre
            obtain ⟨t, ht, hrun'⟩ := run_cons_eq_some.mp hrun
            exact ih.mp (hrest t ht) pre hpre' s' hrun'
      · intro h
        refine ⟨h [] List.nil_prefix s rfl, ?_⟩
        intro t ht
        refine ih.mpr ?_
        intro pre hpre s' hrun
        exact h (l :: pre) (List.cons_prefix_cons.mpr ⟨rfl, hpre⟩) s'
          (run_cons_eq_some.mpr ⟨t, ht, hrun⟩)

theorem Throughout.first {P : σ → Prop} {s : σ} {ls : List ℓ}
    (h : Throughout step P s ls) : P s := by
  cases ls with
  | nil => exact h
  | cons l ls => exact h.1

theorem Throughout.last {P : σ → Prop} {s s' : σ} {ls : List ℓ}
    (h : Throughout step P s ls) (hrun : run step s ls = some s') : P s' :=
  throughout_iff_prefix.mp h ls List.prefix_rfl s' hrun

/-- The invariant rule, for runs whose steps meet a condition. -/
theorem invariant_of_eachStep {C : σ → ℓ → Prop} {I : σ → Prop}
    (hstep : ∀ s l s', I s → C s l → step s l = some s' → I s')
    {s s' : σ} {ls : List ℓ} (hI : I s) (hC : EachStep step C s ls)
    (hrun : run step s ls = some s') : I s' := by
  induction ls generalizing s with
  | nil =>
      obtain rfl := Option.some.inj hrun
      exact hI
  | cons l ls ih =>
      obtain ⟨t, ht, hrun'⟩ := run_cons_eq_some.mp hrun
      obtain ⟨hc, hrest⟩ := hC t ht
      exact ih (hstep s l t hI hc ht) hrest hrun'

theorem throughout_of_eachStep {C : σ → ℓ → Prop} {I P : σ → Prop}
    (hstep : ∀ s l s', I s → C s l → step s l = some s' → I s') (hP : ∀ s, I s → P s)
    {s : σ} {ls : List ℓ} (hI : I s) (hC : EachStep step C s ls) : Throughout step P s ls := by
  induction ls generalizing s with
  | nil => exact hP s hI
  | cons l ls ih =>
      refine ⟨hP s hI, ?_⟩
      intro t ht
      obtain ⟨hc, hrest⟩ := hC t ht
      exact ih (hstep s l t hI hc ht) hrest

theorem eachStep_true {s : σ} {ls : List ℓ} : EachStep step (fun _ _ => True) s ls := by
  induction ls generalizing s with
  | nil => trivial
  | cons l ls ih => exact fun _ _ => ⟨trivial, ih⟩

theorem invariant {I : σ → Prop}
    (hstep : ∀ s l s', I s → step s l = some s' → I s')
    {s s' : σ} {ls : List ℓ} (hI : I s) (hrun : run step s ls = some s') : I s' :=
  invariant_of_eachStep (C := fun _ _ => True)
    (fun s l s' h _ => hstep s l s' h) hI eachStep_true hrun

/-- The invariant rule, for runs whose labels meet a condition. -/
theorem invariant_of_labels {L : ℓ → Prop} {I : σ → Prop}
    (hstep : ∀ s l s', I s → L l → step s l = some s' → I s')
    {s s' : σ} {ls : List ℓ} (hI : I s) (hL : ∀ l ∈ ls, L l)
    (hrun : run step s ls = some s') : I s' := by
  refine invariant_of_eachStep (C := fun _ l => L l) hstep hI ?_ hrun
  clear hI hrun
  induction ls generalizing s with
  | nil => trivial
  | cons l ls ih =>
      exact fun t _ => ⟨hL l (List.mem_cons_self ..),
        ih fun m hm => hL m (List.mem_cons_of_mem _ hm)⟩

theorem eachStep_of_prefix {C : σ → ℓ → Prop} {s : σ} {ls : List ℓ}
    (h : ∀ pre l t, pre ++ [l] <+: ls → run step s pre = some t → C t l) :
    EachStep step C s ls := by
  induction ls generalizing s with
  | nil => trivial
  | cons l ls ih =>
      intro t ht
      refine ⟨h [] l s ⟨ls, rfl⟩ rfl, ih ?_⟩
      intro pre m u hpre hrun
      exact h (l :: pre) m u (List.cons_prefix_cons.mpr ⟨rfl, hpre⟩)
        (run_cons_eq_some.mpr ⟨t, ht, hrun⟩)

theorem eachStep_append {C : σ → ℓ → Prop} {s : σ} {ls ms : List ℓ} (h : EachStep step C s ls)
    (hrest : ∀ t, run step s ls = some t → EachStep step C t ms) :
    EachStep step C s (ls ++ ms) := by
  induction ls generalizing s with
  | nil => exact hrest s rfl
  | cons l ls ih =>
      intro t ht
      obtain ⟨hC, hls⟩ := h t ht
      exact ⟨hC, ih hls fun u hu => hrest u (run_cons_eq_some.mpr ⟨t, ht, hu⟩)⟩

/-- What an invariant implies holds in every state of a run. -/
theorem throughout_of_invariant {I P : σ → Prop}
    (hstep : ∀ s l s', I s → step s l = some s' → I s') (hP : ∀ s, I s → P s)
    {s : σ} (hI : I s) (ls : List ℓ) : Throughout step P s ls := by
  induction ls generalizing s with
  | nil => exact hP s hI
  | cons l ls ih => exact ⟨hP s hI, fun t ht => ih (hstep s l t hI ht)⟩

/-- What an invariant implies of a step holds of every step of a run. -/
theorem eachStep_of_invariant {I : σ → Prop} {C : σ → ℓ → Prop}
    (hstep : ∀ s l s', I s → step s l = some s' → I s') (hC : ∀ s l, I s → C s l)
    {s : σ} (hI : I s) (ls : List ℓ) : EachStep step C s ls := by
  induction ls generalizing s with
  | nil => trivial
  | cons l ls ih => exact fun t ht => ⟨hC s l hI, ih (hstep s l t hI ht)⟩

/-- The exactness rule, for runs whose steps meet the assumption `A`. When, from
a state with the auxiliary invariant `I` and the property `P`, a step keeps `P`
just if it meets `C`, a whole run keeps `P` just if all its steps meet `C`. -/
theorem throughout_iff_eachStep_of {A C : σ → ℓ → Prop} {I P : σ → Prop}
    (hI : ∀ s l s', I s → P s → A s l → C s l → step s l = some s' → I s')
    (hP : ∀ s l s', I s → P s → A s l → step s l = some s' → (P s' ↔ C s l))
    {s : σ} (hIs : I s) (hPs : P s) {ls : List ℓ} (hA : EachStep step A s ls) :
    Throughout step P s ls ↔ EachStep step C s ls := by
  induction ls generalizing s with
  | nil => exact ⟨fun _ => trivial, fun _ => hPs⟩
  | cons l ls ih =>
      constructor
      · rintro ⟨_, hrest⟩ t ht
        obtain ⟨ha, hAt⟩ := hA t ht
        have hPt : P t := (hrest t ht).first
        have hc : C s l := (hP s l t hIs hPs ha ht).mp hPt
        exact ⟨hc, (ih (hI s l t hIs hPs ha hc ht) hPt hAt).mp (hrest t ht)⟩
      · intro hC
        refine ⟨hPs, ?_⟩
        intro t ht
        obtain ⟨ha, hAt⟩ := hA t ht
        obtain ⟨hc, hrest⟩ := hC t ht
        have hPt : P t := (hP s l t hIs hPs ha ht).mpr hc
        exact (ih (hI s l t hIs hPs ha hc ht) hPt hAt).mpr hrest

theorem throughout_iff_eachStep {C : σ → ℓ → Prop} {I P : σ → Prop}
    (hI : ∀ s l s', I s → P s → C s l → step s l = some s' → I s')
    (hP : ∀ s l s', I s → P s → step s l = some s' → (P s' ↔ C s l))
    {s : σ} (hIs : I s) (hPs : P s) (ls : List ℓ) :
    Throughout step P s ls ↔ EachStep step C s ls :=
  throughout_iff_eachStep_of (A := fun _ _ => True)
    (fun s l s' h hp _ hc => hI s l s' h hp hc) (fun s l s' h hp _ => hP s l s' h hp)
    hIs hPs eachStep_true

end Runs
