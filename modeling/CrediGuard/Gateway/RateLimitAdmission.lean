import CrediGuard.Gateway.RateLimit

/-!
How many calls of a key the limiter admits in a window.

The limiter counts the entries of a set, so it counts an admitted call only
while that call has an entry of its own: two calls with one reading share one,
and an entry may be gone when a pipeline that read its clock earlier is executed
late.
-/

namespace CrediGuard.Gateway.RateLimit
open Runs

section Model

/-- The readings of the calls of a key that returned true. -/
def admitted (s : State) (key : String) : List ℚ :=
  (s.log.filter fun a => a.1.key = key ∧ a.2 = true).map fun a => a.1.now

/-- No half-open interval of the length of the window holds more admitted readings
than the limit. -/
def NeverOverAdmits (quota : String → Quota) (s : State) : Prop :=
  ∀ key, 1 ≤ (quota key).limit → ∀ bound : ℚ,
    (((admitted s key).filter fun r =>
      bound ≤ r ∧ r < bound + (quota key).windowSeconds).length : Int) ≤ (quota key).limit ∧
    (((admitted s key).filter fun r =>
      bound < r ∧ r ≤ bound + (quota key).windowSeconds).length : Int) ≤ (quota key).limit

/-- The admitted readings less than a window away from that of `c`. -/
def neighbours (quota : String → Quota) (s : State) (c : Call) : List ℚ :=
  (admitted s c.key).filter fun r =>
    c.now - (quota c.key).windowSeconds < r ∧ r < c.now + (quota c.key).windowSeconds

/-- Each of these calls still has an entry of its own when the pipeline of `c` is executed. -/
def Remembered (quota : String → Quota) (s : State) (c : Call) : Prop :=
  (neighbours quota s c).Nodup ∧
    ∀ r ∈ neighbours quota s c, r ∈ ((s.store (zsetKey c.key)).live c.executedAt).members

end Model

section Windows
variable {quota : String → Quota} {s s' : State} {c : Call} {calls : List Call} {key : String}

theorem admitted_step (h : step quota s c = some s') :
    admitted s' key = admitted s key ++
      if c.key = key ∧ (allowed s.store (quota c.key) c).1 = true then [c.now] else [] := by
  obtain rfl := Option.some.inj h
  rw [admitted, List.filter_append, List.map_append, List.filter_singleton]
  by_cases hadmits : c.key = key ∧ (allowed s.store (quota c.key) c).1 = true
  · rw [decide_eq_true hadmits, if_pos hadmits]
    rfl
  · rw [decide_eq_false hadmits, if_neg hadmits]
    rfl

/-- Two points of `inside` are less than a window apart. -/
def Narrow (windowSeconds : Int) (inside : ℚ → Prop) : Prop :=
  ∀ r t, inside r → inside t → t - windowSeconds < r

theorem narrow_from (windowSeconds : Int) (bound : ℚ) :
    Narrow windowSeconds fun r => bound ≤ r ∧ r < bound + windowSeconds := by
  intro r t hr ht
  linarith [hr.1, ht.2]

theorem narrow_after (windowSeconds : Int) (bound : ℚ) :
    Narrow windowSeconds fun r => bound < r ∧ r ≤ bound + windowSeconds := by
  intro r t hr ht
  linarith [hr.1, ht.2]

/-- An admitted call finds its remembered neighbours below the limit. -/
theorem neighbours_below_limit (hscored : Scored s.store) (hremembered : Remembered quota s c)
    (hallowed : (allowed s.store (quota c.key) c).1 = true) :
    ((neighbours quota s c).length : Int) < (quota c.key).limit := by
  have hcount : (count s.store (quota c.key).windowSeconds c : Int) < (quota c.key).limit :=
    of_decide_eq_true hallowed
  have hle : (neighbours quota s c).length ≤ count s.store (quota c.key).windowSeconds c := by
    refine SortedSet.length_le_zcard hremembered.1 ?_
    intro r hr
    have hlow := (of_decide_eq_true (List.mem_filter.mp hr).2).1
    exact (mem_pruned hscored).mpr
      ⟨hremembered.2 r hr, fun hout => absurd hout.2 (not_le.mpr hlow)⟩
  omega

/-- What one step keeps, for any set of readings less than a window wide. -/
theorem filter_admitted_step {inside : ℚ → Prop} [DecidablePred inside]
    (hnarrow : Narrow (quota key).windowSeconds inside) (hscored : Scored s.store)
    (hremembered : Remembered quota s c) (hstep : step quota s c = some s')
    (h : (((admitted s key).filter fun r => inside r).length : Int) ≤ (quota key).limit) :
    (((admitted s' key).filter fun r => inside r).length : Int) ≤ (quota key).limit := by
  rw [admitted_step hstep]
  by_cases hadmits : c.key = key ∧ (allowed s.store (quota c.key) c).1 = true
  · obtain ⟨rfl, hallowed⟩ := hadmits
    rw [if_pos ⟨rfl, hallowed⟩, List.filter_append]
    by_cases hinside : inside c.now
    · have hsub : (admitted s c.key).filter (fun r => inside r) =
          (neighbours quota s c).filter fun r => inside r := by
        rw [neighbours, List.filter_filter]
        refine List.filter_congr ?_
        intro r _
        by_cases hr : inside r
        · have hlow := hnarrow r c.now hr hinside
          have hup := hnarrow c.now r hinside hr
          have hlt : r < c.now + (quota c.key).windowSeconds := by linarith
          simp only [hr, hlow, hlt, and_self, decide_true, Bool.and_self]
        · simp only [hr, decide_false, Bool.false_and]
      have hle : ((admitted s c.key).filter fun r => inside r).length ≤
          (neighbours quota s c).length := by
        rw [hsub]
        exact List.length_filter_le ..
      have hlt := neighbours_below_limit hscored hremembered hallowed
      rw [List.filter_cons_of_pos (by simpa using hinside), List.filter_nil, List.length_append,
        List.length_singleton]
      omega
    · rw [List.filter_cons_of_neg (by simpa using hinside), List.filter_nil, List.append_nil]
      exact h
  · rw [if_neg hadmits, List.append_nil]
    exact h

theorem neverOverAdmits_start : NeverOverAdmits quota start := by
  intro key hlimit bound
  have hempty : admitted start key = [] := rfl
  rw [hempty]
  simp only [List.filter_nil, List.length_nil, Nat.cast_zero]
  omega

theorem neverOverAdmits_step (hscored : Scored s.store) (hremembered : Remembered quota s c)
    (hstep : step quota s c = some s') (h : NeverOverAdmits quota s) :
    NeverOverAdmits quota s' := by
  intro key hlimit bound
  obtain ⟨hfrom, hafter⟩ := h key hlimit bound
  exact ⟨filter_admitted_step (narrow_from _ bound) hscored hremembered hstep hfrom,
    filter_admitted_step (narrow_after _ bound) hscored hremembered hstep hafter⟩

/-- The limiter never over-admits in a run where every call finds the admitted calls
less than a window away with an entry each. -/
theorem neverOverAdmits_of_remembered
    (h : EachStep (step quota) (Remembered quota) start calls) :
    Throughout (step quota) (NeverOverAdmits quota) start calls := by
  refine throughout_of_eachStep (I := fun s => Scored s.store ∧ NeverOverAdmits quota s)
    ?_ (fun _ hs => hs.2) ⟨recorded_start.scored, neverOverAdmits_start⟩ h
  intro s c s' hs hremembered hstep
  refine ⟨?_, neverOverAdmits_step hs.1 hremembered hstep hs.2⟩
  obtain rfl := Option.some.inj hstep
  exact scored_allowed hs.1

end Windows

section Sequential
variable {quota : String → Quota} {s : State} {c : Call} {calls : List Call} {key : String}

theorem calls_of_run (hrun : run (step quota) start calls = some s) :
    s.log.map Prod.fst = calls := by
  induction calls using List.reverseRecOn generalizing s with
  | nil =>
      obtain rfl := Option.some.inj hrun
      rfl
  | append_singleton calls c ih =>
      obtain ⟨t, ht, hstep⟩ := run_concat_eq_some.mp hrun
      obtain rfl := Option.some.inj hstep
      rw [List.map_append, ih ht]
      rfl

theorem exists_of_mem_admitted (hrun : run (step quota) start calls = some s) {r : ℚ}
    (hr : r ∈ admitted s key) : ∃ e ∈ calls, e.key = key ∧ e.now = r := by
  obtain ⟨a, ha, hnow⟩ := List.mem_map.mp hr
  obtain ⟨hmem, hkey⟩ := List.mem_filter.mp ha
  rw [← calls_of_run hrun]
  exact ⟨a.1, List.mem_map_of_mem hmem, (of_decide_eq_true hkey).1, hnow⟩

theorem nodup_admitted (hincreasing : calls.Pairwise fun a b => a.now < b.now)
    (hrun : run (step quota) start calls = some s) : (admitted s key).Nodup := by
  rw [← calls_of_run hrun, List.pairwise_map] at hincreasing
  rw [admitted, List.Nodup, List.pairwise_map]
  exact (hincreasing.filter _).imp fun hlt => hlt.ne

/-- Calls one after the other, each executed when its clock is read, find all they need. -/
theorem remembered_of_increasing
    (hincreasing : calls.Pairwise fun a b => a.now < b.now)
    (hprompt : ∀ e ∈ calls, e.executedAt = e.now) :
    EachStep (step quota) (Remembered quota) start calls := by
  refine eachStep_of_prefix ?_
  intro pre c s hpre hrun
  have hincreasing := hincreasing.sublist hpre.sublist
  have hpast := (List.pairwise_append.mp hincreasing).1
  have hbefore := before_of_pairwise hincreasing
  have hprompt : ∀ e ∈ pre ++ [c], e.executedAt = e.now := fun e he => hprompt e (hpre.subset he)
  have hfaithful := faithful_run hpast (fun e he => hprompt e (List.mem_append_left _ he)) hrun
  refine ⟨(nodup_admitted hpast hrun).filter _, ?_⟩
  intro r hr
  obtain ⟨hadmitted, hnear⟩ := List.mem_filter.mp hr
  obtain ⟨e, he, hkey, rfl⟩ := exists_of_mem_admitted hrun hadmitted
  have hlow := (of_decide_eq_true hnear).1
  have hpruned := (hfaithful c hbefore (hprompt c List.mem_concat_self) e.now).mpr
    (mem_recentReadings.mpr ⟨e, he, ⟨hkey, hlow, (hbefore e he).le⟩, rfl⟩)
  exact ((mem_pruned (recorded_run hrun).scored).mp hpruned).1

theorem neverOverAdmits_of_remembered_retries :
    Throughout (step fun _ => ⟨1, 10⟩) (NeverOverAdmits fun _ => ⟨1, 10⟩) start retries :=
  neverOverAdmits_of_remembered (remembered_of_increasing (by decide +kernel) (by decide +kernel))

/-- Three processes read their clocks at the same moment. -/
def simultaneous : List Call := List.replicate 3 (prompt "auth:10.0.0.1" 1 one_pos)

theorem simultaneous_overAdmits :
    ¬ ∀ (quota : String → Quota) (calls : List Call),
      Throughout (step quota) (NeverOverAdmits quota) start calls := by
  intro h
  have hrun : run (step fun _ => ⟨2, 60⟩) start simultaneous =
      some ((run (step fun _ => ⟨2, 60⟩) start simultaneous).getD start) := rfl
  have hlast := (h (fun _ => ⟨2, 60⟩) simultaneous).last hrun
  have hthree := (hlast "auth:10.0.0.1" (by decide) 1).1
  revert hthree
  decide +kernel

end Sequential

end CrediGuard.Gateway.RateLimit
