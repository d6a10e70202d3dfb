import CrediGuard.Gateway.Proxy
import CrediGuard.Lib.Runs
import CrediGuard.Lib.SortedSet
import Mathlib.Algebra.Order.Ring.Rat
import Mathlib.Tactic.Linarith

/-!
`SlidingWindowRateLimiter` over the sorted sets of a Redis server, and what a
sequence of calls with growing clock readings finds there.

A call reads its clock first; its pipeline is executed as one command later. The
set of a key holds every attempt, the refused ones too.
-/

namespace CrediGuard.Gateway.RateLimit
open Runs

section Model

/-- The member `str(now)` stands for the reading itself. Deadlines are times of
the server. -/
abbrev ZSet := SortedSet ℚ ℚ ℚ

abbrev Store := String → ZSet

def zsetKey (key : String) : String := "ratelimit:" ++ key

/-- A call of `allowed`: the reading of `time.time()`, which counts from the epoch,
and the server's time at its pipeline. -/
structure Call where
  key : String
  now : ℚ
  positive : 0 < now
  executedAt : ℚ

structure Quota where
  limit : Int
  windowSeconds : Int

/-- The set the pipeline counts. -/
def pruned (store : Store) (windowSeconds : Int) (c : Call) : ZSet :=
  ((store (zsetKey c.key)).live c.executedAt).zremrangebyscore 0 (c.now - windowSeconds)

def count (store : Store) (windowSeconds : Int) (c : Call) : Nat :=
  (pruned store windowSeconds c).zcard

def recorded (store : Store) (windowSeconds : Int) (c : Call) : ZSet :=
  ((pruned store windowSeconds c).zadd c.now c.now).expire (c.executedAt + windowSeconds)

def allowed (store : Store) (quota : Quota) (c : Call) : Bool × Store :=
  (decide ((count store quota.windowSeconds c : Int) < quota.limit),
    Function.update store (zsetKey c.key) (recorded store quota.windowSeconds c))

/-- The server with what its calls have returned so far. -/
structure State where
  store : Store
  log : List (Call × Bool)

def start : State := ⟨fun _ => .empty, []⟩

/-- The next pipeline, of whichever process; `quota` is the limit and the window of a key. -/
def step (quota : String → Quota) (s : State) (c : Call) : Option State :=
  some
    { store := (allowed s.store (quota c.key) c).2
      log := s.log ++ [(c, (allowed s.store (quota c.key) c).1)] }

end Model

section Charges
variable {settings : Settings} {route : Route} {req : Request} {applicantId : Option String}

def quotaOf (settings : Settings) (key : String) : Quota :=
  if startsWith key "auth:" then ⟨settings.rateLimitAuthPerMinute, 60⟩
  else ⟨settings.rateLimitLoansPer10Min, 600⟩

theorem limited_routes : ∀ r ∈ buildRoutes settings, r.rateLimit = true →
    (r.rateKeyPrefix = some "auth" ∧ r.rateLimitCount = settings.rateLimitAuthPerMinute ∧
        r.rateWindowSeconds = 60) ∨
      (r.rateKeyPrefix = some "loans" ∧ r.rateLimitCount = settings.rateLimitLoansPer10Min ∧
        r.rateWindowSeconds = 600) := by
  simp [buildRoutes]

theorem startsWith_append (start rest : String) : startsWith (start ++ rest) start = true := by
  rw [startsWith, String.toList_append, List.isPrefixOf_iff_prefix]
  exact List.prefix_append ..

theorem not_auth_of_loans (applicantId : String) :
    startsWith ("loans:" ++ applicantId) "auth:" = false := by
  rw [startsWith, String.toList_append]
  rfl

/-- What the endpoint charges a request under is a function of the key. -/
theorem charge_quota {key : String} {limit windowSeconds : Int}
    (hroute : route ∈ buildRoutes settings)
    (h : charge route req applicantId = .ok (some (key, limit, windowSeconds))) :
    quotaOf settings key = ⟨limit, windowSeconds⟩ := by
  rw [charge] at h
  split at h
  · rename_i hlimited
    split at h
    · contradiction
    · rename_i rk hkey
      simp only [Except.ok.injEq, Option.some.injEq, Prod.mk.injEq] at h
      obtain ⟨rfl, hlimit, hwindow⟩ := h
      cases limited_routes route hroute hlimited with
      | inl hauth =>
          obtain ⟨hpath, hcount, hseconds⟩ := hauth
          rw [rateKey.eq_def, if_pos hpath] at hkey
          obtain rfl := Option.some.inj hkey
          rw [quotaOf, if_pos (startsWith_append ..), ← hlimit, ← hwindow, hcount, hseconds]
      | inr hloans =>
          obtain ⟨hpath, hcount, hseconds⟩ := hloans
          rw [rateKey.eq_def, if_neg (by rw [hpath]; decide), if_pos hpath] at hkey
          cases applicantId with
          | none => contradiction
          | some applicantId =>
              obtain rfl := Option.some.inj hkey
              rw [quotaOf, if_neg (Bool.eq_false_iff.mp (not_auth_of_loans applicantId)), ← hlimit,
                ← hwindow, hcount, hseconds]
  · cases Except.ok.inj h

end Charges

section Pipeline
variable {store : Store} {windowSeconds : Int} {quota : Quota} {c : Call} {key : String} {r : ℚ}

/-- Every entry is scored with its own reading. -/
def Scored (store : Store) : Prop := ∀ key, (store key).ScoredBy id

theorem zsetKey_injective : Function.Injective zsetKey := by
  intro key key' h
  exact String.append_right_inj _ |>.mp h

theorem mem_pruned (h : Scored store) :
    r ∈ (pruned store windowSeconds c).members ↔
      r ∈ ((store (zsetKey c.key)).live c.executedAt).members ∧
        ¬ (0 ≤ r ∧ r ≤ c.now - windowSeconds) :=
  SortedSet.mem_zremrangebyscore (h (zsetKey c.key)).live

theorem mem_store_of_mem_pruned (h : Scored store)
    (hr : r ∈ (pruned store windowSeconds c).members) : r ∈ (store (zsetKey c.key)).members :=
  SortedSet.mem_live ((mem_pruned h).mp hr).1

theorem mem_recorded_live {now : ℚ} :
    r ∈ ((recorded store windowSeconds c).live now).members ↔
      now < c.executedAt + windowSeconds ∧
        (r = c.now ∨ r ∈ (pruned store windowSeconds c).members) := by
  rw [recorded, SortedSet.mem_live_expire, SortedSet.mem_zadd]

theorem mem_recorded :
    r ∈ (recorded store windowSeconds c).members ↔
      r = c.now ∨ r ∈ (pruned store windowSeconds c).members := by
  rw [recorded, SortedSet.members, SortedSet.entries_expire, ← SortedSet.members,
    SortedSet.mem_zadd]

theorem allowed_store_same :
    (allowed store quota c).2 (zsetKey c.key) = recorded store quota.windowSeconds c :=
  Function.update_self ..

/-- A call leaves the sets of the other keys alone. -/
theorem allowed_store_other (h : key ≠ c.key) :
    (allowed store quota c).2 (zsetKey key) = store (zsetKey key) :=
  Function.update_of_ne (fun heq => h (zsetKey_injective heq)) ..

theorem scored_allowed (h : Scored store) : Scored (allowed store quota c).2 := by
  intro key
  by_cases hkey : key = zsetKey c.key
  · rw [hkey, allowed_store_same]
    exact ((h (zsetKey c.key)).live.zremrangebyscore.zadd).expire
  · have hother : (allowed store quota c).2 key = store key := Function.update_of_ne hkey ..
    rw [hother]
    exact h key

end Pipeline

section Attempts
variable {quota : String → Quota} {s s' : State} {calls : List Call} {c : Call}

/-- The earlier call `e` is one of the key of `c`, in the window that ends with `c`. -/
def Recent (windowSeconds : Int) (c e : Call) : Prop :=
  e.key = c.key ∧ c.now - windowSeconds < e.now ∧ e.now ≤ c.now

instance (windowSeconds : Int) (c e : Call) : Decidable (Recent windowSeconds c e) :=
  inferInstanceAs (Decidable (_ ∧ _))

/-- The readings of the calls in the window. -/
def recentReadings (windowSeconds : Int) (c : Call) (calls : List Call) : List ℚ :=
  (calls.filter (Recent windowSeconds c)).map Call.now

theorem mem_recentReadings {windowSeconds : Int} {r : ℚ} :
    r ∈ recentReadings windowSeconds c calls ↔
      ∃ e ∈ calls, Recent windowSeconds c e ∧ e.now = r := by
  simp only [recentReadings, List.mem_map, List.mem_filter, decide_eq_true_eq, and_assoc]

/-- The sets hold readings of the calls and nothing else. -/
structure Recorded (store : Store) (calls : List Call) : Prop where
  scored : Scored store
  readings : ∀ key, ∀ r ∈ (store (zsetKey key)).members, ∃ e ∈ calls, e.key = key ∧ e.now = r

theorem recorded_start : Recorded start.store [] := by
  refine ⟨fun _ => SortedSet.scoredBy_empty, ?_⟩
  intro key r hr
  exact absurd hr List.not_mem_nil

theorem Recorded.allowed {store : Store} {q : Quota} (h : Recorded store calls) :
    Recorded (allowed store q c).2 (calls ++ [c]) := by
  refine ⟨scored_allowed h.scored, ?_⟩
  intro key r hr
  have hold (hr : r ∈ (store (zsetKey key)).members) :
      ∃ e ∈ calls ++ [c], e.key = key ∧ e.now = r := by
    obtain ⟨e, he, hkey, hnow⟩ := h.readings key r hr
    exact ⟨e, List.mem_append_left _ he, hkey, hnow⟩
  by_cases hkey : key = c.key
  · obtain rfl := hkey
    rw [allowed_store_same, mem_recorded] at hr
    cases hr with
    | inl hr => exact ⟨c, List.mem_concat_self, rfl, hr.symm⟩
    | inr hr => exact hold (mem_store_of_mem_pruned h.scored hr)
  · rw [allowed_store_other hkey] at hr
    exact hold hr

theorem recorded_run (hrun : run (step quota) start calls = some s) : Recorded s.store calls := by
  induction calls using List.reverseRecOn generalizing s with
  | nil =>
      obtain rfl := Option.some.inj hrun
      exact recorded_start
  | append_singleton calls c ih =>
      obtain ⟨t, ht, hstep⟩ := run_concat_eq_some.mp hrun
      obtain rfl := Option.some.inj hstep
      exact (ih ht).allowed

/-- What a call counts are earlier calls of its key in its window, whatever these returned. -/
theorem mem_recentReadings_of_mem_pruned {store : Store} {windowSeconds : Int} {r : ℚ}
    (h : Recorded store calls) (hbefore : ∀ e ∈ calls, e.now < c.now)
    (hr : r ∈ (pruned store windowSeconds c).members) :
    r ∈ recentReadings windowSeconds c calls := by
  obtain ⟨e, he, hkey, hnow⟩ := h.readings c.key r (mem_store_of_mem_pruned h.scored hr)
  have hkept := ((mem_pruned h.scored).mp hr).2
  have hpositive := e.positive
  rw [hnow] at hpositive
  refine mem_recentReadings.mpr ⟨e, he, ⟨hkey, ?_, (hbefore e he).le⟩, hnow⟩
  rw [hnow]
  exact not_le.mp fun hle => hkept ⟨hpositive.le, hle⟩

theorem before_of_pairwise (h : (calls ++ [c]).Pairwise fun a b => a.now < b.now) :
    ∀ e ∈ calls, e.now < c.now := by
  intro e he
  exact (List.pairwise_append.mp h).2.2 e he c (List.mem_singleton_self c)

/-- The limiter refuses a call only after as many earlier ones of the key, admitted
or refused, within the window. -/
theorem refused_after_attempts
    (hincreasing : (calls ++ [c]).Pairwise fun a b => a.now < b.now)
    (hrun : run (step quota) start calls = some s)
    (hrefused : (allowed s.store (quota c.key) c).1 = false) :
    (quota c.key).limit ≤
      ((calls.filter (Recent (quota c.key).windowSeconds c)).length : Int) := by
  have hcount : (quota c.key).limit ≤ (count s.store (quota c.key).windowSeconds c : Int) :=
    not_lt.mp (of_decide_eq_false hrefused)
  have hle : count s.store (quota c.key).windowSeconds c ≤
      (recentReadings (quota c.key).windowSeconds c calls).length :=
    SortedSet.zcard_le_length fun _ hr =>
      mem_recentReadings_of_mem_pruned (recorded_run hrun) (before_of_pairwise hincreasing) hr
  rw [recentReadings, List.length_map] at hle
  omega

/-- A call that is executed when its clock is read. -/
def prompt (key : String) (now : ℚ) (positive : 0 < now) : Call := ⟨key, now, positive, now⟩

/-- One attempt every six seconds, where one in ten seconds is allowed. -/
def retries : List Call :=
  [prompt "auth:10.0.0.1" 1 (by norm_num), prompt "auth:10.0.0.1" 7 (by norm_num)]

def lastRetry : Call := prompt "auth:10.0.0.1" 13 (by norm_num)

def afterRetries : State := ((run (step fun _ => ⟨1, 10⟩) start retries).getD start)

theorem refused_after_attempts_retries :
    (1 : Int) ≤ ((retries.filter (Recent 10 lastRetry)).length : Int) :=
  @refused_after_attempts (fun _ => ⟨1, 10⟩) afterRetries retries lastRetry
    (by decide +kernel) rfl (by decide +kernel)

theorem refused_without_admissions :
    ¬ ∀ (quota : String → Quota) (calls : List Call) (c : Call) (s : State),
      1 ≤ (quota c.key).limit →
      (calls ++ [c]).Pairwise (fun a b => a.now < b.now) →
      (∀ e ∈ calls ++ [c], e.executedAt = e.now) →
      run (step quota) start calls = some s →
      (allowed s.store (quota c.key) c).1 = false →
      (quota c.key).limit ≤ ((s.log.filter fun a =>
        Recent (quota c.key).windowSeconds c a.1 ∧ a.2 = true).length : Int) := by
  intro h
  have hlog := h (fun _ => ⟨1, 10⟩) retries lastRetry afterRetries (by decide) (by decide +kernel)
    (by decide +kernel) rfl (by decide +kernel)
  revert hlog
  decide +kernel

end Attempts

section Faithful
variable {quota : String → Quota} {s : State} {store : Store} {calls : List Call} {c : Call}

/-- A later call, executed when its clock is read, finds the readings in its window. -/
def Faithful (quota : String → Quota) (store : Store) (calls : List Call) : Prop :=
  ∀ c, (∀ e ∈ calls, e.now < c.now) → c.executedAt = c.now → ∀ r,
    r ∈ (pruned store (quota c.key).windowSeconds c).members ↔
      r ∈ recentReadings (quota c.key).windowSeconds c calls

theorem faithful_start : Faithful quota start.store [] := by
  intro c _ _ r
  constructor
  · intro hr
    have := mem_store_of_mem_pruned recorded_start.scored hr
    exact absurd this List.not_mem_nil
  · intro hr
    exact absurd hr List.not_mem_nil

theorem pruned_congr {store' : Store} {windowSeconds : Int}
    (h : store (zsetKey c.key) = store' (zsetKey c.key)) :
    pruned store windowSeconds c = pruned store' windowSeconds c := by
  rw [pruned, pruned, h]

theorem mem_recentReadings_concat {windowSeconds : Int} {d : Call} {r : ℚ} :
    r ∈ recentReadings windowSeconds d (calls ++ [c]) ↔
      r ∈ recentReadings windowSeconds d calls ∨ Recent windowSeconds d c ∧ c.now = r := by
  simp only [mem_recentReadings, List.mem_append, List.mem_singleton, or_and_right, exists_or,
    exists_eq_left]

/-- The readings in the window of `d` are in that of an earlier call of the key. -/
theorem mem_recentReadings_earlier {windowSeconds : Int} {d : Call} {r : ℚ}
    (hkey : d.key = c.key) (hbefore : ∀ e ∈ calls, e.now < c.now) (hlater : c.now ≤ d.now) :
    r ∈ recentReadings windowSeconds d calls ↔
      r ∈ recentReadings windowSeconds c calls ∧ d.now - windowSeconds < r := by
  simp only [mem_recentReadings, Recent, hkey]
  constructor
  · intro ⟨e, he, ⟨hk, hlow, _⟩, hr⟩
    refine ⟨⟨e, he, ⟨hk, ?_, (hbefore e he).le⟩, hr⟩, hr ▸ hlow⟩
    linarith
  · intro ⟨⟨e, he, ⟨hk, _, hup⟩, hr⟩, hlow⟩
    exact ⟨e, he, ⟨hk, hr ▸ hlow, hup.trans hlater⟩, hr⟩

theorem Faithful.allowed (hrecorded : Recorded store calls) (h : Faithful quota store calls)
    (hbefore : ∀ e ∈ calls, e.now < c.now) (hprompt : c.executedAt = c.now) :
    Faithful quota (allowed store (quota c.key) c).2 (calls ++ [c]) := by
  intro d hdbefore hdprompt r
  have hlater : c.now < d.now := hdbefore c List.mem_concat_self
  have hcalls : ∀ e ∈ calls, e.now < d.now := fun e he => hdbefore e (List.mem_append_left _ he)
  rw [mem_recentReadings_concat]
  by_cases hkey : d.key = c.key
  · rw [mem_pruned hrecorded.allowed.scored, hkey, allowed_store_same, mem_recorded_live,
      h c hbefore hprompt, mem_recentReadings_earlier hkey hbefore hlater.le, hprompt, hdprompt]
    constructor
    · intro ⟨⟨hdeadline, hr⟩, hkept⟩
      cases hr with
      | inl hr =>
          exact .inr ⟨⟨hkey.symm, by linarith, hlater.le⟩, hr.symm⟩
      | inr hr =>
          obtain ⟨e, _, _, hnow⟩ := mem_recentReadings.mp hr
          have hpositive := e.positive
          rw [hnow] at hpositive
          exact .inl ⟨hr, not_le.mp fun hle => hkept ⟨hpositive.le, hle⟩⟩
    · intro hr
      cases hr with
      | inl hr =>
          obtain ⟨hr, hlow⟩ := hr
          obtain ⟨e, _, hrecent, hnow⟩ := mem_recentReadings.mp hr
          have hle : r ≤ c.now := hnow ▸ hrecent.2.2
          exact ⟨⟨by linarith, .inr hr⟩, fun hout => absurd hout.2 (not_le.mpr hlow)⟩
      | inr hr =>
          obtain ⟨⟨_, hlow, _⟩, rfl⟩ := hr
          exact ⟨⟨by linarith, .inl rfl⟩, fun hout => absurd hout.2 (not_le.mpr hlow)⟩
  · have hother : ¬ Recent (quota d.key).windowSeconds d c := fun hrecent =>
      hkey hrecent.1.symm
    rw [pruned_congr (allowed_store_other hkey), h d hcalls hdprompt]
    simp only [hother, false_and, or_false]

theorem faithful_run (hincreasing : calls.Pairwise fun a b => a.now < b.now)
    (hprompt : ∀ e ∈ calls, e.executedAt = e.now)
    (hrun : run (step quota) start calls = some s) : Faithful quota s.store calls := by
  induction calls using List.reverseRecOn generalizing s with
  | nil =>
      obtain rfl := Option.some.inj hrun
      exact faithful_start
  | append_singleton calls c ih =>
      obtain ⟨t, ht, hstep⟩ := run_concat_eq_some.mp hrun
      obtain rfl := Option.some.inj hstep
      have hcalls := ih (List.pairwise_append.mp hincreasing).1
        (fun e he => hprompt e (List.mem_append_left _ he)) ht
      exact hcalls.allowed (recorded_run ht) (before_of_pairwise hincreasing)
        (hprompt c List.mem_concat_self)

theorem nodup_recentReadings {windowSeconds : Int}
    (h : calls.Pairwise fun a b => a.now < b.now) :
    (recentReadings windowSeconds c calls).Nodup := by
  rw [recentReadings, List.Nodup, List.pairwise_map]
  exact (h.filter _).imp fun hlt => hlt.ne

/-- The count a call compares with its limit is the number of earlier calls of its
key in its window. -/
theorem count_eq_recent_attempts
    (hincreasing : (calls ++ [c]).Pairwise fun a b => a.now < b.now)
    (hprompt : ∀ e ∈ calls ++ [c], e.executedAt = e.now)
    (hrun : run (step quota) start calls = some s) :
    count s.store (quota c.key).windowSeconds c =
      (calls.filter (Recent (quota c.key).windowSeconds c)).length := by
  have hcalls := (List.pairwise_append.mp hincreasing).1
  have hfaithful := faithful_run hcalls (fun e he => hprompt e (List.mem_append_left _ he)) hrun
  have hcount := SortedSet.zcard_eq_length (nodup_recentReadings hcalls)
    (hfaithful c (before_of_pairwise hincreasing) (hprompt c List.mem_concat_self))
  rwa [recentReadings, List.length_map] at hcount

theorem count_eq_recent_attempts_retries :
    count afterRetries.store 10 lastRetry = (retries.filter (Recent 10 lastRetry)).length :=
  @count_eq_recent_attempts (fun _ => ⟨1, 10⟩) afterRetries retries lastRetry
    (by decide +kernel) (by decide +kernel) rfl

end Faithful

end CrediGuard.Gateway.RateLimit
