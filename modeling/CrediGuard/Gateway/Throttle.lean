import CrediGuard.Gateway.PathPolicy
import CrediGuard.Gateway.RateLimit
import CrediGuard.Lib.SlidingWindow
import CrediGuard.Lib.Unwinding

/-!
The catch-all endpoint with its limiter, over one Redis server.

A request stands in a run where its pipeline is executed. What the endpoint charges
does not depend on the limiter, so a request is answered as if there were none or
with status 429. Against readings that grow, with pipelines executed at once, the
gateway is one that looks its earlier requests through; whatever the clocks, the
requests of one key are answered without regard to those of another.
-/

namespace CrediGuard.Gateway.Throttle
open RateLimit Runs SlidingWindow

section Model

/-- A request with what the libraries and services around the endpoint do for it. -/
structure Visit where
  path : String
  request : Request
  decode : String → Option (List (String × Json))
  copyWith : String → Bool
  send : Outgoing → Option Upstream
  uuid : Uuid
  now : ℚ
  positive : 0 < now
  executedAt : ℚ

def Visit.call (v : Visit) (key : String) : Call := ⟨key, v.now, v.positive, v.executedAt⟩

def Visit.edge (v : Visit) (allowed : String → Int → Int → Bool) : Edge :=
  ⟨v.decode, allowed, v.copyWith, v.send, v.uuid⟩

/-- What the limiter says of a request. -/
def verdict (store : Store) (v : Visit) (key : String) (limit windowSeconds : Int) : Bool :=
  (allowed store ⟨limit, windowSeconds⟩ (v.call key)).1

def answer (settings : Settings) (v : Visit) (allowed : String → Int → Int → Bool) : Outcome :=
  proxyEndpoint (v.edge allowed) settings v.path v.request

/-- The server after what a request was charged. -/
def afterCharge (store : Store) (v : Visit) : Option (String × Int × Int) → Store
  | none => store
  | some (key, limit, windowSeconds) => (allowed store ⟨limit, windowSeconds⟩ (v.call key)).2

structure State where
  store : Store
  answers : List (Visit × Outcome)

def start : State := ⟨RateLimit.start.store, []⟩

def step (settings : Settings) (s : State) (v : Visit) : Option State :=
  some ⟨afterCharge s.store v (answer settings v (verdict s.store v)).charged,
    s.answers ++ [(v, answer settings v (verdict s.store v))]⟩

end Model

section Reference

/-- The endpoint where nobody is refused. -/
def unlimited (settings : Settings) (v : Visit) : Outcome := answer settings v fun _ _ _ => true

def attempt (a : Visit × Outcome) : Option (Attempt String ℚ) :=
  a.2.charged.map fun charged => ⟨charged.1, a.1.now, a.2.forwarded.isSome⟩

/-- What the answers say of the quotas: every charge, with whether it was let through. -/
def attempts (answers : List (Visit × Outcome)) : List (Attempt String ℚ) :=
  answers.filterMap attempt

/-- The limiter that has the answers given so far, in place of a server. -/
def metered (answers : List (Visit × Outcome)) (v : Visit) (key : String)
    (limit windowSeconds : Int) : Bool :=
  decide (((recent key (v.now - windowSeconds) (attempts answers)).length : Int) < limit)

/-- The gateway with that limiter. -/
def meteredStep (settings : Settings) (answers : List (Visit × Outcome)) (v : Visit) :
    Option (List (Visit × Outcome)) :=
  some (answers ++ [(v, answer settings v (metered answers v))])

def limitOf (settings : Settings) (key : String) : Int := (quotaOf settings key).limit

def windowOf (settings : Settings) (key : String) : ℚ := (quotaOf settings key).windowSeconds

end Reference

section Endpoint
variable {settings : Settings} {v : Visit} {key : String} {limit windowSeconds : Int}
  {limiter limiter' : String → Int → Int → Bool}

/-- The limiter's part in an outcome. -/
def throttle (limiter : String → Int → Int → Bool) (outcome : Outcome) : Outcome :=
  if outcome.charged.all fun (key, limit, windowSeconds) => limiter key limit windowSeconds then
    outcome
  else { charged := outcome.charged, response := detail 429 "Rate limit exceeded" [] }

theorem throttle_of_uncharged {outcome : Outcome} (h : outcome.charged = none) :
    throttle limiter outcome = outcome := by
  rw [throttle, h]
  rfl

theorem throttle_of_charged {outcome : Outcome}
    (h : outcome.charged = some (key, limit, windowSeconds)) :
    throttle limiter outcome = if limiter key limit windowSeconds then outcome
      else { charged := outcome.charged, response := detail 429 "Rate limit exceeded" [] } := by
  rw [throttle, h]
  rfl

@[simp] theorem charged_throttle (outcome : Outcome) :
    (throttle limiter outcome).charged = outcome.charged := by
  rw [throttle]
  split <;> rfl

/-- The endpoint asks the limiter last, and for nothing but this. -/
theorem answer_eq_throttle :
    answer settings v limiter = throttle limiter (unlimited settings v) := by
  simp only [answer, unlimited, proxyEndpoint_eq]
  cases policy settings v.path with
  | logout => exact (throttle_of_uncharged rfl).symm
  | notFound => exact (throttle_of_uncharged rfl).symm
  | forward route refreshCookie translates =>
      -- neither the refresh cookie nor the token is up to the limiter
      have hcookie : refreshTokenFromCookie (v.edge limiter) =
          refreshTokenFromCookie (v.edge fun _ _ _ => true) := rfl
      have htoken : authenticate (v.edge limiter) = authenticate (v.edge fun _ _ _ => true) := rfl
      rw [Policy.respond, proxied, hcookie, htoken, Policy.respond, proxied]
      split
      · exact (throttle_of_uncharged rfl).symm
      · split
        · exact (throttle_of_uncharged rfl).symm
        · split
          · exact (throttle_of_uncharged rfl).symm
          · rename_i charged _
            cases charged <;> rfl

@[simp] theorem charged_answer :
    (answer settings v limiter).charged = (unlimited settings v).charged := by
  rw [answer_eq_throttle, charged_throttle]

/-- A request is answered alike by two limiters that judge its charge alike. -/
theorem answer_congr (h : ∀ key limit windowSeconds,
    (unlimited settings v).charged = some (key, limit, windowSeconds) →
      limiter key limit windowSeconds = limiter' key limit windowSeconds) :
    answer settings v limiter = answer settings v limiter' := by
  rw [answer_eq_throttle, answer_eq_throttle]
  cases hcharged : (unlimited settings v).charged with
  | none => rw [throttle_of_uncharged hcharged, throttle_of_uncharged hcharged]
  | some charged =>
      obtain ⟨key, limit, windowSeconds⟩ := charged
      rw [throttle_of_charged hcharged, throttle_of_charged hcharged,
        h key limit windowSeconds hcharged]

/-- Where nobody is refused, what is charged is forwarded, and charged as its route says. -/
theorem unlimited_charged (h : (unlimited settings v).charged = some (key, limit, windowSeconds)) :
    (unlimited settings v).forwarded.isSome = true ∧
      quotaOf settings key = ⟨limit, windowSeconds⟩ := by
  cases hpolicy : policy settings v.path with
  | logout =>
      rw [unlimited, answer, proxyEndpoint_eq, hpolicy] at h
      contradiction
  | notFound =>
      rw [unlimited, answer, proxyEndpoint_eq, hpolicy] at h
      contradiction
  | forward route refreshCookie translates =>
      have hroute : route ∈ buildRoutes settings :=
        (matchRoute_eq_some_iff.mp (policy_forward hpolicy).1).1
      have hanswer : unlimited settings v = proxied (v.edge fun _ _ _ => true) settings route
          refreshCookie translates v.path v.request := by
        rw [unlimited, answer, proxyEndpoint_eq, hpolicy]
        rfl
      rw [hanswer] at h ⊢
      rw [proxied] at h ⊢
      split at h
      · contradiction
      · split at h
        · contradiction
        · split at h
          · contradiction
          · rename_i applicantId _ _ charged hcharge
            have hallowed : charged.all (fun (key, limit, window) =>
                (v.edge fun _ _ _ => true).allowed key limit window) = true := by
              cases charged <;> rfl
            rw [if_pos hallowed] at h ⊢
            rw [show charged = some (key, limit, windowSeconds) from h] at hcharge
            exact ⟨rfl, charge_quota hroute hcharge⟩

/-- A charged request is forwarded just if the limiter lets it through. -/
theorem isSome_forwarded_answer
    (h : (unlimited settings v).charged = some (key, limit, windowSeconds)) :
    (answer settings v limiter).forwarded.isSome = limiter key limit windowSeconds := by
  rw [answer_eq_throttle, throttle_of_charged h]
  cases limiter key limit windowSeconds with
  | true => exact (unlimited_charged h).1
  | false => rfl

end Endpoint

section Server
variable {settings : Settings} {s : State} {visits : List Visit} {v : Visit} {key : String}
  {limit windowSeconds : Int} {answers : List (Visit × Outcome)}

def callOf (a : Visit × Outcome) : Option Call :=
  a.2.charged.map fun charged => a.1.call charged.1

/-- The calls of the limiter behind the answers. -/
def callsOf (answers : List (Visit × Outcome)) : List Call := answers.filterMap callOf

theorem visits_of_run (hrun : run (step settings) start visits = some s) :
    s.answers.map Prod.fst = visits := by
  induction visits using List.reverseRecOn generalizing s with
  | nil =>
      obtain rfl := Option.some.inj hrun
      rfl
  | append_singleton visits v ih =>
      obtain ⟨t, ht, hstep⟩ := run_concat_eq_some.mp hrun
      obtain rfl := Option.some.inj hstep
      rw [List.map_append, ih ht]
      rfl

/-- The server of the gateway is the one of the limiter. -/
theorem limiter_run (hrun : run (step settings) start visits = some s) :
    ∃ t, run (RateLimit.step (quotaOf settings)) RateLimit.start (callsOf s.answers) = some t ∧
      t.store = s.store := by
  induction visits using List.reverseRecOn generalizing s with
  | nil =>
      obtain rfl := Option.some.inj hrun
      exact ⟨RateLimit.start, rfl, rfl⟩
  | append_singleton visits v ih =>
      obtain ⟨t, ht, hstep⟩ := run_concat_eq_some.mp hrun
      obtain rfl := Option.some.inj hstep
      obtain ⟨u, hu, hstore⟩ := ih ht
      rw [callsOf, List.filterMap_append, charged_answer]
      cases hcharged : (unlimited settings v).charged with
      | none =>
          have hcall : callOf (v, answer settings v (verdict t.store v)) = none := by
            rw [callOf, charged_answer, hcharged]
            rfl
          rw [List.filterMap_cons_none hcall, List.filterMap_nil, List.append_nil]
          exact ⟨u, hu, hstore⟩
      | some charged =>
          obtain ⟨key, limit, windowSeconds⟩ := charged
          have hcall : callOf (v, answer settings v (verdict t.store v)) = some (v.call key) := by
            rw [callOf, charged_answer, hcharged]
            rfl
          rw [List.filterMap_cons_some hcall, List.filterMap_nil]
          refine ⟨_, run_concat_eq_some.mpr ⟨u, hu, rfl⟩, ?_⟩
          rw [← hstore]
          have hquota := (unlimited_charged hcharged).2
          exact congrArg (fun q => (allowed u.store q (v.call key)).2) hquota

theorem pairwise_callsOf (h : (answers.map Prod.fst).Pairwise fun a b => a.now < b.now) :
    (callsOf answers).Pairwise fun a b => a.now < b.now := by
  refine (List.pairwise_map.mp h).filterMap callOf ?_
  intro a b hlt c hc d hd
  obtain ⟨_, _, rfl⟩ := Option.map_eq_some_iff.mp hc
  obtain ⟨_, _, rfl⟩ := Option.map_eq_some_iff.mp hd
  exact hlt

theorem mem_callsOf {c : Call} (h : c ∈ callsOf answers) :
    ∃ v ∈ answers.map Prod.fst, c.now = v.now ∧ c.executedAt = v.executedAt := by
  obtain ⟨a, ha, hcall⟩ := List.mem_filterMap.mp h
  obtain ⟨_, _, rfl⟩ := Option.map_eq_some_iff.mp hcall
  exact ⟨a.1, List.mem_map_of_mem ha, rfl, rfl⟩

/-- The calls in a window are as many as the attempts after its start. -/
theorem length_recentReadings (hbefore : ∀ a ∈ answers, a.1.now ≤ v.now) :
    (recentReadings windowSeconds (v.call key) (callsOf answers)).length =
      (recent key (v.now - windowSeconds) (attempts answers)).length := by
  rw [recentReadings, List.length_map, ← List.countP_eq_length_filter, recent,
    ← List.countP_eq_length_filter, callsOf, attempts, List.countP_filterMap,
    List.countP_filterMap]
  refine List.countP_congr ?_
  intro a ha
  rw [callOf, attempt]
  cases a.2.charged with
  | none => rfl
  | some charged =>
      have hle := hbefore a ha
      simp [Recent, Visit.call, hle]

/-- Read in order and executed at once, the server says what the earlier answers say. -/
theorem verdict_eq_metered (hincreasing : (visits ++ [v]).Pairwise fun a b => a.now < b.now)
    (hprompt : ∀ u ∈ visits ++ [v], u.executedAt = u.now)
    (hrun : run (step settings) start visits = some s)
    (hquota : quotaOf settings key = ⟨limit, windowSeconds⟩) :
    verdict s.store v key limit windowSeconds = metered s.answers v key limit windowSeconds := by
  have hvisits := visits_of_run hrun
  obtain ⟨hpast, _, hbefore⟩ := List.pairwise_append.mp hincreasing
  rw [← hvisits] at hpast hbefore
  obtain ⟨t, ht, hstore⟩ := limiter_run hrun
  have hcalls (c : Call) (hc : c ∈ callsOf s.answers) : c.now < v.now ∧ c.executedAt = c.now := by
    obtain ⟨u, hu, hnow, hexecuted⟩ := mem_callsOf hc
    refine ⟨hnow ▸ hbefore u hu v (List.mem_singleton_self v), ?_⟩
    rw [hnow, hexecuted, hprompt u (List.mem_append_left _ (hvisits ▸ hu))]
  have hfaithful := faithful_run (pairwise_callsOf hpast) (fun c hc => (hcalls c hc).2) ht
    (v.call key) (fun c hc => (hcalls c hc).1) (hprompt v List.mem_concat_self)
  have hcount := SortedSet.zcard_eq_length (nodup_recentReadings (pairwise_callsOf hpast)) hfaithful
  have hwindow : (quotaOf settings (v.call key).key).windowSeconds = windowSeconds := by
    rw [show (v.call key).key = key from rfl, hquota]
  rw [hwindow, hstore, length_recentReadings (fun a ha =>
    (hbefore a.1 (List.mem_map_of_mem ha) v (List.mem_singleton_self v)).le)] at hcount
  rw [verdict, allowed, count, hcount, metered]

end Server

section Refinement
variable {settings : Settings} {s : State} {visits : List Visit} {v : Visit} {key : String}
  {answers : List (Visit × Outcome)}

theorem attempt_answer {limiter : String → Int → Int → Bool} :
    attempt (v, answer settings v limiter) = (unlimited settings v).charged.map
      fun (key, limit, windowSeconds) => ⟨key, v.now, limiter key limit windowSeconds⟩ := by
  rw [attempt, charged_answer]
  cases hcharged : (unlimited settings v).charged with
  | none => rfl
  | some charged =>
      obtain ⟨key, limit, windowSeconds⟩ := charged
      rw [Option.map_some, isSome_forwarded_answer hcharged]
      rfl

theorem metered_step (h : Metered (limitOf settings) (windowOf settings) (attempts answers)) :
    Metered (limitOf settings) (windowOf settings)
      (attempts (answers ++ [(v, answer settings v (metered answers v))])) := by
  rw [attempts, List.filterMap_append]
  cases hcharged : (unlimited settings v).charged with
  | none =>
      have hattempt : attempt (v, answer settings v (metered answers v)) = none := by
        rw [attempt_answer, hcharged]
        rfl
      rw [List.filterMap_cons_none hattempt, List.filterMap_nil, List.append_nil]
      exact h
  | some charged =>
      obtain ⟨key, limit, windowSeconds⟩ := charged
      have hattempt : attempt (v, answer settings v (metered answers v)) =
          some ⟨key, v.now, metered answers v key limit windowSeconds⟩ := by
        rw [attempt_answer, hcharged]
        rfl
      rw [List.filterMap_cons_some hattempt, List.filterMap_nil]
      refine eachEntry_concat.mpr ⟨h, ?_⟩
      rw [limitOf, windowOf, (unlimited_charged hcharged).2]
      exact decide_eq_true_iff

theorem metered_of_run (hrun : run (meteredStep settings) [] visits = some answers) :
    Metered (limitOf settings) (windowOf settings) (attempts answers) := by
  refine invariant (I := fun answers =>
    Metered (limitOf settings) (windowOf settings) (attempts answers)) ?_ ?_ hrun
  · intro answers v answers' h hstep
    obtain rfl := Option.some.inj hstep
    exact metered_step h
  · exact eachEntry_nil

/-- The gateway on its Redis server refines the one that looks its answers through. -/
theorem refines_metered (hincreasing : visits.Pairwise fun a b => a.now < b.now)
    (hprompt : ∀ v ∈ visits, v.executedAt = v.now)
    (hrun : run (step settings) start visits = some s) :
    run (meteredStep settings) [] visits = some s.answers := by
  induction visits using List.reverseRecOn generalizing s with
  | nil =>
      obtain rfl := Option.some.inj hrun
      rfl
  | append_singleton visits v ih =>
      obtain ⟨t, ht, hstep⟩ := run_concat_eq_some.mp hrun
      obtain rfl := Option.some.inj hstep
      have hanswers := ih (List.pairwise_append.mp hincreasing).1
        (fun u hu => hprompt u (List.mem_append_left _ hu)) ht
      have hanswer : answer settings v (verdict t.store v) =
          answer settings v (metered t.answers v) :=
        answer_congr fun _ _ _ hcharged =>
          verdict_eq_metered hincreasing hprompt ht (unlimited_charged hcharged).2
      rw [hanswer]
      exact run_concat_eq_some.mpr ⟨t.answers, hanswers, rfl⟩

/-- A request is answered as if there were no limiter, or refused for as many attempts
under its key in the window that ends with it, the refused ones among them; in no
window more requests than the limit are forwarded. -/
theorem throttled_of_run (hincreasing : visits.Pairwise fun a b => a.now < b.now)
    (hprompt : ∀ v ∈ visits, v.executedAt = v.now)
    (hrun : run (step settings) start visits = some s) :
    EachEntry (fun before a => a.2 = throttle (metered before a.1) (unlimited settings a.1))
      s.answers ∧
    ∀ key t, ((admittedIn (windowOf settings) key t (attempts s.answers)).length : Int) ≤
      max 0 (limitOf settings key) := by
  have hmetered := refines_metered hincreasing hprompt hrun
  refine ⟨invariant (I := EachEntry _) ?_ eachEntry_nil hmetered,
    (metered_of_run hmetered).bounded⟩
  intro answers v answers' h hstep
  obtain rfl := Option.some.inj hstep
  exact eachEntry_concat.mpr ⟨h, answer_eq_throttle⟩

/-- A login of a client, at a time that is read and executed at once. -/
def login (client : String) (seconds : Nat) : Visit where
  path := "api/v1/auth/login"
  request := ⟨"POST", [], [], some client, ByteArray.empty, ByteArray.empty⟩
  decode _ := none
  copyWith _ := false
  send _ := some ⟨401, [], ByteArray.empty⟩
  uuid := ⟨9⟩
  now := seconds + 1
  positive := Nat.cast_add_one_pos seconds
  executedAt := seconds + 1

/-- Two clients, of which one comes back within the minute. -/
def logins : List Visit :=
  [login "10.0.0.1" 0, login "10.0.0.2" 4, login "10.0.0.1" 6]

def oneAMinute : Settings := { rateLimitAuthPerMinute := 1 }

def afterLogins : State := (run (step oneAMinute) start logins).getD start

def loginAnswers : List (Visit × Outcome) := afterLogins.answers

example : loginAnswers.map (fun a => a.2.forwarded.isSome) = [true, true, false] := by
  decide +kernel

theorem throttled_of_run_logins :
    EachEntry (fun before a => a.2 = throttle (metered before a.1) (unlimited oneAMinute a.1))
      loginAnswers ∧
    ∀ key t, ((admittedIn (windowOf oneAMinute) key t (attempts loginAnswers)).length : Int) ≤
      max 0 (limitOf oneAMinute key) :=
  @throttled_of_run _ _ logins (by decide +kernel) (by decide +kernel) rfl

end Refinement

section Isolation
variable {settings : Settings} {s s' : State} {visits : List Visit} {v : Visit}
  {keep : String → Bool}

/-- The request is charged under a key of `keep`, or not at all. -/
def about (settings : Settings) (keep : String → Bool) (v : Visit) : Bool :=
  (unlimited settings v).charged.all fun charged => keep charged.1

/-- What the requests of the keys see of a state. -/
structure SameQuotas (settings : Settings) (keep : String → Bool) (s s' : State) : Prop where
  store : ∀ key, keep key = true → s.store (zsetKey key) = s'.store (zsetKey key)
  answers : s'.answers = s.answers.filter fun a => about settings keep a.1

theorem allowed_congr {store store' : Store} {quota : Quota} {c : Call}
    (h : store (zsetKey c.key) = store' (zsetKey c.key)) :
    (allowed store quota c).1 = (allowed store' quota c).1 ∧
      (allowed store quota c).2 (zsetKey c.key) = (allowed store' quota c).2 (zsetKey c.key) := by
  rw [allowed_store_same, allowed_store_same, allowed, allowed, count, count, recorded, recorded,
    pruned_congr h]
  exact ⟨rfl, rfl⟩

theorem verdict_congr {store store' : Store} {key : String} {limit windowSeconds : Int}
    (h : store (zsetKey key) = store' (zsetKey key)) :
    verdict store v key limit windowSeconds = verdict store' v key limit windowSeconds :=
  (allowed_congr (c := v.call key) h).1

theorem step_kept (h : SameQuotas settings keep s s') (habout : about settings keep v = true) :
    ∃ t', step settings s' v = some t' ∧ ∀ t, step settings s v = some t →
      SameQuotas settings keep t t' := by
  have hanswer : answer settings v (verdict s.store v) =
      answer settings v (verdict s'.store v) := by
    refine answer_congr ?_
    intro key limit windowSeconds hcharged
    rw [about, hcharged] at habout
    exact verdict_congr (h.store key habout)
  refine ⟨_, rfl, ?_⟩
  intro t ht
  obtain rfl := Option.some.inj ht
  constructor
  · intro key hkey
    rw [charged_answer, charged_answer]
    cases hcharged : (unlimited settings v).charged with
    | none => exact h.store key hkey
    | some charged =>
        obtain ⟨charged, limit, windowSeconds⟩ := charged
        rw [about, hcharged] at habout
        by_cases hsame : key = charged
        · rw [hsame]
          exact (allowed_congr (c := v.call charged) (h.store charged habout)).2
        · have hne : key ≠ (v.call charged).key := hsame
          simp only [afterCharge]
          rw [allowed_store_other hne, allowed_store_other hne]
          exact h.store key hkey
  · simp only [List.filter_append, List.filter_singleton, habout, cond_true, h.answers, hanswer]

theorem step_skipped {t : State} (h : SameQuotas settings keep s s')
    (habout : about settings keep v = false) (hstep : step settings s v = some t) :
    SameQuotas settings keep t s' := by
  obtain rfl := Option.some.inj hstep
  constructor
  · intro key hkey
    rw [charged_answer]
    cases hcharged : (unlimited settings v).charged with
    | none => exact h.store key hkey
    | some charged =>
        obtain ⟨charged, limit, windowSeconds⟩ := charged
        rw [about, hcharged, Option.all_some] at habout
        have hne : key ≠ (v.call charged).key := by
          rintro rfl
          exact Bool.false_ne_true (habout.symm.trans hkey)
        simp only [afterCharge]
        rw [allowed_store_other hne]
        exact h.store key hkey
  · simp only [List.filter_append, List.filter_singleton, habout, cond_false, h.answers,
      List.append_nil]

/-- Whatever the clocks read and whenever the pipelines are executed, the requests
charged under some keys and those charged under none are answered as if the
requests of the other keys had not been made. -/
theorem quotas_isolated (hrun : run (step settings) start visits = some s) :
    ∃ s', run (step settings) start (visits.filter (about settings keep)) = some s' ∧
      s'.answers = s.answers.filter fun a => about settings keep a.1 := by
  have hunwinds : Unwinds (step settings) (fun _ => about settings keep) (fun _ => True)
      (SameQuotas settings keep) := by
    refine ⟨?_, fun _ _ _ _ h _ => step_skipped h⟩
    intro s s' v t h _ habout hstep
    obtain ⟨t', ht', hsame⟩ := step_kept h habout
    exact ⟨t', ht', hsame t hstep⟩
  have hstart : SameQuotas settings keep start start := ⟨fun _ _ => rfl, rfl⟩
  obtain ⟨s', hs', hsame⟩ := hunwinds.run hstart (fun _ _ => trivial) hrun
  rw [purge_eq_filter fun _ _ => rfl] at hs'
  exact ⟨s', hs', hsame.answers⟩

def ofSecondClient (key : String) : Bool := key = "auth:10.0.0.2"

/-- The second client's login is answered as it would be on its own. -/
theorem quotas_isolated_logins :
    ∃ s', run (step oneAMinute) start (logins.filter (about oneAMinute ofSecondClient)) = some s' ∧
      s'.answers = loginAnswers.filter fun a => about oneAMinute ofSecondClient a.1 :=
  @quotas_isolated _ _ logins _ rfl

end Isolation

end CrediGuard.Gateway.Throttle
