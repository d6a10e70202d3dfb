import CrediGuard.Loan.History

/-!
Whose loan a create call returns.

The replay branch reads a loan by the id an idempotency key leads to and returns
it before anything looks at its applicant. Keys are shared by all applicants, so
a call returns its caller's own loan just if the key does not name a stored loan
of somebody else.
-/

namespace CrediGuard.Loan
open ReadCommitted

/-- The loan a call returns is its caller's, and either the call created it or an
earlier call of the same caller with the same key did. -/
def OwnLoan (log : List (CreateCall × Except Error LoanApplicationResponse)) (c : CreateCall)
    (a : LoanApplicationResponse) : Prop :=
  a.applicantId = c.applicantId ∧
    (a = LoanApplicationResponse.modelValidate c.loan ∨
      ∃ c', (c', .ok (LoanApplicationResponse.modelValidate c'.loan)) ∈ log ∧
        c'.applicantId = c.applicantId ∧ c'.idempotencyKey = c.idempotencyKey ∧
        a.id = c'.loan.id)

def NamesForeignLoan (h : History) (c : CreateCall) : Prop :=
  ∃ key m, c.key? = some key ∧
    h.world.redis (IdempotencyStore.redisKey key) = some m.id.str ∧
    m ∈ h.world.loans.committed ∧ m.applicantId ≠ c.applicantId

structure HistoryInv (h : History) : Prop where
  closed : h.world.Closed
  drawn : ∀ m ∈ h.world.loans.committed, m.id ∈ h.drawn
  logged : ∀ m ∈ h.world.loans.committed, ∃ c,
    (c, .ok (LoanApplicationResponse.modelValidate c.loan)) ∈ h.log ∧
      LoanRepository.toModel c.loan = some m
  keyed : ∀ key value, h.world.redis (IdempotencyStore.redisKey key) = some value →
    ∃ id : Uuid, value = id.str ∧ id ∈ h.drawn ∧
      ∀ m ∈ h.world.loans.committed, m.id = id → m.idempotencyKey = some key

/-- The Redis keys after a call: those of before, or the call's key for its loan. -/
theorem acquired_eq_some {c : CreateCall} {redis : String → Option String} {key value : String}
    (h : acquired c redis (IdempotencyStore.redisKey key) = some value) :
    redis (IdempotencyStore.redisKey key) = some value ∨
      (c.idempotencyKey = some key ∧ value = c.loan.id.str) := by
  simp only [acquired] at h
  cases hkey : c.key? with
  | none => exact .inl (by simpa [hkey] using h)
  | some own =>
      simp only [hkey] at h
      by_cases heq : IdempotencyStore.redisKey key = IdempotencyStore.redisKey own
      · obtain rfl := redisKey_injective heq
        rw [Function.update_self] at h
        cases hold : redis (IdempotencyStore.redisKey key) with
        | some held => exact .inl (by simpa [hold] using h)
        | none =>
            refine .inr ⟨idempotencyKey_of_key? hkey, ?_⟩
            simpa [hold] using h.symm
      · rw [Function.update_of_ne heq] at h
        exact .inl h

section Step
variable {h h' : History} {c : CreateCall} {commits : Bool}

theorem historyStep_call (hclosed : h.world.Closed)
    (hstep : historyStep h (.call c commits) = some h') :
    fresh h.drawn c.draws.uuids = true ∧ ∃ result, h'.drawn = c.draws.uuids ++ h.drawn ∧
      h'.log = h.log ++ [(c, result)] ∧
      CallEffect (.request h.log.length) c h.world result h'.world := by
  simp only [historyStep] at hstep
  split at hstep
  · rename_i hfresh
    obtain ⟨⟨result, w⟩, hcall, heq⟩ := Option.map_eq_some_iff.mp hstep
    obtain rfl := heq
    exact ⟨hfresh, result, rfl, rfl, withSession_effect hclosed hcall⟩
  · contradiction

theorem CallEffect.mem_committed {t : Tx} {w w' : World}
    {result : Except Error LoanApplicationResponse} (heffect : CallEffect t c w result w')
    {m : LoanApplicationModel} (hm : m ∈ w'.loans.committed) :
    m ∈ w.loans.committed ∨ (LoanRepository.toModel c.loan = some m ∧
      result = .ok (LoanApplicationResponse.modelValidate c.loan)) := by
  cases heffect with
  | replayed a h => exact .inl hm
  | created m' hm' hno hguard hfree =>
      refine (List.mem_append.mp hm).imp_right fun hnew => ?_
      obtain rfl := List.mem_singleton.mp hnew
      exact ⟨hm', rfl⟩
  | refused e => exact .inl hm
  | uncommitted e => exact .inl hm

theorem CallEffect.redis_eq_some {t : Tx} {w w' : World}
    {result : Except Error LoanApplicationResponse} (heffect : CallEffect t c w result w')
    {key value : String} (hvalue : w'.redis (IdempotencyStore.redisKey key) = some value) :
    w.redis (IdempotencyStore.redisKey key) = some value ∨
      (c.idempotencyKey = some key ∧ value = c.loan.id.str) := by
  cases heffect with
  | replayed a h => exact .inl hvalue
  | created m hm hno hguard hfree => exact acquired_eq_some hvalue
  | refused e => exact .inl hvalue
  | uncommitted e => exact acquired_eq_some hvalue

theorem HistoryInv.call (hinv : HistoryInv h)
    (hstep : historyStep h (.call c commits) = some h') : HistoryInv h' := by
  obtain ⟨hfresh, result, hdrawn, hlog, heffect⟩ := historyStep_call hinv.closed hstep
  have hnew := loanId_of_fresh hfresh
  have hid : c.draws.loanId ∈ h'.drawn := by
    rw [hdrawn]
    exact List.mem_append_left _ (List.mem_cons_self ..)
  refine ⟨heffect.closed hinv.closed, ?_, ?_, ?_⟩
  · intro m hm
    cases heffect.mem_committed hm with
    | inl hold =>
        rw [hdrawn]
        exact List.mem_append_right _ (hinv.drawn m hold)
    | inr hcreated =>
        rw [(toModel_eq_some hcreated.1).1]
        exact hid
  · intro m hm
    rw [hlog]
    cases heffect.mem_committed hm with
    | inl hold =>
        obtain ⟨c', hc', hm'⟩ := hinv.logged m hold
        exact ⟨c', List.mem_append_left _ hc', hm'⟩
    | inr hcreated =>
        refine ⟨c, List.mem_append_right _ ?_, hcreated.1⟩
        rw [hcreated.2]
        exact List.mem_singleton.mpr rfl
  · intro key value hvalue
    cases heffect.redis_eq_some hvalue with
    | inl hold =>
        obtain ⟨id, rfl, hmem, hrows⟩ := hinv.keyed key value hold
        refine ⟨id, rfl, by rw [hdrawn]; exact List.mem_append_right _ hmem, ?_⟩
        intro m hm hmid
        cases heffect.mem_committed hm with
        | inl hm => exact hrows m hm hmid
        | inr hcreated =>
            -- the new loan's id has not been drawn before, so no key can hold it
            have heq : id = c.draws.loanId := hmid.symm.trans (toModel_eq_some hcreated.1).1
            exact absurd (heq ▸ hmem) hnew
    | inr hown =>
        obtain ⟨hkey, rfl⟩ := hown
        refine ⟨c.loan.id, rfl, hid, ?_⟩
        intro m hm hmid
        cases heffect.mem_committed hm with
        | inl hm =>
            have hdrawn' := hinv.drawn m hm
            rw [hmid] at hdrawn'
            exact absurd hdrawn' hnew
        | inr hcreated => exact (toModel_eq_some hcreated.1).2.2.2.1.trans hkey

theorem HistoryInv.expire (hinv : HistoryInv h) {key : String}
    (hstep : historyStep h (.expire key) = some h') : HistoryInv h' := by
  obtain rfl := Option.some.inj hstep
  refine ⟨⟨hinv.closed.loans, hinv.closed.outbox⟩, hinv.drawn, hinv.logged, ?_⟩
  intro key' value hvalue
  change Function.update h.world.redis key none (IdempotencyStore.redisKey key') = some value
    at hvalue
  by_cases hkey : IdempotencyStore.redisKey key' = key
  · rw [hkey, Function.update_self] at hvalue
    contradiction
  · rw [Function.update_of_ne hkey] at hvalue
    exact hinv.keyed key' value hvalue

theorem HistoryInv.init : HistoryInv History.init := by
  refine ⟨⟨rfl, rfl⟩, ?_, ?_, ?_⟩
  · intro m hm
    contradiction
  · intro m hm
    contradiction
  · intro key value hvalue
    contradiction

theorem HistoryInv.of_run {ls : List HistoryLabel}
    (hrun : Runs.run historyStep History.init ls = some h) : HistoryInv h := by
  refine Runs.invariant ?_ HistoryInv.init hrun
  intro h l h' hinv hstep
  cases l with
  | call c commits => exact hinv.call hstep
  | expire key => exact hinv.expire hstep

/-- The loan a replay returns is the stored one its key leads to. -/
theorem HistoryInv.replayed (hinv : HistoryInv h) {t : Tx} {w : World}
    {a : LoanApplicationResponse} (hreplayed : Replayed t c h.world a w) :
    ∃ key m, c.key? = some key ∧ m.idempotencyKey = some key ∧
      h.world.redis (IdempotencyStore.redisKey key) = some m.id.str ∧
      m ∈ h.world.loans.committed ∧ (∀ m' ∈ h.world.loans.committed, m'.id = m.id → m' = m) ∧
      a.id = m.id ∧ a.applicantId = m.applicantId := by
  obtain ⟨key, existingId, loanId, loan, hkey, hredis, hparse, hfound, rfl⟩ := hreplayed.found
  obtain ⟨id, rfl, _, hrows⟩ := hinv.keyed key existingId hredis
  obtain rfl : id = loanId := by simpa [Uuid.parse_str] using hparse
  obtain ⟨m, hfilter, hentity⟩ := hfound
  rw [Table.visible_of_writes_nil (Table.writes_of_pending_nil t hinv.closed.loans)] at hfilter
  have hm : m ∈ h.world.loans.committed.filter fun m => m.id = id := by
    rw [hfilter]
    exact List.mem_singleton.mpr rfl
  obtain ⟨hstored, hid⟩ := List.mem_filter.mp hm
  obtain rfl : m.id = id := of_decide_eq_true hid
  obtain ⟨hloanId, happlicantId⟩ := toEntity_eq_ok hentity
  refine ⟨key, m, hkey, hrows m hstored rfl, hredis, hstored, ?_, hloanId, happlicantId⟩
  intro m' hm' hid'
  have hmem' : m' ∈ h.world.loans.committed.filter fun x => x.id = m.id :=
    List.mem_filter.mpr ⟨hm', decide_eq_true hid'⟩
  rw [hfilter] at hmem'
  exact List.mem_singleton.mp hmem'

/-- The row a key leads to keeps the call from creating another one. -/
theorem NoReplay.not_mem {t : Tx} {w : World} (hno : NoReplay t c w) (hw : w.Closed)
    {key : String} (hkey : c.key? = some key) {m : LoanApplicationModel}
    (hredis : w.redis (IdempotencyStore.redisKey key) = some m.id.str) :
    m ∉ w.loans.committed := by
  obtain ⟨loanId, hparse, hnone⟩ := hno key hkey _ hredis
  obtain rfl : m.id = loanId := by simpa [Uuid.parse_str] using hparse
  intro hm
  simp only [Found, Table.visible_of_writes_nil (Table.writes_of_pending_nil t hw.loans),
    List.filter_eq_nil_iff] at hnone
  exact hnone m hm (decide_eq_true rfl)

end Step

/-- In every history, a call that returns a loan returns its caller's own just if
its key does not name a stored loan of another applicant. -/
theorem ownLoan_iff {ls : List HistoryLabel} {h h' : History} {c : CreateCall} {commits : Bool}
    {a : LoanApplicationResponse} (hrun : Runs.run historyStep History.init ls = some h)
    (hstep : historyStep h (.call c commits) = some h')
    (hreturns : h'.log = h.log ++ [(c, .ok a)]) :
    OwnLoan h.log c a ↔ ¬ NamesForeignLoan h c := by
  have hinv := HistoryInv.of_run hrun
  obtain ⟨hfresh, result, _, hlog, heffect⟩ := historyStep_call hinv.closed hstep
  obtain rfl : result = .ok a := by
    have hlast := hlog.symm.trans hreturns
    simpa using hlast
  generalize h'.world = w' at heffect
  cases heffect with
  | replayed a hreplayed =>
      obtain ⟨key, m, hkey, hmkey, hredis, hm, honly, haid, haapplicant⟩ :=
        hinv.replayed hreplayed
      obtain ⟨c', hlogged, hc'⟩ := hinv.logged m hm
      obtain ⟨hid, happlicant, _, hkeyOf, _⟩ := toModel_eq_some hc'
      constructor
      · rintro ⟨hown, _⟩ ⟨key', m', hkey', hredis', hm', hforeign⟩
        obtain rfl := Option.some.inj (hkey.symm.trans hkey')
        have hids : m'.id = m.id :=
          Uuid.str_injective (Option.some.inj (hredis'.symm.trans hredis))
        obtain rfl := honly m' hm' hids
        exact hforeign (haapplicant.symm.trans hown)
      · intro hno
        have hsame : m.applicantId = c.applicantId := by
          by_contra hne
          exact hno ⟨key, m, hkey, hredis, hm, hne⟩
        refine ⟨haapplicant.trans hsame, .inr ⟨c', hlogged, ?_, ?_, haid.trans hid⟩⟩
        · exact happlicant.symm.trans hsame
        · exact (hkeyOf.symm.trans hmkey).trans (idempotencyKey_of_key? hkey).symm
  | created m hm hno hguard hfree =>
      constructor
      · rintro _ ⟨key, m', hkey, hredis, hm', _⟩
        exact hno.not_mem hinv.closed hkey hredis hm'
      · intro _
        exact ⟨rfl, .inl rfl⟩

/-- The response of a call that is made in a history, by what it evaluates to. -/
theorem exists_response (ls : List HistoryLabel) (c : CreateCall) (id : Uuid)
    (heval : ((Runs.run historyStep History.init ls).bind fun h =>
      (historyStep h (.call c true)).bind fun h' =>
        h'.log.getLast?.map fun e => e.2.toOption.map fun a => a.applicantId) = some (some id)) :
    ∃ h h' a, Runs.run historyStep History.init ls = some h ∧
      historyStep h (.call c true) = some h' ∧ h'.log = h.log ++ [(c, .ok a)] ∧
      a.applicantId = id := by
  obtain ⟨h, hrun, heval⟩ := Option.bind_eq_some_iff.mp heval
  obtain ⟨h', hstep, heval⟩ := Option.bind_eq_some_iff.mp heval
  obtain ⟨_, result, _, hlog, _⟩ := historyStep_call (HistoryInv.of_run hrun).closed hstep
  cases result with
  | error e => simp [hlog, Except.toOption] at heval
  | ok a =>
      refine ⟨h, h', a, hrun, hstep, hlog, ?_⟩
      simpa [hlog, Except.toOption] using heval

/-- Two applicants, one key: the second gets the loan of the first. -/
theorem sharedKey_not_ownLoan :
    ∃ h h' a, Runs.run historyStep History.init
        [.call (.sample ⟨100⟩ (some "k") 1) true] = some h ∧
      historyStep h (.call (.sample ⟨200⟩ (some "k") 4) true) = some h' ∧
      h'.log = h.log ++ [(.sample ⟨200⟩ (some "k") 4, .ok a)] ∧
      ¬ OwnLoan h.log (.sample ⟨200⟩ (some "k") 4) a := by
  obtain ⟨h, h', a, hrun, hstep, hlog, ha⟩ :=
    exists_response [.call (.sample ⟨100⟩ (some "k") 1) true]
      (.sample ⟨200⟩ (some "k") 4) ⟨100⟩ (by decide +kernel)
  refine ⟨h, h', a, hrun, hstep, hlog, ?_⟩
  rintro ⟨hown, _⟩
  rw [ha] at hown
  exact absurd hown (by decide)

theorem ownLoan_iff_repeated :
    ∃ h h' a, Runs.run historyStep History.init
        [.call (.sample ⟨100⟩ (some "k") 1) true] = some h ∧
      historyStep h (.call (.sample ⟨100⟩ (some "k") 4) true) = some h' ∧
      (OwnLoan h.log (.sample ⟨100⟩ (some "k") 4) a ↔
        ¬ NamesForeignLoan h (.sample ⟨100⟩ (some "k") 4)) := by
  obtain ⟨h, h', a, hrun, hstep, hlog, _⟩ :=
    exists_response [.call (.sample ⟨100⟩ (some "k") 1) true]
      (.sample ⟨100⟩ (some "k") 4) ⟨100⟩ (by decide +kernel)
  exact ⟨h, h', a, hrun, hstep, ownLoan_iff hrun hstep hlog⟩

end CrediGuard.Loan
