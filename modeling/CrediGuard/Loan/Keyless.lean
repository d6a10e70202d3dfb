import CrediGuard.Loan.ActiveLoans
import CrediGuard.Loan.ActiveQuery
import CrediGuard.Loan.Retries
import CrediGuard.Loan.Storable

/-!
Create calls without a usable idempotency key.

The use case and the Redis store treat a key that is absent and one that is empty
alike. The column does not: NULLs are never equal to each other and the empty string
is equal to itself, so the row of one applicant's empty key is in the way of
everybody else's.
-/

namespace CrediGuard.Loan
open ReadCommitted Statement

/-- The call is answered, and the loans changed, by its applicant's loans alone. -/
def DependsOnApplicant (h : History) (c : CreateCall) : Prop :=
  ∃ h', historyStep h (.call c true) = some h' ∧
    if openLoans h.world.loans.committed c.applicantId = [] then
      h'.log = h.log ++ [(c, .ok (LoanApplicationResponse.modelValidate c.loan))] ∧
        ∃ m, LoanRepository.toModel c.loan = some m ∧
          h'.world.loans.committed = h.world.loans.committed ++ [m]
    else
      h'.log = h.log ++ [(c, .error (.duplicateActiveApplication c.applicantId))] ∧
        h'.world.loans.committed = h.world.loans.committed

/-- The call would insert an empty key next to one. -/
def EmptyKeyTaken (rows : List LoanApplicationModel) (c : CreateCall) : Prop :=
  c.idempotencyKey = some "" ∧ ∃ m ∈ rows, m.idempotencyKey = some ""

section Statements
variable {t : Tx} {w : World} {c : CreateCall} {m : LoanApplicationModel}

theorem key?_eq_none_iff :
    c.key? = none ↔ c.idempotencyKey = none ∨ c.idempotencyKey = some "" := by
  cases hkey : c.idempotencyKey with
  | none => simp [CreateCall.key?, hkey]
  | some key => simp [CreateCall.key?, hkey]

theorem toModel_of_keyless (hkey : c.key? = none)
    (hfits : (c.request.monthlyIncome.toNumeric 12 2).isSome) :
    ∃ m, LoanRepository.toModel c.loan = some m := by
  refine (toModel_isSome_iff c).mpr ⟨?_, ?_⟩
  · exact (toNumeric_isSome_iff c.request.monthlyIncome_gt).mp (Option.isSome_iff_exists.mp hfits)
  · intro key hmem
    cases key?_eq_none_iff.mp hkey with
    | inl hnone => simp [hnone] at hmem
    | inr hempty => simp [← Option.some.inj (hempty.symm.trans hmem)]

theorem execute_of_keyless (hkey : c.key? = none) : execute t c = create t c := by
  simp only [execute, replay, hkey, pure_bind]

/-- What a call without a key does once the guard query has found no active loan. -/
theorem execute_of_unguarded (hkey : c.key? = none)
    (hguard : activeRows (w.loans.visible t) c.applicantId = []) :
    execute t c w = (do
      LoanRepository.save t c.loan
      OutboxRepository.save t (outboxEvent c.loan c.draws)
      OutboxRepository.save t (statusOutboxEvent c.loan c.draws)
      pure (LoanApplicationResponse.modelValidate c.loan)) w := by
  rw [execute_of_keyless hkey, create, Stmt.bind_of_returns (existsActive_of_none hguard)]
  simp only [Bool.false_eq_true, if_false, Stmt.on_of_returns c.submit_draft, pure_bind,
    acquireKey, hkey]

theorem execute_of_guarded (hkey : c.key? = none)
    (hguard : activeRows (w.loans.visible t) c.applicantId = [m]) :
    execute t c w = .raises (.duplicateActiveApplication c.applicantId) w := by
  rw [execute_of_keyless hkey, create, Stmt.bind_of_returns (existsActive_of_one hguard)]
  rfl

theorem save_of_clash {x : LoanApplicationModel} (hclosed : w.Closed)
    (hm : LoanRepository.toModel c.loan = some m) (hx : x ∈ w.loans.committed)
    (hclash : m.clash x = true) : LoanRepository.save t c.loan w = .raises .integrityError w := by
  have hopen := Table.openInserts_of_pending_nil t hclosed.loans
  rw [← Table.visible_of_writes_nil (Table.writes_of_pending_nil t hclosed.loans)] at hx
  simp only [LoanRepository.save, hm, Table.insert_of_clash hopen hx hclash]

theorem saveLoan_of_free (hm : LoanRepository.toModel c.loan = some m)
    (hopen : w.loans.openInserts t = []) (hfree : ∀ x ∈ w.loans.visible t, m.clash x = false) :
    LoanRepository.save t c.loan w =
      .returns () { w with loans := w.loans.write t (.insert m) } := by
  simp only [LoanRepository.save, hm, Table.insert_of_free hopen hfree]

theorem saveEvent_of_free {event : OutboxEvent} (hopen : w.outbox.openInserts t = [])
    (hfree : ∀ e ∈ w.outbox.visible t, e.id ≠ event.id) :
    OutboxRepository.save t event w =
      .returns () { w with
        outbox := w.outbox.write t (.insert (OutboxRepository.toModel event)) } := by
  have hclash : ∀ e ∈ w.outbox.visible t,
      (OutboxRepository.toModel event).clash e = false := by
    intro e he
    exact decide_eq_false fun heq => hfree e he heq.symm
  simp only [OutboxRepository.save, Table.insert_of_free hopen hclash]

/-- Nothing is in the way of the call: it returns its loan. -/
theorem execute_of_free (hkey : c.key? = none) (hclosed : w.Closed)
    (hguard : activeRows w.loans.committed c.applicantId = [])
    (hm : LoanRepository.toModel c.loan = some m)
    (hloans : ∀ x ∈ w.loans.committed, m.clash x = false)
    (hsubmitted : ∀ e ∈ w.outbox.committed, e.id ≠ c.draws.submittedEventId)
    (hstatus : ∀ e ∈ w.outbox.committed, e.id ≠ c.draws.statusEventId)
    (hdraws : c.draws.submittedEventId ≠ c.draws.statusEventId) :
    ∃ w', execute t c w = .returns (LoanApplicationResponse.modelValidate c.loan) w' := by
  have hopen := Table.openInserts_of_pending_nil t hclosed.loans
  have hopen' := Table.openInserts_of_pending_nil t hclosed.outbox
  rw [← Table.visible_of_writes_nil (Table.writes_of_pending_nil t hclosed.loans)]
    at hguard hloans
  rw [← Table.visible_of_writes_nil (Table.writes_of_pending_nil t hclosed.outbox)]
    at hsubmitted hstatus
  have hloan := saveLoan_of_free hm hopen hloans
  generalize hw : ({ w with loans := w.loans.write t (.insert m) } : World) = w₁ at hloan
  have houtbox : w₁.outbox = w.outbox := by rw [← hw]
  rw [← houtbox] at hopen' hsubmitted hstatus
  rw [execute_of_unguarded hkey hguard, Stmt.bind_of_returns hloan,
    Stmt.bind_of_returns (saveEvent_of_free hopen' hsubmitted)]
  refine ⟨_, Stmt.bind_of_returns (saveEvent_of_free ?_ ?_)⟩
  · exact (Table.openInserts_write _ t _).trans hopen'
  · intro e he
    rw [Table.visible_write_self, apply_insert] at he
    cases List.mem_append.mp he with
    | inl hold => exact hstatus e hold
    | inr hnew =>
        rw [List.mem_singleton.mp hnew]
        exact hdraws

end Statements

section History
variable {h h' : History} {c : CreateCall} {m : LoanApplicationModel}

/-- Every stored loan of a history is active: nothing moves it on. -/
theorem HistoryInv.openLoans_eq (hinv : HistoryInv h) (applicantId : Uuid) :
    openLoans h.world.loans.committed applicantId =
      activeRows h.world.loans.committed applicantId := by
  apply List.filter_congr
  intro m hm
  obtain ⟨c, _, hmodel⟩ := hinv.logged m hm
  have hactive : m.status ∈ LoanRepository.activeStatuses := by
    rw [(toModel_eq_some hmodel).2.2.1]
    exact mem_activeStatuses.mpr submitted_not_closed
  rw [isOpen_of_toModel hmodel, decide_eq_true hactive]

/-- What a history of calls one after the other keeps. -/
structure SequentialInv (h : History) : Prop where
  inv : HistoryInv h
  single : AtMostOneActive h.world.loans.committed
  events : ∀ e ∈ h.world.outbox.committed, e.id ∈ h.drawn

theorem SequentialInv.call (hseq : SequentialInv h) {commits : Bool}
    (hstep : historyStep h (.call c commits) = some h') : SequentialInv h' := by
  obtain ⟨_, result, hdrawn, _, heffect⟩ := historyStep_call hseq.inv.closed hstep
  have hold : ∀ e ∈ h.world.outbox.committed, e.id ∈ h'.drawn := by
    intro e he
    rw [hdrawn]
    exact List.mem_append_right _ (hseq.events e he)
  refine ⟨hseq.inv.call hstep, ?_, ?_⟩
  · generalize h'.world = w' at heffect
    cases heffect with
    | replayed a _ => exact hseq.single
    | refused e => exact hseq.single
    | uncommitted e => exact hseq.single
    | created m hm hno hguard hfree =>
        refine (atMostOneActive_append (isOpen_of_toModel hm)).mpr ⟨hseq.single, ?_⟩
        rw [(toModel_eq_some hm).2.1, hseq.inv.openLoans_eq]
        exact hguard
  · generalize h'.world = w' at heffect
    cases heffect with
    | replayed a _ => exact hold
    | refused e => exact hold
    | uncommitted e => exact hold
    | created m hm hno hguard hfree =>
        intro e he
        cases List.mem_append.mp he with
        | inl he => exact hold e he
        | inr hnew =>
            rw [hdrawn]
            refine List.mem_append_left _ ?_
            simp only [List.mem_cons, List.not_mem_nil, or_false] at hnew
            cases hnew with
            | inl heq => simp [heq, OutboxRepository.toModel, outboxEvent, Draws.uuids]
            | inr heq => simp [heq, OutboxRepository.toModel, statusOutboxEvent, Draws.uuids]

theorem SequentialInv.of_run {ls : List HistoryLabel}
    (hrun : Runs.run historyStep History.init ls = some h) : SequentialInv h := by
  refine Runs.invariant ?_ ⟨HistoryInv.init, ?_, ?_⟩ hrun
  · intro h l h' hseq hstep
    cases l with
    | call c commits => exact hseq.call hstep
    | expire key =>
        have hinv := hseq.inv.expire hstep
        obtain rfl := Option.some.inj hstep
        exact ⟨hinv, hseq.single, hseq.events⟩
  · exact fun _ => Nat.zero_le _
  · exact fun _ he => absurd he List.not_mem_nil

theorem historyStep_of_execute (hfresh : fresh h.drawn c.draws.uuids = true)
    {result : Except Error LoanApplicationResponse} {w : World}
    (hx : withSession (.request h.log.length) true (execute (.request h.log.length) c) h.world =
      some (result, w)) :
    historyStep h (.call c true) =
      some ⟨w, c.draws.uuids ++ h.drawn, h.log ++ [(c, result)]⟩ := by
  simp only [historyStep, if_pos hfresh, hx, Option.map_some]

/-- A call that raises before it has written anything leaves the world as it was. -/
theorem historyStep_of_raises (hclosed : h.world.Closed)
    (hfresh : fresh h.drawn c.draws.uuids = true) {e : Error}
    (hx : execute (.request h.log.length) c h.world = .raises e h.world) :
    historyStep h (.call c true) =
      some ⟨h.world, c.draws.uuids ++ h.drawn, h.log ++ [(c, .error e)]⟩ := by
  apply historyStep_of_execute hfresh
  simp only [withSession, hx, hclosed.rollback]

theorem historyStep_of_returns (hfresh : fresh h.drawn c.draws.uuids = true)
    {a : LoanApplicationResponse} {w : World}
    (hx : execute (.request h.log.length) c h.world = .returns a w) :
    historyStep h (.call c true) = some ⟨w.commit (.request h.log.length),
      c.draws.uuids ++ h.drawn, h.log ++ [(c, .ok a)]⟩ := by
  apply historyStep_of_execute hfresh
  simp only [withSession, hx, if_true]

/-- What a call without a key returns it has created. -/
theorem created_of_returns (hclosed : h.world.Closed) (hkey : c.key? = none)
    (hstep : historyStep h (.call c true) = some h') {a : LoanApplicationResponse}
    (hlog : h'.log = h.log ++ [(c, .ok a)]) :
    ∃ m, LoanRepository.toModel c.loan = some m ∧
      h'.world.loans.committed = h.world.loans.committed ++ [m] := by
  obtain ⟨_, result, _, hlog', heffect⟩ := historyStep_call hclosed hstep
  obtain rfl : result = .ok a := by simpa using hlog'.symm.trans hlog
  generalize h'.world = w' at heffect
  cases heffect with
  | replayed a hreplayed =>
      obtain ⟨key, _, _, _, hkey', _⟩ := hreplayed.found
      rw [hkey] at hkey'
      contradiction
  | created m hm hno hguard hfree => exact ⟨m, hm, rfl⟩

theorem free_iff_not_taken (hinv : HistoryInv h) (hkey : c.key? = none)
    (hfresh : fresh h.drawn c.draws.uuids = true) (hm : LoanRepository.toModel c.loan = some m) :
    (∀ x ∈ h.world.loans.committed, m.clash x = false) ↔
      ¬ EmptyKeyTaken h.world.loans.committed c := by
  obtain ⟨hid, _, _, hmkey, _⟩ := toModel_eq_some hm
  have hother (x : LoanApplicationModel) (hx : x ∈ h.world.loans.committed) : m.id ≠ x.id := by
    intro heq
    refine loanId_of_fresh hfresh ?_
    rw [show c.draws.loanId = x.id from hid.symm.trans heq]
    exact hinv.drawn x hx
  have hclash (x : LoanApplicationModel) (hx : x ∈ h.world.loans.committed) :
      m.clash x = true ↔ c.idempotencyKey = some "" ∧ x.idempotencyKey = some "" := by
    rw [LoanApplicationModel.clash, decide_eq_false (hother x hx), Bool.false_or, hmkey]
    cases key?_eq_none_iff.mp hkey with
    | inl hnone => simp [hnone, CreateCall.loan, CreateCall.draft]
    | inr hempty => simp [hempty, CreateCall.loan, CreateCall.draft, eq_comm]
  constructor
  · intro hfree htaken
    obtain ⟨hempty, x, hx, hxkey⟩ := htaken
    exact absurd ((hclash x hx).mpr ⟨hempty, hxkey⟩) (by simp [hfree x hx])
  · intro hnot x hx
    by_contra hne
    obtain ⟨hempty, hxkey⟩ := (hclash x hx).mp (Bool.eq_true_of_not_eq_false hne)
    exact hnot ⟨hempty, x, hx, hxkey⟩

end History

section Main
variable {ls : List HistoryLabel} {h : History} {c : CreateCall}

/-- In every history, a call without a usable key is decided by its applicant's loans
just if it does not bring an empty key to a table that has one, unless an active loan of
the applicant turns it away before. -/
theorem dependsOnApplicant_iff (hrun : Runs.run historyStep History.init ls = some h)
    (hkey : c.key? = none) (hfits : (c.request.monthlyIncome.toNumeric 12 2).isSome)
    (hfresh : fresh h.drawn c.draws.uuids = true) :
    DependsOnApplicant h c ↔
      openLoans h.world.loans.committed c.applicantId ≠ [] ∨
        ¬ EmptyKeyTaken h.world.loans.committed c := by
  have hseq := SequentialInv.of_run hrun
  have hclosed := hseq.inv.closed
  have hvisible := Table.visible_of_writes_nil
    (Table.writes_of_pending_nil (.request h.log.length) hclosed.loans)
  obtain ⟨m, hm⟩ := toModel_of_keyless hkey hfits
  unfold DependsOnApplicant
  by_cases hopen : openLoans h.world.loans.committed c.applicantId = []
  · simp only [hopen, ne_eq, not_true_eq_false, false_or]
    have hguard : activeRows h.world.loans.committed c.applicantId = [] :=
      (hseq.inv.openLoans_eq _).symm.trans hopen
    rw [← free_iff_not_taken hseq.inv hkey hfresh hm]
    constructor
    · intro hdepends x hx
      obtain ⟨h', hstep, hlog, _⟩ := hdepends
      by_contra hne
      have hsave := save_of_clash (t := .request h.log.length) hclosed hm hx
        (Bool.eq_true_of_not_eq_false hne)
      have hraises : execute (.request h.log.length) c h.world =
          .raises .integrityError h.world := by
        rw [execute_of_unguarded hkey (hvisible.symm ▸ hguard)]
        exact Stmt.bind_of_raises hsave
      obtain rfl := Option.some.inj
        (hstep.symm.trans (historyStep_of_raises hclosed hfresh hraises))
      simp at hlog
    · intro hfree
      have hevent (id : Uuid) (hid : id ∈ c.draws.uuids) (e : OutboxEventModel)
          (he : e ∈ h.world.outbox.committed) : e.id ≠ id := by
        intro heq
        have hnew := hfresh
        simp only [fresh, Bool.and_eq_true, List.all_eq_true, decide_eq_true_eq] at hnew
        exact hnew.2 id hid (heq ▸ hseq.events e he)
      have hdraws : c.draws.submittedEventId ≠ c.draws.statusEventId := by
        have hnodup := hfresh
        simp only [fresh, Bool.and_eq_true, decide_eq_true_eq, Draws.uuids, List.nodup_cons,
          List.mem_singleton] at hnodup
        exact hnodup.1.2.1
      obtain ⟨w, hx⟩ := execute_of_free (t := .request h.log.length) hkey hclosed hguard hm hfree
        (hevent _ (by simp [Draws.uuids])) (hevent _ (by simp [Draws.uuids])) hdraws
      have hstep := historyStep_of_returns hfresh hx
      obtain ⟨m', hm', hcommitted⟩ := created_of_returns hclosed hkey hstep rfl
      exact ⟨_, hstep, rfl, m', hm', hcommitted⟩
  · simp only [if_neg hopen]
    refine iff_of_true ?_ (.inl hopen)
    have hactive : ∃ x, activeRows (h.world.loans.visible (.request h.log.length)) c.applicantId =
        [x] := by
      rw [hvisible, ← hseq.inv.openLoans_eq]
      have hle := hseq.single c.applicantId
      have hpos := List.length_pos_iff.mpr hopen
      exact List.length_eq_one_iff.mp (by omega)
    obtain ⟨x, hx⟩ := hactive
    exact ⟨_, historyStep_of_raises hclosed hfresh (execute_of_guarded hkey hx), rfl, rfl⟩

/-- The second of two applicants whose requests have an empty key. -/
def secondEmptyKey : CreateCall := .sample ⟨200⟩ (some "") 4

theorem emptyKey_run : ∃ h, Runs.run historyStep History.init
      [.call (.sample ⟨100⟩ (some "") 1) true] = some h ∧
    fresh h.drawn secondEmptyKey.draws.uuids = true ∧
    openLoans h.world.loans.committed ⟨200⟩ = [] ∧
    ((historyStep h (.call secondEmptyKey true)).bind fun h' =>
      h'.log.getLast?.map fun e => e.2.isOk) = some false := by
  have hrun : ((Runs.run historyStep History.init
      [.call (.sample ⟨100⟩ (some "") 1) true]).map fun h =>
        decide (fresh h.drawn secondEmptyKey.draws.uuids = true ∧
          openLoans h.world.loans.committed ⟨200⟩ = [] ∧
          ((historyStep h (.call secondEmptyKey true)).bind fun h' =>
            h'.log.getLast?.map fun e => e.2.isOk) = some false)) = some true := by
    decide +kernel
  obtain ⟨h, hh, hall⟩ := Option.map_eq_some_iff.mp hrun
  exact ⟨h, hh, of_decide_eq_true hall⟩

theorem dependsOnApplicant_iff_second : ∃ h, Runs.run historyStep History.init
      [.call (.sample ⟨100⟩ (some "") 1) true] = some h ∧
    (DependsOnApplicant h secondEmptyKey ↔
      openLoans h.world.loans.committed ⟨200⟩ ≠ [] ∨
        ¬ EmptyKeyTaken h.world.loans.committed secondEmptyKey) := by
  obtain ⟨h, hrun, hfresh, _⟩ := emptyKey_run
  exact ⟨h, hrun, dependsOnApplicant_iff hrun rfl (by decide +kernel) hfresh⟩

/-- The second applicant has no loan, and is refused for the key of the first one. -/
theorem secondEmptyKey_refused : ∃ h, Runs.run historyStep History.init
      [.call (.sample ⟨100⟩ (some "") 1) true] = some h ∧
    secondEmptyKey.key? = none ∧ ¬ DependsOnApplicant h secondEmptyKey := by
  obtain ⟨h, hrun, _, hopen, hfails⟩ := emptyKey_run
  refine ⟨h, hrun, rfl, ?_⟩
  intro hdepends
  obtain ⟨h', hstep, houtcome⟩ := hdepends
  rw [if_pos (show openLoans h.world.loans.committed secondEmptyKey.applicantId = [] from hopen)]
    at houtcome
  rw [hstep, Option.bind_some, houtcome.1, List.getLast?_concat] at hfails
  exact Bool.false_ne_true (Option.some.inj hfails).symm

end Main

end CrediGuard.Loan
