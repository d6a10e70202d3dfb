import CrediGuard.Loan.OutboxMarks
import CrediGuard.Loan.Sessions

/-!
The transactional outbox.

A request commits its loan together with its two events, or nothing; a worker
commits marks only. So in every committed state the two tables go together,
wherever requests and workers are stopped.
-/

namespace CrediGuard.Loan
open ReadCommitted

def OutboxEventModel.payloadField (e : OutboxEventModel) (key : String) : Option Json :=
  match e.payload with
  | .obj pairs => Json.get? pairs key
  | _ => none

/-- The event is about the loan: its aggregate, and the ids in its payload. -/
structure Concerns (m : LoanApplicationModel) (e : OutboxEventModel) : Prop where
  aggregateId : e.aggregateId = m.id
  loanId : e.payloadField "loan_id" = some (.str m.id.str)
  applicantId : e.payloadField "applicant_id" = some (.str m.applicantId.str)

/-- A status event says that the loan went from DRAFT to its stored status. -/
def ReportsStatus (m : LoanApplicationModel) (e : OutboxEventModel) : Prop :=
  e.eventType = loanStatusChangedV1 →
    e.payloadField "old_status" = some (.str LoanStatus.draft.value) ∧
      e.payloadField "new_status" = some (.str m.status)

def eventsOf (rows : List OutboxEventModel) (loanId : Uuid) (eventType : String) :
    List OutboxEventModel :=
  rows.filter fun e => e.aggregateId = loanId && e.eventType = eventType

structure TransactionalOutbox (s : State) : Prop where
  once : ∀ m ∈ s.world.loans.committed,
    (eventsOf s.world.outbox.committed m.id "loan.application.submitted.v1").length = 1 ∧
      (eventsOf s.world.outbox.committed m.id "loan.status.changed.v1").length = 1
  owned : ∀ e ∈ s.world.outbox.committed, ∃ m ∈ s.world.loans.committed,
    Concerns m e ∧ ReportsStatus m e

/-- A move of a worker changes nothing but the marks of outbox rows. -/
def WorkersMark (v : Pydantic) (s : State) (l : Label) : Prop :=
  ∀ n k s', l = .worker n k → step v s l = some s' →
    s'.world.loans = s.world.loans ∧ s'.world.redis = s.world.redis ∧
      ∃ f, (∀ e, OnlySent e (f e)) ∧
        s'.world.outbox.committed = s.world.outbox.committed.map f

section Marks

theorem OnlySent.payloadField {a b : OutboxEventModel} (h : OnlySent a b) (key : String) :
    b.payloadField key = a.payloadField key := by
  rw [h.1]
  rfl

theorem length_eventsOf_map {f : OutboxEventModel → OutboxEventModel}
    (hf : ∀ e, OnlySent e (f e)) (rows : List OutboxEventModel) (loanId : Uuid)
    (eventType : String) :
    (eventsOf (rows.map f) loanId eventType).length = (eventsOf rows loanId eventType).length := by
  simp only [eventsOf, List.filter_map, List.length_map]
  congr 1
  apply List.filter_congr
  intro e _
  simp only [Function.comp_apply, (hf e).aggregateId, (hf e).eventType]

end Marks

section Committed
variable {v : Pydantic} {s s' : State}

/-- What a step makes of the two committed tables. -/
inductive CommittedChange (s s' : State) : Prop
  | none (hloans : s'.world.loans.committed = s.world.loans.committed)
      (houtbox : s'.world.outbox.committed = s.world.outbox.committed)
  | stores (c : CreateCall) (m : LoanApplicationModel)
      (hm : LoanRepository.toModel c.loan = some m)
      (hloans : s'.world.loans.committed = s.world.loans.committed ++ [m])
      (houtbox : s'.world.outbox.committed = s.world.outbox.committed ++ c.events)
  | marks (f : OutboxEventModel → OutboxEventModel) (hf : ∀ e, OnlySent e (f e))
      (hloans : s'.world.loans.committed = s.world.loans.committed)
      (houtbox : s'.world.outbox.committed = s.world.outbox.committed.map f)

theorem RequestStep.committed {n : Nat} {r : Request} {fails : Bool} (hsession : SessionInv s)
    (hr : s.requests n = some r) (h : RequestStep s n r fails s') : CommittedChange s s' := by
  cases h with
  | raises p e fails hp => exact .none rfl rfl
  | commitFails a e hp => exact .none rfl rfl
  | rollsBack e hp => exact .none rfl rfl
  | commits a hp =>
      cases hsession.committed_commit hr hp with
      | inl hnothing => exact .none hnothing.1 hnothing.2.1
      | inr hstored =>
          obtain ⟨m, hm, hloans, houtbox, _⟩ := hstored
          exact .stores r.call m hm hloans houtbox
  | next p q w hp hdoes =>
      cases p with
      | redisGet key => rw [hdoes.1]; exact .none rfl rfl
      | getById existingId => rw [hdoes.1]; exact .none rfl rfl
      | existsActive => rw [hdoes.1]; exact .none rfl rfl
      | saveLoan =>
          obtain ⟨_, m, loans, _, hinsert, rfl⟩ := hdoes
          exact .none (by rw [(Table.insert_eq_done hinsert).1]; rfl) rfl
      | saveEvent =>
          obtain ⟨_, outbox, hinsert, rfl⟩ := hdoes
          exact .none rfl (by rw [(Table.insert_eq_done hinsert).1]; rfl)
      | saveStatusEvent =>
          obtain ⟨_, outbox, hinsert, rfl⟩ := hdoes
          exact .none rfl (by rw [(Table.insert_eq_done hinsert).1]; rfl)
      | acquire key =>
          obtain ⟨_, hloans, houtbox, _⟩ := hdoes
          exact .none (congrArg Table.committed hloans) (congrArg Table.committed houtbox)

theorem step_committed {before : List OutboxEventModel} (hsession : SessionInv s)
    (houtbox : OutboxInv v before s) {l : Label} (hstep : step v s l = some s') :
    CommittedChange s s' := by
  cases l with
  | arrive n c =>
      simp only [step, arriveStep] at hstep
      split at hstep
      · obtain rfl := Option.some.inj hstep
        exact .none rfl rfl
      · contradiction
  | request n =>
      obtain ⟨r, hr, hcase⟩ := requestStep_cases hstep
      exact hcase.committed hsession hr
  | requestFails n =>
      obtain ⟨r, hr, hcase⟩ := requestFailStep_cases hstep
      exact hcase.committed hsession hr
  | expire key =>
      obtain rfl := Option.some.inj hstep
      exact .none rfl rfl
  | worker n k =>
      have hcase := workerStep_cases hstep
      obtain ⟨f, hf, hrows⟩ := hcase.marks houtbox
      exact .marks f (fun e => (hf e).1) (congrArg Table.committed hcase.frame.1) hrows

end Committed

section Linked
variable {v : Pydantic} {loans : List LoanApplicationModel} {outbox : List OutboxEventModel}

/-- Every loan has its two events, and every event its loan. -/
structure Linked (loans : List LoanApplicationModel) (outbox : List OutboxEventModel) : Prop where
  once : ∀ m ∈ loans, ∀ eventType ∈ knownEventTypes,
    (eventsOf outbox m.id eventType).length = 1
  owned : ∀ e ∈ outbox, ∃ m ∈ loans, Concerns m e

/-- Statuses are what a create request leaves. -/
structure Submitted (loans : List LoanApplicationModel) (outbox : List OutboxEventModel) :
    Prop where
  loans : ∀ m ∈ loans, m.status = LoanStatus.submitted.value
  events : ∀ e ∈ outbox, e.eventType = loanStatusChangedV1 →
    e.payloadField "old_status" = some (.str LoanStatus.draft.value) ∧
      e.payloadField "new_status" = some (.str LoanStatus.submitted.value)

theorem concerns_events {c : CreateCall} {m : LoanApplicationModel} (hrow : RowOf m c) :
    ∀ e ∈ c.events, Concerns m e := by
  intro e he
  have hid : c.loan.id = m.id := hrow.id.symm
  have happlicant : c.loan.applicantId = m.applicantId := hrow.applicantId.symm
  simp only [CreateCall.events, List.mem_cons, List.not_mem_nil, or_false] at he
  cases he with
  | inl he => rw [he]; exact ⟨hid, by rw [← hid]; rfl, by rw [← happlicant]; rfl⟩
  | inr he => rw [he]; exact ⟨hid, by rw [← hid]; rfl, by rw [← happlicant]; rfl⟩

theorem length_eventsOf_events (c : CreateCall) :
    ∀ eventType ∈ knownEventTypes, (eventsOf c.events c.loan.id eventType).length = 1 := by
  intro eventType htype
  have hne : loanStatusChangedV1 ≠ loanApplicationSubmittedV1 := by decide
  have hsubmitted : (OutboxRepository.toModel (outboxEvent c.loan c.draws)).eventType =
      loanApplicationSubmittedV1 := rfl
  have hstatus : (OutboxRepository.toModel (statusOutboxEvent c.loan c.draws)).eventType =
      loanStatusChangedV1 := rfl
  have hids : (OutboxRepository.toModel (outboxEvent c.loan c.draws)).aggregateId = c.loan.id ∧
      (OutboxRepository.toModel (statusOutboxEvent c.loan c.draws)).aggregateId = c.loan.id :=
    ⟨rfl, rfl⟩
  simp only [knownEventTypes, List.mem_cons, List.not_mem_nil, or_false] at htype
  cases htype with
  | inl htype => simp [eventsOf, CreateCall.events, hids, hsubmitted, hstatus, htype, hne]
  | inr htype => simp [eventsOf, CreateCall.events, hids, hsubmitted, hstatus, htype, hne.symm]

theorem eventsOf_eq_nil {rows : List OutboxEventModel} {loanId : Uuid}
    (h : ∀ e ∈ rows, e.aggregateId ≠ loanId) (eventType : String) :
    eventsOf rows loanId eventType = [] := by
  refine List.filter_eq_nil_iff.mpr ?_
  intro e he
  simp [h e he]

theorem Linked.stores (h : Linked loans outbox) {c : CreateCall} {m : LoanApplicationModel}
    (hrow : RowOf m c) (hnew : ∀ x ∈ loans, x.id ≠ m.id) :
    Linked (loans ++ [m]) (outbox ++ c.events) := by
  have hevents (e : OutboxEventModel) (he : e ∈ c.events) : e.aggregateId = m.id :=
    (concerns_events hrow e he).aggregateId
  have hold (e : OutboxEventModel) (he : e ∈ outbox) : e.aggregateId ≠ m.id := by
    obtain ⟨x, hx, hconcerns⟩ := h.owned e he
    rw [hconcerns.aggregateId]
    exact hnew x hx
  refine ⟨?_, ?_⟩
  · intro x hx eventType htype
    simp only [eventsOf, List.filter_append, List.length_append]
    cases List.mem_append.mp hx with
    | inl hx =>
        have hnone : eventsOf c.events x.id eventType = [] := by
          refine eventsOf_eq_nil ?_ eventType
          intro e he
          rw [hevents e he]
          exact (hnew x hx).symm
        have hone := h.once x hx eventType htype
        simp only [eventsOf] at hnone hone
        rw [hnone, hone]
        rfl
    | inr hx =>
        obtain rfl := List.mem_singleton.mp hx
        have hnone := eventsOf_eq_nil hold eventType
        have hone := length_eventsOf_events c eventType htype
        rw [← hrow.id] at hone
        simp only [eventsOf] at hnone hone
        rw [hnone, hone]
        rfl
  · intro e he
    cases List.mem_append.mp he with
    | inl he =>
        obtain ⟨x, hx, hconcerns⟩ := h.owned e he
        exact ⟨x, List.mem_append_left _ hx, hconcerns⟩
    | inr he =>
        exact ⟨m, List.mem_append_right _ (List.mem_singleton.mpr rfl), concerns_events hrow e he⟩

theorem Linked.marks (h : Linked loans outbox) {f : OutboxEventModel → OutboxEventModel}
    (hf : ∀ e, OnlySent e (f e)) : Linked loans (outbox.map f) := by
  refine ⟨?_, ?_⟩
  · intro m hm eventType htype
    rw [length_eventsOf_map hf]
    exact h.once m hm eventType htype
  · intro e he
    obtain ⟨e₀, he₀, rfl⟩ := List.mem_map.mp he
    obtain ⟨m, hm, hid, hloan, happlicant⟩ := h.owned e₀ he₀
    exact ⟨m, hm, (hf e₀).aggregateId.trans hid, ((hf e₀).payloadField _).trans hloan,
      ((hf e₀).payloadField _).trans happlicant⟩

theorem Submitted.stores (h : Submitted loans outbox) {c : CreateCall} {m : LoanApplicationModel}
    (hm : LoanRepository.toModel c.loan = some m) :
    Submitted (loans ++ [m]) (outbox ++ c.events) := by
  refine ⟨?_, ?_⟩
  · intro x hx
    cases List.mem_append.mp hx with
    | inl hx => exact h.loans x hx
    | inr hx =>
        rw [List.mem_singleton.mp hx]
        exact (toModel_eq_some hm).2.2.1
  · intro e he htype
    cases List.mem_append.mp he with
    | inl he => exact h.events e he htype
    | inr he =>
        simp only [CreateCall.events, List.mem_cons, List.not_mem_nil, or_false] at he
        cases he with
        | inl he =>
            rw [he] at htype
            exact absurd htype (by decide : loanApplicationSubmittedV1 ≠ loanStatusChangedV1)
        | inr he => rw [he]; exact ⟨rfl, rfl⟩

theorem Submitted.marks (h : Submitted loans outbox) {f : OutboxEventModel → OutboxEventModel}
    (hf : ∀ e, OnlySent e (f e)) : Submitted loans (outbox.map f) := by
  refine ⟨h.loans, ?_⟩
  intro e he htype
  obtain ⟨e₀, he₀, rfl⟩ := List.mem_map.mp he
  rw [(hf e₀).payloadField, (hf e₀).payloadField]
  exact h.events e₀ he₀ ((hf e₀).eventType.symm.trans htype)

end Linked

section Runs
variable {v : Pydantic} {s s' : State}

structure LinkInv (v : Pydantic) (s : State) : Prop where
  session : SessionInv s
  outbox : OutboxInv v [] s
  linked : Linked s.world.loans.committed s.world.outbox.committed
  submitted : Submitted s.world.loans.committed s.world.outbox.committed

/-- A loan that is stored has an id no stored loan has. -/
theorem SessionInv.new_id (h : SessionInv s') {loans : List LoanApplicationModel}
    {m : LoanApplicationModel} (hloans : s'.world.loans.committed = loans ++ [m]) :
    ∀ x ∈ loans, x.id ≠ m.id := by
  have hpair := h.unique.committed
  rw [hloans] at hpair
  intro x hx heq
  have hclash := (List.pairwise_append.mp hpair).2.2 x hx m (List.mem_singleton.mpr rfl)
  simp [LoanApplicationModel.clash, heq] at hclash

theorem LinkInv.step (h : LinkInv v s) {l : Label} (hstep : Loan.step v s l = some s') :
    LinkInv v s' := by
  have hsession := h.session.step hstep
  refine ⟨hsession, h.outbox.step hstep, ?_, ?_⟩
  · cases step_committed h.session h.outbox hstep with
    | none hloans houtbox => rw [hloans, houtbox]; exact h.linked
    | stores c m hm hloans houtbox =>
        rw [hloans, houtbox]
        exact h.linked.stores (rowOf_of_toModel hm) (hsession.new_id hloans)
    | marks f hf hloans houtbox => rw [hloans, houtbox]; exact h.linked.marks hf
  · cases step_committed h.session h.outbox hstep with
    | none hloans houtbox => rw [hloans, houtbox]; exact h.submitted
    | stores c m hm hloans houtbox => rw [hloans, houtbox]; exact h.submitted.stores hm
    | marks f hf hloans houtbox => rw [hloans, houtbox]; exact h.submitted.marks hf

theorem LinkInv.init : LinkInv v State.init := by
  refine ⟨.init, .of_quiet State.quiet_init List.Pairwise.nil rfl, ⟨?_, ?_⟩, ⟨?_, ?_⟩⟩
  · exact fun m hm => absurd hm List.not_mem_nil
  · exact fun e he => absurd he List.not_mem_nil
  · exact fun m hm => absurd hm List.not_mem_nil
  · exact fun e he => absurd he List.not_mem_nil

theorem LinkInv.transactionalOutbox (h : LinkInv v s) : TransactionalOutbox s := by
  refine ⟨?_, ?_⟩
  · intro m hm
    exact ⟨h.linked.once m hm loanApplicationSubmittedV1 (by decide),
      h.linked.once m hm loanStatusChangedV1 (by decide)⟩
  · intro e he
    obtain ⟨m, hm, hconcerns⟩ := h.linked.owned e he
    refine ⟨m, hm, hconcerns, ?_⟩
    rw [ReportsStatus, h.submitted.loans m hm]
    exact h.submitted.events e he

theorem LinkInv.workersMark (h : LinkInv v s) (l : Label) : WorkersMark v s l := by
  intro n k s' hl hstep
  subst hl
  have hcase := workerStep_cases hstep
  obtain ⟨hloans, hredis, _⟩ := hcase.frame
  obtain ⟨f, hf, hrows⟩ := hcase.marks h.outbox
  exact ⟨hloans, hredis, f, fun e => (hf e).1, hrows⟩

/-- In every run from empty tables the committed loans and events go together, and
workers only mark. -/
theorem transactionalOutbox_throughout (v : Pydantic) (ls : List Label) :
    Runs.Throughout (step v) TransactionalOutbox .init ls ∧
      Runs.EachStep (step v) (WorkersMark v) .init ls := by
  have hstep (s : State) (l : Label) (s' : State) (h : LinkInv v s)
      (hstep : step v s l = some s') : LinkInv v s' := h.step hstep
  refine ⟨?_, ?_⟩
  · exact Runs.throughout_of_invariant hstep (fun _ h => h.transactionalOutbox) .init ls
  · exact Runs.eachStep_of_invariant hstep (fun _ l h => h.workersMark l) .init ls

end Runs

end CrediGuard.Loan
