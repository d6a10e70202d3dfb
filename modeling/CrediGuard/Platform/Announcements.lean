import CrediGuard.Loan.Partitioning
import CrediGuard.Pipeline

/-!
What the status records of the loan service say: each is made from the committed
status row of a committed loan, and names the applicant and the status of that loan.
-/

namespace CrediGuard.Platform
open Loan ReadCommitted

/-- The status event of a loan as the service stores it. -/
def submission (m : LoanApplicationModel) : LoanStatusChangedV1 where
  loanId := m.id
  applicantId := m.applicantId
  oldStatus := LoanStatus.draft.value
  newStatus := m.status
  decisionReasons := none

/-- The status row of a loan. -/
structure StatusRow (m : LoanApplicationModel) (e : OutboxEventModel) : Prop where
  aggregateId : e.aggregateId = m.id
  payload : e.payload = (submission m).modelDump

/-- The record says what the status row of the loan says. -/
structure RecordFor (s : Loan.State) (m : LoanApplicationModel) (p : Publication) : Prop where
  loan : m ∈ s.world.loans.committed
  row : ∃ e ∈ s.world.outbox.committed, e.id = p.row ∧ e.eventType = loanStatusChangedV1 ∧
    StatusRow m e
  key : p.record.key = m.id.str
  payload : p.record.value.payload = .loanStatusChanged (submission m)

structure AnnouncementInv (v : Pydantic) (s : Loan.State) : Prop where
  partition : PartitionInv v s
  loans : ∀ m ∈ s.world.loans.committed, m.status = LoanStatus.submitted.value
  rows : ∀ e ∈ s.world.outbox.committed, e.eventType = loanStatusChangedV1 →
    ∃ m ∈ s.world.loans.committed, StatusRow m e
  records : ∀ p ∈ s.kafka, p.record.topic = loanStatusChangedV1 → ∃ m, RecordFor s m p

section Rows
variable {v : Pydantic} {s s' : Loan.State} {m : LoanApplicationModel} {e e' : OutboxEventModel}

theorem StatusRow.kept (h : StatusRow m e) (hkept : OnlySent e e') : StatusRow m e' := by
  refine ⟨hkept.aggregateId.trans h.aggregateId, ?_⟩
  rw [hkept.1]
  exact h.payload

/-- The status row a create request stores with its loan. -/
theorem statusRow_of_events {c : CreateCall} (hm : LoanRepository.toModel c.loan = some m)
    (he : e ∈ c.events) (htype : e.eventType = loanStatusChangedV1) : StatusRow m e := by
  obtain ⟨hid, happlicant, hstatus, _⟩ := toModel_eq_some hm
  simp only [CreateCall.events, List.mem_cons, List.not_mem_nil, or_false] at he
  cases he with
  | inl he =>
      rw [he] at htype
      exact absurd htype (by decide : loanApplicationSubmittedV1 ≠ loanStatusChangedV1)
  | inr he =>
      refine ⟨by rw [he, hid]; rfl, ?_⟩
      rw [he, submission, hid, happlicant, hstatus]
      rfl

theorem RecordFor.mono {p : Publication} (h : RecordFor s m p) (hchange : CommittedChange s s')
    (hkeeps : ∀ e ∈ s.world.outbox.committed, ∃ e' ∈ s'.world.outbox.committed, Kept e e') :
    RecordFor s' m p := by
  obtain ⟨e, he, hrow, htype, hstatus⟩ := h.row
  obtain ⟨e', he', hkept⟩ := hkeeps e he
  exact ⟨hchange.loan h.loan, ⟨e', he', hkept.1.id.trans hrow, hkept.1.eventType.trans htype,
    hstatus.kept hkept.1⟩, h.key, h.payload⟩

/-- The record a worker makes of a status row. -/
theorem recordFor_of_publishEvent (hreads : v.ReadsBack) {event : OutboxEventModel}
    {d : EnvelopeDraws} {started acked : Bool} {record : ProducerRecord}
    (hpublish : publishEvent v started event d = .ok (some record)) (hkept : Kept event e)
    (he : e ∈ s.world.outbox.committed) (htype : e.eventType = loanStatusChangedV1)
    (hm : m ∈ s.world.loans.committed) (hrow : StatusRow m e) :
    RecordFor s m ⟨event.id, record, acked⟩ := by
  have htype' : event.eventType = loanStatusChangedV1 := hkept.1.eventType.symm.trans htype
  have hpayload : event.payload = (submission m).modelDump := by
    rw [← hrow.payload, hkept.1.1]
  have hstarted : started = true := by
    cases started with
    | true => rfl
    | false => simp [publishEvent] at hpublish
  rw [hstarted, publishEvent_status hreads htype' hpayload d] at hpublish
  obtain rfl := Option.some.inj (Except.ok.inj hpublish)
  refine ⟨hm, ⟨e, he, hkept.1.id, htype, hrow⟩, ?_, rfl⟩
  change event.aggregateId.str = m.id.str
  rw [← hkept.1.aggregateId, hrow.aggregateId]

end Rows

section Steps
variable {v : Pydantic} {s s' : Loan.State}

theorem AnnouncementInv.appended (hreads : v.ReadsBack) (h : AnnouncementInv v s)
    {l : Loan.Label} (hstep : Loan.step v s l = some s') {p : Publication}
    (hkafka : s'.kafka = s.kafka ++ [p]) (htopic : p.record.topic = loanStatusChangedV1) :
    ∃ m, RecordFor s m p := by
  have hne : s'.kafka ≠ s.kafka := by simp [hkafka]
  cases step_outbox hstep with
  | inr hframe => exact absurd hframe.2.1 hne
  | inl hworker =>
      obtain ⟨n, k, _, hcase⟩ := hworker
      cases hcase.publishes with
      | inl hsame => exact absurd hsame hne
      | inr hnew =>
          obtain ⟨event, events, aborted, d, record, acked, hpos, hpublish, hkafka'⟩ := hnew
          have hlast := List.append_cancel_left (hkafka.symm.trans hkafka')
          rw [List.singleton_inj.mp hlast] at htopic ⊢
          obtain ⟨_, _, _, hrows⟩ := h.partition.order.sorted n
          rw [hpos] at hrows
          obtain ⟨e, he, hkept⟩ := hrows event (List.mem_cons_self ..)
          have htype : e.eventType = loanStatusChangedV1 := by
            rw [hkept.1.eventType, ← (publishEvent_eq_record hpublish).2.1]
            exact htopic
          obtain ⟨m, hm, hrow⟩ := h.rows e he htype
          exact ⟨m, recordFor_of_publishEvent hreads hpublish hkept he htype hm hrow⟩

theorem AnnouncementInv.step (hreads : v.ReadsBack) (h : AnnouncementInv v s) {l : Loan.Label}
    (hstep : Loan.step v s l = some s') : AnnouncementInv v s' := by
  have hchange := step_committed h.partition.session h.partition.outbox hstep
  have hkeeps (e : OutboxEventModel) (he : e ∈ s.world.outbox.committed) :
      ∃ e' ∈ s'.world.outbox.committed, Kept e e' := step_keeps h.partition.outbox hstep he
  refine ⟨h.partition.service hreads.uuid hstep, ?_, ?_, ?_⟩
  · cases hchange with
    | none hloans houtbox => rw [hloans]; exact h.loans
    | marks f hf hloans houtbox => rw [hloans]; exact h.loans
    | stores c m hm hloans houtbox =>
        rw [hloans]
        intro a ha
        cases List.mem_append.mp ha with
        | inl hold => exact h.loans a hold
        | inr hnew =>
            rw [List.mem_singleton.mp hnew]
            exact (toModel_eq_some hm).2.2.1
  · cases hchange with
    | none hloans houtbox => rw [hloans, houtbox]; exact h.rows
    | marks f hf hloans houtbox =>
        rw [hloans, houtbox]
        intro e' he' htype
        obtain ⟨e, he, rfl⟩ := List.mem_map.mp he'
        obtain ⟨m, hm, hrow⟩ := h.rows e he ((hf e).eventType.symm.trans htype)
        exact ⟨m, hm, hrow.kept (hf e)⟩
    | stores c m hm hloans houtbox =>
        rw [hloans, houtbox]
        intro e he htype
        cases List.mem_append.mp he with
        | inl hold =>
            obtain ⟨a, ha, hrow⟩ := h.rows e hold htype
            exact ⟨a, List.mem_append_left _ ha, hrow⟩
        | inr hnew =>
            exact ⟨m, List.mem_append_right _ (List.mem_singleton.mpr rfl),
              statusRow_of_events hm hnew htype⟩
  · intro p hp htopic
    have hold (hp : p ∈ s.kafka) : ∃ m, RecordFor s' m p := by
      obtain ⟨m, hrecord⟩ := h.records p hp htopic
      exact ⟨m, hrecord.mono hchange hkeeps⟩
    cases (step_appends hstep).2 with
    | inl hnothing => exact hold (hnothing.1 ▸ hp)
    | inr happends =>
        obtain ⟨q, hkafka, _⟩ := happends
        rw [hkafka] at hp
        cases List.mem_append.mp hp with
        | inl hp => exact hold hp
        | inr hnew =>
            rw [List.mem_singleton.mp hnew] at htopic ⊢
            obtain ⟨m, hrecord⟩ := h.appended hreads hstep hkafka htopic
            exact ⟨m, hrecord.mono hchange hkeeps⟩

theorem AnnouncementInv.init : AnnouncementInv v .init :=
  ⟨.init, fun _ hm => absurd hm List.not_mem_nil, fun _ he => absurd he List.not_mem_nil,
    fun _ hp => absurd hp List.not_mem_nil⟩

end Steps

end CrediGuard.Platform
