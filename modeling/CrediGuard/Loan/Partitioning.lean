import CrediGuard.Loan.OutboxDuplicates
import CrediGuard.Loan.OutboxLinks
import CrediGuard.Loan.OutboxOrder

/-!
Partition keys.

The worker keys a record by the aggregate of its row, and the aggregate of every
row is a loan. An applicant whose loan was closed may have another one, so the
records of an applicant have one key just if they are about one loan.

No code of the service closes a loan. Here the environment does, at any time.
-/

namespace CrediGuard.Loan
open ReadCommitted

def Payload.applicantId : Payload → Uuid
  | .loanApplicationSubmitted payload => payload.applicantId
  | .loanStatusChanged payload => payload.applicantId

/-- Records of one topic about one applicant have one key. -/
def SameKey (s : State) : Prop :=
  ∀ p ∈ s.kafka, ∀ q ∈ s.kafka, p.record.topic = q.record.topic →
    p.record.value.payload.applicantId = q.record.value.payload.applicantId →
    p.record.key = q.record.key

inductive LifecycleLabel where
  | service (l : Label)
  | close (loanId : Uuid) (status : LoanStatus)

def setStatus (loanId : Uuid) (status : LoanStatus) (m : LoanApplicationModel) :
    LoanApplicationModel :=
  if m.id = loanId then { m with status := status.value } else m

/-- The service, and the closing of stored loans. -/
def lifecycleStep (v : Pydantic) (s : State) : LifecycleLabel → Option State
  | .service l => step v s l
  | .close loanId status =>
      if status ∈ LoanStatus.closed then
        let loans := { s.world.loans with
          committed := s.world.loans.committed.map (setStatus loanId status) }
        some { s with world := { s.world with loans := loans } }
      else none

/-- The two events are about loans of one applicant. -/
def SameApplicant (s : State) (e e' : OutboxEventModel) : Prop :=
  ∃ m ∈ s.world.loans.committed, ∃ m' ∈ s.world.loans.committed,
    m.id = e.aggregateId ∧ m'.id = e'.aggregateId ∧ m.applicantId = m'.applicantId

/-- No event is published when one of its type, about another loan of the
applicant, has been. -/
def OneLoan (v : Pydantic) (s : State) : LifecycleLabel → Prop
  | .close _ _ => True
  | .service l => ∀ e ∈ s.world.outbox.committed, ∀ e' ∈ s.world.outbox.committed,
      Takes v s l e.id → (∃ p ∈ s.kafka, p.row = e'.id) → e.eventType = e'.eventType →
        SameApplicant s e e' → e.aggregateId = e'.aggregateId

/-- The stored event a record was made from, and its loan. -/
structure RecordOf (s : State) (p : Publication) (e : OutboxEventModel)
    (m : LoanApplicationModel) : Prop where
  event : e ∈ s.world.outbox.committed
  loan : m ∈ s.world.loans.committed
  row : e.id = p.row
  concerns : Concerns m e
  topic : p.record.topic = e.eventType
  key : p.record.key = e.aggregateId.str
  applicantId : p.record.value.payload.applicantId = m.applicantId

structure PartitionInv (v : Pydantic) (s : State) : Prop where
  session : SessionInv s
  outbox : OutboxInv v [] s
  order : OrderInv [] s
  linked : Linked s.world.loans.committed s.world.outbox.committed
  records : ∀ p ∈ s.kafka, ∃ e m, RecordOf s p e m

section Record
variable {v : Pydantic} {s s' : State} {n : Nat}

theorem applicantId_of_validatePayload {eventType : String} {schema : Json → Option Payload}
    {pairs : List (String × Json)} {payload : Payload}
    (hschema : (eventSchemas v).lookup eventType = some schema)
    (h : validatePayload schema (.obj pairs) = some payload) :
    Pydantic.field v.uuid pairs "applicant_id" = some payload.applicantId := by
  change schema (.obj pairs) = some payload at h
  simp only [eventSchemas, List.lookup_cons, List.lookup_nil] at hschema
  split at hschema
  · obtain rfl := Option.some.inj hschema
    obtain ⟨submitted, hvalid, rfl⟩ := Option.map_eq_some_iff.mp h
    simp only [LoanApplicationSubmittedV1.modelValidate, Option.bind_eq_bind,
      Option.bind_eq_some_iff] at hvalid
    obtain ⟨_, _, applicantId, happlicant, _, _, _, _, _, _, _, _, heq⟩ := hvalid
    obtain rfl := Option.some.inj heq
    exact happlicant
  · split at hschema
    · obtain rfl := Option.some.inj hschema
      obtain ⟨changed, hvalid, rfl⟩ := Option.map_eq_some_iff.mp h
      simp only [LoanStatusChangedV1.modelValidate, Option.bind_eq_bind,
        Option.bind_eq_some_iff] at hvalid
      obtain ⟨_, _, applicantId, happlicant, _, _, _, _, hreasons⟩ := hvalid
      split at hreasons <;>
        (obtain ⟨_, _, heq⟩ := Option.bind_eq_some_iff.mp hreasons
         obtain rfl := Option.some.inj heq
         exact happlicant)
    · contradiction

/-- A record made from a stored event. -/
theorem recordOf_of_publishEvent (huuid : ∀ u : Uuid, v.uuid (.str u.str) = some u)
    {event e : OutboxEventModel} {m : LoanApplicationModel} {d : EnvelopeDraws} {started : Bool}
    {record : ProducerRecord} {acked : Bool}
    (hpublish : publishEvent v started event d = .ok (some record)) (hkept : Kept event e)
    (he : e ∈ s.world.outbox.committed) (hm : m ∈ s.world.loans.committed)
    (hconcerns : Concerns m e) : RecordOf s ⟨event.id, record, acked⟩ e m := by
  obtain ⟨_, htopic, hkey, _, schema, hschema, hvalid⟩ := publishEvent_eq_record hpublish
  refine ⟨he, hm, hkept.1.id, hconcerns, ?_, ?_, ?_⟩
  · exact htopic.trans hkept.1.eventType.symm
  · rw [hkept.1.aggregateId]
    exact hkey
  · have hfield := hconcerns.applicantId
    simp only [OutboxEventModel.payloadField] at hfield
    split at hfield
    · rename_i pairs hpayload
      rw [← hkept.1.payload, hpayload] at hvalid
      have happlicant := applicantId_of_validatePayload hschema hvalid
      rw [Pydantic.field, hfield, Option.bind_some, huuid] at happlicant
      exact (Option.some.inj happlicant).symm
    · contradiction

theorem WorkerStep.publishes {k : WorkerLabel} (h : WorkerStep v s n k s') :
    s'.kafka = s.kafka ∨ ∃ event events aborted d record acked,
      (s.workers n).position = .looping (event :: events) aborted ∧
      publishEvent v (s.workers n).started event d = .ok (some record) ∧
      s'.kafka = s.kafka ++ [⟨event.id, record, acked⟩] := by
  cases h with
  | sends event events aborted d delivery record hp hpublish hfresh =>
      cases delivery with
      | acked => exact .inr ⟨event, events, aborted, d, record, true, hp, hpublish, rfl⟩
      | unacknowledged =>
          exact .inr ⟨event, events, aborted, d, record, false, hp, hpublish, rfl⟩
      | lost => exact .inl rfl
  | crash => exact .inl rfl
  | start hp => exact .inl rfl
  | select ids hp hids => exact .inl rfl
  | skips id ids batch hp hid => exact .inl rfl
  | locks id ids batch m hp hlen hid => exact .inl rfl
  | fetched ids batch hp hdone => exact .inl rfl
  | fails hp => exact .inl rfl
  | refuses event events aborted d delivery e hp hpublish => exact .inl rfl
  | ignores event events aborted d delivery hp hpublish => exact .inl rfl
  | updates event events now hp => exact .inl rfl
  | updateFails event events aborted hp => exact .inl rfl
  | commits hp => exact .inl rfl
  | commitsAborted hp => exact .inl rfl

end Record

section Step
variable {v : Pydantic} {s s' : State}

theorem CommittedChange.loan {m : LoanApplicationModel} (h : CommittedChange s s')
    (hm : m ∈ s.world.loans.committed) : m ∈ s'.world.loans.committed := by
  cases h with
  | none hloans houtbox => exact hloans ▸ hm
  | stores c m' hm' hloans houtbox => exact hloans ▸ List.mem_append_left _ hm
  | marks f hf hloans houtbox => exact hloans ▸ hm

theorem Concerns.kept {m : LoanApplicationModel} {e e' : OutboxEventModel} (h : Concerns m e)
    (hkept : OnlySent e e') : Concerns m e' :=
  ⟨hkept.aggregateId.trans h.aggregateId, (hkept.payloadField _).trans h.loanId,
    (hkept.payloadField _).trans h.applicantId⟩

theorem RecordOf.mono {p : Publication} {e e' : OutboxEventModel} {m : LoanApplicationModel}
    (h : RecordOf s p e m) (hm : m ∈ s'.world.loans.committed)
    (he : e' ∈ s'.world.outbox.committed) (hkept : OnlySent e e') : RecordOf s' p e' m :=
  ⟨he, hm, hkept.id.trans h.row, h.concerns.kept hkept, h.topic.trans hkept.eventType.symm,
    by rw [hkept.aggregateId]; exact h.key, h.applicantId⟩

theorem PartitionInv.published (huuid : ∀ u : Uuid, v.uuid (.str u.str) = some u)
    (h : PartitionInv v s) {n : Nat} {event : OutboxEventModel} {events : List OutboxEventModel}
    {aborted acked : Bool} {d : EnvelopeDraws} {record : ProducerRecord}
    (hp : (s.workers n).position = .looping (event :: events) aborted)
    (hpublish : publishEvent v (s.workers n).started event d = .ok (some record)) :
    ∃ e m, RecordOf s ⟨event.id, record, acked⟩ e m := by
  obtain ⟨cs, _, _, hrows⟩ := h.order.sorted n
  rw [hp] at hrows
  obtain ⟨e, he, hkept⟩ := hrows event (List.mem_cons_self ..)
  obtain ⟨m, hm, hconcerns⟩ := h.linked.owned e he
  exact ⟨e, m, recordOf_of_publishEvent huuid hpublish hkept he hm hconcerns⟩

/-- A record that a step appends is made from a stored event. -/
theorem PartitionInv.appended (huuid : ∀ u : Uuid, v.uuid (.str u.str) = some u)
    (h : PartitionInv v s) {l : Label} (hstep : step v s l = some s') {p : Publication}
    (hkafka : s'.kafka = s.kafka ++ [p]) : ∃ e m, RecordOf s p e m := by
  have hne : s'.kafka ≠ s.kafka := by simp [hkafka]
  cases step_outbox hstep with
  | inr hframe => exact absurd hframe.2.1 hne
  | inl hworker =>
      obtain ⟨n, k, _, hcase⟩ := hworker
      cases hcase.publishes with
      | inl hsame => exact absurd hsame hne
      | inr hnew =>
          obtain ⟨event, events, aborted, d, record, acked, hpos, hpublish, hkafka'⟩ := hnew
          have hlast := List.append_cancel_left (hkafka.symm.trans hkafka')
          rw [List.singleton_inj.mp hlast]
          exact h.published huuid hpos hpublish

theorem PartitionInv.service (huuid : ∀ u : Uuid, v.uuid (.str u.str) = some u)
    (h : PartitionInv v s) {l : Label} (hstep : step v s l = some s') : PartitionInv v s' := by
  have hchange := step_committed h.session h.outbox hstep
  have hsession := h.session.step hstep
  have hkeeps {p : Publication} (hp : ∃ e m, RecordOf s p e m) : ∃ e m, RecordOf s' p e m := by
    obtain ⟨e, m, hrecord⟩ := hp
    obtain ⟨e', he', hkept⟩ := step_keeps h.outbox hstep hrecord.event
    exact ⟨e', m, hrecord.mono (hchange.loan hrecord.loan) he' hkept.1⟩
  refine ⟨hsession, h.outbox.step hstep, h.order.step h.outbox hstep, ?_, ?_⟩
  · cases hchange with
    | none hloans houtbox => rw [hloans, houtbox]; exact h.linked
    | stores c m hm hloans houtbox =>
        rw [hloans, houtbox]
        exact h.linked.stores (rowOf_of_toModel hm) (hsession.new_id hloans)
    | marks f hf hloans houtbox => rw [hloans, houtbox]; exact h.linked.marks hf
  · intro p hp
    cases (step_appends hstep).2 with
    | inl hnothing => exact hkeeps (h.records p (hnothing.1 ▸ hp))
    | inr happends =>
        obtain ⟨q, hkafka, _⟩ := happends
        rw [hkafka] at hp
        cases List.mem_append.mp hp with
        | inl hold => exact hkeeps (h.records p hold)
        | inr hnew =>
            rw [List.mem_singleton.mp hnew]
            exact hkeeps (h.appended huuid hstep hkafka)

/-- Closing a loan changes its status and nothing else. -/
theorem setStatus_eq (loanId : Uuid) (status : LoanStatus) (m : LoanApplicationModel) :
    setStatus loanId status m = { m with status := (setStatus loanId status m).status } := by
  simp only [setStatus]
  split <;> rfl

theorem clash_setStatus (loanId : Uuid) (status : LoanStatus) (a b : LoanApplicationModel) :
    (setStatus loanId status a).clash b = a.clash b := by
  rw [setStatus_eq]
  rfl

theorem Concerns.setStatus {m : LoanApplicationModel} {e : OutboxEventModel} (h : Concerns m e)
    (loanId : Uuid) (status : LoanStatus) : Concerns (setStatus loanId status m) e := by
  rw [setStatus_eq]
  exact ⟨h.aggregateId, h.loanId, h.applicantId⟩

theorem SessionInv.close (h : SessionInv s) {loanId : Uuid} {status : LoanStatus}
    {T : Table Tx LoanApplicationModel}
    (hT : T = { s.world.loans with
      committed := s.world.loans.committed.map (setStatus loanId status) }) :
    SessionInv { s with world := { s.world with loans := T } } := by
  subst hT
  have hsame (n : Nat) : SameWrites s.world { s.world with loans := { s.world.loans with
      committed := s.world.loans.committed.map (setStatus loanId status) } } n := ⟨rfl, rfl⟩
  have hev : Evolves s { s with world := { s.world with loans := { s.world.loans with
      committed := s.world.loans.committed.map (setStatus loanId status) } } } := by
    refine ⟨fun n r hr => ⟨r, hr, rfl⟩, ?_⟩
    intro m hm
    refine ⟨setStatus loanId status m, List.mem_map_of_mem hm, ?_⟩
    rw [setStatus_eq]
    exact ⟨rfl, rfl⟩
  refine ⟨fun n hn => (h.absent n hn).mono (hsame n),
    fun n r hr => (h.present n r hr).mono hev (hsame n), h.drawn, h.distinct, ?_,
    fun key value hvalue => (h.redis key value hvalue).mono hev, ?_⟩
  · intro m' hm'
    obtain ⟨m, hm, rfl⟩ := List.mem_map.mp hm'
    obtain ⟨n, r, hr, hid, happlicant, hkey⟩ := h.rows m hm
    rw [setStatus_eq]
    exact ⟨n, r, hr, hid, happlicant, hkey⟩
  · have hunique := h.unique
    obtain ⟨hrows, hopen, hcross⟩ := List.pairwise_append.mp hunique
    have hclash (a b : LoanApplicationModel) :
        a.clash (setStatus loanId status b) = a.clash b := by
      rw [LoanApplicationModel.clash_comm, clash_setStatus, LoanApplicationModel.clash_comm]
    refine List.pairwise_append.mpr ⟨?_, hopen, ?_⟩
    · refine List.pairwise_map.mpr (hrows.imp ?_)
      intro a b hab
      rw [clash_setStatus, hclash]
      exact hab
    · intro a' ha' b hb
      obtain ⟨a, ha, rfl⟩ := List.mem_map.mp ha'
      rw [clash_setStatus]
      exact hcross a ha b hb

theorem Linked.close {loans : List LoanApplicationModel} {outbox : List OutboxEventModel}
    (h : Linked loans outbox) (loanId : Uuid) (status : LoanStatus) :
    Linked (loans.map (setStatus loanId status)) outbox := by
  refine ⟨?_, ?_⟩
  · intro m' hm'
    obtain ⟨m, hm, rfl⟩ := List.mem_map.mp hm'
    rw [setStatus_eq]
    exact h.once m hm
  · intro e he
    obtain ⟨m, hm, hconcerns⟩ := h.owned e he
    exact ⟨_, List.mem_map_of_mem hm, hconcerns.setStatus loanId status⟩

theorem PartitionInv.step (huuid : ∀ u : Uuid, v.uuid (.str u.str) = some u)
    (h : PartitionInv v s) {l : LifecycleLabel} (hstep : lifecycleStep v s l = some s') :
    PartitionInv v s' := by
  cases l with
  | service l => exact h.service huuid hstep
  | close loanId status =>
      simp only [lifecycleStep] at hstep
      split at hstep
      · obtain rfl := Option.some.inj hstep
        refine ⟨h.session.close rfl, ?_, ⟨h.order.start, h.order.sorted⟩,
          h.linked.close loanId status, ?_⟩
        · exact h.outbox.frame rfl (fun _ hp => hp) (fun _ hp => .inl hp)
            fun n => (h.outbox.positions n).mono ⟨fun m hm => ⟨m, hm, .refl m⟩, fun _ hp => hp⟩
        · intro p hp
          obtain ⟨e, m, hrecord⟩ := h.records p hp
          refine ⟨e, setStatus loanId status m, hrecord.event, List.mem_map_of_mem hrecord.loan,
            hrecord.row, hrecord.concerns.setStatus loanId status, hrecord.topic, hrecord.key, ?_⟩
          rw [setStatus_eq]
          exact hrecord.applicantId
      · contradiction

theorem PartitionInv.init : PartitionInv v .init := by
  refine ⟨.init, .of_quiet State.quiet_init List.Pairwise.nil rfl, .of_quiet State.quiet_init,
    ⟨?_, ?_⟩, ?_⟩
  · exact fun m hm => absurd hm List.not_mem_nil
  · exact fun e he => absurd he List.not_mem_nil
  · exact fun p hp => absurd hp List.not_mem_nil

end Step

section Keys
variable {v : Pydantic} {s s' : State}

/-- Two records of stored events have one key just if they are about one loan. -/
theorem RecordOf.key_eq_iff {p q : Publication} {e e' : OutboxEventModel}
    {m m' : LoanApplicationModel} (hp : RecordOf s p e m) (hq : RecordOf s q e' m') :
    p.record.key = q.record.key ↔ e.aggregateId = e'.aggregateId := by
  rw [hp.key, hq.key]
  exact Uuid.str_injective.eq_iff

theorem RecordOf.sameApplicant {p q : Publication} {e e' : OutboxEventModel}
    {m m' : LoanApplicationModel} (hp : RecordOf s p e m) (hq : RecordOf s q e' m')
    (happlicant : p.record.value.payload.applicantId = q.record.value.payload.applicantId) :
    SameApplicant s e e' :=
  ⟨m, hp.loan, m', hq.loan, hp.concerns.aggregateId.symm, hq.concerns.aggregateId.symm,
    hp.applicantId.symm.trans (happlicant.trans hq.applicantId)⟩

theorem SessionInv.eq_of_id (h : SessionInv s) {m m' : LoanApplicationModel}
    (hm : m ∈ s.world.loans.committed) (hm' : m' ∈ s.world.loans.committed)
    (hid : m.id = m'.id) : m = m' := by
  refine h.unique.eq_of_clash LoanApplicationModel.clash_comm hm hm' ?_
  rw [LoanApplicationModel.clash, hid, decide_eq_true rfl, Bool.true_or]

theorem RecordOf.applicantId_eq (h : SessionInv s) {p q : Publication}
    {e e' : OutboxEventModel} {m m' : LoanApplicationModel} (hp : RecordOf s p e m)
    (hq : RecordOf s q e' m') (hsame : SameApplicant s e e') :
    p.record.value.payload.applicantId = q.record.value.payload.applicantId := by
  obtain ⟨m₁, hm₁, m₂, hm₂, hid₁, hid₂, happlicant⟩ := hsame
  obtain rfl := h.eq_of_id hm₁ hp.loan (hid₁.trans hp.concerns.aggregateId)
  obtain rfl := h.eq_of_id hm₂ hq.loan (hid₂.trans hq.concerns.aggregateId)
  rw [hp.applicantId, hq.applicantId, happlicant]

/-- One more record in the topic. -/
theorem sameKey_append (h : SameKey s) {p : Publication} (hkafka : s'.kafka = s.kafka ++ [p]) :
    SameKey s' ↔ ∀ q ∈ s.kafka, p.record.topic = q.record.topic →
      p.record.value.payload.applicantId = q.record.value.payload.applicantId →
      p.record.key = q.record.key := by
  have hlast : p ∈ s'.kafka := by
    rw [hkafka]
    exact List.mem_append_right _ (List.mem_singleton.mpr rfl)
  constructor
  · intro h' q hq
    exact h' p hlast q (hkafka ▸ List.mem_append_left _ hq)
  · intro hnew a ha b hb htopic happlicant
    rw [hkafka] at ha hb
    cases List.mem_append.mp ha with
    | inl ha =>
        cases List.mem_append.mp hb with
        | inl hb => exact h a ha b hb htopic happlicant
        | inr hb =>
            rw [List.mem_singleton.mp hb] at htopic happlicant ⊢
            exact (hnew a ha htopic.symm happlicant.symm).symm
    | inr ha =>
        rw [List.mem_singleton.mp ha] at htopic happlicant ⊢
        cases List.mem_append.mp hb with
        | inl hb => exact hnew b hb htopic happlicant
        | inr hb => rw [List.mem_singleton.mp hb]

theorem PartitionInv.sameKey (huuid : ∀ u : Uuid, v.uuid (.str u.str) = some u)
    (h : PartitionInv v s) (hsame : SameKey s) {l : Label} (hstep : Loan.step v s l = some s') :
    SameKey s' ↔ OneLoan v s (.service l) := by
  have hquiet (hkafka : s'.kafka = s.kafka) (hnone : ∀ row, ¬ Takes v s l row) :
      SameKey s' ↔ OneLoan v s (.service l) := by
    refine ⟨fun _ e _ e' _ htakes => absurd htakes (hnone e.id), fun _ => ?_⟩
    rw [SameKey, hkafka]
    exact hsame
  cases (step_appends hstep).2 with
  | inl hnothing => exact hquiet hnothing.1 hnothing.2
  | inr happends =>
      obtain ⟨p, hkafka, _, _, htakes⟩ := happends
      obtain ⟨e, m, hrecord⟩ := h.appended huuid hstep hkafka
      rw [sameKey_append hsame hkafka]
      constructor
      · intro hkeys e₁ he₁ e' he' htaken hpublished htype happlicant
        obtain ⟨q, hq, hrow⟩ := hpublished
        obtain ⟨e₂, m₂, hrecord₂⟩ := h.records q hq
        obtain rfl := OutboxEventModel.eq_of_id h.outbox.unique.committed he₁ hrecord.event
          (((htakes e₁.id).mp htaken).trans hrecord.row.symm)
        obtain rfl := OutboxEventModel.eq_of_id h.outbox.unique.committed he' hrecord₂.event
          (hrow.symm.trans hrecord₂.row.symm)
        refine (hrecord.key_eq_iff hrecord₂).mp (hkeys q hq ?_ ?_)
        · rw [hrecord.topic, hrecord₂.topic, htype]
        · exact hrecord.applicantId_eq h.session hrecord₂ happlicant
      · intro hone q hq htopic happlicant
        obtain ⟨e', m', hrecord'⟩ := h.records q hq
        refine (hrecord.key_eq_iff hrecord').mpr ?_
        refine hone e hrecord.event e' hrecord'.event ((htakes e.id).mpr hrecord.row)
          ⟨q, hq, hrecord'.row.symm⟩ ?_ (hrecord.sameApplicant hrecord' happlicant)
        rw [← hrecord.topic, ← hrecord'.topic, htopic]

end Keys

section Runs
variable {v : Pydantic}

/-- From empty tables, whatever requests, workers and closings of loans do: the
records of an applicant keep one key per topic just if no worker publishes an
event when one about another loan of the applicant has been. -/
theorem sameKey_iff (huuid : ∀ u : Uuid, v.uuid (.str u.str) = some u)
    (ls : List LifecycleLabel) :
    Runs.Throughout (lifecycleStep v) SameKey .init ls ↔
      Runs.EachStep (lifecycleStep v) (OneLoan v) .init ls := by
  refine Runs.throughout_iff_eachStep (I := PartitionInv v) ?_ ?_ .init ?_ ls
  · intro s l s' hinv _ _ hstep
    exact hinv.step huuid hstep
  · intro s l s' hinv hsame hstep
    cases l with
    | service l => exact hinv.sameKey huuid hsame hstep
    | close loanId status =>
        simp only [lifecycleStep] at hstep
        split at hstep
        · obtain rfl := Option.some.inj hstep
          exact ⟨fun _ => trivial, fun _ => hsame⟩
        · contradiction
  · exact fun p hp => absurd hp List.not_mem_nil

/-- An applicant submits a loan, it is rejected, and the applicant submits another
one. A worker publishes the status events of both. -/
def secondLoan : List LifecycleLabel :=
  let create (n : Nat) (base : BitVec 128) : List Label :=
    .arrive n (.sample ⟨100⟩ none base) :: List.replicate 5 (.request n)
  let poll : List Label :=
    [.start, .select [⟨3⟩, ⟨13⟩, ⟨2⟩, ⟨12⟩], .lock, .lock, .lock, .lock, .fetched,
      .publish ⟨⟨21⟩, ⟨22⟩, 0⟩ .acked, .update 1, .publish ⟨⟨23⟩, ⟨24⟩, 0⟩ .acked].map (.worker 0)
  (create 0 1).map .service ++ [.close ⟨1⟩ .rejected] ++ (create 1 11 ++ poll).map .service

theorem secondLoan_not_sameKey :
    ∃ s, Runs.run (lifecycleStep Pydantic.strict) .init secondLoan = some s ∧ ¬ SameKey s := by
  have heval : (Runs.run (lifecycleStep Pydantic.strict) .init secondLoan).map (fun s =>
      s.kafka.map fun p => (p.record.topic, p.record.value.payload.applicantId, p.record.key)) =
        some [(loanStatusChangedV1, ⟨100⟩, Uuid.str ⟨1⟩),
          (loanStatusChangedV1, ⟨100⟩, Uuid.str ⟨11⟩)] := by decide +kernel
  obtain ⟨s, hrun, hkafka⟩ := Option.map_eq_some_iff.mp heval
  refine ⟨s, hrun, ?_⟩
  intro hsame
  match hrecords : s.kafka with
  | [] => simp [hrecords] at hkafka
  | [p] => simp [hrecords] at hkafka
  | p :: q :: rest =>
      simp only [hrecords, List.map_cons, List.cons.injEq, Prod.mk.injEq] at hkafka
      obtain ⟨⟨hptopic, hpapplicant, hpkey⟩, ⟨hqtopic, hqapplicant, hqkey⟩, _⟩ := hkafka
      have hkey := hsame p (by simp [hrecords]) q (by simp [hrecords])
        (hptopic.trans hqtopic.symm) (hpapplicant.trans hqapplicant.symm)
      rw [hpkey, hqkey] at hkey
      exact absurd (Uuid.str_injective hkey) (by decide)

theorem sameKey_iff_secondLoan :
    Runs.Throughout (lifecycleStep Pydantic.strict) SameKey .init secondLoan ↔
      Runs.EachStep (lifecycleStep Pydantic.strict) (OneLoan Pydantic.strict) .init secondLoan := by
  have huuid (u : Uuid) : Pydantic.strict.uuid (.str u.str) = some u := by
    simp only [Pydantic.strict, Uuid.parse_str]
  exact sameKey_iff huuid secondLoan

end Runs

end CrediGuard.Loan
