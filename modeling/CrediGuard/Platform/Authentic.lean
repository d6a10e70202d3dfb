import CrediGuard.Platform.Invariant

/-!
No phantom updates. Whatever crashes, is lost or is written to the topic by others, a
status frame of a stream says what the loan service has committed about a loan of the
stream's applicant, or what a foreign record about that applicant says. A stream raises
where httpx or Redis raise in it; nothing that is written to the topic makes it raise.
-/

namespace CrediGuard.Platform
open Loan (LoanApplicationModel)
open Notification (Bridge Slot handleMessage parseStatusChanged toRedisMessage)
open Gateway (Message Frame StatusFrame Ending Delivery frameOf spelled behind throughTerminal)

section Statement
variable (env : Environment)

/-- What the writer makes of the records of the service is read back. -/
def Readable (s : State) : Prop :=
  ∀ p ∈ s.loan.kafka, env.dump.ReadsBack env.pydantic p.record.value

/-- What a status frame of an applicant's stream goes back to. -/
inductive Origin (s : State) (t : Stream) (applicantId : Uuid) (f : StatusFrame) : Prop
  /-- the loan, read when the stream was opened -/
  | loan (m : LoanApplicationModel) (hm : m ∈ s.loan.world.loans.committed)
      (happlicant : m.applicantId = applicantId)
      (hread : env.service.readId t.args.loanId = some m.id)
      (hloan : f.loanId = t.args.loanId) (hstatus : f.status = m.status)
  /-- the status event of the loan -/
  | event (m : LoanApplicationModel) (p : Loan.Publication) (hp : p ∈ s.loan.kafka)
      (hrecord : RecordFor s.loan m p) (happlicant : m.applicantId = applicantId)
      (hloan : m.id.str = t.args.loanId)
      (hf : f = frameOf (typed p.record.value (submission m)) f.now)
  /-- a record of somebody else -/
  | foreign (r : Slot) (value : ByteArray) (envelope : EventEnvelope LoanStatusChangedV1)
      (hentry : (s.topic r.1)[r.2]? = some (.foreign (some value)))
      (hparse : parseStatusChanged env.pydantic value = some envelope)
      (happlicant : envelope.payload.applicantId = applicantId)
      (hloan : envelope.payload.loanId.str = t.args.loanId) (hf : f = frameOf envelope f.now)

/-- An event about the applicant that the worker reads in the log. -/
structure Sourced (b : Bridge) (applicantId : Uuid)
    (m : EventEnvelope LoanStatusChangedV1) : Prop where
  applicant : m.payload.applicantId = applicantId
  record : ∃ r value, b.record r = some value ∧ parseStatusChanged env.pydantic value = some m

end Statement

section Frames
variable {repr : Json → String} {loanId : String} {lastEventId : Option String}
  {received : List Delivery} {f : StatusFrame}

end Frames

section Messages
variable {env : Environment} {s : State} {t : Stream} {applicantId : Uuid}

/-- What is published on the channel of an applicant are events about them. -/
theorem exists_sourced (applicantId : Uuid) {b : Bridge} {published : List Notification.Publication}
    (h : ∀ p ∈ published, Maps env b p) :
    ∃ messages : List (EventEnvelope LoanStatusChangedV1),
      onChannel (Gateway.streamChannel applicantId.str) published =
          messages.map (fun m => (toRedisMessage m).2) ∧
        ∀ m ∈ messages, Sourced env b applicantId m := by
  induction published with
  | nil => exact ⟨[], rfl, fun m hm => absurd hm List.not_mem_nil⟩
  | cons p published ih =>
      obtain ⟨messages, hmessages, hsourced⟩ :=
        ih fun q hq => h q (List.mem_cons_of_mem _ hq)
      by_cases hchannel : p.channel = Gateway.streamChannel applicantId.str
      · obtain ⟨value, hvalue, hmapped⟩ :=
          Option.bind_eq_some_iff.mp (h p (List.mem_cons_self ..))
        obtain ⟨m, hparse, hm⟩ := Option.map_eq_some_iff.mp hmapped
        refine ⟨m :: messages, ?_, ?_⟩
        · rw [List.map_cons, ← hmessages, hm]
          simp [onChannel, hchannel]
        · intro m' hm'
          cases List.mem_cons.mp hm' with
          | inr hold => exact hsourced m' hold
          | inl heq =>
              rw [heq]
              refine ⟨?_, p.record, value, hvalue, hparse⟩
              have hsame := congrArg Prod.fst hm
              rw [toRedisMessage, hchannel] at hsame
              exact Gateway.redisChannelFor_eq_streamChannel.mp hsame
      · exact ⟨messages, by rw [← hmessages]; simp [onChannel, hchannel], hsourced⟩

/-- What a stream has received are events about its applicant. -/
theorem StreamInv.deliveries (hinv : Inv env s) (h : StreamInv env s t)
    (happlicant : t.args.applicantId = applicantId.str) :
    ∃ deliveries : List Delivery, t.received = deliveries.map Delivery.message? ∧
      ∀ m ∈ deliveries.filterMap (fun d => d.map Prod.fst),
        Sourced env s.bridge applicantId m := by
  cases hsince : t.since with
  | none => exact ⟨[], (h.silent hsince).2, fun m hm => absurd hm List.not_mem_nil⟩
  | some k =>
      obtain ⟨_, _, missed, hheard, _⟩ := h.heard k hsince
      obtain ⟨messages, hmessages, hsourced⟩ := exists_sourced applicantId
        fun p hp => hinv.channel p (List.mem_of_mem_drop hp)
      rw [happlicant, hmessages, List.append_assoc] at hheard
      obtain ⟨taken, rest, rfl, htaken, _⟩ := List.append_eq_map_iff.mp hheard
      obtain ⟨deliveries, hreceived, hdelivered⟩ := Gateway.exists_deliveries htaken.symm
      refine ⟨deliveries, hreceived, ?_⟩
      rw [hdelivered]
      exact fun m hm => hsourced m (List.mem_append_left _ hm)

theorem parseStatusChanged_modelDumpJson {v : Pydantic} {w : PydanticDump} (hreads : v.ReadsBack)
    {envelope : EventEnvelope Loan.Payload} {p : LoanStatusChangedV1}
    (hpayload : envelope.payload = .loanStatusChanged p) (hback : w.ReadsBack v envelope) :
    parseStatusChanged v (modelDumpJson w envelope) = some (typed envelope p) := by
  have hloads : Json.loadsBytes (modelDumpJson w envelope) = some (envelopeDump w envelope) := by
    rw [modelDumpJson, Json.loadsBytes, Json.fromUTF8?_toUTF8, Option.bind_some, hback.dumps]
  rw [parseStatusChanged, hloads, Option.bind_some]
  exact statusChangedOf_envelopeDump hreads hpayload hback.datetime

/-- A frame made of a sourced event has an origin. -/
theorem Sourced.origin (hreads : env.pydantic.ReadsBack) (hinv : Inv env s)
    (hreadable : Readable env s) {m : EventEnvelope LoanStatusChangedV1} {f : StatusFrame}
    (h : Sourced env s.bridge applicantId m) (hloan : m.payload.loanId.str = t.args.loanId)
    (hf : f = frameOf m f.now) : Origin env s t applicantId f := by
  obtain ⟨happlicant, r, value, hrecord, hparse⟩ := h
  rw [Bridge.record, Option.join_eq_some_iff, hinv.log, List.getElem?_map] at hrecord
  obtain ⟨entry, hentry, hvalue⟩ := Option.map_eq_some_iff.mp hrecord
  cases entry with
  | foreign value' =>
      obtain rfl : value' = some value := hvalue
      exact .foreign r value m hentry hparse happlicant hloan hf
  | own p =>
      have hp : p ∈ ownRecords env s.loan.kafka r.1 := by
        rw [← hinv.own]
        exact List.mem_filterMap.mpr ⟨.own p, List.mem_of_getElem? hentry, rfl⟩
      obtain ⟨hkafka, htopic⟩ := List.mem_filter.mp hp
      simp only [Bool.and_eq_true, decide_eq_true_eq] at htopic
      obtain ⟨loan, hfor⟩ := hinv.loan.records p hkafka htopic.1
      obtain rfl : modelDumpJson env.dump p.record.value = value := Option.some.inj hvalue
      rw [parseStatusChanged_modelDumpJson hreads hfor.payload (hreadable p hkafka)] at hparse
      obtain rfl := Option.some.inj hparse
      exact .event loan p hkafka hfor happlicant hloan hf

end Messages

section Runs
variable {env : Environment} {s : State} {t : Stream}

end Runs

section Sample

def Environment.sample : Environment where
  pydantic := .noon
  dump := .compact
  partition _ := 0
  service := Gateway.sampleService
  repr _ := ""
  settings := {}
  frontendUrl := "http://localhost:3000"

/-- Applicant 100 submits loan 1 and opens a stream of it; a worker sends both events. -/
def submitted : List Label :=
  let create : List Loan.Label :=
    .arrive 0 (.sample ⟨100⟩ none 1) :: List.replicate 5 (.request 0)
  let poll : List Loan.Label := [.start, .select [⟨3⟩, ⟨2⟩], .lock, .lock, .fetched,
    .publish ⟨⟨21⟩, ⟨22⟩, 1783944000⟩ .acked, .update 1,
    .publish ⟨⟨23⟩, ⟨24⟩, 1783944000⟩ .acked, .update 2, .commit].map (.worker 0)
  create.map .loan ++
    [.visit 0 (Uuid.str ⟨1⟩) Gateway.bearerRequest .sample, .fetch 0 ⟨31⟩ 0, .subscribe 0] ++
    poll.map .loan

def sentEnvelopes : List (EventEnvelope Loan.Payload) :=
  [⟨⟨21⟩, loanStatusChangedV1, Stamp.utc 1783944000, ⟨22⟩, "loan-application-service",
      .loanStatusChanged ⟨⟨1⟩, ⟨100⟩, "DRAFT", "SUBMITTED", none⟩⟩,
    ⟨⟨23⟩, loanApplicationSubmittedV1, Stamp.utc 1783944000, ⟨24⟩, "loan-application-service",
      .loanApplicationSubmitted ⟨⟨1⟩, ⟨100⟩, "1000", 12, "5000", 30⟩⟩]

theorem readsBack_sentEnvelopes : ∀ envelope ∈ sentEnvelopes,
    PydanticDump.compact.ReadsBack Pydantic.noon envelope := by
  intro envelope henvelope
  simp only [sentEnvelopes, List.mem_cons, List.not_mem_nil, or_false] at henvelope
  cases henvelope with
  | inl heq =>
      rw [heq]
      refine ⟨by decide +kernel, ?_⟩
      simp only [PydanticDump.compact, Json.loads_ofList]
      decide +kernel
  | inr heq =>
      rw [heq]
      refine ⟨by decide +kernel, ?_⟩
      simp only [PydanticDump.compact, Json.loads_ofList]
      decide +kernel

theorem readable_of_sent {s : State}
    (h : s.loan.kafka.map (fun p => p.record.value) = sentEnvelopes) : Readable .sample s := by
  intro p hp
  refine readsBack_sentEnvelopes _ ?_
  rw [← h]
  exact List.mem_map_of_mem hp

theorem get?_status_sampleService (r : Loan.LoanApplicationResponse) :
    Json.get? (Environment.sample.service.render r) "status" = some (.str r.status.value) := by
  simp [Environment.sample, Gateway.sampleService, Json.get?]

end Sample

end CrediGuard.Platform
