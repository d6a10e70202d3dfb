import CrediGuard.Gateway.LoanEvents
import CrediGuard.Loan.Sessions

/-!
A status event on its way from the outbox to the channel of its applicant.

pydantic's writer is a parameter, like its validators. What the way relies on is
that the validators take a value's own text, and that the one envelope's text
and time are read back.
-/

namespace CrediGuard
open Loan

/-- pydantic's writers of times and of JSON texts. -/
structure PydanticDump where
  datetime : Stamp → String
  dumps : Json → String

/-- The validators take the text a value is written as. -/
structure Pydantic.ReadsBack (v : Pydantic) : Prop where
  uuid : ∀ u : Uuid, v.uuid (.str u.str) = some u
  str : ∀ s, v.str (.str s) = some s
  int : ∀ n, v.int (.int n) = some n

section Dump

def LoanApplicationSubmittedV1.modelDump (p : LoanApplicationSubmittedV1) : Json :=
  .obj [("loan_id", .str p.loanId.str), ("applicant_id", .str p.applicantId.str),
    ("amount", .str p.amount), ("term_months", .int p.termMonths),
    ("monthly_income", .str p.monthlyIncome), ("applicant_age", .int p.applicantAge)]

def reasonsDump : Option (List String) → Json
  | none => .null
  | some reasons => .arr (reasons.map .str)

def LoanStatusChangedV1.modelDump (p : LoanStatusChangedV1) : Json :=
  .obj [("loan_id", .str p.loanId.str), ("applicant_id", .str p.applicantId.str),
    ("old_status", .str p.oldStatus), ("new_status", .str p.newStatus),
    ("decision_reasons", reasonsDump p.decisionReasons)]

/-- The payload is written by its runtime class. -/
def Loan.Payload.modelDump : Payload → Json
  | .loanApplicationSubmitted payload => payload.modelDump
  | .loanStatusChanged payload => payload.modelDump

def envelopeDump (w : PydanticDump) (envelope : EventEnvelope Payload) : Json :=
  .obj [("event_id", .str envelope.eventId.str), ("event_type", .str envelope.eventType),
    ("occurred_at", .str (w.datetime envelope.occurredAt)),
    ("correlation_id", .str envelope.correlationId.str), ("producer", .str envelope.producer),
    ("payload", envelope.payload.modelDump)]

/-- `model_dump_json().encode()`, the value of a Kafka record. -/
def modelDumpJson (w : PydanticDump) (envelope : EventEnvelope Payload) : ByteArray :=
  (w.dumps (envelopeDump w envelope)).toUTF8

/-- What the writer makes of this envelope is read back. -/
structure PydanticDump.ReadsBack (w : PydanticDump) (v : Pydantic)
    (envelope : EventEnvelope Payload) : Prop where
  datetime : v.datetime (.str (w.datetime envelope.occurredAt)) = some envelope.occurredAt
  dumps : Json.loads (w.dumps (envelopeDump w envelope)) = some (envelopeDump w envelope)

end Dump

/-- A JSON object that says what the envelope says. -/
def Announces (message : ByteArray) (envelope : EventEnvelope Payload)
    (payload : LoanStatusChangedV1) : Prop :=
  ∃ pairs, Json.loadsBytes message = some (.obj pairs) ∧
    Json.get? pairs "event_id" = some (.str envelope.eventId.str) ∧
    Json.get? pairs "occurred_at" = some (.str envelope.occurredAt.isoformat) ∧
    Json.get? pairs "loan_id" = some (.str payload.loanId.str) ∧
    Json.get? pairs "applicant_id" = some (.str payload.applicantId.str) ∧
    Json.get? pairs "old_status" = some (.str payload.oldStatus) ∧
    Json.get? pairs "new_status" = some (.str payload.newStatus) ∧
    Json.get? pairs "decision_reasons" = some (reasonsDump payload.decisionReasons)

/-- The row validates under the schema `_publish_event` selects for its type. -/
def Validates (v : Pydantic) (e : OutboxEventModel) : Prop :=
  ∃ schema payload, (eventSchemas v).lookup e.eventType = some schema ∧
    validatePayload schema e.payload = some payload

section Schemas
variable {v : Pydantic}

theorem mapM_str (h : v.ReadsBack) (reasons : List String) :
    (reasons.map Json.str).mapM v.str = some reasons := by
  induction reasons with
  | nil => rfl
  | cons r reasons ih =>
      simp only [List.map_cons, List.mapM_cons, h.str, ih, Option.bind_eq_bind, Option.bind_some,
        Option.pure_def]

theorem strings?_reasonsDump (h : v.ReadsBack) (reasons : Option (List String)) :
    v.strings? (reasonsDump reasons) = some reasons := by
  cases reasons with
  | none => rfl
  | some reasons => simp only [reasonsDump, Pydantic.strings?, mapM_str h, Option.map_some]

theorem LoanStatusChangedV1.modelValidate_modelDump (h : v.ReadsBack) (p : LoanStatusChangedV1) :
    modelValidate v p.modelDump = some p := by
  simp [modelValidate, modelDump, Pydantic.field, Json.get?, h.uuid, h.str,
    strings?_reasonsDump h]

theorem LoanApplicationSubmittedV1.modelValidate_modelDump (h : v.ReadsBack)
    (p : LoanApplicationSubmittedV1) : modelValidate v p.modelDump = some p := by
  simp [modelValidate, modelDump, Pydantic.field, Json.get?, h.uuid, h.str, h.int]

theorem lookup_statusChanged (v : Pydantic) : (eventSchemas v).lookup loanStatusChangedV1 =
    some fun data => (LoanStatusChangedV1.modelValidate v data).map .loanStatusChanged := rfl

theorem lookup_submitted (v : Pydantic) : (eventSchemas v).lookup loanApplicationSubmittedV1 =
    some fun data =>
      (LoanApplicationSubmittedV1.modelValidate v data).map .loanApplicationSubmitted := rfl

/-- The two rows of a create request. -/
theorem validates_events (h : v.ReadsBack) (c : CreateCall) : ∀ e ∈ c.events, Validates v e := by
  intro e he
  simp only [CreateCall.events, List.mem_cons, List.not_mem_nil, or_false] at he
  cases he with
  | inl he =>
      let p : LoanApplicationSubmittedV1 := {
        loanId := c.loan.id
        applicantId := c.loan.applicantId
        amount := c.loan.amount.str
        termMonths := c.loan.termMonths
        monthlyIncome := c.loan.monthlyIncome.str
        applicantAge := c.loan.applicantAge }
      rw [he]
      refine ⟨_, .loanApplicationSubmitted p, lookup_submitted v, ?_⟩
      exact congrArg (Option.map _) (LoanApplicationSubmittedV1.modelValidate_modelDump h p)
  | inr he =>
      let p : LoanStatusChangedV1 := {
        loanId := c.loan.id
        applicantId := c.loan.applicantId
        oldStatus := LoanStatus.draft.value
        newStatus := c.loan.status.value
        decisionReasons := none }
      rw [he]
      refine ⟨_, .loanStatusChanged p, lookup_statusChanged v, ?_⟩
      exact congrArg (Option.map _) (LoanStatusChangedV1.modelValidate_modelDump h p)

end Schemas

section Way
variable {v : Pydantic} {w : PydanticDump}

/-- The envelope the notification service makes of a status event. -/
def typed (envelope : EventEnvelope Payload) (p : LoanStatusChangedV1) :
    EventEnvelope LoanStatusChangedV1 :=
  { envelope with payload := p }

theorem publishEvent_status (h : v.ReadsBack) {event : OutboxEventModel}
    (htype : event.eventType = loanStatusChangedV1) {p : LoanStatusChangedV1}
    (hpayload : event.payload = p.modelDump) (d : EnvelopeDraws) :
    publishEvent v true event d = .ok (some {
      topic := loanStatusChangedV1
      key := event.aggregateId.str
      value := {
        eventId := d.eventId
        eventType := loanStatusChangedV1
        occurredAt := Stamp.utc d.occurredAt
        correlationId := d.correlationId
        producer := "loan-application-service"
        payload := .loanStatusChanged p } }) := by
  have hvalid : validatePayload
      (fun data => (LoanStatusChangedV1.modelValidate v data).map .loanStatusChanged)
      event.payload = some (.loanStatusChanged p) := by
    rw [hpayload]
    exact congrArg (Option.map _) (LoanStatusChangedV1.modelValidate_modelDump h p)
  simp only [publishEvent, htype, lookup_statusChanged, hvalid, Bool.true_eq_false, if_false]

theorem statusChangedOf_envelopeDump (h : v.ReadsBack) {envelope : EventEnvelope Payload}
    {p : LoanStatusChangedV1} (hpayload : envelope.payload = .loanStatusChanged p)
    (htime : v.datetime (.str (w.datetime envelope.occurredAt)) = some envelope.occurredAt) :
    Notification.statusChangedOf v (envelopeDump w envelope) = some (typed envelope p) := by
  have hvalid := LoanStatusChangedV1.modelValidate_modelDump h p
  simp [Notification.statusChangedOf, envelopeDump, hpayload, Payload.modelDump, Json.get?,
    hvalid, Pydantic.field, h.uuid, h.str, htime, typed]

theorem handleMessage_modelDumpJson (h : v.ReadsBack) {envelope : EventEnvelope Payload}
    {p : LoanStatusChangedV1} (hpayload : envelope.payload = .loanStatusChanged p)
    (hreads : w.ReadsBack v envelope) :
    Notification.handleMessage v (modelDumpJson w envelope) =
      some (Notification.toRedisMessage (typed envelope p)) := by
  have hloads : Json.loadsBytes (modelDumpJson w envelope) = some (envelopeDump w envelope) := by
    rw [modelDumpJson, Json.loadsBytes, Json.fromUTF8?_toUTF8, Option.bind_some, hreads.dumps]
  rw [Notification.handleMessage, Notification.parseStatusChanged, hloads, Option.bind_some,
    statusChangedOf_envelopeDump h hpayload hreads.datetime, Option.map_some]

theorem announces_toRedisMessage (envelope : EventEnvelope Payload) (p : LoanStatusChangedV1) :
    Announces (Notification.toRedisMessage (typed envelope p)).2 envelope p := by
  refine ⟨_, Notification.loadsBytes_toRedisMessage (typed envelope p), ?_⟩
  refine ⟨rfl, rfl, rfl, rfl, rfl, rfl, ?_⟩
  change some _ = some (reasonsDump p.decisionReasons)
  simp only [typed]
  cases p.decisionReasons <;> rfl

/-- The channel a message is published on is the one a stream subscribes to. -/
theorem redisChannelFor_eq (applicantId : Uuid) :
    Notification.redisChannelFor applicantId = Gateway.streamChannel applicantId.str := by
  simp only [Notification.redisChannelFor, Gateway.streamChannel]

theorem handleMessage_announces (h : v.ReadsBack) {envelope : EventEnvelope Payload}
    {p : LoanStatusChangedV1} (hpayload : envelope.payload = .loanStatusChanged p)
    (hreads : w.ReadsBack v envelope) : ∃ message,
      Notification.handleMessage v (modelDumpJson w envelope) =
        some (Gateway.streamChannel p.applicantId.str, message) ∧
      Announces message envelope p := by
  have hchannel : (Notification.toRedisMessage (typed envelope p)).1 =
      Gateway.streamChannel p.applicantId.str := redisChannelFor_eq p.applicantId
  refine ⟨_, ?_, announces_toRedisMessage envelope p⟩
  rw [handleMessage_modelDumpJson h hpayload hreads, ← hchannel]

/-- A stored status event arrives on the channel its applicant's streams subscribe
to, saying what its envelope says; and what a create request stores validates. -/
theorem statusEvent_survives (h : v.ReadsBack) :
    (∀ (p : LoanStatusChangedV1) (event : OutboxEventModel) (d : EnvelopeDraws),
      event.eventType = loanStatusChangedV1 → event.payload = p.modelDump →
      ∃ record, publishEvent v true event d = .ok (some record) ∧
        record.value.payload = .loanStatusChanged p ∧
        (w.ReadsBack v record.value → ∃ message,
          Notification.handleMessage v (modelDumpJson w record.value) =
            some (Gateway.streamChannel p.applicantId.str, message) ∧
          Announces message record.value p)) ∧
      ∀ c : CreateCall, ∀ e ∈ c.events, Validates v e := by
  refine ⟨?_, validates_events h⟩
  intro p event d htype hpayload
  refine ⟨_, publishEvent_status h htype hpayload d, rfl, ?_⟩
  intro hreads
  exact handleMessage_announces h rfl hreads

end Way

section Written

/-- A writer without blanks, which escapes only what a JSON text must. -/
def compactStr (s : String) : List Char :=
  '"' :: (s.toList.flatMap fun c => if 126 < c.toNat then [c] else Json.escapeChar c) ++ ['"']

mutual
def compact : Json → List Char
  | .str s => compactStr s
  | .arr [] => ['[', ']']
  | .arr (x :: xs) => '[' :: (compact x ++ compactItems xs)
  | .obj [] => ['{', '}']
  | .obj ((k, x) :: ps) => '{' :: (compactStr k ++ ':' :: (compact x ++ compactPairs ps))
  | j => j.text
def compactItems : List Json → List Char
  | [] => [']']
  | x :: xs => ',' :: (compact x ++ compactItems xs)
def compactPairs : List (String × Json) → List Char
  | [] => ['}']
  | (k, x) :: ps => ',' :: (compactStr k ++ ':' :: (compact x ++ compactPairs ps))
end

/-- A time in UTC ends in `Z`. -/
def PydanticDump.compact : PydanticDump where
  datetime t := Stamp.isoformat ⟨t.instant, none⟩ ++ "Z"
  dumps j := String.ofList (CrediGuard.compact j)

/-- The strict validators, and one time. -/
def Pydantic.noon : Pydantic :=
  { Pydantic.strict with
    datetime := fun j => if j = .str "2026-07-13T12:00:00Z" then some (Stamp.utc 1783944000)
      else none }

theorem readsBack_noon : Pydantic.noon.ReadsBack := by
  refine ⟨?_, fun s => rfl, fun n => rfl⟩
  intro u
  simp only [Pydantic.noon, Pydantic.strict, Uuid.parse_str]

def rejection : LoanStatusChangedV1 :=
  ⟨⟨1⟩, ⟨100⟩, "UNDERWRITING", "REJECTED", some ["próg DTI"]⟩

def rejectionRow : OutboxEventModel :=
  ⟨⟨3⟩, ⟨1⟩, loanStatusChangedV1, rejection.modelDump, "PENDING", 0, none⟩

def rejectionEnvelope : EventEnvelope Payload :=
  ⟨⟨7⟩, loanStatusChangedV1, Stamp.utc 1783944000, ⟨8⟩, "loan-application-service",
    .loanStatusChanged rejection⟩

theorem readsBack_rejection : PydanticDump.compact.ReadsBack Pydantic.noon rejectionEnvelope := by
  refine ⟨by decide +kernel, ?_⟩
  simp only [PydanticDump.compact, Json.loads_ofList]
  decide +kernel

theorem statusEvent_survives_noon :
    ∃ record message, publishEvent Pydantic.noon true rejectionRow ⟨⟨7⟩, ⟨8⟩, 1783944000⟩ =
        .ok (some record) ∧
      Notification.handleMessage Pydantic.noon (modelDumpJson .compact record.value) =
        some (Gateway.streamChannel (Uuid.str ⟨100⟩), message) ∧
      Announces message record.value rejection := by
  obtain ⟨record, hpublish, _, hway⟩ := (statusEvent_survives readsBack_noon).1 rejection
    rejectionRow ⟨⟨7⟩, ⟨8⟩, 1783944000⟩ rfl rfl
  have hrecord := (publishEvent_status readsBack_noon rfl rfl
    ⟨⟨7⟩, ⟨8⟩, 1783944000⟩).symm.trans hpublish
  have hvalue : record.value = rejectionEnvelope := by
    rw [← Option.some.inj (Except.ok.inj hrecord)]
    rfl
  have hreads : PydanticDump.compact.ReadsBack Pydantic.noon record.value := by
    rw [hvalue]
    exact readsBack_rejection
  obtain ⟨message, hhandle, hannounces⟩ := hway hreads
  exact ⟨record, message, hpublish, hhandle, hannounces⟩

end Written

end CrediGuard
