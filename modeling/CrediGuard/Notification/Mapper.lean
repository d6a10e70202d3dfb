import CrediGuard.Events
import CrediGuard.Lib.JsonRoundTrip

/-!
The mapping from a Kafka record to a Redis channel and message. A record the
mapping raises on is mapped to nothing.
-/

namespace CrediGuard.Notification

def redisChannelFor (applicantId : Uuid) : String := "loan-status:" ++ applicantId.str

def statusChangedOf (v : Pydantic) : Json → Option (EventEnvelope LoanStatusChangedV1)
  | .obj data => do
      let payload ← LoanStatusChangedV1.modelValidate v (← Json.get? data "payload")
      some {
        eventId := ← Pydantic.field v.uuid data "event_id"
        eventType := ← v.str ((Json.get? data "event_type").getD (.str loanStatusChangedV1))
        occurredAt := ← Pydantic.field v.datetime data "occurred_at"
        correlationId := ← Pydantic.field v.uuid data "correlation_id"
        producer := ← v.str ((Json.get? data "producer").getD (.str "loan-application-service"))
        payload := payload }
  | _ => none

def parseStatusChanged (v : Pydantic) (raw : ByteArray) :
    Option (EventEnvelope LoanStatusChangedV1) :=
  (Json.loadsBytes raw).bind (statusChangedOf v)

def redisMessage (envelope : EventEnvelope LoanStatusChangedV1) : Json :=
  .obj [("event_id", .str envelope.eventId.str),
    ("event_type", .str envelope.eventType),
    ("occurred_at", .str envelope.occurredAt.isoformat),
    ("correlation_id", .str envelope.correlationId.str),
    ("loan_id", .str envelope.payload.loanId.str),
    ("applicant_id", .str envelope.payload.applicantId.str),
    ("old_status", .str envelope.payload.oldStatus),
    ("new_status", .str envelope.payload.newStatus),
    ("decision_reasons", match envelope.payload.decisionReasons with
      | none => .null
      | some reasons => .arr (reasons.map .str))]

def toRedisMessage (envelope : EventEnvelope LoanStatusChangedV1) : String × ByteArray :=
  (redisChannelFor envelope.payload.applicantId, (redisMessage envelope).dumps.toUTF8)

def handleMessage (v : Pydantic) (raw : ByteArray) : Option (String × ByteArray) :=
  (parseStatusChanged v raw).map toRedisMessage

theorem exact_redisMessage (envelope : EventEnvelope LoanStatusChangedV1) :
    Json.Exact (redisMessage envelope) := by
  simp only [redisMessage, Json.Exact, Json.ExactPairs, true_and, and_true]
  cases envelope.payload.decisionReasons with
  | none => simp only [Json.Exact]
  | some reasons => simp only [Json.Exact, Json.exactItems_map_str reasons]

/-- A subscriber reads back the message that was published. -/
theorem loadsBytes_toRedisMessage (envelope : EventEnvelope LoanStatusChangedV1) :
    Json.loadsBytes (toRedisMessage envelope).2 = some (redisMessage envelope) := by
  simp only [toRedisMessage]
  exact Json.loadsBytes_toUTF8_dumps (exact_redisMessage envelope)

end CrediGuard.Notification
