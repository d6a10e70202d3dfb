import CrediGuard.Events
import CrediGuard.Loan.Persistence

/-!
`OutboxWorker._publish_event` and the positions of `poll_once` between two awaits.
-/

namespace CrediGuard.Loan

inductive Payload where
  | loanApplicationSubmitted (payload : LoanApplicationSubmittedV1)
  | loanStatusChanged (payload : LoanStatusChangedV1)
  deriving DecidableEq

def eventSchemas (v : Pydantic) : List (String × (Json → Option Payload)) :=
  [(loanApplicationSubmittedV1, fun data =>
      (LoanApplicationSubmittedV1.modelValidate v data).map .loanApplicationSubmitted),
    (loanStatusChangedV1, fun data =>
      (LoanStatusChangedV1.modelValidate v data).map .loanStatusChanged)]

/-- The keys of `EVENT_SCHEMAS`. -/
def knownEventTypes : List String := [loanApplicationSubmittedV1, loanStatusChangedV1]

/-- A payload that is a JSON text is read again; `str` of any other value that is
not an object is not the text of an object either. -/
def validatePayload (schema : Json → Option Payload) : Json → Option Payload
  | .obj pairs => schema (.obj pairs)
  | .str text => (Json.loads text).bind schema
  | _ => none

/-- The results of the `uuid4()` and `datetime.now(UTC)` calls of one publication. -/
structure EnvelopeDraws where
  eventId : Uuid
  correlationId : Uuid
  occurredAt : Datetime

structure ProducerRecord where
  topic : String
  key : String
  value : EventEnvelope Payload
  deriving DecidableEq

inductive PublishError where
  | runtimeError
  | validationError

/-- What `_publish_event` hands to `send_and_wait`; nothing for an unknown type. -/
def publishEvent (v : Pydantic) (started : Bool) (event : OutboxEventModel)
    (d : EnvelopeDraws) : Except PublishError (Option ProducerRecord) :=
  if started = false then .error .runtimeError
  else
    match (eventSchemas v).lookup event.eventType with
    | none => .ok none
    | some schema =>
        match validatePayload schema event.payload with
        | none => .error .validationError
        | some payload => .ok (some {
            topic := event.eventType
            key := event.aggregateId.str
            value := {
              eventId := d.eventId
              eventType := event.eventType
              occurredAt := Stamp.utc d.occurredAt
              correlationId := d.correlationId
              producer := "loan-application-service"
              payload := payload } })

/-- A record the broker took, with the outbox row it was sent for. -/
structure Publication where
  row : Uuid
  record : ProducerRecord
  acked : Bool

/-- The outcomes of `send_and_wait`: the record is acknowledged, it is not
accepted, or it is accepted and the acknowledgement does not arrive. -/
inductive Delivery where
  | acked
  | lost
  | unacknowledged
  deriving DecidableEq

inductive Position where
  | idle
  | selecting (candidates : List Uuid) (batch : List OutboxEventModel)
  | looping (events : List OutboxEventModel) (aborted : Bool)
  | updating (event : OutboxEventModel) (events : List OutboxEventModel) (aborted : Bool)

structure Worker where
  started : Bool := false
  position : Position := .idle

/-- One move of a worker. `fails` is an exception outside the loop's `try`. -/
inductive WorkerLabel where
  | start
  | select (candidates : List Uuid)
  | lock
  | fetched
  | publish (draws : EnvelopeDraws) (delivery : Delivery)
  | update (now : Datetime)
  | updateFails
  | commit
  | fails
  | crash

/-- `UPDATE outbox_events SET status, sent_at WHERE id`. -/
def markSent (id : Uuid) (now : Datetime) (m : OutboxEventModel) : OutboxEventModel :=
  if m.id = id then { m with status := "SENT", sentAt := some now } else m

def pendingRows (rows : List OutboxEventModel) : List OutboxEventModel :=
  rows.filter fun m => m.status = "PENDING"

/-- The candidates of the `SELECT`: all pending rows, oldest first. -/
def Selects (rows : List OutboxEventModel) (candidates : List Uuid) : Prop :=
  candidates.Perm ((pendingRows rows).map fun m => m.id) ∧
    (candidates.filterMap fun id => (rows.find? fun m => m.id = id).map
      fun m => m.createdAt).Pairwise (· ≤ ·)

instance (rows : List OutboxEventModel) (candidates : List Uuid) :
    Decidable (Selects rows candidates) :=
  inferInstanceAs (Decidable (_ ∧ _))

/-- The candidates as rows. -/
def rowsOf (rows : List OutboxEventModel) (ids : List Uuid) : List OutboxEventModel :=
  ids.filterMap fun id => rows.find? fun m => m.id = id

section Lemmas
variable {v : Pydantic} {started : Bool} {event : OutboxEventModel} {d : EnvelopeDraws}

theorem lookup_eventSchemas (v : Pydantic) (eventType : String) :
    (eventSchemas v).lookup eventType = none ↔ eventType ∉ knownEventTypes := by
  simp only [eventSchemas, knownEventTypes, List.lookup_eq_none_iff]
  simp

@[simp] theorem id_markSent (id : Uuid) (now : Datetime) (m : OutboxEventModel) :
    (markSent id now m).id = m.id := by
  simp only [markSent]
  split <;> rfl

theorem publishEvent_eq_skip (h : publishEvent v started event d = .ok none) :
    event.eventType ∉ knownEventTypes := by
  simp only [publishEvent] at h
  split at h
  · contradiction
  · split at h
    · rename_i hschema
      exact (lookup_eventSchemas v event.eventType).mp hschema
    · split at h <;> simp at h

theorem publishEvent_eq_record {record : ProducerRecord}
    (h : publishEvent v started event d = .ok (some record)) :
    event.eventType ∈ knownEventTypes ∧ record.topic = event.eventType ∧
      record.key = event.aggregateId.str ∧ record.value.eventId = d.eventId ∧
      ∃ schema, (eventSchemas v).lookup event.eventType = some schema ∧
        validatePayload schema event.payload = some record.value.payload := by
  simp only [publishEvent] at h
  split at h
  · contradiction
  · split at h
    · simp at h
    · rename_i schema hschema
      split at h
      · contradiction
      · rename_i payload hpayload
        obtain rfl := Option.some.inj (Except.ok.inj h)
        refine ⟨?_, rfl, rfl, rfl, schema, hschema, hpayload⟩
        by_contra hunknown
        simp [(lookup_eventSchemas v event.eventType).mpr hunknown] at hschema

end Lemmas

section Rows
variable {rows order : List OutboxEventModel} {ids : List Uuid}

theorem find?_of_mem (hunique : rows.Pairwise fun a b => a.clash b = false)
    {m : OutboxEventModel} (hm : m ∈ rows) : rows.find? (fun c => c.id = m.id) = some m := by
  cases hfind : rows.find? (fun c => c.id = m.id) with
  | none => exact absurd (List.find?_eq_none.mp hfind m hm) (by simp)
  | some c =>
      have hid := List.find?_some hfind
      rw [OutboxEventModel.eq_of_id hunique (List.mem_of_find?_eq_some hfind) hm
        (of_decide_eq_true hid)]

theorem rowsOf_map_id (hunique : rows.Pairwise fun a b => a.clash b = false)
    (h : ∀ m ∈ order, m ∈ rows) : rowsOf rows (order.map fun m => m.id) = order := by
  rw [rowsOf, List.filterMap_map]
  have hfind : ∀ m ∈ order,
      ((fun id => rows.find? fun c => c.id = id) ∘ fun m : OutboxEventModel => m.id) m =
        some m := fun m hm => find?_of_mem hunique (h m hm)
  rw [List.filterMap_congr hfind, List.filterMap_some]

theorem ids_rowsOf (h : Selects rows ids) : (rowsOf rows ids).map (fun m => m.id) = ids := by
  have hfound : ∀ id ∈ ids, (rows.find? fun m => m.id = id).map (fun m => m.id) = some id := by
    intro id hid
    obtain ⟨m, hm, hmid⟩ := List.mem_map.mp (h.1.mem_iff.mp hid)
    cases hfind : rows.find? fun m => m.id = id with
    | none =>
        have hnot := List.find?_eq_none.mp hfind m (List.mem_filter.mp hm).1
        exact absurd (decide_eq_true hmid) hnot
    | some c =>
        have hcid := List.find?_some hfind
        rw [Option.map_some, of_decide_eq_true hcid]
  rw [rowsOf, List.map_filterMap, List.filterMap_congr hfound, List.filterMap_some]

theorem sorted_rowsOf (h : Selects rows ids) :
    (rowsOf rows ids).Pairwise fun a b => a.createdAt ≤ b.createdAt := by
  apply List.pairwise_map.mp
  rw [rowsOf, List.map_filterMap]
  exact h.2

theorem mem_of_mem_rowsOf {m : OutboxEventModel} (h : m ∈ rowsOf rows ids) : m ∈ rows := by
  obtain ⟨id, _, hid⟩ := List.mem_filterMap.mp h
  exact List.mem_of_find?_eq_some hid

end Rows

end CrediGuard.Loan
