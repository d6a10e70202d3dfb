import CrediGuard.Notification.Mapper

/-!
`event_stream`: the frames of one SSE connection, as a function of what the loan
service and the Pub/Sub channel hand to it.

What one message does to an open stream is `react`; `listen` is the loop over
the results of `get_message`, none being a timeout. `json.loads` is a parameter:
it also reads UTF-16 and UTF-32, and not every error it raises is one the loop
catches. What the notification service publishes is read by `utf8Loads`.
-/

namespace CrediGuard.Gateway
open Notification

def totalSteps : Int := 5

def statusSteps : List (String × Int × String) :=
  [("SUBMITTED", 1, "Wniosek przyjęty..."),
    ("DOC_VERIFICATION", 2, "Weryfikacja dokumentu..."),
    ("UNDERWRITING", 3, "Analiza ryzyka kredytowego..."),
    ("APPROVED", 4, "Wniosek zaakceptowany"),
    ("DISBURSING", 5, "Wypłata środków..."),
    ("DISBURSED", 5, "Wypłacono"),
    ("DOC_REJECTED", 2, "Dokument zweryfikowany negatywnie"),
    ("REJECTED", 3, "Wniosek odrzucony"),
    ("DISBURSEMENT_FAILED", 5, "Błąd wypłaty")]

def statusStep (status : String) : Int × String :=
  ((statusSteps.find? fun s => s.1 = status).map Prod.snd).getD (1, "Przetwarzanie...")

def terminalStatuses : List String :=
  ["DISBURSED", "DOC_REJECTED", "REJECTED", "DISBURSEMENT_FAILED"]

def isTerminal (status : String) : Bool := status ∈ terminalStatuses

/-- A terminal status is one the table of steps knows. -/
theorem statusStep_of_isTerminal {status : String} (h : isTerminal status = true) :
    status ∈ statusSteps.map Prod.fst := by
  simp only [isTerminal, terminalStatuses, decide_eq_true_eq, List.mem_cons, List.not_mem_nil,
    or_false] at h
  cases h with
  | inl h => rw [h]; decide
  | inr h =>
      cases h with
      | inl h => rw [h]; decide
      | inr h =>
          cases h with
          | inl h => rw [h]; decide
          | inr h => rw [h]; decide

def formatSse (event : String) (data : Json) (eventId : String) : String :=
  "id: " ++ eventId ++ "\nevent: " ++ event ++ "\ndata: " ++ data.dumps ++ "\n\n"

/-- The arguments of `status_frame`, with the clock reading it may take. -/
structure StatusFrame where
  loanId : String
  status : String
  eventId : String
  reasons : Json := .null
  occurredAt : Json := .null
  now : Datetime

def statusFrame (f : StatusFrame) : String :=
  let (step, message) := statusStep f.status
  let event := if isTerminal f.status ∨ f.status = "APPROVED" then "decision" else "status"
  let occurredAt :=
    if f.occurredAt.truthy then f.occurredAt else .str (Stamp.utc f.now).isoformat
  let data := [("loan_id", .str f.loanId), ("status", .str f.status), ("step", .int step),
    ("total_steps", .int totalSteps), ("message", .str message), ("occurred_at", occurredAt)]
  let reasons := if f.reasons.truthy then [("reasons", f.reasons)] else []
  formatSse event (.obj (data ++ reasons)) f.eventId

inductive Frame where
  | heartbeat
  | status (f : StatusFrame)

def Frame.text : Frame → String
  | .heartbeat => ": ping\n\n"
  | .status f => statusFrame f

def Frame.status? : Frame → Option StatusFrame
  | .heartbeat => none
  | .status f => some f

/-- Python's `str` of a JSON value; `repr` is `str` of one that is not a text. -/
def str (repr : Json → String) : Json → String
  | .str s => s
  | j => repr j

/-- What `get_message` returns, with the uuid and the clock reading the loop draws. -/
structure Message where
  data : ByteArray
  uuid : Uuid
  now : Datetime

inductive Reaction where
  | skip
  | resume
  | frame (f : StatusFrame) (last : Bool)
  | raises

/-- What `json.loads` raises: a ValueError or TypeError, which the loop catches, or
another error, as the RecursionError of a text that is nested too deeply. -/
inductive LoadsError where
  | caught
  | escaping

abbrev Loads := ByteArray → Except LoadsError Json

def utf8Loads (data : ByteArray) : Except LoadsError Json :=
  match Json.loadsBytes data with
  | none => .error .caught
  | some j => .ok j

section Stream
variable (loads : Loads) (repr : Json → String) (loanId : String) (lastEventId : Option String)

def react (status : String) (seenResumeId : Bool) (m : Message) : Reaction :=
  match loads m.data with
  | .error .caught => .skip
  | .error .escaping => .raises
  | .ok (.obj payload) =>
      let get (key : String) : Json := (Json.get? payload key).getD .null
      if str repr (get "loan_id") ≠ loanId then .skip
      else
        let eventId := str repr ((Json.get? payload "event_id").getD (.str m.uuid.str))
        if !seenResumeId then
          if some eventId = lastEventId then .resume else .skip
        else
          .frame
            { loanId := loanId
              status := str repr ((Json.get? payload "new_status").getD (.str status))
              eventId := eventId
              reasons := get "decision_reasons"
              occurredAt := get "occurred_at"
              now := m.now }
            (isTerminal (str repr (get "new_status")))
  | .ok _ => .raises

inductive Ending where
  | returned
  | raised
  /-- The stream waits for the next message. -/
  | waiting
  deriving DecidableEq

def listen (status : String) : Bool → List (Option Message) → List Frame × Ending
  | _, [] => ([], .waiting)
  | seen, none :: rest =>
      let (frames, ending) := listen status seen rest
      (.heartbeat :: frames, ending)
  | seen, some m :: rest =>
      match react loads repr loanId lastEventId status seen m with
      | .skip => listen status seen rest
      | .resume => listen status true rest
      | .raises => ([], .raised)
      | .frame f last =>
          if last then ([.status f], .returned)
          else
            let (frames, ending) := listen status seen rest
            (.status f :: frames, ending)

/-- The object the loan service answers with. -/
abbrev Loan := List (String × Json)

def fetchedStatus (loan : Loan) : String :=
  str repr ((Json.get? loan "status").getD (.str "SUBMITTED"))

def initialFrame (loan : Loan) (uuid : Uuid) (now : Datetime) : StatusFrame :=
  { loanId := loanId
    status := fetchedStatus repr loan
    eventId := "initial-" ++ uuid.str
    reasons := (Json.get? loan "decision_reasons").getD .null
    now := now }

def eventStream (fetched : Option Loan) (uuid : Uuid) (now : Datetime)
    (received : List (Option Message)) : List Frame × Ending :=
  match fetched with
  | none => ([], .returned)
  | some loan =>
      let status := fetchedStatus repr loan
      match lastEventId with
      | none =>
          let initial := Frame.status (initialFrame repr loanId loan uuid now)
          if isTerminal status then ([initial], .returned)
          else
            let (frames, ending) := listen loads repr loanId lastEventId status true received
            (initial :: frames, ending)
      | some _ => listen loads repr loanId lastEventId status false received

end Stream

section Bridged
variable (repr : Json → String) (loanId : String) (lastEventId : Option String)

/-- The message the notification service publishes for an envelope. -/
def messageOf (envelope : EventEnvelope LoanStatusChangedV1) (uuid : Uuid) (now : Datetime) :
    Message :=
  ⟨(toRedisMessage envelope).2, uuid, now⟩

def frameOf (envelope : EventEnvelope LoanStatusChangedV1) (now : Datetime) : StatusFrame :=
  { loanId := envelope.payload.loanId.str
    status := envelope.payload.newStatus
    eventId := envelope.eventId.str
    reasons := match envelope.payload.decisionReasons with
      | none => .null
      | some reasons => .arr (reasons.map .str)
    occurredAt := .str envelope.occurredAt.isoformat
    now := now }

/-- A message of the notification service is read back as its envelope. -/
theorem react_messageOf (status : String) (seen : Bool)
    (envelope : EventEnvelope LoanStatusChangedV1) (uuid : Uuid) (now : Datetime) :
    react utf8Loads repr loanId lastEventId status seen (messageOf envelope uuid now) =
      if envelope.payload.loanId.str = loanId then
        if seen then
          .frame (frameOf envelope now) (isTerminal envelope.payload.newStatus)
        else if some envelope.eventId.str = lastEventId then .resume else .skip
      else .skip := by
  simp only [react, messageOf, utf8Loads, loadsBytes_toRedisMessage, redisMessage]
  by_cases hloan : envelope.payload.loanId.str = loanId
  · subst hloan
    cases seen with
    | true =>
        simp only [Json.get?, str, frameOf]
        cases envelope.payload.decisionReasons <;> simp
    | false => simp [Json.get?, str]
  · simp [Json.get?, str, hloan]

end Bridged

end CrediGuard.Gateway
