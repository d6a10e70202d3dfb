import CrediGuard.Gateway.Proxy
import CrediGuard.Gateway.Sse

/-!
`loan_events`, the endpoint that opens a stream: whom it takes the caller for,
and the channel the stream then subscribes to.
-/

namespace CrediGuard.Gateway

/-- The channel `event_stream` subscribes to. -/
def streamChannel (applicantId : String) : String := "loan-status:" ++ applicantId

/-- An absent or empty `Origin` is replaced by the `Referer`. -/
def checkOrigin (frontendUrl : String) (req : Request) : Bool :=
  let referer := lookup req.headers "referer"
  let origin := match lookup req.headers "origin" with
    | none => referer
    | some origin => if origin = "" then referer else some origin
  match origin with
  | none => true
  | some origin => startsWith origin frontendUrl

/-- The arguments `loan_events` opens `event_stream` with. -/
structure StreamArgs where
  loanId : String
  applicantId : String
  lastEventId : Option String
  correlationId : String
  deriving DecidableEq

section Endpoint
variable (edge : Edge) (settings : Settings)

/-- Cookie first, Bearer header behind it. -/
def streamApplicant (req : Request) : Option String :=
  match edge.validateCookie (lookup req.cookies settings.accessCookieName) with
  | some uid => some uid.str
  | none => (edge.validate (lookup req.headers "authorization")).map Uuid.str

def loanEvents (frontendUrl : String) (fetchLoan : String → String → String → Option Loan)
    (loanId : String) (req : Request) : Except Response StreamArgs :=
  if checkOrigin frontendUrl req then
    match streamApplicant edge settings req with
    | none => .error (detail 401 "Unauthorized" [("WWW-Authenticate", "Bearer")])
    | some applicantId =>
        match fetchLoan loanId applicantId (correlationId edge req) with
        | none => .error (detail 404 "Not Found" [])
        | some _ => .ok ⟨loanId, applicantId, lookup req.headers "last-event-id",
            correlationId edge req⟩
  else .error (detail 403 "Forbidden" [])

end Endpoint

end CrediGuard.Gateway
