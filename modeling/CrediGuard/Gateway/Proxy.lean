import CrediGuard.Gateway.Cookies
import CrediGuard.Lib.Latin1
import CrediGuard.Lib.Uuid

/-!
`proxy_endpoint`, the catch-all of the gateway, with the token checks before and
`ProxyService.forward` behind it.

`forward` hands the client library the query of the URL as text. The library takes
bytes alone and raises for text, before anything is sent; whether it does is left
open here. Everything the endpoint does to a request beyond the forwarded URL goes
by the `policy` of its path.
-/

namespace CrediGuard.Gateway

section Model

/-- A request as the catch-all receives it; names of headers are in lower case. -/
structure Request where
  method : String
  headers : List (String × String)
  cookies : List (String × String)
  client : Option String
  queryString : ByteArray
  body : ByteArray

def lookup (pairs : List (String × String)) (key : String) : Option String :=
  (pairs.find? fun p => p.1 = key).map Prod.snd

/-- A dictionary's `d[key] = value`. -/
def assign (pairs : List (String × String)) (key value : String) : List (String × String) :=
  if (lookup pairs key).isSome then pairs.map fun p => if p.1 = key then (key, value) else p
  else pairs ++ [(key, value)]

structure Outgoing where
  method : String
  url : String
  query : String
  headers : List (ByteArray × ByteArray)
  body : ByteArray

/-- Headers as the server behind the gateway reads them. -/
def readHeaders (headers : List (ByteArray × ByteArray)) : List (String × String) :=
  headers.map fun p => (Latin1.decode p.1, Latin1.decode p.2)

structure Upstream where
  status : Nat
  headers : List (String × String)
  body : ByteArray

/-- What the endpoint asks of the libraries and services around it. -/
structure Edge where
  /-- The claims of a token whose signature and times are in order. -/
  decode : String → Option (List (String × Json))
  allowed : String → Int → Int → Bool
  /-- Whether `copy_with` takes a query that is text; where it does not, it raises. -/
  copyWith : String → Bool := fun _ => false
  /-- The answer to a request, or the exception of one that is not answered. -/
  send : Outgoing → Option Upstream
  uuid : Uuid

/-- What a request causes: a charge to the rate limiter, a request that `forward` puts
together, one that leaves the gateway, a response. Where `forward` raises, the
response is made outside of the endpoint. -/
structure Outcome where
  charged : Option (String × Int × Int) := none
  forwarded : Option Outgoing := none
  sent : Option Outgoing := none
  raised : Bool := false
  response : Response

namespace Edge
variable (edge : Edge)

def validateToken (token : String) : Option Uuid :=
  if token = "" then none
  else do
    let payload ← edge.decode token
    match Json.get? payload "type" with
    | some (.str "access") =>
        match ← Json.get? payload "sub" with
        | .str sub => Uuid.parse sub
        | _ => none
    | _ => none

def validate (authorization : Option String) : Option Uuid :=
  match authorization with
  | none => none
  | some header =>
      if startsWith header "Bearer " then edge.validateToken (String.ofList (header.toList.drop 7))
      else none

def validateCookie (cookieValue : Option String) : Option Uuid :=
  match cookieValue with
  | none => none
  | some value => edge.validateToken value

end Edge

def strippedHeaders : List String :=
  ["x-user-id", "x-user-roles", "authorization", "x-correlation-id", "cookie"]

def blockedHeaders : List String :=
  ["host", "content-length", "connection", "transfer-encoding", "upgrade"]

def identityHeaders : Option String → List (ByteArray × ByteArray)
  | none => []
  | some applicantId =>
      [("X-User-ID".toUTF8, applicantId.toUTF8), ("X-User-Roles".toUTF8, "applicant".toUTF8)]

def rewriteHeaders (clientHeaders : List (String × String)) (applicantId : Option String)
    (correlationId : String) : List (ByteArray × ByteArray) :=
  let out := (clientHeaders.filter fun p =>
    Latin1.lower p.1 ∉ strippedHeaders ∧ Latin1.lower p.1 ∉ blockedHeaders).map fun p =>
      (Latin1.encode p.1, Latin1.encode p.2)
  out ++ identityHeaders applicantId ++ [("X-Correlation-ID".toUTF8, correlationId.toUTF8)]

def forwardUrl (baseUrl path : String) : String :=
  rstripSlash baseUrl ++ "/" ++ lstripSlash path

/-- The request `forward` puts together. -/
def buildRequest (method path : String) (queryString : ByteArray) (baseUrl : String)
    (clientHeaders : List (String × String)) (body : ByteArray) (applicantId : Option String)
    (correlationId : String) : Outgoing :=
  { method := method
    url := forwardUrl baseUrl path
    query := Latin1.decode queryString
    headers := rewriteHeaders clientHeaders applicantId correlationId
    body := body }

/-- What leaves the gateway of it: nothing where the library does not take the query. -/
def leaving (edge : Edge) (outgoing : Outgoing) : Option Outgoing :=
  if edge.copyWith outgoing.query then some outgoing else none

/-- `forward`, for the request it has put together; `none` is an exception. -/
def forward (edge : Edge) (outgoing : Outgoing) : Option Upstream :=
  (leaving edge outgoing).bind edge.send

def detail (status : Nat) (text : String) (headers : List (String × String)) : Response :=
  .json status (.obj [("detail", .str text)]) headers

/-- The server's answer to an exception that nobody has caught. -/
def serverError : Response :=
  .plain 500 "Internal Server Error".toUTF8 "text/plain; charset=utf-8" []

/-- The response to the browser for what the auth endpoints answer. -/
def cookieAuthResponse (settings : Settings) (correlationId : String) (result : Upstream) :
    Response :=
  if 200 ≤ result.status ∧ result.status < 300 then
    match sanitizeAuthBody result.body with
    | (safe, some access, some refresh) =>
        buildCookieAuthResponse result.status safe access refresh settings correlationId
    | _ => detail 502 "Invalid auth response from upstream" [("X-Correlation-ID", correlationId)]
  else
    .plain result.status result.body
      (((result.headers.find? fun p => p.1.toLower = "content-type").map Prod.snd).getD
        "application/json")
      [("X-Correlation-ID", correlationId)]

def streamedResponse (correlationId : String) (result : Upstream) : Response :=
  let headers := result.headers.filter fun p =>
    p.1.toLower ∉ ["transfer-encoding", "connection", "content-length", "set-cookie"]
  .streaming result.status result.body
    (if correlationId = "" then headers else assign headers "X-Correlation-ID" correlationId)

variable (edge : Edge) (settings : Settings)

def correlationId (req : Request) : String :=
  match lookup req.headers "x-correlation-id" with
  | none => edge.uuid.str
  | some id => if id = "" then edge.uuid.str else id

/-- The refresh token of the cookie, where the path demands one. -/
def refreshTokenFromCookie (demanded : Bool) (req : Request) : Except Response (Option String) :=
  let missing := detail 401 "Missing refresh cookie" [("X-Correlation-ID", correlationId edge req)]
  if demanded then
    match lookup req.cookies settings.refreshCookieName with
    | none => .error missing
    | some token => if token = "" then .error missing else .ok (some token)
  else .ok none

def authenticate (route : Route) (req : Request) : Except Response (Option String) :=
  if route.requiresAuth then
    match edge.validate (lookup req.headers "authorization") with
    | some uid => .ok (some uid.str)
    | none =>
        match edge.validateCookie (lookup req.cookies settings.accessCookieName) with
        | some uid => .ok (some uid.str)
        | none => .error (detail 401 "Unauthorized"
            [("WWW-Authenticate", "Bearer"), ("X-Correlation-ID", correlationId edge req)])
  else .ok none

/-- The key, limit and window the request is charged under. -/
def charge (route : Route) (req : Request) (applicantId : Option String) :
    Except Response (Option (String × Int × Int)) :=
  if route.rateLimit then
    match rateKey route (req.client.getD "unknown") applicantId with
    | none => .error (detail 400 "Rate limit not applicable" [])
    | some key => .ok (some (key, route.rateLimitCount, route.rateWindowSeconds))
  else .ok none

/-- The request put together for a caller, with the body made of the refresh cookie
where there is one. -/
def requestUpstream (route : Route) (path : String) (req : Request)
    (refreshToken applicantId : Option String) : Outgoing :=
  let (headers, body) := match refreshToken with
    | none => (req.headers, req.body)
    | some token =>
        (assign req.headers "content-type" "application/json", buildRefreshBodyFromCookie token)
  buildRequest req.method path req.queryString route.baseUrl headers body applicantId
    (correlationId edge req)

/-- The endpoint from the call of `forward` on. -/
def answered (translates : Bool) (req : Request) (charged : Option (String × Int × Int))
    (outgoing : Outgoing) : Outcome :=
  { charged := charged
    forwarded := some outgoing
    sent := leaving edge outgoing
    raised := (forward edge outgoing).isNone
    response := match forward edge outgoing with
      | none => serverError
      | some result =>
          if translates then cookieAuthResponse settings (correlationId edge req) result
          else streamedResponse (correlationId edge req) result }

/-- The endpoint behind the choice of a route; of the path it still sees the URL. -/
def proxied (route : Route) (refreshCookie translates : Bool) (path : String) (req : Request) :
    Outcome :=
  match refreshTokenFromCookie edge settings refreshCookie req with
  | .error response => { response := response }
  | .ok refreshToken =>
      match authenticate edge settings route req with
      | .error response => { response := response }
      | .ok applicantId =>
          match charge route req applicantId with
          | .error response => { response := response }
          | .ok charged =>
              if charged.all fun (key, limit, window) => edge.allowed key limit window then
                answered edge settings translates req charged
                  (requestUpstream edge route path req refreshToken applicantId)
              else { charged := charged, response := detail 429 "Rate limit exceeded" [] }

def proxyEndpoint (path : String) (req : Request) : Outcome :=
  if isLogoutPath path then { response := buildLogoutResponse settings (correlationId edge req) }
  else
    match matchRoute settings path with
    | none => { response := detail 404 "Not Found" [] }
    | some route =>
        if route.baseUrl = "" then { response := detail 404 "Not Found" [] }
        else
          proxied edge settings route (lstripSlash path = "api/v1/auth/refresh")
            (isCookieAuthPath path) path req

end Model

section Policy
variable {edge : Edge} {settings : Settings} {path : String} {req : Request}

/-- What the endpoint decides from the path. -/
inductive Policy where
  | logout
  | notFound
  | forward (route : Route) (refreshCookie translates : Bool)
  deriving DecidableEq

def policy (settings : Settings) (path : String) : Policy :=
  if isLogoutPath path then .logout
  else
    match matchRoute settings path with
    | none => .notFound
    | some route =>
        if route.baseUrl = "" then .notFound
        else .forward route (lstripSlash path = "api/v1/auth/refresh") (isCookieAuthPath path)

def Policy.respond (edge : Edge) (settings : Settings) (path : String) (req : Request) :
    Policy → Outcome
  | .logout => { response := buildLogoutResponse settings (correlationId edge req) }
  | .notFound => { response := detail 404 "Not Found" [] }
  | .forward route refreshCookie translates =>
      proxied edge settings route refreshCookie translates path req

/-- The policy is all that the endpoint takes from the path, the URL apart. -/
theorem proxyEndpoint_eq :
    proxyEndpoint edge settings path req =
      (policy settings path).respond edge settings path req := by
  simp only [proxyEndpoint, policy]
  split
  · rfl
  · split
    · rfl
    · split <;> rfl

theorem policy_forward {route : Route} {refreshCookie translates : Bool}
    (h : policy settings path = .forward route refreshCookie translates) :
    matchRoute settings path = some route ∧ route.baseUrl ≠ "" ∧
      decide (lstripSlash path = "api/v1/auth/refresh") = refreshCookie ∧
      isCookieAuthPath path = translates := by
  simp only [policy] at h
  split at h
  · contradiction
  · split at h
    · contradiction
    · rename_i r hmatch
      split at h
      · contradiction
      · rename_i hbase
        obtain ⟨rfl, rfl, rfl⟩ := Policy.forward.inj h
        exact ⟨hmatch, hbase, rfl, rfl⟩

end Policy

section Forwarded
variable {edge : Edge} {settings : Settings} {path : String} {req : Request} {route : Route}
  {refreshCookie translates : Bool} {outgoing leaves : Outgoing}

theorem leaving_eq_some_iff :
    leaving edge outgoing = some leaves ↔
      outgoing = leaves ∧ edge.copyWith outgoing.query = true := by
  rw [leaving]
  split
  · rename_i htakes
    rw [Option.some.injEq, and_iff_left htakes]
  · rename_i hrefuses
    exact iff_of_false (by simp) fun h => hrefuses h.2

theorem forward_eq_some_iff {result : Upstream} :
    forward edge outgoing = some result ↔
      edge.copyWith outgoing.query = true ∧ edge.send outgoing = some result := by
  rw [forward, leaving]
  split
  · rename_i htakes
    rw [Option.bind_some, and_iff_right htakes]
  · rename_i hrefuses
    exact iff_of_false (by simp) fun h => hrefuses h.1

theorem url_requestUpstream {refreshToken applicantId : Option String} :
    (requestUpstream edge route path req refreshToken applicantId).url =
      forwardUrl route.baseUrl path := by
  cases refreshToken <;> rfl

theorem body_requestUpstream {token : String} {applicantId : Option String} :
    (requestUpstream edge route path req (some token) applicantId).body =
      buildRefreshBodyFromCookie token := by
  simp only [requestUpstream, buildRequest]

/-- Where the library does not take the query, nothing leaves. -/
theorem leaving_of_refused (h : edge.copyWith outgoing.query = false) :
    leaving edge outgoing = none := by
  rw [leaving, h]
  rfl

/-- The endpoint refuses a request by itself, or calls `forward` for the caller whom
it takes the request from. -/
theorem proxied_cases :
    (∃ charged response, proxied edge settings route refreshCookie translates path req =
      { charged := charged, response := response }) ∨
    ∃ refreshToken applicantId charged,
      refreshTokenFromCookie edge settings refreshCookie req = .ok refreshToken ∧
      authenticate edge settings route req = .ok applicantId ∧
      charge route req applicantId = .ok charged ∧
      proxied edge settings route refreshCookie translates path req =
        answered edge settings translates req charged
          (requestUpstream edge route path req refreshToken applicantId) := by
  rw [proxied]
  split
  · exact .inl ⟨_, _, rfl⟩
  · rename_i refreshToken hrefresh
    split
    · exact .inl ⟨_, _, rfl⟩
    · rename_i applicantId hauth
      split
      · exact .inl ⟨_, _, rfl⟩
      · rename_i charged hcharge
        split
        · exact .inr ⟨refreshToken, applicantId, charged, hrefresh, hauth, hcharge, rfl⟩
        · exact .inl ⟨_, _, rfl⟩

/-- The same of the whole endpoint. -/
theorem proxyEndpoint_cases :
    (∃ charged response, proxyEndpoint edge settings path req =
      { charged := charged, response := response }) ∨
    ∃ route refreshCookie translates refreshToken applicantId charged,
      policy settings path = .forward route refreshCookie translates ∧
      refreshTokenFromCookie edge settings refreshCookie req = .ok refreshToken ∧
      authenticate edge settings route req = .ok applicantId ∧
      charge route req applicantId = .ok charged ∧
      proxyEndpoint edge settings path req =
        answered edge settings translates req charged
          (requestUpstream edge route path req refreshToken applicantId) := by
  rw [proxyEndpoint_eq]
  cases policy settings path with
  | logout => exact .inl ⟨_, _, rfl⟩
  | notFound => exact .inl ⟨_, _, rfl⟩
  | forward route refreshCookie translates =>
      have hcases := @proxied_cases edge settings path req route refreshCookie translates
      rcases hcases with hrefused | ⟨refreshToken, applicantId, charged, hforwarded⟩
      · exact .inl hrefused
      · exact .inr ⟨route, refreshCookie, translates, refreshToken, applicantId, charged, rfl,
          hforwarded⟩

/-- A request that `forward` is called for has passed the checks of its route. -/
theorem proxyEndpoint_forwarded
    (h : (proxyEndpoint edge settings path req).forwarded = some outgoing) :
    ∃ route refreshCookie translates refreshToken applicantId charged,
      policy settings path = .forward route refreshCookie translates ∧
      refreshTokenFromCookie edge settings refreshCookie req = .ok refreshToken ∧
      authenticate edge settings route req = .ok applicantId ∧
      charge route req applicantId = .ok charged ∧
      outgoing = requestUpstream edge route path req refreshToken applicantId ∧
      proxyEndpoint edge settings path req =
        answered edge settings translates req charged outgoing := by
  rcases @proxyEndpoint_cases edge settings path req with ⟨charged, response, heq⟩ |
    ⟨route, refreshCookie, translates, refreshToken, applicantId, charged, hpolicy, hrefresh, hauth,
      hcharge, heq⟩
  · rw [heq] at h
    contradiction
  · rw [heq] at h ⊢
    obtain rfl := Option.some.inj h
    exact ⟨route, refreshCookie, translates, refreshToken, applicantId, charged, hpolicy, hrefresh,
      hauth, hcharge, rfl, rfl⟩

/-- What leaves the gateway is what `forward` has put together. -/
theorem forwarded_of_sent (h : (proxyEndpoint edge settings path req).sent = some outgoing) :
    (proxyEndpoint edge settings path req).forwarded = some outgoing ∧
      edge.copyWith outgoing.query = true := by
  rcases @proxyEndpoint_cases edge settings path req with ⟨charged, response, heq⟩ |
    ⟨_, _, _, _, _, _, _, _, _, _, heq⟩
  · rw [heq] at h
    contradiction
  · rw [heq] at h ⊢
    obtain ⟨rfl, htakes⟩ := leaving_eq_some_iff.mp h
    exact ⟨rfl, htakes⟩

end Forwarded

end CrediGuard.Gateway
