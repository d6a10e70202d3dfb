import CrediGuard.Applicants.Redemptions
import CrediGuard.Gateway.Correlation
import CrediGuard.Gateway.PathPolicy

/-!
Browsers that keep their session in cookies, the gateway in front of them, and the
auth routes of the applicant service, which serve one request after the other.

The gateway hands the tokens out as cookies and takes a refresh token back from the
cookie alone. Of every refresh token, the jars hold at most as many copies as the
service has handed out and not yet exchanged, so that no browser spends the session
of another. A request for which `forward` raises leaves the service and the jars as
they are. A client library that takes no query as text makes it raise for every
request, and no session is ever opened.
-/

namespace CrediGuard.Platform.BrowserSessions
open Applicants Gateway

section Model

/-- A body that an auth route has accepted. -/
inductive AuthRequest where
  | register (request : RegisterRequest)
  | login (request : LoginRequest)
  | refresh (request : RefreshTokenRequest)

/-- What the three use cases draw. -/
structure Draws where
  register : RegisterDraws
  refresh : RefreshDraws
  tokens : TokenDraws

namespace AuthRequest

def call (d : Draws) : AuthRequest → Call
  | .register request => ⟨.register request d.register, d.tokens⟩
  | .login request => ⟨.login request, d.tokens⟩
  | .refresh request => ⟨.refresh request d.refresh, d.tokens⟩

def status : AuthRequest → Nat
  | .register _ => 201
  | .login _ => 200
  | .refresh _ => 200

end AuthRequest

/-- FastAPI around the auth routes: which of them it calls for a request, how it writes
their response, and its answer to an exception; and what is answered elsewhere. -/
structure Api where
  read : Outgoing → Option AuthRequest
  render : TokenResponse → ByteArray
  serverError : Upstream
  elsewhere : Outgoing → Upstream

/-- A browser's refresh cookie after one more `Set-Cookie` header. -/
abbrev UserAgent := Option String → String → Option String

structure Environment where
  jose : Jose
  argon : Argon2
  settings : Settings
  api : Api
  agent : UserAgent

/-- A request of a browser without its refresh cookie, what is drawn and answered for it,
and whether the client library takes its query. -/
structure Visit where
  browser : Nat
  path : String
  request : Request
  decode : String → Option (List (String × Json))
  allowed : String → Int → Int → Bool
  copyWith : String → Bool
  uuid : Uuid
  draws : Draws
  commits : Bool := true

structure State where
  service : Sequence
  /-- The refresh cookies of the browsers that have one. -/
  jars : List (Nat × String)

def State.init : State := ⟨.init, []⟩

def State.jar (s : State) (browser : Nat) : Option String :=
  (s.jars.find? fun jar => jar.1 = browser).map Prod.snd

def State.setJar (s : State) (browser : Nat) (token : Option String) : List (Nat × String) :=
  s.jars.filter (fun jar => jar.1 ≠ browser) ++ token.toList.map fun token => (browser, token)

variable (env : Environment)

/-- The applicant service; every request is a transaction of its own. -/
def serve (s : Sequence) (v : Visit) (o : Outgoing) : Option (Upstream × Sequence) :=
  match env.api.read o with
  | none => some (env.api.elsewhere o, s)
  | some q =>
      (withSession env.jose env.argon ⟨q.call v.draws, v.commits⟩ s.world).map fun (result, w) =>
        match result with
        | .error _ => (env.api.serverError, ⟨w, s.log⟩)
        | .ok response =>
            (⟨q.status, [("content-type", "application/json")], env.api.render response⟩,
              ⟨w, ⟨s.world, q.call v.draws, response⟩ :: s.log⟩)

def edge (s : State) (v : Visit) : Edge where
  decode := v.decode
  allowed := v.allowed
  copyWith := v.copyWith
  send o := (serve env s.service v o).map Prod.fst
  uuid := v.uuid

/-- The request with the browser's refresh cookie, and no other one of this name. -/
def withCookie (jar : Option String) (req : Request) : Request :=
  { req with
    cookies := jar.toList.map (fun token => (env.settings.refreshCookieName, token)) ++
      req.cookies.filter fun cookie => cookie.1 ≠ env.settings.refreshCookieName }

def outcome (s : State) (v : Visit) : Outcome :=
  proxyEndpoint (edge env s v) env.settings v.path (withCookie env (s.jar v.browser) v.request)

def setCookies (response : Response) : List String :=
  response.headers.filterMap fun p => if p.1.toLower = "set-cookie" then some p.2 else none

def jarAfter (s : State) (v : Visit) : Option String :=
  (setCookies (outcome env s v).response).foldl env.agent (s.jar v.browser)

def step (s : State) (v : Visit) : Option State :=
  match (outcome env s v).sent with
  | none => some ⟨s.service, s.setJar v.browser (jarAfter env s v)⟩
  | some o => (serve env s.service v o).map fun served =>
      ⟨served.2, s.setJar v.browser (jarAfter env s v)⟩

end Model

section Conforming

/-- The documented behaviour of FastAPI for the auth routes. -/
structure Api.Conforms (api : Api) (settings : Settings) : Prop where
  refreshBody : ∀ o token request, o.body = buildRefreshBodyFromCookie token →
    api.read o = some (.refresh request) → request.refreshToken = token
  refreshRoute : ∀ o token, o.method = "POST" →
    o.url = forwardUrl settings.applicantServiceUrl authRefreshPath →
    ("content-type", "application/json") ∈ readHeaders o.headers →
    o.body = buildRefreshBodyFromCookie token → api.read o = some (.refresh ⟨token⟩)
  rendered : ∀ response : TokenResponse,
    (String.fromUTF8? (api.render response)).bind Json.loads = some (.obj
      [("access_token", .str response.accessToken), ("refresh_token", .str response.refreshToken),
        ("token_type", .str response.tokenType), ("expires_in", .int response.expiresIn)])
  serverError : 300 ≤ api.serverError.status
  elsewhere : ∀ o data, (String.fromUTF8? (api.elsewhere o).body).bind Json.loads =
    some (.obj data) → Json.get? data "access_token" = none

/-- How a browser keeps the cookies of the gateway. -/
structure UserAgent.Conforms (agent : UserAgent) (jose : Jose) (settings : Settings) : Prop where
  refresh : ∀ jar applicantId now, agent jar (refreshCookieHeader
    (JWTService.createRefreshToken jose applicantId now) settings) =
      some (JWTService.createRefreshToken jose applicantId now)
  access : ∀ jar token, agent jar (accessCookieHeader token settings) = jar
  cleared : ∀ jar, (clearAuthCookiesHeaders settings).foldl agent jar = none

structure Environment.Conforms (env : Environment) : Prop where
  argon : env.argon.Exact
  jose : env.jose.Faithful
  someText : ∀ applicantId now, JWTService.createRefreshToken env.jose applicantId now ≠ ""
  url : env.settings.applicantServiceUrl ≠ ""
  api : env.api.Conforms env.settings
  agent : UserAgent.Conforms env.agent env.jose env.settings

end Conforming

section Cookies
variable {edge : Edge} {settings : Settings} {path : String} {req : Request} {correlation : String}
  {result : Upstream}

theorem setCookies_detail {status : Nat} {text : String} {headers : List (String × String)}
    (h : ∀ p ∈ headers, p.1.toLower ≠ "set-cookie") :
    setCookies (detail status text headers) = [] := by
  rw [setCookies, List.filterMap_eq_nil_iff]
  intro p hp
  exact if_neg (h p hp)

theorem setCookies_correlation {status : Nat} {text : String} :
    setCookies (detail status text [("X-Correlation-ID", correlation)]) = [] := by
  have hname : "X-Correlation-ID".toLower ≠ "set-cookie" := by decide +kernel
  exact setCookies_detail (by simpa using hname)

theorem of_mem_assign {pairs : List (String × String)} {key value : String} {p : String × String}
    (h : p ∈ assign pairs key value) : p ∈ pairs ∨ p.1 = key := by
  rw [assign] at h
  split at h
  · obtain ⟨q, hq, rfl⟩ := List.mem_map.mp h
    by_cases hkey : q.1 = key
    · rw [if_pos hkey]
      exact .inr rfl
    · rw [if_neg hkey]
      exact .inl hq
  · cases List.mem_append.mp h with
    | inl hold => exact .inl hold
    | inr hnew => exact .inr (by rw [List.mem_singleton.mp hnew])

/-- What the other routes set is left out. -/
theorem setCookies_streamed : setCookies (streamedResponse correlation result) = [] := by
  have hname : "X-Correlation-ID".toLower ≠ "set-cookie" := by decide +kernel
  simp only [streamedResponse, setCookies, Response.headers, List.filterMap_eq_nil_iff,
    ite_eq_right_iff]
  intro p hp hcookie
  exfalso
  have hkept : p ∈ result.headers.filter (fun p => p.1.toLower ∉
      ["transfer-encoding", "connection", "content-length", "set-cookie"]) ∨
        p.1 = "X-Correlation-ID" := by
    split at hp
    · exact .inl hp
    · exact of_mem_assign hp
  cases hkept with
  | inl hkept =>
      have hnot := of_decide_eq_true (List.mem_filter.mp hkept).2
      exact hnot (by simp [hcookie])
  | inr hname' => exact hname (hname' ▸ hcookie)

theorem setCookies_build {status : Nat} {safe : Json} {access refresh : String} :
    setCookies (buildCookieAuthResponse status safe access refresh settings correlation) =
      [accessCookieHeader access settings, refreshCookieHeader refresh settings] := by
  have hname : "X-Correlation-ID".toLower ≠ "set-cookie" := by decide +kernel
  have hcookie : "Set-Cookie".toLower = "set-cookie" := by decide +kernel
  by_cases hempty : correlation = ""
  · simp [buildCookieAuthResponse, setCookies, Response.headers, correlationHeaders, hempty,
      hcookie]
  · simp [buildCookieAuthResponse, setCookies, Response.headers, correlationHeaders, hempty,
      hcookie, hname]

/-- The cookies of an answer of the auth endpoints. -/
theorem setCookies_cookieAuth :
    setCookies (cookieAuthResponse settings correlation result) = [] ∨
      ∃ access refresh, 200 ≤ result.status ∧ result.status < 300 ∧
        (sanitizeAuthBody result.body).2 = (some access, some refresh) ∧
        setCookies (cookieAuthResponse settings correlation result) =
          [accessCookieHeader access settings, refreshCookieHeader refresh settings] := by
  by_cases hok : 200 ≤ result.status ∧ result.status < 300
  · rw [cookieAuthResponse, if_pos hok]
    split
    · rename_i safe access refresh hbody
      exact .inr ⟨access, refresh, hok.1, hok.2, by rw [hbody], setCookies_build⟩
    · exact .inl setCookies_correlation
  · have hname : "X-Correlation-ID".toLower ≠ "set-cookie" := by decide +kernel
    rw [cookieAuthResponse, if_neg hok]
    exact .inl (by simp [setCookies, Response.headers, hname])

theorem setCookies_logout :
    setCookies (buildLogoutResponse settings correlation) = clearAuthCookiesHeaders settings := by
  have hname : "X-Correlation-ID".toLower ≠ "set-cookie" := by decide +kernel
  have hcookie : "Set-Cookie".toLower = "set-cookie" := by decide +kernel
  by_cases hempty : correlation = ""
  · simp [buildLogoutResponse, setCookies, Response.headers, correlationHeaders, hempty, hcookie,
      clearAuthCookiesHeaders]
  · simp [buildLogoutResponse, setCookies, Response.headers, correlationHeaders, hempty, hcookie,
      hname, clearAuthCookiesHeaders]

/-- A request that is refused on the way, or for which `forward` raises, sets no cookies. -/
theorem setCookies_unsent {route : Route} {refreshCookie translates : Bool}
    (h : (proxied edge settings route refreshCookie translates path req).sent = none) :
    setCookies (proxied edge settings route refreshCookie translates path req).response = [] := by
  rw [proxied] at h ⊢
  split
  · rename_i response hmissing
    simp only [refreshTokenFromCookie] at hmissing
    split at hmissing
    · split at hmissing
      · cases hmissing
        exact setCookies_correlation
      · split at hmissing
        · cases hmissing
          exact setCookies_correlation
        · contradiction
    · contradiction
  · rename_i refreshToken hcookie
    split
    · rename_i response hunauthorized
      have hscheme : "WWW-Authenticate".toLower ≠ "set-cookie" := by decide +kernel
      have hname : "X-Correlation-ID".toLower ≠ "set-cookie" := by decide +kernel
      simp only [authenticate] at hunauthorized
      split at hunauthorized
      · split at hunauthorized
        · contradiction
        · split at hunauthorized
          · contradiction
          · cases hunauthorized
            exact setCookies_detail (by simp [hscheme, hname])
      · contradiction
    · rename_i applicantId hauth
      split
      · rename_i response hlimit
        simp only [charge] at hlimit
        split at hlimit
        · split at hlimit
          · cases hlimit
            rfl
          · contradiction
        · contradiction
      · rename_i charged hcharge
        simp only [hcookie, hauth, hcharge] at h
        split at h
        · rename_i hallowed
          have hraised : forward edge (requestUpstream edge route path req refreshToken
              applicantId) = none := by
            rw [forward, show leaving edge _ = none from h]
            rfl
          rw [if_pos hallowed]
          simp only [answered, hraised]
          rfl
        · rename_i hrefused
          rw [if_neg hrefused]
          rfl

theorem setCookies_of_unsent (h : (proxyEndpoint edge settings path req).sent = none) :
    setCookies (proxyEndpoint edge settings path req).response = [] ∨
      setCookies (proxyEndpoint edge settings path req).response =
        clearAuthCookiesHeaders settings := by
  rw [proxyEndpoint_eq] at h ⊢
  cases hpolicy : policy settings path with
  | logout => exact .inr setCookies_logout
  | notFound => exact .inl rfl
  | forward route refreshCookie translates =>
      rw [hpolicy] at h
      exact .inl (setCookies_unsent h)

/-- What is sent is answered by the upstream, or by the server where that raises. -/
theorem response_of_sent {outgoing : Outgoing}
    (h : (proxyEndpoint edge settings path req).sent = some outgoing) :
    (proxyEndpoint edge settings path req).response =
      match edge.send outgoing with
      | none => serverError
      | some result =>
          if isCookieAuthPath path then cookieAuthResponse settings (correlationId edge req) result
          else streamedResponse (correlationId edge req) result := by
  obtain ⟨hforwarded, htakes⟩ := forwarded_of_sent h
  obtain ⟨_, _, _, _, _, _, hpolicy, _, _, _, _, heq⟩ := proxyEndpoint_forwarded hforwarded
  have hforward : forward edge outgoing = edge.send outgoing := by
    rw [forward, leaving, if_pos htakes]
    rfl
  rw [heq, (policy_forward hpolicy).2.2.2]
  cases hsend : edge.send outgoing with
  | none => simp only [answered, hforward, hsend]
  | some result => simp only [answered, hforward, hsend]

/-- On the path of the exchange, the body upstream is made from the cookie. -/
theorem body_of_refresh {outgoing : Outgoing} (hpath : lstripSlash path = "api/v1/auth/refresh")
    (h : (proxyEndpoint edge settings path req).sent = some outgoing) :
    ∃ token, lookup req.cookies settings.refreshCookieName = some token ∧ token ≠ "" ∧
      outgoing.body = buildRefreshBodyFromCookie token := by
  obtain ⟨_, refreshCookie, _, refreshToken, _, _, hpolicy, hcookie, _, _, rfl, _⟩ :=
    proxyEndpoint_forwarded (forwarded_of_sent h).1
  have hrefresh : refreshCookie = true := by
    rw [← (policy_forward hpolicy).2.2.1, hpath]
    rfl
  rw [hrefresh] at hcookie
  simp only [refreshTokenFromCookie, if_true] at hcookie
  split at hcookie
  · contradiction
  · rename_i token hlookup
    split at hcookie
    · contradiction
    · rename_i hne
      obtain rfl := Except.ok.inj hcookie
      exact ⟨token, hlookup, hne, body_requestUpstream⟩

end Cookies

section Exchange
variable {edge : Edge} {settings : Settings} {req : Request} {token : String}

def refreshRoute (settings : Settings) : Route :=
  { pathPrefix := "/api/v1/auth/refresh"
    baseUrl := settings.applicantServiceUrl
    requiresAuth := false
    rateLimit := false
    isPublic := true }

theorem policy_refresh (hurl : settings.applicantServiceUrl ≠ "") :
    policy settings authRefreshPath = .forward (refreshRoute settings) true true := by
  have hunder : prefixSegments "/api/v1/auth/refresh" <+: UrlPath.split (stem authRefreshPath) := by
    decide +kernel
  have hlongest : ∀ p ∈ routePrefixes, prefixSegments p <+: UrlPath.split (stem authRefreshPath) →
      p.length ≤ "/api/v1/auth/refresh".length := by
    decide +kernel
  have hcookie : "/api/v1/auth/refresh" ∈ cookiePaths.map ("/" ++ ·) := by decide +kernel
  refine policy_eq_forward_iff.mpr ⟨matchRoute_eq_some_iff.mpr ⟨?_, hunder, ?_⟩, hurl,
    by decide +kernel, decide_eq_true hcookie⟩
  · simp [buildRoutes, refreshRoute]
  · intro r hr hr'
    exact hlongest r.pathPrefix (pathPrefix_mem hr) hr'

/-- What goes upstream for an exchange. -/
def exchangeRequest (edge : Edge) (settings : Settings) (req : Request) (token : String) :
    Outgoing :=
  requestUpstream edge (refreshRoute settings) authRefreshPath req (some token) none

theorem proxyEndpoint_refresh (hurl : settings.applicantServiceUrl ≠ "")
    (hcookie : lookup req.cookies settings.refreshCookieName = some token) (hne : token ≠ "") :
    proxyEndpoint edge settings authRefreshPath req =
      answered edge settings true req none (exchangeRequest edge settings req token) := by
  rw [proxyEndpoint_eq, policy_refresh hurl]
  simp only [Policy.respond, proxied, refreshTokenFromCookie, if_true, hcookie, if_neg hne]
  rfl

@[simp] theorem url_exchange : (exchangeRequest edge settings req token).url =
    forwardUrl settings.applicantServiceUrl authRefreshPath := rfl

@[simp] theorem body_exchange :
    (exchangeRequest edge settings req token).body = buildRefreshBodyFromCookie token :=
  body_requestUpstream

theorem content_type_exchange :
    ("content-type", "application/json") ∈
      readHeaders (exchangeRequest edge settings req token).headers := by
  have hkept : ("content-type", "application/json") ∈
      (assign req.headers "content-type" "application/json").filter fun p =>
        Latin1.lower p.1 ∉ strippedHeaders ∧ Latin1.lower p.1 ∉ blockedHeaders :=
    List.mem_filter.mpr ⟨mem_assign .., by decide +kernel⟩
  have hname : Latin1.decode (Latin1.encode "content-type") = "content-type" :=
    Latin1.decode_encode (Latin1.isText_of_all (by decide +kernel))
  have hvalue : Latin1.decode (Latin1.encode "application/json") = "application/json" :=
    Latin1.decode_encode (Latin1.isText_of_all (by decide +kernel))
  refine List.mem_map.mpr ⟨(Latin1.encode "content-type", Latin1.encode "application/json"), ?_, ?_⟩
  · exact List.mem_append_left _ (List.mem_append_left _ (List.mem_map.mpr ⟨_, hkept, rfl⟩))
  · rw [hname, hvalue]

end Exchange

section Service
variable {env : Environment} {s s' : Sequence} {v : Visit} {o : Outgoing} {u : Upstream}

/-- What the service has made of a request. -/
inductive Served (env : Environment) (s : Sequence) (v : Visit) (o : Outgoing) :
    Upstream → Sequence → Prop
  | elsewhere (h : env.api.read o = none) : Served env s v o (env.api.elsewhere o) s
  | failed (q : AuthRequest) (h : env.api.read o = some q) :
      Served env s v o env.api.serverError s
  | answered (q : AuthRequest) (h : env.api.read o = some q) (response : TokenResponse)
      (w : World) (heffect : Effect env.jose env.argon s.world (q.call v.draws) response w) :
      Served env s v o
        ⟨q.status, [("content-type", "application/json")], env.api.render response⟩
        ⟨w.commit 0, ⟨s.world, q.call v.draws, response⟩ :: s.log⟩

theorem serve_cases (h : Tallied env.jose env.argon s) (hserve : serve env s v o = some (u, s')) :
    Served env s v o u s' := by
  rw [serve] at hserve
  split at hserve
  · rename_i hread
    obtain ⟨rfl, rfl⟩ := Prod.mk.inj (Option.some.inj hserve)
    exact .elsewhere hread
  · rename_i q hread
    obtain ⟨⟨result, w⟩, hx, hresult⟩ := Option.map_eq_some_iff.mp hserve
    cases withSession_cases (execute_effect h.inv.closed h.inv.ids h.unique (q.call v.draws))
        (fun _ _ => Effect.rollback) hx with
    | inl hfails =>
        obtain ⟨e, rfl, rfl⟩ := hfails
        obtain ⟨rfl, rfl⟩ := Prod.mk.inj hresult
        exact .failed q hread
    | inr hreturns =>
        obtain ⟨response, w, rfl, heffect, rfl⟩ := hreturns
        obtain ⟨rfl, rfl⟩ := Prod.mk.inj hresult
        exact .answered q hread response w heffect

end Service

section Jars
variable {s : State} {browser : Nat} {jar : Option String} {token : String}

def copies (jars : List (Nat × String)) (token : String) : Nat :=
  jars.countP fun jar => jar.2 = token

theorem jar_setJar (s : State) (service : Sequence) (browser : Nat) (jar : Option String) :
    State.jar ⟨service, s.setJar browser jar⟩ browser = jar := by
  have hnone : (s.jars.filter fun jar => jar.1 ≠ browser).find? (fun jar => jar.1 = browser) =
      none := by
    rw [List.find?_eq_none]
    intro x hx
    simpa using (List.mem_filter.mp hx).2
  rw [State.jar, State.setJar, List.find?_append, hnone]
  cases jar with
  | none => rfl
  | some token => simp

/-- A browser's old cookie leaves its jar before the new one is put there. -/
theorem copies_setJar (s : State) (browser : Nat) (jar : Option String) (token : String) :
    copies (s.setJar browser jar) token + (if s.jar browser = some token then 1 else 0) ≤
      copies s.jars token + if jar = some token then 1 else 0 := by
  have hnew : copies (jar.toList.map fun token => (browser, token)) token =
      if jar = some token then 1 else 0 := by
    cases jar with
    | none => rfl
    | some other => simp [copies, List.countP_singleton]
  have hold : copies (s.jars.filter fun jar => jar.1 ≠ browser) token +
      (if s.jar browser = some token then 1 else 0) ≤ copies s.jars token := by
    have hsplit : copies s.jars token = copies (s.jars.filter fun jar => jar.1 ≠ browser) token +
        copies (s.jars.filter fun jar => !decide (jar.1 ≠ browser)) token :=
      List.countP_eq_countP_filter_add ..
    rw [hsplit]
    refine Nat.add_le_add_left ?_ _
    by_cases hjar : s.jar browser = some token
    · rw [if_pos hjar]
      obtain ⟨x, hx, hxtoken⟩ := Option.map_eq_some_iff.mp hjar
      refine List.countP_pos_iff.mpr ⟨x, List.mem_filter.mpr ⟨List.mem_of_find?_eq_some hx, ?_⟩,
        decide_eq_true hxtoken⟩
      simpa using List.find?_some hx
    · rw [if_neg hjar]
      exact Nat.zero_le _
  have happend : copies (s.setJar browser jar) token =
      copies (s.jars.filter fun jar => jar.1 ≠ browser) token +
        copies (jar.toList.map fun token => (browser, token)) token := List.countP_append ..
  omega

theorem jar_setJar_of_ne (s : State) (service : Sequence) {browser other : Nat}
    (h : other ≠ browser) (jar : Option String) :
    State.jar ⟨service, s.setJar browser jar⟩ other = s.jar other := by
  have hold : (s.jars.filter fun jar => jar.1 ≠ browser).find? (fun jar => jar.1 = other) =
      s.jars.find? fun jar => jar.1 = other := by
    rw [List.find?_filter]
    refine congrFun (congrArg List.find? (funext fun x => ?_)) _
    by_cases hx : x.1 = other
    · simp [hx, h]
    · simp [hx]
  have hnew : (jar.toList.map fun token => (browser, token)).find? (fun jar => jar.1 = other) =
      none := by
    cases jar with
    | none => rfl
    | some token => simp [h.symm]
  rw [State.jar, State.setJar, List.find?_append, hold, hnew, Option.or_none, State.jar]

/-- A browser that keeps its cookie changes nobody's jar. -/
theorem jar_setJar_same (s : State) (service : Sequence) (browser other : Nat) :
    State.jar ⟨service, s.setJar browser (s.jar browser)⟩ other = s.jar other := by
  by_cases h : other = browser
  · rw [h, jar_setJar]
  · exact jar_setJar_of_ne s service h _

theorem copies_pos (h : s.jar browser = some token) : 0 < copies s.jars token := by
  obtain ⟨x, hx, hxtoken⟩ := Option.map_eq_some_iff.mp h
  exact List.countP_pos_iff.mpr ⟨x, List.mem_of_find?_eq_some hx, decide_eq_true hxtoken⟩

end Jars

section Steps
variable {env : Environment} {s s' : State} {v : Visit} {o : Outgoing} {u : Upstream}
  {service : Sequence}

/-- The service reads an exchange only in what was sent on the path of the exchange. -/
def ExchangesOnPath (env : Environment) (s : State) (v : Visit) : Prop :=
  ∀ o request, (outcome env s v).sent = some o → env.api.read o = some (.refresh request) →
    lstripSlash v.path = "api/v1/auth/refresh"

/-- The jars hold no more copies of a token than can be exchanged. -/
structure Kept (env : Environment) (s : State) : Prop where
  tallied : Tallied env.jose env.argon s.service
  made : ∀ token ∈ s.service.issued, ∃ applicantId now,
    token = JWTService.createRefreshToken env.jose applicantId now
  held : ∀ token, copies s.jars token + s.service.redeemed.count token ≤
    s.service.issued.count token

theorem lookup_withCookie (jar : Option String) (req : Request) :
    lookup (withCookie env jar req).cookies env.settings.refreshCookieName = jar := by
  cases jar with
  | none =>
      simp only [withCookie, lookup, Option.toList_none, List.map_nil, List.nil_append,
        Option.map_eq_none_iff, List.find?_eq_none]
      intro cookie hcookie
      simpa using (List.mem_filter.mp hcookie).2
  | some token => simp [withCookie, lookup]

theorem isCookieAuthPath_of_refresh {path : String}
    (h : lstripSlash path = "api/v1/auth/refresh") :
    isCookieAuthPath path = true := by
  rw [isCookieAuthPath, h]
  decide +kernel

theorem send_of_serve (h : serve env s.service v o = some (u, service)) :
    (edge env s v).send o = some u := by
  simp only [edge, h, Option.map_some]

theorem serve_of_ok {q : AuthRequest} {response : TokenResponse} {w : World}
    (hread : env.api.read o = some q)
    (hx : withSession env.jose env.argon ⟨q.call v.draws, v.commits⟩ s.service.world =
      some (.ok response, w)) :
    serve env s.service v o = some
      (⟨q.status, [("content-type", "application/json")], env.api.render response⟩,
        ⟨w, ⟨s.service.world, q.call v.draws, response⟩ :: s.service.log⟩) := by
  simp only [serve, hread, hx, Option.map_some]

theorem sanitizeAuthBody_render (hconf : env.Conforms) (response : TokenResponse) :
    sanitizeAuthBody (env.api.render response) =
      (.obj [("token_type", .str response.tokenType), ("expires_in", .int response.expiresIn)],
        some response.accessToken, some response.refreshToken) := by
  simp [sanitizeAuthBody, hconf.api.rendered, Json.get?]

theorem cookieAuthResponse_answered (hconf : env.Conforms) (q : AuthRequest)
    (response : TokenResponse) {correlation : String} {headers : List (String × String)} :
    cookieAuthResponse env.settings correlation ⟨q.status, headers, env.api.render response⟩ =
      buildCookieAuthResponse q.status
        (.obj [("token_type", .str response.tokenType), ("expires_in", .int response.expiresIn)])
        response.accessToken response.refreshToken env.settings correlation := by
  have hok : 200 ≤ q.status ∧ q.status < 300 := by cases q <;> simp [AuthRequest.status]
  rw [cookieAuthResponse, if_pos hok, sanitizeAuthBody_render hconf]

theorem jarAfter_of_nil (h : setCookies (outcome env s v).response = []) :
    jarAfter env s v = s.jar v.browser := by
  rw [jarAfter, h]
  rfl

theorem jarAfter_streamed (hsent : (outcome env s v).sent = some o)
    (hpath : ¬ isCookieAuthPath v.path = true) : jarAfter env s v = s.jar v.browser := by
  refine jarAfter_of_nil ?_
  rw [outcome] at hsent ⊢
  rw [response_of_sent hsent]
  cases (edge env s v).send o with
  | none => rfl
  | some result =>
      simp only [if_neg hpath]
      exact setCookies_streamed

/-- An answer without tokens leaves the cookie as it is. -/
theorem jarAfter_of_tokenless (hsent : (outcome env s v).sent = some o)
    (hserve : serve env s.service v o = some (u, service))
    (htokenless : ∀ access refresh, 200 ≤ u.status → u.status < 300 →
      (sanitizeAuthBody u.body).2 ≠ (some access, some refresh)) :
    jarAfter env s v = s.jar v.browser := by
  by_cases hpath : isCookieAuthPath v.path = true
  · refine jarAfter_of_nil ?_
    rw [outcome] at hsent ⊢
    rw [response_of_sent hsent, send_of_serve hserve]
    simp only [if_pos hpath]
    refine setCookies_cookieAuth.resolve_right ?_
    rintro ⟨access, refresh, hlow, hup, hbody, _⟩
    exact htokenless access refresh hlow hup hbody
  · exact jarAfter_streamed hsent hpath

theorem tokenless_elsewhere (hconf : env.Conforms) (access refresh : String) :
    (sanitizeAuthBody (env.api.elsewhere o).body).2 ≠ (some access, some refresh) := by
  intro h
  rw [sanitizeAuthBody] at h
  split at h
  · rename_i data hdata
    rw [hconf.api.elsewhere o data hdata] at h
    split at h
    · contradiction
    · simp at h
  · simp at h

/-- The tokens of an answer on a path of the cookies are in the jar. -/
theorem jarAfter_answered (hconf : env.Conforms) (hsent : (outcome env s v).sent = some o)
    {q : AuthRequest} {response : TokenResponse} {headers : List (String × String)}
    (hserve : serve env s.service v o =
      some (⟨q.status, headers, env.api.render response⟩, service))
    (hpath : isCookieAuthPath v.path = true)
    (hmade : ∃ applicantId now,
      response.refreshToken = JWTService.createRefreshToken env.jose applicantId now) :
    jarAfter env s v = some response.refreshToken := by
  obtain ⟨applicantId, now, hmade⟩ := hmade
  rw [jarAfter]
  rw [outcome] at hsent ⊢
  rw [response_of_sent hsent, send_of_serve hserve]
  simp only [if_pos hpath]
  rw [cookieAuthResponse_answered hconf, setCookies_build, List.foldl_cons, List.foldl_cons,
    List.foldl_nil, hconf.agent.access, hmade, hconf.agent.refresh]

theorem step_answered (hconf : env.Conforms) (hsent : (outcome env s v).sent = some o)
    (hpath : isCookieAuthPath v.path = true) {q : AuthRequest} (hread : env.api.read o = some q)
    {response : TokenResponse} {w : World}
    (hx : withSession env.jose env.argon ⟨q.call v.draws, v.commits⟩ s.service.world =
      some (.ok response, w))
    (hmade : ∃ applicantId now,
      response.refreshToken = JWTService.createRefreshToken env.jose applicantId now) :
    step env s v = some ⟨⟨w, ⟨s.service.world, q.call v.draws, response⟩ :: s.service.log⟩,
      s.setJar v.browser (some response.refreshToken)⟩ := by
  have hserve := serve_of_ok hread hx
  simp only [step, hsent, hserve, Option.map_some,
    jarAfter_answered hconf hsent hserve hpath hmade]

theorem jarAfter_unsent (hconf : env.Conforms) (h : (outcome env s v).sent = none) :
    jarAfter env s v = s.jar v.browser ∨ jarAfter env s v = none := by
  rw [outcome] at h
  cases setCookies_of_unsent h with
  | inl hnil => exact .inl (jarAfter_of_nil hnil)
  | inr hcleared =>
      refine .inr ?_
      rw [jarAfter, outcome, hcleared]
      exact hconf.agent.cleared _

/-- An exchange spends the cookie of its browser. -/
theorem jar_of_exchange (hconf : env.Conforms) (honpath : ExchangesOnPath env s v)
    (hsent : (outcome env s v).sent = some o) {request : RefreshTokenRequest}
    (hread : env.api.read o = some (.refresh request)) :
    isCookieAuthPath v.path = true ∧ s.jar v.browser = some request.refreshToken := by
  have hpath := honpath o request hsent hread
  rw [outcome] at hsent
  obtain ⟨token, hcookie, _, hbody⟩ := body_of_refresh hpath hsent
  rw [lookup_withCookie] at hcookie
  rw [hconf.api.refreshBody o token request hbody hread]
  exact ⟨isCookieAuthPath_of_refresh hpath, hcookie⟩

theorem Kept.unchanged (h : Kept env s) {jar : Option String}
    (hjar : jar = s.jar v.browser ∨ jar = none) : Kept env ⟨s.service, s.setJar v.browser jar⟩ := by
  refine ⟨h.tallied, h.made, ?_⟩
  intro token
  have hcopies := copies_setJar s v.browser jar token
  have hheld := h.held token
  have hle : copies (s.setJar v.browser jar) token ≤ copies s.jars token := by
    cases hjar with
    | inl hsame =>
        rw [hsame] at hcopies ⊢
        omega
    | inr hnone =>
        rw [hnone] at hcopies ⊢
        simp only [reduceCtorEq, if_false] at hcopies
        omega
  change copies (s.setJar v.browser jar) token + s.service.redeemed.count token ≤
    s.service.issued.count token
  omega

/-- A response adds one copy of its token, and an exchange takes one of the old token. -/
theorem Kept.answered (hconf : env.Conforms) (h : Kept env s) (honpath : ExchangesOnPath env s v)
    (hsent : (outcome env s v).sent = some o) {q : AuthRequest} (hread : env.api.read o = some q)
    {response : TokenResponse} {w : World}
    (heffect : Effect env.jose env.argon s.service.world (q.call v.draws) response w)
    {headers : List (String × String)}
    (hserve : serve env s.service v o =
      some (⟨q.status, headers, env.api.render response⟩, service))
    (hservice : service =
      ⟨w.commit 0, ⟨s.service.world, q.call v.draws, response⟩ :: s.service.log⟩) :
    Kept env ⟨service, s.setJar v.browser (jarAfter env s v)⟩ := by
  obtain ⟨applicant, hmade⟩ := heffect.made
  have hmade' : ∃ applicantId now,
      response.refreshToken = JWTService.createRefreshToken env.jose applicantId now :=
    ⟨applicant.id, (q.call v.draws).draws.refreshAt, by rw [hmade]; rfl⟩
  have hissued : service.issued = response.refreshToken :: s.service.issued := by
    rw [hservice]
    rfl
  refine ⟨hservice ▸ h.tallied.effect hconf.argon heffect, ?_, ?_⟩
  · intro token htoken
    rw [hissued] at htoken
    cases List.mem_cons.mp htoken with
    | inl heq => exact heq ▸ hmade'
    | inr hold => exact h.made token hold
  · intro token
    have hcopies := copies_setJar s v.browser (jarAfter env s v) token
    have hheld := h.held token
    change copies (s.setJar v.browser (jarAfter env s v)) token + service.redeemed.count token ≤
      service.issued.count token
    rw [hissued, List.count_cons]
    simp only [beq_iff_eq]
    have hopened (hredeemed : service.redeemed = s.service.redeemed) :
        copies (s.setJar v.browser (jarAfter env s v)) token + service.redeemed.count token ≤
          s.service.issued.count token + if response.refreshToken = token then 1 else 0 := by
      rw [hredeemed]
      by_cases hpath : isCookieAuthPath v.path = true
      · rw [jarAfter_answered hconf hsent hserve hpath hmade'] at hcopies ⊢
        simp only [Option.some.injEq] at hcopies
        omega
      · rw [jarAfter_streamed hsent hpath] at hcopies ⊢
        omega
    cases q with
    | register request =>
        refine hopened ?_
        rw [hservice]
        exact List.filterMap_cons_none rfl
    | login request =>
        refine hopened ?_
        rw [hservice]
        exact List.filterMap_cons_none rfl
    | refresh request =>
        obtain ⟨hpath, hjar⟩ := jar_of_exchange hconf honpath hsent hread
        have hredeemed : service.redeemed = request.refreshToken :: s.service.redeemed := by
          rw [hservice]
          exact List.filterMap_cons_some rfl
        rw [jarAfter_answered hconf hsent hserve hpath hmade', hjar] at hcopies
        rw [hredeemed, List.count_cons]
        simp only [Option.some.injEq, beq_iff_eq] at hcopies ⊢
        rw [jarAfter_answered hconf hsent hserve hpath hmade']
        omega

theorem Kept.step (hconf : env.Conforms) (h : Kept env s) (honpath : ExchangesOnPath env s v)
    (hstep : step env s v = some s') : Kept env s' := by
  rw [BrowserSessions.step] at hstep
  split at hstep
  · rename_i hsent
    obtain rfl := Option.some.inj hstep
    exact h.unchanged (jarAfter_unsent hconf hsent)
  · rename_i o hsent
    obtain ⟨⟨u, service⟩, hserve, rfl⟩ := Option.map_eq_some_iff.mp hstep
    have hserved := serve_cases h.tallied hserve
    cases hserved with
    | elsewhere hread =>
        exact h.unchanged (.inl (jarAfter_of_tokenless hsent hserve
          fun access refresh _ _ => tokenless_elsewhere hconf access refresh))
    | failed q hread =>
        refine h.unchanged (.inl (jarAfter_of_tokenless hsent hserve ?_))
        intro _ _ _ hup
        exact absurd hup (not_lt.mpr hconf.api.serverError)
    | answered q hread response w heffect =>
        exact h.answered hconf honpath hsent hread heffect hserve rfl

theorem Kept.init : Kept env .init :=
  ⟨.init, fun _ htoken => absurd htoken List.not_mem_nil, fun _ => Nat.le_refl 0⟩

end Steps

section Statement

/-- A browser comes to the exchange with the refresh cookie it has, while the token lives
and the next one can be stored. -/
structure Returns (env : Environment) (s : State) (v : Visit) (applicantId : Uuid)
    (token : String) : Prop where
  jar : s.jar v.browser = some token
  made : ∃ now, token = JWTService.createRefreshToken env.jose applicantId now
  path : v.path = authRefreshPath
  method : v.request.method = "POST"
  commits : v.commits = true
  lives : s.service.Lives token v.draws.refresh.now
  stores : CanStore env.jose env.argon s.service.world v.draws.tokens

/-- It is answered with new tokens of the same applicant, and keeps the new cookie. -/
def Renewed (env : Environment) (s : State) (v : Visit) (applicantId : Uuid) : Prop :=
  ∃ (applicant : Applicant) (s' : State), applicant.id = applicantId ∧
    step env s v = some s' ∧
    (outcome env s v).response = buildCookieAuthResponse 200
      (.obj [("token_type", .str "bearer"),
        ("expires_in", .int (tokenResponse env.jose applicant v.draws.tokens).expiresIn)])
      (tokenResponse env.jose applicant v.draws.tokens).accessToken
      (tokenResponse env.jose applicant v.draws.tokens).refreshToken env.settings
      (correlationId (edge env s v) (withCookie env (s.jar v.browser) v.request)) ∧
    s'.jar v.browser = some (tokenResponse env.jose applicant v.draws.tokens).refreshToken

/-- The server answers it with its 500, and neither the service nor a jar is touched. -/
def Failed (env : Environment) (s : State) (v : Visit) : Prop :=
  (outcome env s v).response = serverError ∧
    ∃ s', step env s v = some s' ∧ s'.service = s.service ∧
      ∀ browser, s'.jar browser = s.jar browser

/-- What the browsers can count on behind a run. -/
structure SessionsKept (env : Environment) (visits : List Visit) (s : State) : Prop where
  renewed : ∀ v applicantId token, Returns env s v applicantId token →
    v.copyWith (Latin1.decode v.request.queryString) = true → Renewed env s v applicantId
  failed : ∀ v o, (outcome env s v).forwarded = some o → v.copyWith o.query = false →
    Failed env s v
  unopened : (∀ v ∈ visits, ∀ query, v.copyWith query = false) →
    s.service = .init ∧ ∀ browser, s.jar browser = none

end Statement

section Sessions
variable {env : Environment} {s s' : State} {v : Visit} {visits : List Visit} {token : String}
  {o : Outgoing}

/-- An exchange makes its tokens for the applicant whose token it redeems. -/
theorem redeems_same (hconf : env.Conforms) {service : Sequence}
    (h : Tallied env.jose env.argon service) {request : RefreshTokenRequest} {r : RefreshDraws}
    {d : TokenDraws} {response : TokenResponse} {before after : List RefreshTokenModel}
    {m : RefreshTokenModel} {model : ApplicantModel} {new : RefreshTokenModel} {w : World}
    (hredeems : Redeems env.jose env.argon service.world request r d response before m after model
      new w) {applicantId : Uuid} {now : Datetime}
    (htoken : request.refreshToken = JWTService.createRefreshToken env.jose applicantId now) :
    model.id = applicantId := by
  have hm : m ∈ service.world.refreshTokens.committed := by simp [hredeems.rows]
  obtain ⟨i, _, ⟨_, applicant, hid, hmade⟩, hrow⟩ := h.inv.owned m hm
  have htext := (h.inv.rowOf_of_redeemable hconf.argon hm hredeems.redeemable).unique
    hconf.argon hrow
  rw [htoken, hmade] at htext
  have hsame := (JWTService.createRefreshToken_eq_iff _ hconf.jose).mp htext
  rw [hredeems.owner, ← hid, hsame.1]

theorem Kept.spendable (h : Kept env s) (hjar : s.jar v.browser = some token) :
    s.service.redeemed.count token < s.service.issued.count token := by
  have hcopies := copies_pos hjar
  have hheld := h.held token
  omega

theorem read_exchange (hconf : env.Conforms) (edge : Edge) (req : Request)
    (hmethod : req.method = "POST") :
    env.api.read (exchangeRequest edge env.settings req token) = some (.refresh ⟨token⟩) :=
  hconf.api.refreshRoute _ token hmethod url_exchange content_type_exchange body_exchange

/-- The service exchanges the token of a browser that comes back with its cookie. -/
theorem Kept.exchange (hconf : env.Conforms) (h : Kept env s) {applicantId : Uuid}
    {now : Datetime} (hjar : s.jar v.browser = some token)
    (htoken : token = JWTService.createRefreshToken env.jose applicantId now)
    (hcommits : v.commits = true) (hlives : s.service.Lives token v.draws.refresh.now)
    (hstore : CanStore env.jose env.argon s.service.world v.draws.tokens) :
    ∃ (applicant : Applicant) (w : World), applicant.id = applicantId ∧
      withSession env.jose env.argon
        ⟨(AuthRequest.refresh ⟨token⟩).call v.draws, v.commits⟩ s.service.world =
          some (.ok (tokenResponse env.jose applicant v.draws.tokens), w) := by
  obtain ⟨result, w, hx, hresult⟩ := @Tallied.exchange env.jose env.argon s.service hconf.argon
    h.tallied ⟨token⟩ v.draws.refresh v.draws.tokens hlives hstore
  rw [if_pos (h.spendable hjar)] at hresult
  obtain ⟨response, rfl⟩ := hresult
  rw [AuthRequest.call, hcommits]
  cases withSession_cases (execute_effect h.tallied.inv.closed h.tallied.inv.ids
      h.tallied.unique _) (fun _ _ => Effect.rollback) hx with
  | inl hfails =>
      obtain ⟨e, heq, _⟩ := hfails
      contradiction
  | inr hreturns =>
      obtain ⟨response', w', heq, heffect, _⟩ := hreturns
      obtain rfl := Except.ok.inj heq
      cases heffect with
      | opens new hopens => exact absurd rfl (hopens.notRefresh _ _)
      | redeems request r before m after model new hcall hredeems =>
          obtain ⟨rfl, rfl⟩ := Operation.refresh.inj (congrArg Call.operation hcall)
          obtain rfl := hredeems.issues.made
          exact ⟨_, w, redeems_same hconf h.tallied hredeems htoken, hx⟩

/-- The endpoint calls `forward` for it. -/
theorem Returns.outcome_eq (hconf : env.Conforms) {applicantId : Uuid}
    (h : Returns env s v applicantId token) :
    outcome env s v = answered (edge env s v) env.settings true
      (withCookie env (s.jar v.browser) v.request) none
      (exchangeRequest (edge env s v) env.settings
        (withCookie env (s.jar v.browser) v.request) token) := by
  obtain ⟨now, htoken⟩ := h.made
  have hcookie : lookup (withCookie env (s.jar v.browser) v.request).cookies
      env.settings.refreshCookieName = some token := by
    rw [lookup_withCookie, h.jar]
  rw [outcome, h.path]
  exact proxyEndpoint_refresh hconf.url hcookie (htoken ▸ hconf.someText applicantId now)

/-- A browser that comes back is answered with new tokens of the applicant whose token it
has, whatever the other browsers have done. -/
theorem Kept.renewed (hconf : env.Conforms) (h : Kept env s) {applicantId : Uuid}
    (hreturns : Returns env s v applicantId token)
    (htakes : v.copyWith (Latin1.decode v.request.queryString) = true) :
    Renewed env s v applicantId := by
  obtain ⟨now, htoken⟩ := hreturns.made
  have houtcome := hreturns.outcome_eq hconf
  have hread := @read_exchange env token hconf (edge env s v)
    (withCookie env (s.jar v.browser) v.request) hreturns.method
  obtain ⟨applicant, w, hid, hx⟩ := h.exchange hconf hreturns.jar htoken hreturns.commits
    hreturns.lives hreturns.stores
  have hsent : (outcome env s v).sent = some (exchangeRequest (edge env s v) env.settings
      (withCookie env (s.jar v.browser) v.request) token) := by
    rw [houtcome]
    exact leaving_eq_some_iff.mpr ⟨rfl, htakes⟩
  have hcookiePath : isCookieAuthPath v.path = true := by
    rw [hreturns.path]
    decide +kernel
  have hstep := step_answered hconf hsent hcookiePath hread hx
    ⟨applicant.id, v.draws.tokens.refreshAt, rfl⟩
  refine ⟨applicant, _, hid, hstep, ?_, jar_setJar ..⟩
  have hresponse := response_of_sent hsent
  rw [send_of_serve (serve_of_ok hread hx)] at hresponse
  simp only [if_pos hcookiePath] at hresponse
  exact hresponse.trans (cookieAuthResponse_answered hconf (.refresh ⟨token⟩) _)

/-- A request for which `forward` raises before it sends anything changes nothing. -/
theorem failed_of_refused (hforwarded : (outcome env s v).forwarded = some o)
    (hrefuses : v.copyWith o.query = false) : Failed env s v := by
  have hunsent : leaving (edge env s v) o = none := leaving_of_refused hrefuses
  have hraised : forward (edge env s v) o = none := by
    rw [forward, hunsent]
    rfl
  obtain ⟨_, _, _, _, _, _, _, _, _, _, _, houtcome⟩ := proxyEndpoint_forwarded hforwarded
  have hsent : (outcome env s v).sent = none := by
    rw [outcome, houtcome]
    exact hunsent
  have hresponse : (outcome env s v).response = serverError := by
    rw [outcome, houtcome]
    simp only [answered, hraised]
  have hjar : jarAfter env s v = s.jar v.browser := by
    refine jarAfter_of_nil ?_
    rw [hresponse]
    rfl
  refine ⟨hresponse, ⟨s.service, s.setJar v.browser (jarAfter env s v)⟩, ?_, rfl, ?_⟩
  · simp only [step, hsent]
  · rw [hjar]
    exact jar_setJar_same s s.service v.browser

theorem sent_of_refused (hrefuses : ∀ query, v.copyWith query = false) :
    (outcome env s v).sent = none := by
  cases hsent : (outcome env s v).sent with
  | none => rfl
  | some o =>
      have htakes := (forwarded_of_sent hsent).2
      rw [show (edge env s v).copyWith _ = false from hrefuses _] at htakes
      contradiction

/-- With a library that takes no query as text no session is opened. -/
theorem no_session_of_refused (hconf : env.Conforms)
    (hvisits : ∀ v ∈ visits, ∀ query, v.copyWith query = false)
    (hrun : Runs.run (step env) .init visits = some s) :
    s.service = .init ∧ ∀ browser, s.jar browser = none := by
  refine Runs.invariant_of_labels
    (I := fun s => s.service = .init ∧ ∀ browser, s.jar browser = none) ?_
    ⟨rfl, fun _ => rfl⟩ hvisits hrun
  rintro s v s' ⟨hservice, hjars⟩ hrefuses hstep
  have hunsent : (outcome env s v).sent = none := sent_of_refused hrefuses
  have hjar : jarAfter env s v = none := by
    cases jarAfter_unsent hconf hunsent with
    | inl hsame => rw [hsame, hjars]
    | inr hnone => exact hnone
  simp only [step, hunsent, hjar] at hstep
  obtain rfl := Option.some.inj hstep
  refine ⟨hservice, ?_⟩
  intro browser
  by_cases h : browser = v.browser
  · rw [h, jar_setJar]
  · rw [jar_setJar_of_ne s s.service h, hjars]

/-- Sessions are kept through the gateway, whatever the browsers do and wherever `forward`
raises; where it raises for every request, there are none. -/
theorem session_kept (hconf : env.Conforms)
    (honpath : Runs.EachStep (step env) (ExchangesOnPath env) .init visits)
    (hrun : Runs.run (step env) .init visits = some s) : SessionsKept env visits s := by
  have hkept : Kept env s := Runs.invariant_of_eachStep
    (fun _ _ _ h hon hstep => h.step hconf hon hstep) .init honpath hrun
  refine ⟨?_, ?_, ?_⟩
  · intro v applicantId token hreturns htakes
    exact hkept.renewed hconf hreturns htakes
  · intro v o hforwarded hrefuses
    exact failed_of_refused hforwarded hrefuses
  · intro hrefuses
    exact no_session_of_refused hconf hrefuses hrun

end Sessions

section Samples
variable {s : State} {v : Visit}

def cookieStart : List Char := "cg_refresh=".toList

def cookieRest : List Char :=
  "; Max-Age=604800; Path=/api/v1/auth/refresh; HttpOnly; SameSite=Lax".toList

/-- A browser that knows the two forms of the refresh cookie. -/
def UserAgent.sample : UserAgent := fun jar header =>
  if cookieStart.isPrefixOf header.toList then
    if cookieRest.isSuffixOf header.toList then
      some (String.ofList ((header.toList.drop cookieStart.length).take
        (header.length - cookieStart.length - cookieRest.length)))
    else none
  else jar

theorem UserAgent.sample_conforms (jose : Jose) : UserAgent.Conforms .sample jose {} := by
  constructor
  · intro jar applicantId now
    generalize JWTService.createRefreshToken jose applicantId now = token
    have hheader : (refreshCookieHeader token {}).toList = cookieStart ++ token.toList ++
        cookieRest := by
      simp only [refreshCookieHeader, cookieHeader, Bool.false_eq_true, if_false,
        String.intercalate_cons_cons, String.intercalate_singleton, String.toList_append,
        List.append_assoc]
      rfl
    have hstart : cookieStart.isPrefixOf (cookieStart ++ token.toList ++ cookieRest) = true := by
      rw [List.isPrefixOf_iff_prefix, List.append_assoc]
      exact List.prefix_append ..
    have hrest : cookieRest.isSuffixOf (cookieStart ++ token.toList ++ cookieRest) = true := by
      rw [List.isSuffixOf_iff_suffix]
      exact List.suffix_append ..
    have hlength : (refreshCookieHeader token {}).length =
        cookieStart.length + token.toList.length + cookieRest.length := by
      rw [← String.length_toList, hheader, List.length_append, List.length_append]
    have hmiddle : ((cookieStart ++ token.toList ++ cookieRest).drop cookieStart.length).take
        (cookieStart.length + token.toList.length + cookieRest.length - cookieStart.length -
          cookieRest.length) = token.toList := by
      rw [List.append_assoc, List.drop_left, Nat.add_assoc, Nat.add_sub_cancel_left,
        Nat.add_sub_cancel, List.take_left]
    rw [UserAgent.sample, hheader, if_pos hstart, if_pos hrest, hlength, hmiddle,
      String.ofList_toList]
  · intro jar token
    have hheader : ∃ rest, (accessCookieHeader token {}).toList = "cg_access=".toList ++ rest := by
      refine ⟨token.toList ++ "; Max-Age=900; Path=/; HttpOnly; SameSite=Lax".toList, ?_⟩
      simp only [accessCookieHeader, cookieHeader, Bool.false_eq_true, if_false,
        String.intercalate_cons_cons, String.intercalate_singleton, String.toList_append,
        List.append_assoc]
      rfl
    obtain ⟨rest, hrest⟩ := hheader
    have hstart : cookieStart.isPrefixOf ("cg_access=".toList ++ rest) = false := rfl
    rw [UserAgent.sample, hrest, hstart]
    rfl
  · intro jar
    have hcleared : clearAuthCookiesHeaders {} =
        ["cg_access=; Max-Age=0; Path=/; HttpOnly; SameSite=Lax",
          "cg_refresh=; Max-Age=0; Path=/api/v1/auth/refresh; HttpOnly; SameSite=Lax"] := by
      decide +kernel
    rw [hcleared]
    cases jar <;> rfl

def Api.readRefresh (body : ByteArray) : Option AuthRequest :=
  match (String.fromUTF8? body).bind Json.loads with
  | some (.obj data) =>
      match Json.get? data "refresh_token" with
      | some (.str token) => some (.refresh ⟨token⟩)
      | _ => none
  | _ => none

/-- Every registration is Ada's, and so is every login. -/
def Api.sample : Api where
  read o :=
    if o.url = "http://applicant:8001/api/v1/auth/register" then some (.register ada)
    else if o.url = "http://applicant:8001/api/v1/auth/login" then
      some (.login ⟨"ada@example.com", "password"⟩)
    else readRefresh o.body
  render response :=
    (Json.obj [("access_token", .str response.accessToken),
      ("refresh_token", .str response.refreshToken), ("token_type", .str response.tokenType),
      ("expires_in", .int response.expiresIn)]).dumps.toUTF8
  serverError := ⟨500, [], "Internal Server Error".toUTF8⟩
  elsewhere _ := ⟨404, [], "null".toUTF8⟩

theorem Api.readRefresh_body (token : String) :
    readRefresh (buildRefreshBodyFromCookie token) = some (.refresh ⟨token⟩) := by
  have hexact : Json.Exact (.obj [("refresh_token", .str token)]) := by
    simp [Json.Exact, Json.ExactPairs]
  rw [readRefresh, buildRefreshBodyFromCookie, Json.fromUTF8?_toUTF8, Option.bind_some,
    Json.loads_dumps hexact]
  rfl

theorem Api.sample_conforms : Api.sample.Conforms {} := by
  constructor
  · intro o token request hbody hread
    simp only [sample] at hread
    split at hread
    · cases hread
    · split at hread
      · cases hread
      · rw [hbody, readRefresh_body] at hread
        cases hread
        rfl
  · intro o token _ hurl _ hbody
    have hregister : ¬ o.url = "http://applicant:8001/api/v1/auth/register" := by
      rw [hurl]
      decide +kernel
    have hlogin : ¬ o.url = "http://applicant:8001/api/v1/auth/login" := by
      rw [hurl]
      decide +kernel
    simp only [sample, if_neg hregister, if_neg hlogin, hbody, readRefresh_body]
  · intro response
    have hexact : Json.Exact (.obj
        [("access_token", .str response.accessToken),
          ("refresh_token", .str response.refreshToken),
          ("token_type", .str response.tokenType), ("expires_in", .int response.expiresIn)]) := by
      simp [Json.Exact, Json.ExactPairs]
    rw [sample, Json.fromUTF8?_toUTF8, Option.bind_some, Json.loads_dumps hexact]
  · decide
  · intro o data h
    have hnull : Json.loads "null" = some .null := by decide +kernel
    simp only [sample, Json.fromUTF8?_toUTF8, Option.bind_some, hnull] at h
    cases h

def Environment.sample : Environment := ⟨.sample, .sample, {}, .sample, .sample⟩

theorem Environment.sample_conforms : Environment.sample.Conforms where
  argon := Argon2.sample_exact
  jose := Jose.sample_faithful
  someText := by
    intro applicantId now h
    have hloads := Json.loads_dumps (JWTService.exact_refreshPayload applicantId now)
    have hempty : Json.loads "" = none := by decide +kernel
    have hdumps : (JWTService.refreshPayload applicantId now).dumps = "" := h
    rw [hdumps, hempty] at hloads
    contradiction
  url := by decide
  api := Api.sample_conforms
  agent := UserAgent.sample_conforms _

def visitOf (browser : Nat) (path : String) (now : Datetime) (n : BitVec 128) : Visit where
  browser := browser
  path := path
  request := ⟨"POST", [], [], some "10.0.0.1", ByteArray.empty, ByteArray.empty⟩
  decode _ := none
  allowed _ _ _ := true
  copyWith _ := true
  uuid := ⟨9⟩
  draws := ⟨⟨0, ⟨1⟩, 0, 0⟩, ⟨now, .stored, now⟩, .at now n⟩

def sharedToken : String := JWTService.createRefreshToken .sample ⟨1⟩ 0

def registers : Visit := visitOf 0 authRegisterPath 0 1

def logsIn : Visit := visitOf 1 authLoginPath 0 2

def returns : Visit := visitOf 0 authRefreshPath 1 3

/-- The same requests where `forward` raises. -/
def returnsInVain : Visit := { returns with copyWith := fun _ => false }

def registersInVain : Visit := { registers with copyWith := fun _ => false }

def accountRoute (pathPrefix : String) : Route where
  pathPrefix := pathPrefix
  baseUrl := "http://applicant:8001"
  requiresAuth := false
  rateLimit := true
  isPublic := true
  rateKeyPrefix := some "auth"
  rateWindowSeconds := 60
  rateLimitCount := Settings.rateLimitAuthPerMinute {}

/-- What the sample service reads in a request for an account. -/
inductive AccountRead : String → AuthRequest → Prop
  | register : AccountRead authRegisterPath (.register ada)
  | login : AccountRead authLoginPath (.login ⟨"ada@example.com", "password"⟩)

theorem AccountRead.policy {path : String} {q : AuthRequest} (h : AccountRead path q) :
    Gateway.policy {} path = .forward (accountRoute ("/" ++ path)) false true := by
  cases h <;> decide +kernel

theorem AccountRead.read {path : String} {q : AuthRequest} {o : Outgoing} (h : AccountRead path q)
    (hurl : o.url = forwardUrl "http://applicant:8001" path) : Api.sample.read o = some q := by
  cases h with
  | register =>
      have hregister : forwardUrl "http://applicant:8001" authRegisterPath =
          "http://applicant:8001/api/v1/auth/register" := by decide +kernel
      simp only [Api.sample, if_pos (hurl.trans hregister)]
  | login =>
      have hlogin : forwardUrl "http://applicant:8001" authLoginPath =
          "http://applicant:8001/api/v1/auth/login" := by decide +kernel
      have hother : ¬ o.url = "http://applicant:8001/api/v1/auth/register" := by
        rw [hurl]
        decide +kernel
      simp only [Api.sample, if_neg hother, if_pos (hurl.trans hlogin)]

theorem AccountRead.sent {q : AuthRequest} (h : AccountRead v.path q)
    (hallowed : ∀ key limit window, v.allowed key limit window = true)
    (htakes : ∀ query, v.copyWith query = true) :
    ∃ o, (outcome .sample s v).sent = some o ∧ Api.sample.read o = some q := by
  have hrespond : outcome .sample s v = Policy.respond (edge .sample s v) {} v.path
      (withCookie .sample (s.jar v.browser) v.request)
      (.forward (accountRoute ("/" ++ v.path)) false true) := by
    rw [outcome, proxyEndpoint_eq, ← h.policy]
    rfl
  have hsent : ∃ o, (outcome .sample s v).sent = some o ∧
      o.url = forwardUrl "http://applicant:8001" v.path := by
    rw [hrespond]
    simp only [Policy.respond, proxied, refreshTokenFromCookie, authenticate, charge, rateKey,
      accountRoute, Bool.false_eq_true, if_false, if_true, Option.all_some]
    have hallowed : ∀ key limit window, (edge .sample s v).allowed key limit window = true :=
      hallowed
    rw [if_pos (hallowed _ _ _)]
    exact ⟨_, leaving_eq_some_iff.mpr ⟨rfl, htakes _⟩, url_requestUpstream⟩
  obtain ⟨o, hsent, hurl⟩ := hsent
  exact ⟨o, hsent, h.read hurl⟩

theorem AccountRead.onPath {q : AuthRequest} (h : AccountRead v.path q)
    (hallowed : ∀ key limit window, v.allowed key limit window = true)
    (htakes : ∀ query, v.copyWith query = true) : ExchangesOnPath .sample s v := by
  intro o request hsent hread
  obtain ⟨o', hsent', hread'⟩ := h.sent (s := s) hallowed htakes
  obtain rfl := Option.some.inj (hsent.symm.trans hsent')
  obtain rfl := Option.some.inj (hread'.symm.trans hread)
  generalize v.path = path at h
  cases h

def registration : Attempt := ⟨(AuthRequest.register ada).call registers.draws, true⟩

def login : Attempt :=
  ⟨(AuthRequest.login ⟨"ada@example.com", "password"⟩).call logsIn.draws, true⟩

/-- The service hands out one token twice, and can store the next one. -/
def handsOutTwice : Bool :=
  match withSession .sample .sample registration Sequence.init.world with
  | some (.ok r, w) =>
      match withSession .sample .sample login w with
      | some (.ok r', w') =>
          r.refreshToken = sharedToken ∧ r'.refreshToken = sharedToken ∧
            ∀ applicant ∈ w'.applicants.committed,
              let new := refreshTokenEntity .sample .sample applicant.id returns.draws.tokens
              new.tokenHash.length ≤ 255 ∧ ∀ m ∈ w'.refreshTokens.committed,
                RefreshTokenModel.clash (RefreshTokenRepository.toModel new) m = false
      | _ => false
  | _ => false

theorem handsOutTwice_answers : ∃ r w r' w',
    withSession .sample .sample registration Sequence.init.world = some (.ok r, w) ∧
      withSession .sample .sample login w = some (.ok r', w') ∧
      r.refreshToken = sharedToken ∧ r'.refreshToken = sharedToken ∧
      CanStore .sample .sample w' returns.draws.tokens := by
  have htwice : handsOutTwice = true := by decide +kernel
  rw [handsOutTwice] at htwice
  split at htwice
  · rename_i r w hr
    split at htwice
    · rename_i r' w' hr'
      obtain ⟨htoken, htoken', hstore⟩ := of_decide_eq_true htwice
      exact ⟨r, w, r', w', hr, hr', htoken, htoken', hstore⟩
    · cases htwice
  · cases htwice

/-- Both browsers have the same token, and the first of them tries in vain to exchange
it, or does. A registration in vain opens nothing. -/
theorem session_kept_shared :
    (∃ s s', Runs.run (step .sample) .init [registers, logsIn] = some s ∧
      (outcome .sample s returnsInVain).response = serverError ∧
      step .sample s returns = some s' ∧ (s'.jar 0).isSome = true) ∧
    ∃ s, Runs.run (step .sample) .init [registersInVain] = some s ∧ s.service = .init ∧
      s.jar 0 = none := by
  have hconf := Environment.sample_conforms
  constructor
  · obtain ⟨r, w, r', w', hr, hr', htoken, htoken', hstore⟩ := handsOutTwice_answers
    obtain ⟨o, hsent, hread⟩ := AccountRead.register.sent (s := .init) (v := registers)
      (fun _ _ _ => rfl) fun _ => rfl
    have hfirst := step_answered hconf hsent (by decide +kernel) hread hr ⟨⟨1⟩, 0, htoken⟩
    generalize hs : State.mk _ _ = s at hfirst
    obtain ⟨o', hsent', hread'⟩ := AccountRead.login.sent (s := s) (v := logsIn) (fun _ _ _ => rfl)
      fun _ => rfl
    have hsecond := step_answered hconf hsent' (by decide +kernel) hread' (by rw [← hs]; exact hr')
      ⟨⟨1⟩, 0, htoken'⟩
    generalize ht : State.mk _ _ = t at hsecond
    have hrun : Runs.run (step .sample) .init [registers, logsIn] = some t := by
      simp only [Runs.run, hfirst, hsecond, Option.bind_some]
    have honpath : Runs.EachStep (step .sample) (ExchangesOnPath .sample) .init
        [registers, logsIn] := by
      refine fun _ _ => ⟨?_, fun _ _ => ⟨?_, trivial⟩⟩
      · exact AccountRead.register.onPath (v := registers) (fun _ _ _ => rfl) fun _ => rfl
      · exact AccountRead.login.onPath (v := logsIn) (fun _ _ _ => rfl) fun _ => rfl
    have hjar : t.jar returns.browser = some sharedToken := by
      rw [← htoken, ← ht, ← hs]
      rfl
    have hlives : t.service.Lives sharedToken returns.draws.refresh.now := by
      have hweek : (1 : Datetime) < JWTService.getRefreshTokenExpiry 0 := by decide +kernel
      rw [← ht, ← hs]
      intro i hi _
      rcases List.mem_pair.mp hi with rfl | rfl
      · exact hweek
      · exact hweek
    have hstore : CanStore .sample .sample t.service.world returns.draws.tokens := by
      rw [← ht, ← hs]
      exact hstore
    have hkept := session_kept hconf honpath hrun
    have hreturns : Returns .sample t returns ⟨1⟩ sharedToken :=
      ⟨hjar, ⟨0, rfl⟩, rfl, rfl, rfl, hlives, hstore⟩
    have hreturnsInVain : Returns .sample t returnsInVain ⟨1⟩ sharedToken :=
      ⟨hjar, ⟨0, rfl⟩, rfl, rfl, rfl, hlives, hstore⟩
    obtain ⟨_, s', _, hstep, _, hjar'⟩ := hkept.renewed _ _ _ hreturns rfl
    have hvain := hkept.failed _ _ (by rw [hreturnsInVain.outcome_eq hconf]; rfl) rfl
    refine ⟨t, s', hrun, hvain.1, hstep, ?_⟩
    change s'.jar 0 = _ at hjar'
    rw [hjar', Option.isSome_some]
  · have hrefuses : ∀ v ∈ [registersInVain], ∀ query, v.copyWith query = false :=
      List.forall_mem_singleton.mpr fun _ => rfl
    have hunsent := @sent_of_refused .sample .init registersInVain fun _ => rfl
    have hstep : ∃ s, step .sample .init registersInVain = some s := by
      simp only [step, hunsent]
      exact ⟨_, rfl⟩
    obtain ⟨s, hstep⟩ := hstep
    have hrun : Runs.run (step .sample) .init [registersInVain] = some s := by
      simp only [Runs.run, hstep, Option.bind_some]
    have honpath : Runs.EachStep (step .sample) (ExchangesOnPath .sample) .init
        [registersInVain] := by
      refine fun _ _ => ⟨?_, trivial⟩
      intro o request hsent
      rw [hunsent] at hsent
      contradiction
    obtain ⟨hservice, hjars⟩ := (session_kept hconf honpath hrun).unopened hrefuses
    exact ⟨s, hrun, hservice, hjars 0⟩

end Samples
end CrediGuard.Platform.BrowserSessions
