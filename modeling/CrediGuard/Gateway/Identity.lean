import CrediGuard.Dependencies
import CrediGuard.Gateway.Headers

/-!
Who the caller is, for the gateway and for the service behind it.

The gateway strips `Authorization` and injects `X-User-ID`. The loan service reads
what is injected. The applicant service reads what is stripped.
-/

namespace CrediGuard.Gateway

section Model

/-- The services that identify their caller. -/
inductive Service where
  | applicant
  | loan
  deriving DecidableEq

def Settings.serviceUrl (settings : Settings) : Service → String
  | .applicant => settings.applicantServiceUrl
  | .loan => settings.loanServiceUrl

/-- The service's `get_current_applicant_id`, on the headers it receives. -/
def Service.currentApplicantId (tokens : Applicants.TokenDecoder)
    (headers : List (String × String)) : Service → Except HTTPException Uuid
  | .applicant => Applicants.getCurrentApplicantId tokens (headerParam headers "Authorization")
  | .loan => Loan.getCurrentApplicantId (headerParam headers "X-User-ID")

/-- The server reads the names of headers from Latin-1 bytes. -/
def Latin1Names (req : Request) : Prop := ∀ p ∈ req.headers, Latin1.IsText p.1

end Model

section Headers
variable {clientHeaders : List (String × String)} {applicantId : Option String}
  {correlationId : String}

/-- No header of the client passes under a name the gateway keeps for itself. -/
theorem kept_ne_stripped (hnames : ∀ p ∈ clientHeaders, Latin1.IsText p.1) {name : String}
    (hstripped : name ∈ strippedHeaders) :
    ∀ p ∈ readHeaders ((clientHeaders.filter fun p => Latin1.lower p.1 ∉ strippedHeaders ∧
        Latin1.lower p.1 ∉ blockedHeaders).map fun p => (Latin1.encode p.1, Latin1.encode p.2)),
      p.1.toLower ≠ name := by
  intro p hp heq
  simp only [readHeaders, List.map_map] at hp
  obtain ⟨q, hq, rfl⟩ := List.mem_map.mp hp
  obtain ⟨hmem, hkept⟩ := List.mem_filter.mp hq
  simp only [Function.comp_apply, Latin1.decode_encode (hnames q hmem)] at heq
  have hother := (lower_not_mem_iff (hnames q hmem)).mp (of_decide_eq_true hkept)
  exact hother (heq ▸ List.mem_append_left _ hstripped)

theorem headerParam_append_of_ne {headers rest : List (String × String)} {name : String}
    (h : ∀ p ∈ headers, p.1.toLower ≠ name.toLower) :
    headerParam (headers ++ rest) name = headerParam rest name := by
  have hnone : headers.find? (fun p => decide (p.1.toLower = name.toLower)) = none :=
    List.find?_eq_none.mpr fun p hp => by simpa using h p hp
  simp only [headerParam, List.find?_append, hnone, Option.none_or]

/-- What the gateway injects, as the service behind reads it. -/
theorem readHeaders_injected {x : String} (hx : Latin1.IsAscii x) :
    readHeaders (identityHeaders (some x) ++ [("X-Correlation-ID".toUTF8, correlationId.toUTF8)]) =
      [("X-User-ID", x), ("X-User-Roles", "applicant"),
        ("X-Correlation-ID", Latin1.decode correlationId.toUTF8)] := by
  have hname : ∀ n ∈ ["X-User-ID", "X-User-Roles", "applicant", "X-Correlation-ID"],
      Latin1.IsAscii n := by
    have hall : ∀ n ∈ ["X-User-ID", "X-User-Roles", "applicant", "X-Correlation-ID"],
        (n.toList.all fun c => c.toNat < 128) = true := by decide +kernel
    exact fun n hn => Latin1.isAscii_of_all (hall n hn)
  simp only [readHeaders, identityHeaders, List.cons_append, List.nil_append, List.map_cons,
    List.map_nil, Latin1.decode_toUTF8 hx, Latin1.decode_toUTF8 (hname "X-User-ID" (by simp)),
    Latin1.decode_toUTF8 (hname "X-User-Roles" (by simp)),
    Latin1.decode_toUTF8 (hname "applicant" (by simp)),
    Latin1.decode_toUTF8 (hname "X-Correlation-ID" (by simp))]

/-- Of the two headers that say who the caller is, upstream sees the injected one. -/
theorem headerParam_rewriteHeaders (hnames : ∀ p ∈ clientHeaders, Latin1.IsText p.1)
    (correlationId : String) {x : String} (hx : Latin1.IsAscii x) :
    headerParam (readHeaders (rewriteHeaders clientHeaders (some x) correlationId)) "X-User-ID" =
        some x ∧
      headerParam (readHeaders (rewriteHeaders clientHeaders (some x) correlationId))
        "Authorization" = none := by
  have huser : "X-User-ID".toLower = "x-user-id" := by decide +kernel
  have hauth : "Authorization".toLower = "authorization" := by decide +kernel
  have hroles : "X-User-Roles".toLower ≠ "authorization" := by decide +kernel
  have hcorrelation : "X-Correlation-ID".toLower ≠ "authorization" := by decide +kernel
  have hother : "X-User-ID".toLower ≠ "authorization" := by decide +kernel
  have hread : readHeaders (rewriteHeaders clientHeaders (some x) correlationId) =
      readHeaders ((clientHeaders.filter fun p => Latin1.lower p.1 ∉ strippedHeaders ∧
        Latin1.lower p.1 ∉ blockedHeaders).map fun p => (Latin1.encode p.1, Latin1.encode p.2)) ++
      [("X-User-ID", x), ("X-User-Roles", "applicant"),
        ("X-Correlation-ID", Latin1.decode correlationId.toUTF8)] := by
    rw [← readHeaders_injected hx, rewriteHeaders, List.append_assoc, readHeaders, List.map_append]
    rfl
  rw [hread]
  constructor
  · rw [headerParam_append_of_ne (huser ▸ kept_ne_stripped hnames (by decide))]
    simp [headerParam]
  · rw [headerParam_append_of_ne (hauth ▸ kept_ne_stripped hnames (by decide))]
    simp [headerParam, hauth, hroles, hcorrelation, hother]

theorem isAscii_str (u : Uuid) : Latin1.IsAscii u.str := by
  intro c hc
  rcases Uuid.mem_str hc with rfl | ⟨d, hd, rfl⟩
  · decide
  · have hall : ∀ d < 16, (Nat.digitChar d).toNat < 128 := by decide
    exact hall d hd

end Headers

section Forwarded
variable {edge : Edge} {settings : Settings} {path : String} {req : Request} {route : Route}

theorem latin1_assign {headers : List (String × String)} {name value : String}
    (h : ∀ p ∈ headers, Latin1.IsText p.1) (hname : Latin1.IsText name) :
    ∀ p ∈ assign headers name value, Latin1.IsText p.1 := by
  intro p hp
  simp only [assign] at hp
  split at hp
  · obtain ⟨q, hq, rfl⟩ := List.mem_map.mp hp
    by_cases hkey : q.1 = name
    · rw [if_pos hkey]
      exact hname
    · rw [if_neg hkey]
      exact h q hq
  · cases List.mem_append.mp hp with
    | inl hold => exact h p hold
    | inr hnew =>
        rw [List.mem_singleton.mp hnew]
        exact hname

/-- What `forward` puts together for a caller carries the headers made for them. -/
theorem forwarded_headers {outgoing : Outgoing} {applicantId : Option String}
    (hnames : Latin1Names req) (hroute : matchRoute settings path = some route)
    (hauth : authenticate edge settings route req = .ok applicantId)
    (hforwarded : (proxyEndpoint edge settings path req).forwarded = some outgoing) :
    ∃ clientHeaders, (∀ p ∈ clientHeaders, Latin1.IsText p.1) ∧
      outgoing.headers = rewriteHeaders clientHeaders applicantId (correlationId edge req) := by
  obtain ⟨route', _, _, refreshToken, applicantId', _, hpolicy, _, hauth', _, rfl, _⟩ :=
    proxyEndpoint_forwarded hforwarded
  obtain rfl := Option.some.inj (hroute.symm.trans (policy_forward hpolicy).1)
  obtain rfl := Except.ok.inj (hauth.symm.trans hauth')
  cases refreshToken with
  | none => exact ⟨req.headers, hnames, rfl⟩
  | some token => exact ⟨_, latin1_assign hnames (Latin1.isText_of_all (by decide +kernel)), rfl⟩

/-- The service that an authenticated request is put together for takes its caller for
whom the gateway takes them just if it is the loan service. -/
theorem currentApplicantId_iff {outgoing : Outgoing} {service : Service} {applicantId : Uuid}
    (tokens : Applicants.TokenDecoder) (hnames : Latin1Names req)
    (hroute : matchRoute settings path = some route)
    (hservice : route.baseUrl = settings.serviceUrl service)
    (hauth : authenticate edge settings route req = .ok (some applicantId.str))
    (hforwarded : (proxyEndpoint edge settings path req).forwarded = some outgoing) :
    service.currentApplicantId tokens (readHeaders outgoing.headers) = .ok applicantId ↔
      service = .loan := by
  obtain ⟨clientHeaders, hclient, hheaders⟩ := forwarded_headers hnames hroute hauth hforwarded
  obtain ⟨huser, hauthorization⟩ := headerParam_rewriteHeaders hclient
    (correlationId edge req) (isAscii_str applicantId)
  rw [hheaders]
  cases service with
  | applicant =>
      simp only [Service.currentApplicantId, hauthorization, Applicants.getCurrentApplicantId]
      exact ⟨nofun, nofun⟩
  | loan =>
      simp only [Service.currentApplicantId, huser, Loan.getCurrentApplicantId_str]

end Forwarded

section Bearer

/-- One token, of applicant 100; everything is allowed. -/
def Edge.sample : Edge where
  decode token :=
    if token = "t" then
      some [("type", .str "access"), ("sub", .str (Uuid.str ⟨100⟩)), ("email", .str "a@b.pl")]
    else none
  allowed _ _ _ := true
  send _ := some ⟨200, [], ByteArray.empty⟩
  uuid := ⟨9⟩

/-- The same token for the applicant service. -/
def tokensOf (edge : Edge) : Applicants.TokenDecoder := ⟨edge.decode, fun _ => ""⟩

def bearerRequest : Request where
  method := "GET"
  headers := [("authorization", "Bearer t"), ("x-user-id", Uuid.str ⟨200⟩)]
  cookies := []
  client := none
  queryString := ByteArray.empty
  body := ByteArray.empty

def meRoute : Route :=
  { pathPrefix := "/api/v1/me"
    baseUrl := "http://applicant:8001"
    requiresAuth := true
    rateLimit := false }

def loanRoute : Route :=
  { pathPrefix := "/api/v1/loans"
    baseUrl := "http://loan-application:8002"
    requiresAuth := true
    rateLimit := true
    rateKeyPrefix := some "loans"
    rateWindowSeconds := 600
    rateLimitCount := 3 }

theorem latin1Names_bearerRequest : Latin1Names bearerRequest := by
  have hall : (bearerRequest.headers.all fun p => p.1.toList.all fun c => c.toNat < 256) =
      true := by decide +kernel
  exact fun p hp => Latin1.isText_of_all (List.all_eq_true.mp hall p hp)

theorem validate_bearerRequest :
    Edge.sample.validate (lookup bearerRequest.headers "authorization") = some ⟨100⟩ := by
  decide +kernel

theorem authenticate_bearerRequest {route : Route} (h : route.requiresAuth = true) :
    authenticate Edge.sample {} route bearerRequest = .ok (some (Uuid.str ⟨100⟩)) := by
  simp only [authenticate, h, if_true, validate_bearerRequest]

/-- The headers made for `GET /api/v1/me` with a good token are those of a stranger. -/
theorem me_not_identified :
    ∃ outgoing, matchRoute {} "api/v1/me" = some meRoute ∧
      meRoute.baseUrl = Settings.serviceUrl {} .applicant ∧
      authenticate Edge.sample {} meRoute bearerRequest = .ok (some (Uuid.str ⟨100⟩)) ∧
      (proxyEndpoint Edge.sample {} "api/v1/me" bearerRequest).forwarded = some outgoing ∧
      Service.applicant.currentApplicantId (tokensOf Edge.sample) (readHeaders outgoing.headers) =
        .error ⟨401, "Missing or invalid Authorization header"⟩ := by
  have hroute : matchRoute {} "api/v1/me" = some meRoute := by decide +kernel
  have hauth := @authenticate_bearerRequest meRoute rfl
  have hsome : (proxyEndpoint Edge.sample {} "api/v1/me" bearerRequest).forwarded.isSome =
      true := by decide +kernel
  obtain ⟨outgoing, hforwarded⟩ := Option.isSome_iff_exists.mp hsome
  obtain ⟨clientHeaders, hclient, hheaders⟩ :=
    forwarded_headers latin1Names_bearerRequest hroute hauth hforwarded
  refine ⟨outgoing, hroute, rfl, hauth, hforwarded, ?_⟩
  rw [hheaders, Service.currentApplicantId,
    (headerParam_rewriteHeaders hclient _ (isAscii_str _)).2]
  rfl

theorem currentApplicantId_iff_loans :
    ∃ outgoing,
      (proxyEndpoint Edge.sample {} "api/v1/loans" bearerRequest).forwarded = some outgoing ∧
      (Service.loan.currentApplicantId (tokensOf Edge.sample) (readHeaders outgoing.headers) =
        .ok ⟨100⟩ ↔ Service.loan = .loan) := by
  have hroute : matchRoute {} "api/v1/loans" = some loanRoute := by decide +kernel
  have hsome : (proxyEndpoint Edge.sample {} "api/v1/loans" bearerRequest).forwarded.isSome =
      true := by decide +kernel
  obtain ⟨outgoing, hforwarded⟩ := Option.isSome_iff_exists.mp hsome
  refine ⟨outgoing, hforwarded, ?_⟩
  exact currentApplicantId_iff (tokensOf Edge.sample) latin1Names_bearerRequest hroute rfl
    (authenticate_bearerRequest rfl) hforwarded

end Bearer

end CrediGuard.Gateway
