import CrediGuard.Gateway.Proxy

/-!
`CorrelationIdMiddleware` around the catch-all: the ids of one request in the log
context, upstream and on the response.

The middleware and the endpoint both read the header of the client and both draw an
id where it has none. Each puts its own on the response, and neither does so on the
answer to an exception, which is made outside of both.
-/

namespace CrediGuard.Gateway

section Model

/-- A request as the server hands it over; names of headers are in lower case. -/
structure Scope where
  method : String
  path : String
  headers : List (String × ByteArray)
  cookies : List (String × String)
  client : Option String
  queryString : ByteArray
  body : ByteArray

/-- `dict(request.headers.items())`: of a name that is repeated, the last value. -/
def clientHeaders (headers : List (String × ByteArray)) : List (String × String) :=
  headers.foldl (fun pairs p => assign pairs p.1 (Latin1.decode p.2)) []

def Scope.request (scope : Scope) : Request :=
  { method := scope.method
    headers := clientHeaders scope.headers
    cookies := scope.cookies
    client := scope.client
    queryString := scope.queryString
    body := scope.body }

/-- `dict(scope["headers"]).get(name, b"")`. -/
def lastValue (headers : List (String × ByteArray)) (name : String) : ByteArray :=
  ((headers.reverse.find? fun p => p.1 = name).map Prod.snd).getD ByteArray.empty

/-- The id the middleware takes from the header or draws; `none` is the exception of
a header that is no UTF-8. -/
def middlewareId (scope : Scope) (draw : Uuid) : Option String :=
  (String.fromUTF8? (lastValue scope.headers "x-correlation-id")).map fun id =>
    if id = "" then draw.str else id

def Response.headers : Response → List (String × String)
  | .json _ _ headers => headers
  | .plain _ _ _ headers => headers
  | .streaming _ _ headers => headers

def Response.status : Response → Nat
  | .json status _ _ => status
  | .plain status _ _ _ => status
  | .streaming status _ _ => status

/-- What one request leaves: the id in the log context, the request `forward` puts
together, and the status and headers of the response. -/
structure Exchange where
  bound : Option String := none
  forwarded : Option Outgoing := none
  status : Nat
  responseHeaders : List (String × String)

/-- The endpoint inside the middleware. An exception of either ends as the response of
the server around both. -/
def exchange (edge : Edge) (settings : Settings) (draw : Uuid) (scope : Scope) : Exchange :=
  match middlewareId scope draw with
  | none => { status := serverError.status, responseHeaders := serverError.headers }
  | some id =>
      let outcome := proxyEndpoint edge settings scope.path scope.request
      { bound := some id
        forwarded := outcome.forwarded
        status := outcome.response.status
        responseHeaders :=
          if outcome.raised then outcome.response.headers
          else outcome.response.headers ++ [("x-correlation-id", id)] }

end Model

section Statement

/-- The values a receiver finds under the name, in whatever case. -/
def correlationValues (headers : List (String × String)) : List String :=
  (headers.filter fun p => p.1.toLower = "x-correlation-id").map Prod.snd

/-- One id in the log context, upstream and, once, on the response. -/
def OneCorrelationId (e : Exchange) (outgoing : Outgoing) : Prop :=
  ∃ id, e.bound = some id ∧ correlationValues (readHeaders outgoing.headers) = [id] ∧
    correlationValues e.responseHeaders = [id]

end Statement

section Response
variable {edge : Edge} {settings : Settings} {path : String} {req : Request}

theorem correlationId_ne_empty (edge : Edge) (req : Request) : correlationId edge req ≠ "" := by
  have hstr (u : Uuid) : u.str ≠ "" := by
    intro h
    have hparse := Uuid.parse_str u
    have hempty : Uuid.parse "" = none := by decide
    rw [h, hempty] at hparse
    contradiction
  rw [correlationId]
  split
  · exact hstr _
  · split
    · exact hstr _
    · assumption

theorem mem_assign (pairs : List (String × String)) (key value : String) :
    (key, value) ∈ assign pairs key value := by
  rw [assign]
  split
  · rename_i h
    obtain ⟨p, hp⟩ : ∃ p, pairs.find? (fun p => p.1 = key) = some p := by
      rw [lookup, Option.isSome_map] at h
      exact Option.isSome_iff_exists.mp h
    have hkey : p.1 = key := by simpa using List.find?_some hp
    exact List.mem_map.mpr ⟨p, List.mem_of_find?_eq_some hp, if_pos hkey⟩
  · exact List.mem_append_right _ List.mem_cons_self

/-- The endpoint answers an exception of `forward` with nothing of its own, and puts
its id on every other response to a request that is forwarded. -/
theorem response_of_forwarded {outgoing : Outgoing}
    (h : (proxyEndpoint edge settings path req).forwarded = some outgoing) :
    ((proxyEndpoint edge settings path req).raised = true ∧ forward edge outgoing = none ∧
      (proxyEndpoint edge settings path req).response = serverError) ∨
    ((proxyEndpoint edge settings path req).raised = false ∧
      ("X-Correlation-ID", correlationId edge req) ∈
        (proxyEndpoint edge settings path req).response.headers) := by
  have hne := correlationId_ne_empty edge req
  obtain ⟨_, _, translates, _, _, charged, _, _, _, _, _, heq⟩ := proxyEndpoint_forwarded h
  rw [heq, answered]
  cases forward edge outgoing with
  | none => exact .inl ⟨rfl, rfl, rfl⟩
  | some result =>
      refine .inr ⟨rfl, ?_⟩
      cases translates with
      | true =>
          simp only [if_true, cookieAuthResponse]
          split
          · split
            · simp only [buildCookieAuthResponse, correlationHeaders, if_neg hne, Response.headers,
                List.singleton_append]
              exact List.mem_cons_self
            · exact List.mem_singleton.mpr rfl
          · exact List.mem_singleton.mpr rfl
      | false =>
          simp only [Bool.false_eq_true, if_false, streamedResponse, if_neg hne, Response.headers]
          exact mem_assign ..

end Response

section Main
variable {edge : Edge} {settings : Settings} {draw : Uuid} {scope : Scope} {outgoing : Outgoing}

theorem exchange_forwarded (h : (exchange edge settings draw scope).forwarded = some outgoing) :
    (proxyEndpoint edge settings scope.path scope.request).forwarded = some outgoing ∧
      ∃ id, middlewareId scope draw = some id := by
  rw [exchange] at h
  split at h
  · contradiction
  · rename_i id hid
    exact ⟨h, id, hid⟩

/-- Where `forward` raises, the response carries no id. -/
theorem correlationValues_of_raised
    (hraised : (proxyEndpoint edge settings scope.path scope.request).raised = true)
    (h : (exchange edge settings draw scope).forwarded = some outgoing) :
    (exchange edge settings draw scope).status = 500 ∧
      correlationValues (exchange edge settings draw scope).responseHeaders = [] := by
  obtain ⟨hforwarded, id, hid⟩ := exchange_forwarded h
  rcases response_of_forwarded hforwarded with ⟨_, _, hresponse⟩ | ⟨hanswered, _⟩
  · simp only [exchange, hid, hraised, if_true, hresponse]
    exact ⟨rfl, rfl⟩
  · rw [hraised] at hanswered
    contradiction

/-- Where it does not, the middleware adds its header to the one of the endpoint. -/
theorem two_le_length_correlationValues
    (hanswered : (proxyEndpoint edge settings scope.path scope.request).raised = false)
    (h : (exchange edge settings draw scope).forwarded = some outgoing) :
    2 ≤ (correlationValues (exchange edge settings draw scope).responseHeaders).length := by
  have hname : "X-Correlation-ID".toLower = "x-correlation-id" := by decide +kernel
  have hlower : "x-correlation-id".toLower = "x-correlation-id" := by decide +kernel
  obtain ⟨hforwarded, id, hid⟩ := exchange_forwarded h
  rcases response_of_forwarded hforwarded with ⟨hraised, _⟩ | ⟨_, hmem⟩
  · rw [hanswered] at hraised
    contradiction
  · have hendpoint : ("X-Correlation-ID", correlationId edge scope.request) ∈
        (proxyEndpoint edge settings scope.path scope.request).response.headers.filter
          fun p => p.1.toLower = "x-correlation-id" :=
      List.mem_filter.mpr ⟨hmem, decide_eq_true hname⟩
    have hmiddleware : [("x-correlation-id", id)].filter
        (fun p => p.1.toLower = "x-correlation-id") = [("x-correlation-id", id)] :=
      List.filter_cons_of_pos (decide_eq_true hlower)
    have hpos := List.length_pos_of_mem hendpoint
    simp only [exchange, hid, hanswered, Bool.false_eq_true, if_false, correlationValues,
      List.filter_append, hmiddleware, List.length_map, List.length_append, List.length_singleton]
    omega

/-- No request that reaches `forward` has one id, whether the client library raises for
its query, the upstream does not answer, or it does. -/
theorem not_oneCorrelationId (h : (exchange edge settings draw scope).forwarded = some outgoing) :
    ¬ OneCorrelationId (exchange edge settings draw scope) outgoing := by
  rintro ⟨id, _, _, hvalues⟩
  cases hraised : (proxyEndpoint edge settings scope.path scope.request).raised with
  | true =>
      rw [(correlationValues_of_raised hraised h).2] at hvalues
      contradiction
  | false =>
      have htwo := two_le_length_correlationValues hraised h
      rw [hvalues, List.length_singleton] at htwo
      omega

/-- A library that takes no text makes a 500 without the header of every request that
reaches `forward`. -/
theorem correlationValues_of_refused (hquery : ∀ query, edge.copyWith query = false)
    (h : (exchange edge settings draw scope).forwarded = some outgoing) :
    (exchange edge settings draw scope).status = 500 ∧
      correlationValues (exchange edge settings draw scope).responseHeaders = [] := by
  refine correlationValues_of_raised ?_ h
  obtain ⟨_, _, _, _, _, _, _, _, _, _, _, heq⟩ := proxyEndpoint_forwarded (exchange_forwarded h).1
  rw [heq, answered, forward, leaving_of_refused (hquery _)]
  rfl

def quietEdge : Edge where
  decode _ := none
  allowed _ _ _ := true
  send _ := some ⟨200, [], ByteArray.empty⟩
  uuid := ⟨1⟩

/-- A request that needs no token, with an id of its own. -/
def webhookScope : Scope :=
  ⟨"POST", "api/v1/webhooks/stripe", [("x-correlation-id", "c-1".toUTF8)], [], none,
    ByteArray.empty, ByteArray.empty⟩

theorem exists_forwarded_webhook :
    ∃ outgoing, (exchange quietEdge {} ⟨2⟩ webhookScope).forwarded = some outgoing := by
  have hread : lastValue webhookScope.headers "x-correlation-id" = "c-1".toUTF8 := rfl
  have hid : middlewareId webhookScope ⟨2⟩ = some "c-1" := by
    rw [middlewareId, hread, Json.fromUTF8?_toUTF8]
    rfl
  have hforwarded : (proxyEndpoint quietEdge {} webhookScope.path
      webhookScope.request).forwarded.isSome = true := by decide +kernel
  rw [exchange, hid]
  exact Option.isSome_iff_exists.mp hforwarded

theorem not_oneCorrelationId_webhook :
    ∃ outgoing, (exchange quietEdge {} ⟨2⟩ webhookScope).forwarded = some outgoing ∧
      ¬ OneCorrelationId (exchange quietEdge {} ⟨2⟩ webhookScope) outgoing := by
  obtain ⟨outgoing, hforwarded⟩ := exists_forwarded_webhook
  exact ⟨outgoing, hforwarded, not_oneCorrelationId hforwarded⟩

/-- A webhook whose client gave an id is answered 500, with no id at all. -/
theorem webhook_uncorrelated :
    ∃ outgoing, (exchange quietEdge {} ⟨2⟩ webhookScope).forwarded = some outgoing ∧
      (exchange quietEdge {} ⟨2⟩ webhookScope).status = 500 ∧
      correlationValues (exchange quietEdge {} ⟨2⟩ webhookScope).responseHeaders = [] ∧
      ¬ OneCorrelationId (exchange quietEdge {} ⟨2⟩ webhookScope) outgoing := by
  obtain ⟨outgoing, hforwarded⟩ := exists_forwarded_webhook
  obtain ⟨hstatus, hvalues⟩ := correlationValues_of_refused (fun _ => rfl) hforwarded
  refine ⟨outgoing, hforwarded, hstatus, hvalues, ?_⟩
  rintro ⟨id, _, _, hone⟩
  rw [hvalues] at hone
  contradiction

end Main

section Ids
variable {edge : Edge} {draw : Uuid} {scope : Scope}

theorem lookup_cons (p : String × String) (pairs : List (String × String)) (name : String) :
    lookup (p :: pairs) name = if p.1 = name then some p.2 else lookup pairs name := by
  rw [lookup, List.find?_cons]
  by_cases hname : p.1 = name
  · simp only [hname, decide_true, if_true, Option.map_some]
  · simp only [hname, decide_false, if_false]
    rfl

theorem lookup_replace (pairs : List (String × String)) (key value name : String) :
    lookup (pairs.map fun p => if p.1 = key then (key, value) else p) name =
      if name = key then (lookup pairs key).map fun _ => value else lookup pairs name := by
  induction pairs with
  | nil => split <;> rfl
  | cons p pairs ih =>
      rw [List.map_cons, lookup_cons, lookup_cons, lookup_cons, ih]
      by_cases hkey : p.1 = key
      · simp only [hkey, if_true, eq_comm (a := key)]
        split
        · rfl
        · rfl
      · simp only [hkey, if_false]
        by_cases hname : name = key
        · subst hname
          simp only [hkey, if_false, if_true]
        · simp only [hname, if_false]

theorem lookup_assign (pairs : List (String × String)) (key value name : String) :
    lookup (assign pairs key value) name =
      if name = key then some value else lookup pairs name := by
  rw [assign]
  split
  · rename_i hsome
    obtain ⟨old, hold⟩ := Option.isSome_iff_exists.mp hsome
    rw [lookup_replace, hold, Option.map_some]
  · rename_i hnone
    have hnone : lookup pairs key = none := by simpa using hnone
    simp only [lookup, List.find?_append, List.find?_singleton] at hnone ⊢
    by_cases hname : name = key
    · subst hname
      rw [Option.map_eq_none_iff] at hnone
      simp only [hnone, decide_true, if_true, Option.none_or, Option.map_some]
    · have hother : ¬ key = name := fun heq => hname heq.symm
      simp only [hname, hother, decide_false, Bool.false_eq_true, if_false, Option.or_none]

/-- Of a repeated header the endpoint reads the last value, as the middleware does. -/
theorem lookup_clientHeaders (headers : List (String × ByteArray)) (name : String) :
    lookup (clientHeaders headers) name =
      (headers.reverse.find? fun p => p.1 = name).map fun p => Latin1.decode p.2 := by
  induction headers using List.reverseRecOn with
  | nil => rfl
  | append_singleton headers p ih =>
      rw [clientHeaders, List.foldl_concat, lookup_assign, List.reverse_concat, List.find?_cons]
      rw [clientHeaders] at ih
      by_cases hname : p.1 = name
      · simp only [hname, if_true, decide_true, Option.map_some]
      · have hother : ¬ name = p.1 := fun heq => hname heq.symm
        simp only [hname, hother, if_false, decide_false, ih]

/-- The two ids of a request are the same just if the client gave one, in ASCII. -/
theorem middlewareId_eq_correlationId_iff (hdraws : draw ≠ edge.uuid) :
    middlewareId scope draw = some (correlationId edge scope.request) ↔
      lastValue scope.headers "x-correlation-id" ≠ ByteArray.empty ∧
        ∀ b ∈ (lastValue scope.headers "x-correlation-id").data.toList, b < 128 := by
  have hendpoint : correlationId edge scope.request =
      if lastValue scope.headers "x-correlation-id" = ByteArray.empty then edge.uuid.str
      else Latin1.decode (lastValue scope.headers "x-correlation-id") := by
    have hlookup := lookup_clientHeaders scope.headers "x-correlation-id"
    rw [correlationId, Scope.request, hlookup, lastValue]
    cases scope.headers.reverse.find? fun p => p.1 = "x-correlation-id" with
    | none => rfl
    | some p => simp only [Option.map_some, Option.getD_some, Latin1.decode_eq_empty_iff]
  rw [hendpoint, middlewareId]
  generalize lastValue scope.headers "x-correlation-id" = bytes
  by_cases hempty : bytes = ByteArray.empty
  · subst hempty
    refine iff_of_false ?_ fun h => h.1 rfl
    have hread : String.fromUTF8? ByteArray.empty = some "" := Json.fromUTF8?_toUTF8 ""
    rw [hread, Option.map_some, if_pos rfl, if_pos rfl]
    exact fun h => hdraws (Uuid.str_injective (Option.some.inj h))
  · rw [if_neg hempty, and_iff_right hempty, ← Latin1.fromUTF8?_eq_decode_iff,
      Option.map_eq_some_iff]
    have hread (s : String) (h : String.fromUTF8? bytes = some s) : s ≠ "" := by
      intro heq
      rw [heq] at h
      exact hempty (Latin1.toUTF8_of_fromUTF8? h).symm
    constructor
    · intro h
      obtain ⟨s, hs, heq⟩ := h
      rw [if_neg (hread s hs)] at heq
      rw [hs, heq]
    · intro h
      exact ⟨_, h, if_neg (hread _ h)⟩

end Ids

end CrediGuard.Gateway
