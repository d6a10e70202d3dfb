import CrediGuard.Gateway.PathPolicy
import CrediGuard.Lib.Template

/-!
The dispatch of a request: the routes in the order `main.py` includes them, against
the route table read as templates.

The table is compared as text, so an entry with `{id}` is that of no loan, and the
catch-all stands before the endpoints of `main.py`. Its path convertor matches no
newline, and the end of its expression overlooks one.
-/

namespace CrediGuard.Gateway
open UrlPath Template

section Model

/-- The methods of the catch-all. -/
inductive Method where
  | get | post | put | patch | delete
  deriving DecidableEq, Repr

/-- Who answers a request, with the entry of the table where it is sent upstream. The
framework answers what no route takes, a method apart or a slash apart. -/
inductive Handler where
  | sse (loanId : String)
  | logout
  | proxy (route : Route)
  | notFound
  | methodNotAllowed
  | redirect (path : String)
  | health
  | ready
  deriving DecidableEq

/-- What stands before the `$` of a route's expression: a newline at the end may follow. -/
def beforeEnd (path : String) : List Char :=
  if path.toList.getLast? = some '\n' then path.toList.dropLast else path.toList

/-- A route of the framework, with who answers a path that its expression matches.
Paths stand without the slash in front. -/
structure PathRoute where
  methods : List Method
  handler : String → Option Handler

/-- The parameter of `/api/v1/loans/{loan_id}/events`: one segment that is not empty. -/
def streamParam (path : String) : Option String :=
  match split (beforeEnd path) with
  | [api, v1, loans, loanId, events] =>
      if [api, v1, loans, events] = ["api".toList, "v1".toList, "loans".toList, "events".toList] ∧
          loanId ≠ [] then
        some (String.ofList loanId)
      else none
  | _ => none

/-- The parameter of `/{path:path}`: anything but a newline. -/
def pathParam (path : String) : Option String :=
  if '\n' ∈ beforeEnd path then none else some (String.ofList (beforeEnd path))

def tableHandler : Option Route → Handler
  | none => .notFound
  | some route => .proxy route

def proxyHandler (settings : Settings) (path : String) : Handler :=
  if isLogoutPath path then .logout else tableHandler (matchRoute settings path)

def sseRoute : PathRoute := ⟨[.get], fun path => (streamParam path).map .sse⟩

def proxyRoute (settings : Settings) : PathRoute :=
  ⟨[.get, .post, .put, .patch, .delete], fun path => (pathParam path).map (proxyHandler settings)⟩

def healthRoute : PathRoute :=
  ⟨[.get], fun path => if beforeEnd path = "health".toList then some .health else none⟩

def readyRoute : PathRoute :=
  ⟨[.get], fun path => if beforeEnd path = "ready".toList then some .ready else none⟩

/-- In the order of registration. -/
def routes (settings : Settings) : List PathRoute :=
  [sseRoute, proxyRoute settings, healthRoute, readyRoute]

/-- The path with its slashes at the end removed, or with one added. -/
def otherSlash (path : String) : String :=
  if path.toList.getLast? = some '/' then rstripSlash path else path ++ "/"

/-- The first route of the method that matches; else 405 for a route of another method,
a redirect to the path with the other slash, or 404. -/
def dispatch (settings : Settings) (method : Method) (path : String) : Handler :=
  let found := (routes settings).findSome? fun r =>
    if method ∈ r.methods then r.handler path else none
  match found with
  | some handler => handler
  | none =>
      if (routes settings).any fun r => (r.handler path).isSome then .methodNotAllowed
      else if (routes settings).any fun r => (r.handler (otherSlash path)).isSome then
        .redirect (otherSlash path)
      else .notFound

/-- What the endpoint of the catch-all does with a request that is its own. -/
def Handler.respond (edge : Edge) (settings : Settings) (path : String) (req : Request) :
    Handler → Option Outcome
  | .logout => some { response := buildLogoutResponse settings (correlationId edge req) }
  | .notFound => some { response := detail 404 "Not Found" [] }
  | .proxy route =>
      if route.baseUrl = "" then some { response := detail 404 "Not Found" [] }
      else some (proxied edge settings route (lstripSlash path = "api/v1/auth/refresh")
        (isCookieAuthPath path) path req)
  | _ => none

end Model

section Reference

def placeholder : Segment := "{id}".toList

/-- The template matches the front of the path, `{id}` any one segment that is not empty. -/
def matchesSegments (template : List Segment) (path : String) : Bool :=
  matchesFront placeholder (fun s => !s.isEmpty) template (split path.toList)

def matchesTemplate (pathPrefix path : String) : Bool :=
  matchesSegments (prefixSegments pathPrefix) path

/-- The most specific entry that matches: the one of the most segments. -/
def templateRoute (settings : Settings) (path : String) : Option Route :=
  ((buildRoutes settings).filter fun r => matchesTemplate r.pathPrefix path).maxOn?
    fun r => (prefixSegments r.pathPrefix).length

def streamTemplate : List Segment :=
  ["api".toList, "v1".toList, "loans".toList, placeholder, "events".toList]

/-- The loan of a path that the stream's template matches as a whole. -/
def streamLoan (path : String) : Option String :=
  if matchesSegments streamTemplate path ∧ (split path.toList).length = streamTemplate.length then
    some (String.ofList ((split path.toList).getD 3 []))
  else none

def logoutTemplate : List Segment :=
  ["api".toList, "v1".toList, "auth".toList, "logout".toList]

/-- The GET of a stream and the local endpoints first, then the table. The logout is one
of them: it is answered by the gateway and has no entry. -/
def reference (settings : Settings) (method : Method) (path : String) : Handler :=
  match if method = .get then streamLoan path else none with
  | some loanId => .sse loanId
  | none =>
      if method = .get ∧ path = "health" then .health
      else if method = .get ∧ path = "ready" then .ready
      else if matchesSegments logoutTemplate path then .logout
      else tableHandler (templateRoute settings path)

end Reference

section Statement

def loanEntry : String := "/api/v1/loans/{id}"

/-- What the catch-all takes for the path has no second slash before an entry; it is no
entry with a newline behind it, unless that ends an id; and what stands for a loan's
id is missing or `{id}` itself. -/
structure ReadAsText (path taken : String) : Prop where
  slash : startsWith taken "/" = true → ∀ p ∈ routePrefixes, isUnder taken p = false
  newline : taken ≠ path → ∀ p ∈ routePrefixes,
    split taken.toList = prefixSegments p → p = loanEntry
  loan : ∀ id rest,
    split taken.toList = "api".toList :: "v1".toList :: "loans".toList :: id :: rest →
    id = placeholder ∨ id = [] ∧ (taken = path ∨ rest ≠ [])

/-- Nobody but the catch-all is asked, and it takes the path for what the templates do;
or nothing matches the path, in neither reading. -/
structure ReadAlike (method : Method) (path : String) : Prop where
  stream : method = .get → streamParam path = none
  localEndpoint : method = .get → path ≠ "health" ∧ path ≠ "ready"
  taken : ∀ taken, pathParam path = some taken →
    if isLogoutPath taken then matchesSegments logoutTemplate path = true else ReadAsText path taken
  refused : pathParam path = none → streamParam path = none ∧
    streamParam (otherSlash path) = none ∧ pathParam (otherSlash path) = none ∧
    matchesSegments logoutTemplate path = false ∧
    ∀ p ∈ routePrefixes, matchesTemplate p path = false

end Statement
section Framework
variable {settings : Settings} {method : Method} {path taken : String} {loanId : String}

/-- The catch-all takes a path without newlines, and drops one at the end. -/
theorem pathParam_eq_some_iff : pathParam path = some taken ↔
    '\n' ∉ taken.toList ∧ (path = taken ∨ path.toList = taken.toList ++ ['\n']) := by
  rw [pathParam, beforeEnd]
  split
  · rename_i hlast
    have hpath : path.toList = path.toList.dropLast ++ ['\n'] :=
      (List.dropLast_append_getLast? _ hlast).symm
    split
    · rename_i hmem
      refine iff_of_false (by simp) ?_
      rintro ⟨hplain, rfl | htaken⟩
      · exact hplain (List.mem_of_getLast? hlast)
      · rw [htaken, List.dropLast_concat] at hmem
        exact hplain hmem
    · rename_i hmem
      rw [Option.some.injEq]
      constructor
      · rintro rfl
        rw [String.toList_ofList]
        exact ⟨hmem, .inr hpath⟩
      · rintro ⟨hplain, rfl | htaken⟩
        · exact absurd (List.mem_of_getLast? hlast) hplain
        · rw [htaken, List.dropLast_concat, String.ofList_toList]
  · rename_i hlast
    split
    · rename_i hmem
      refine iff_of_false (by simp) ?_
      rintro ⟨hplain, rfl | htaken⟩
      · exact hplain hmem
      · rw [htaken, List.getLast?_concat] at hlast
        exact hlast rfl
    · rename_i hmem
      rw [String.ofList_toList, Option.some.injEq]
      constructor
      · rintro rfl
        exact ⟨hmem, .inl rfl⟩
      · rintro ⟨_, heq | htaken⟩
        · exact heq
        · rw [htaken, List.getLast?_concat] at hlast
          exact absurd rfl hlast

/-- The endpoints behind the catch-all match nothing that it does not match. -/
theorem pathParam_of_local {name : String} (hname : '\n' ∉ name.toList)
    (h : beforeEnd path = name.toList) : pathParam path = some name := by
  rw [pathParam, h, if_neg hname, String.ofList_toList]

theorem local_unmatched {name : String} {handler : Handler} (hname : '\n' ∉ name.toList)
    (h : pathParam path = none) :
    (if beforeEnd path = name.toList then some handler else none) = none := by
  refine if_neg fun hpath => ?_
  rw [pathParam_of_local hname hpath] at h
  contradiction

theorem any_routes : ((routes settings).any fun r => (r.handler path).isSome) =
    ((streamParam path).isSome || (pathParam path).isSome) := by
  simp only [routes, List.any_cons, List.any_nil, sseRoute, proxyRoute, healthRoute, readyRoute,
    Option.isSome_map]
  cases hparam : pathParam path with
  | some taken => simp only [Option.isSome_some, Bool.true_or]
  | none =>
      have hhealth := @local_unmatched path "health" .health (by decide) hparam
      have hready := @local_unmatched path "ready" .ready (by decide) hparam
      simp only [hhealth, hready, Option.isSome_none, Bool.or_false]

theorem dispatch_stream (h : streamParam path = some loanId) :
    dispatch settings .get path = .sse loanId := by
  simp [dispatch, routes, sseRoute, h]

theorem stream_unasked (hstream : method = .get → streamParam path = none) :
    (if method ∈ sseRoute.methods then sseRoute.handler path else none) = none := by
  split
  · rename_i hget
    have hnone := hstream (List.mem_singleton.mp hget)
    exact Option.map_eq_none_iff.mpr hnone
  · rfl

theorem dispatch_taken (hstream : method = .get → streamParam path = none)
    (h : pathParam path = some taken) :
    dispatch settings method path = proxyHandler settings taken := by
  have hmethod : method ∈ (proxyRoute settings).methods := by
    cases method <;> simp [proxyRoute]
  simp only [dispatch, routes, List.findSome?_cons, stream_unasked hstream, if_pos hmethod]
  simp only [proxyRoute, h, Option.map_some]

theorem dispatch_refused (hstream : method = .get → streamParam path = none)
    (h : pathParam path = none) :
    dispatch settings method path =
      if (streamParam path).isSome then .methodNotAllowed
      else if (streamParam (otherSlash path)).isSome || (pathParam (otherSlash path)).isSome then
        .redirect (otherSlash path)
      else .notFound := by
  have hhealth := @local_unmatched path "health" .health (by decide) h
  have hready := @local_unmatched path "ready" .ready (by decide) h
  have hfound : ((routes settings).findSome? fun r =>
      if method ∈ r.methods then r.handler path else none) = none := by
    simp only [routes, List.findSome?_cons, List.findSome?_nil, stream_unasked hstream]
    simp only [proxyRoute, healthRoute, readyRoute, h, Option.map_none, hhealth, hready, ite_self]
  simp only [dispatch, hfound, any_routes, h, Option.isSome_none, Bool.or_false]

/-- The endpoint of the catch-all does what the dispatch says. -/
theorem respond_dispatch {edge : Edge} {req : Request}
    (hstream : method = .get → streamParam path = none) (h : pathParam path = some taken) :
    (dispatch settings method path).respond edge settings taken req =
      some (proxyEndpoint edge settings taken req) := by
  rw [dispatch_taken hstream h, proxyHandler, proxyEndpoint]
  cases isLogoutPath taken with
  | true => rfl
  | false =>
      simp only [Bool.false_eq_true, if_false]
      cases matchRoute settings taken with
      | none => rfl
      | some route =>
          simp only [tableHandler, Handler.respond]
          split
          · rfl
          · rfl

end Framework

section Lemmas
variable {settings : Settings} {method : Method} {path taken : String} {route : Route}

theorem tableHandler_injective {a b : Option Route} (h : tableHandler a = tableHandler b) :
    a = b := by
  cases a with
  | none =>
      cases b with
      | none => rfl
      | some r => contradiction
  | some r =>
      cases b with
      | none => contradiction
      | some r' => rw [Handler.proxy.inj h]

theorem reference_of_no_stream (hstream : method = .get → streamLoan path = none)
    (hlocal : method = .get → path ≠ "health" ∧ path ≠ "ready") :
    reference settings method path = if matchesSegments logoutTemplate path then .logout
      else tableHandler (templateRoute settings path) := by
  have hnone : (if method = .get then streamLoan path else none) = none := by
    split
    · rename_i hget
      exact hstream hget
    · rfl
  rw [reference, hnone]
  simp only
  rw [if_neg fun h => (hlocal h.1).1 h.2, if_neg fun h => (hlocal h.1).2 h.2]

theorem matchRoute_eq_none_iff : matchRoute settings path = none ↔
    ∀ p ∈ routePrefixes, ¬ prefixSegments p <+: split (stem path) := by
  rw [matchRoute, maxOn?_filter_eq_none_iff]
  have hroutes : routePrefixes = (buildRoutes settings).map Route.pathPrefix := rfl
  rw [hroutes, List.forall_mem_map]
  refine forall₂_congr fun r hr => ?_
  rw [← isUnder_normalized (pathPrefix_mem hr), Bool.not_eq_true]

theorem templateRoute_eq_none_iff : templateRoute settings path = none ↔
    ∀ p ∈ routePrefixes, matchesTemplate p path = false := by
  have hroutes : routePrefixes = (buildRoutes settings).map Route.pathPrefix := rfl
  rw [templateRoute, maxOn?_filter_eq_none_iff, hroutes, List.forall_mem_map]

private theorem eq_of_compatible {p q : String} (hp : p ∈ routePrefixes) (hq : q ∈ routePrefixes)
    (h : Compatible placeholder (prefixSegments p) (prefixSegments q))
    (hlength : (prefixSegments p).length = (prefixSegments q).length) : p = q := by
  have hall : ∀ p ∈ routePrefixes, ∀ q ∈ routePrefixes,
      Compatible placeholder (prefixSegments p) (prefixSegments q) →
      (prefixSegments p).length = (prefixSegments q).length → p = q := by decide +kernel
  exact hall p hp q hq h hlength

theorem templateRoute_eq_some_iff : templateRoute settings path = some route ↔
    route ∈ buildRoutes settings ∧ matchesTemplate route.pathPrefix path = true ∧
      ∀ r ∈ buildRoutes settings, matchesTemplate r.pathPrefix path = true →
        (prefixSegments r.pathPrefix).length ≤ (prefixSegments route.pathPrefix).length := by
  rw [templateRoute, maxOn?_filter_eq_some_iff]
  intro a ha b hb hmatches hmatches' hlength
  refine eq_of_pathPrefix_eq ha hb ?_
  exact eq_of_compatible (pathPrefix_mem ha) (pathPrefix_mem hb)
    (compatible_of_matchesFront hmatches hmatches') hlength

/-- Of two entries of one path, the longer text has the more segments. -/
private theorem length_le_iff {p q : String} (hp : p ∈ routePrefixes) (hq : q ∈ routePrefixes)
    (h : prefixSegments p <+: prefixSegments q ∨ prefixSegments q <+: prefixSegments p) :
    p.length ≤ q.length ↔ (prefixSegments p).length ≤ (prefixSegments q).length := by
  have hall : ∀ p ∈ routePrefixes, ∀ q ∈ routePrefixes,
      prefixSegments p <+: prefixSegments q ∨ prefixSegments q <+: prefixSegments p →
      (p.length ≤ q.length ↔ (prefixSegments p).length ≤ (prefixSegments q).length) := by
    decide +kernel
  exact hall p hp q hq h

/-- Where the entries match as templates just if they match as text, both choose the same. -/
theorem matchRoute_eq_templateRoute (h : ∀ p ∈ routePrefixes,
    matchesTemplate p path = true ↔ prefixSegments p <+: split (stem taken)) :
    matchRoute settings taken = templateRoute settings path := by
  refine Option.ext fun route => ?_
  rw [matchRoute_eq_some_iff, templateRoute_eq_some_iff]
  refine and_congr_right fun hroute => ?_
  rw [h _ (pathPrefix_mem hroute)]
  refine and_congr_right fun hunder => forall₂_congr fun r hr => ?_
  rw [h _ (pathPrefix_mem hr)]
  refine forall_congr' fun hr' => ?_
  exact length_le_iff (pathPrefix_mem hr) (pathPrefix_mem hroute)
    (List.prefix_or_prefix_of_prefix hr' hunder)

/-- The entries start with `api`, have no newline, and `{id}` stands fourth where it stands. -/
private theorem shape_of_routePrefix {p : String} (h : p ∈ routePrefixes) :
    prefixSegments p = "api".toList :: (prefixSegments p).tail ∧
      (∀ s ∈ prefixSegments p, '\n' ∉ s) ∧
      (placeholder ∉ prefixSegments p ∨
        prefixSegments p = "api".toList :: "v1".toList :: "loans".toList :: placeholder ::
          (prefixSegments p).drop 4 ∧ placeholder ∉ (prefixSegments p).drop 4) := by
  have hall : ∀ p ∈ routePrefixes, prefixSegments p = "api".toList :: (prefixSegments p).tail ∧
      (∀ s ∈ prefixSegments p, '\n' ∉ s) ∧
      (placeholder ∉ prefixSegments p ∨
        prefixSegments p = "api".toList :: "v1".toList :: "loans".toList :: placeholder ::
          (prefixSegments p).drop 4 ∧ placeholder ∉ (prefixSegments p).drop 4) := by
    decide +kernel
  exact hall p h

theorem stem_of_not_slash (h : startsWith path "/" = false) : stem path = path.toList := by
  have hhead : ¬ path.toList.head? = some '/' := by
    rw [← startsWith_slash, h]
    exact Bool.false_ne_true
  rw [stem, if_neg hhead]

theorem split_of_slash (h : startsWith path "/" = true) :
    ∃ rest, split path.toList = [] :: rest := by
  have hhead := startsWith_slash.mp h
  cases hchars : path.toList with
  | nil =>
      rw [hchars] at hhead
      contradiction
  | cons c cs =>
      rw [hchars] at hhead
      rw [Option.some.inj hhead, split_slash]
      exact ⟨_, rfl⟩

theorem not_slash_of_api {rest : List Segment} (hpath : split path.toList = "api".toList :: rest) :
    startsWith path "/" = false := by
  rw [← Bool.not_eq_true]
  intro hslash
  obtain ⟨rest', hrest⟩ := split_of_slash hslash
  rw [hrest] at hpath
  exact absurd (List.cons.inj hpath).1 (by decide)

/-- No entry matches a path with a second slash. -/
theorem matchesTemplate_of_slash (h : startsWith path "/" = true) {p : String}
    (hp : p ∈ routePrefixes) : matchesTemplate p path = false := by
  obtain ⟨rest, hrest⟩ := split_of_slash h
  rw [← Bool.not_eq_true, matchesTemplate, matchesSegments, (shape_of_routePrefix hp).1, hrest,
    matchesFront_cons_iff]
  intro hmatches
  rw [if_neg (by decide)] at hmatches
  exact absurd hmatches.1 (by decide)

/-- What a template for one loan matches. -/
theorem matchesFront_loan_iff {rest segments : List Segment} :
    matchesFront placeholder (fun s => !s.isEmpty)
        ("api".toList :: "v1".toList :: "loans".toList :: placeholder :: rest) segments = true ↔
      ∃ id behind, segments = "api".toList :: "v1".toList :: "loans".toList :: id :: behind ∧
        id ≠ [] ∧ matchesFront placeholder (fun s => !s.isEmpty) rest behind = true := by
  have hplain : "api".toList ≠ placeholder ∧ "v1".toList ≠ placeholder ∧
      "loans".toList ≠ placeholder := by decide
  obtain ⟨hapi, hv1, hloans⟩ := hplain
  constructor
  · intro h
    obtain ⟨a, segments, rfl⟩ := exists_cons_of_matchesFront h
    rw [matchesFront_cons_iff, if_neg hapi] at h
    obtain ⟨rfl, h⟩ := h
    obtain ⟨b, segments, rfl⟩ := exists_cons_of_matchesFront h
    rw [matchesFront_cons_iff, if_neg hv1] at h
    obtain ⟨rfl, h⟩ := h
    obtain ⟨c, segments, rfl⟩ := exists_cons_of_matchesFront h
    rw [matchesFront_cons_iff, if_neg hloans] at h
    obtain ⟨rfl, h⟩ := h
    obtain ⟨id, behind, rfl⟩ := exists_cons_of_matchesFront h
    rw [matchesFront_cons_iff, if_pos rfl] at h
    exact ⟨id, behind, rfl, by simpa using h.1, h.2⟩
  · intro h
    obtain ⟨id, behind, rfl, hid, hrest⟩ := h
    rw [matchesFront_cons_iff, if_neg hapi, matchesFront_cons_iff, if_neg hv1,
      matchesFront_cons_iff, if_neg hloans, matchesFront_cons_iff, if_pos rfl]
    exact ⟨rfl, rfl, rfl, by simpa using hid, hrest⟩

end Lemmas

section Streams
variable {settings : Settings} {method : Method} {path : String} {loanId : String}

/-- What the template of the stream matches as a whole. -/
theorem streamLoan_eq_some_iff : streamLoan path = some loanId ↔
    split path.toList = ["api".toList, "v1".toList, "loans".toList, loanId.toList,
      "events".toList] ∧ loanId.toList ≠ [] := by
  have hevents : placeholder ∉ ["events".toList] := by decide
  have hmatches := @matchesFront_loan_iff ["events".toList] (split path.toList)
  rw [streamLoan, matchesSegments, streamTemplate]
  constructor
  · intro h
    split at h
    · rename_i hwhole
      obtain ⟨id, behind, hpath, hid, hbehind⟩ := hmatches.mp hwhole.1
      rw [matchesFront_iff_of_no_hole hevents] at hbehind
      have hone : behind.length = 1 := by
        have hlength := hwhole.2
        rw [hpath] at hlength
        simpa using hlength
      obtain rfl := hbehind.eq_of_length (by simp [hone])
      rw [hpath] at h ⊢
      have hloan : loanId.toList = id := by
        rw [← Option.some.inj h]
        exact String.toList_ofList
      rw [hloan]
      exact ⟨rfl, hid⟩
    · contradiction
  · rintro ⟨hpath, hid⟩
    have hwhole := hmatches.mpr ⟨loanId.toList, ["events".toList], hpath, hid,
      (matchesFront_iff_of_no_hole hevents).mpr List.prefix_rfl⟩
    rw [if_pos ⟨hwhole, by rw [hpath]; rfl⟩, hpath]
    exact congrArg some String.ofList_toList

/-- The route of the stream takes what its template matches. -/
theorem streamParam_of_streamLoan (h : streamLoan path = some loanId) :
    streamParam path = some loanId := by
  obtain ⟨hpath, hid⟩ := streamLoan_eq_some_iff.mp h
  have hjoin : path.toList = join ["api".toList, "v1".toList, "loans".toList, loanId.toList] ++
      '/' :: "events".toList := by
    rw [← join_split path.toList, hpath]
    exact @join_append ["api".toList, "v1".toList, "loans".toList, loanId.toList]
      ["events".toList] (by simp) (by simp)
  have hend : beforeEnd path = path.toList := by
    rw [beforeEnd, if_neg]
    rw [hjoin, List.getLast?_append_of_ne_nil _ (List.cons_ne_nil _ _)]
    decide
  rw [streamParam, hend, hpath]
  simp [hid]

theorem streamLoan_unasked (h : method = .get → streamParam path = none) :
    method = .get → streamLoan path = none := by
  intro hget
  cases hloan : streamLoan path with
  | none => rfl
  | some loanId =>
      have hnone := h hget
      rw [streamParam_of_streamLoan hloan] at hnone
      contradiction

theorem reference_stream (h : streamLoan path = some loanId) :
    reference settings .get path = .sse loanId := by
  simp only [reference, if_true, h]

end Streams

section Newlines
variable {path taken : String}

/-- What the catch-all takes has the segments of the path, a newline at the end apart. -/
theorem split_of_pathParam (h : pathParam path = some taken) (hne : taken ≠ path) :
    ∃ segments last, split taken.toList = segments ++ [last] ∧
      split path.toList = segments ++ [last ++ ['\n']] := by
  obtain ⟨_, heq | hpath⟩ := pathParam_eq_some_iff.mp h
  · exact absurd heq.symm hne
  · rw [hpath]
    exact split_append_of_not_mem taken.toList (by decide)

/-- A newline at the end is behind everything that a template without newlines matches. -/
theorem prefix_concat_newline {ts segments : List Segment} {last : Segment}
    (hts : ∀ t ∈ ts, '\n' ∉ t) : ts <+: segments ++ [last ++ ['\n']] ↔ ts <+: segments := by
  rw [List.prefix_concat_iff]
  refine or_iff_right ?_
  rintro rfl
  exact hts _ (List.mem_append_right _ (List.mem_singleton_self _))
    (List.mem_append_right _ (List.mem_singleton_self _))

theorem startsWith_slash_of_pathParam (h : pathParam path = some taken)
    (hslash : startsWith taken "/" = true) : startsWith path "/" = true := by
  obtain ⟨_, rfl | hpath⟩ := pathParam_eq_some_iff.mp h
  · exact hslash
  · rw [startsWith_slash] at hslash ⊢
    rw [hpath, List.head?_append, hslash]
    rfl

/-- A path under the logout's template is one that is answered as a logout. -/
theorem isLogoutPath_of_template (h : pathParam path = some taken)
    (htemplate : matchesSegments logoutTemplate path = true) : isLogoutPath taken = true := by
  have hplain : placeholder ∉ logoutTemplate := by decide
  have hlines : ∀ t ∈ logoutTemplate, '\n' ∉ t := by decide
  have hsegments : split authLogoutPath.toList = logoutTemplate := by decide
  rw [matchesSegments, matchesFront_iff_of_no_hole hplain] at htemplate
  have htaken : logoutTemplate <+: split taken.toList := by
    by_cases hne : taken = path
    · rw [hne]
      exact htemplate
    · obtain ⟨segments, last, htaken, hpath⟩ := split_of_pathParam h hne
      rw [hpath, prefix_concat_newline hlines] at htemplate
      rw [htaken]
      exact htemplate.trans (List.prefix_append ..)
  obtain ⟨rest, hrest⟩ := htaken
  have hhead : taken.toList.head? ≠ some '/' := by
    rw [ne_eq, ← startsWith_slash, Bool.not_eq_true]
    exact not_slash_of_api hrest.symm
  have hstrip : (lstripSlash taken).toList = taken.toList := by
    rw [lstripSlash, String.toList_ofList]
    cases hchars : taken.toList with
    | nil => rfl
    | cons c cs =>
        rw [hchars] at hhead
        have hc : ¬ c = '/' := fun heq => hhead (congrArg some heq)
        rw [List.dropWhile_cons_of_neg (by simpa using hc)]
  rw [isLogoutPath, isUnder_iff, hstrip, under_iff, hsegments]
  exact ⟨rest, hrest⟩

end Newlines

section Taken
variable {settings : Settings} {method : Method} {path taken : String}

/-- An entry for one loan, where the catch-all has dropped a newline. -/
private theorem matchesFront_loan_newline (hparam : pathParam path = some taken)
    (h : ReadAsText path taken) (hne : taken ≠ path) {p : String} (hp : p ∈ routePrefixes)
    {rest : List Segment} (hsegments : prefixSegments p =
      "api".toList :: "v1".toList :: "loans".toList :: placeholder :: rest)
    (hrest : placeholder ∉ rest) :
    matchesFront placeholder (fun s => !s.isEmpty) (prefixSegments p) (split path.toList) = true ↔
      prefixSegments p <+: split taken.toList := by
  obtain ⟨segments, last, htaken, hpath⟩ := split_of_pathParam hparam hne
  have hlines : ∀ t ∈ rest, '\n' ∉ t := by
    intro t ht
    refine (shape_of_routePrefix hp).2.1 t ?_
    rw [hsegments]
    simp [ht]
  rw [hsegments, matchesFront_loan_iff, hpath, htaken]
  constructor
  · rintro ⟨id, behind, hsplit, hid, hmatches⟩
    rw [matchesFront_iff_of_no_hole hrest] at hmatches
    rcases List.eq_nil_or_concat behind with rfl | ⟨front, x, rfl⟩
    · -- the newline ends the id
      obtain ⟨rfl, _⟩ := List.append_inj' (show segments ++ [_] =
        ["api".toList, "v1".toList, "loans".toList] ++ [id] from hsplit) rfl
      obtain rfl : last = placeholder :=
        (h.loan last [] htaken).resolve_right fun hempty => hempty.2.elim hne fun hnil => hnil rfl
      rw [List.prefix_nil.mp hmatches]
      exact List.prefix_rfl
    · rw [List.concat_eq_append] at hsplit hmatches
      obtain ⟨rfl, hx⟩ := List.append_inj' (show segments ++ [_] =
        ("api".toList :: "v1".toList :: "loans".toList :: id :: front) ++ [x] from hsplit) rfl
      obtain rfl : id = placeholder :=
        (h.loan id (front ++ [last]) htaken).resolve_right fun hempty => hid hempty.1
      rw [← List.singleton_inj.mp hx, prefix_concat_newline hlines] at hmatches
      simp only [List.cons_append, List.cons_prefix_cons, true_and]
      exact hmatches.trans (List.prefix_append ..)
  · intro hprefix
    rcases List.prefix_concat_iff.mp hprefix with heq | ⟨tail, htail⟩
    · have hentry : p = loanEntry :=
        h.newline hne p hp (htaken.trans (heq.symm.trans hsegments.symm))
      have hnil : rest = [] := by
        rw [hentry] at hsegments
        have hdrop := congrArg (List.drop 4) hsegments
        exact hdrop.symm.trans (by decide)
      rw [hnil] at heq ⊢
      obtain ⟨rfl, _⟩ := List.append_inj' (show ["api".toList, "v1".toList, "loans".toList] ++
        [placeholder] = segments ++ [last] from heq) rfl
      exact ⟨last ++ ['\n'], [], rfl, by simp, rfl⟩
    · refine ⟨placeholder, rest ++ tail ++ [last ++ ['\n']], by simp [← htail], by decide, ?_⟩
      rw [matchesFront_iff_of_no_hole hrest, List.append_assoc]
      exact List.prefix_append ..

/-- Where the path reads as text, its templates match as text does. -/
theorem matchesTemplate_iff (hparam : pathParam path = some taken) (h : ReadAsText path taken)
    {p : String} (hp : p ∈ routePrefixes) :
    matchesTemplate p path = true ↔ prefixSegments p <+: split (stem taken) := by
  obtain ⟨_, hlines, hholes⟩ := shape_of_routePrefix hp
  cases hslash : startsWith taken "/" with
  | true =>
      rw [matchesTemplate_of_slash (startsWith_slash_of_pathParam hparam hslash) hp,
        ← isUnder_normalized hp, normalized, if_pos hslash, h.slash hslash p hp]
  | false =>
      rw [stem_of_not_slash hslash, matchesTemplate, matchesSegments]
      cases hholes with
      | inl hplain =>
          rw [matchesFront_iff_of_no_hole hplain]
          by_cases hne : taken = path
          · rw [hne]
          · obtain ⟨segments, last, htaken, hpath⟩ := split_of_pathParam hparam hne
            have hentry : prefixSegments p ≠ segments ++ [last] := by
              intro heq
              have hloan := h.newline hne p hp (htaken.trans heq.symm)
              rw [hloan] at hplain
              exact hplain (by decide)
            rw [hpath, htaken, prefix_concat_newline hlines, List.prefix_concat_iff,
              or_iff_right hentry]
      | inr hhole =>
          obtain ⟨hsegments, hrest⟩ := hhole
          by_cases hne : taken = path
          · rw [hne] at h ⊢
            refine ⟨?_, matchesFront_of_prefix (by decide)⟩
            rw [hsegments, matchesFront_loan_iff]
            intro hmatches
            obtain ⟨id, behind, hpath, hid, hmatches⟩ := hmatches
            obtain rfl : id = placeholder :=
              (h.loan id behind hpath).resolve_right fun hempty => hid hempty.1
            rw [hpath]
            simp only [List.cons_prefix_cons, true_and]
            exact (matchesFront_iff_of_no_hole hrest).mp hmatches
          · exact matchesFront_loan_newline hparam h hne hp hsegments hrest

private theorem loanEntry_prefix {p : String} (hp : p ∈ routePrefixes)
    (h : Compatible placeholder (prefixSegments p) (prefixSegments loanEntry))
    (hlength : (prefixSegments loanEntry).length ≤ (prefixSegments p).length) :
    prefixSegments loanEntry <+: prefixSegments p := by
  have hall : ∀ p ∈ routePrefixes,
      Compatible placeholder (prefixSegments p) (prefixSegments loanEntry) →
      (prefixSegments loanEntry).length ≤ (prefixSegments p).length →
      prefixSegments loanEntry <+: prefixSegments p := by decide +kernel
  exact hall p hp h hlength

/-- Where an entry matches, one is chosen that is at least as specific. -/
theorem exists_templateRoute {p : String} (hp : p ∈ routePrefixes)
    (hmatches : matchesTemplate p path = true) :
    ∃ r, templateRoute settings path = some r ∧
      Compatible placeholder (prefixSegments r.pathPrefix) (prefixSegments p) ∧
      (prefixSegments p).length ≤ (prefixSegments r.pathPrefix).length := by
  obtain ⟨entry, hentry, rfl⟩ : ∃ r ∈ buildRoutes settings, r.pathPrefix = p :=
    exists_route_of_prefix hp
  cases hroute : templateRoute settings path with
  | none =>
      have hnot := maxOn?_filter_eq_none_iff.mp hroute entry hentry
      rw [hmatches] at hnot
      contradiction
  | some r =>
      obtain ⟨_, hrmatches, hlongest⟩ := templateRoute_eq_some_iff.mp hroute
      exact ⟨r, rfl, compatible_of_matchesFront hrmatches hmatches,
        hlongest entry hentry hmatches⟩

/-- Below a loan the templates choose an entry for one loan. -/
theorem exists_templateRoute_of_loan {id : Segment} {behind : List Segment} (hid : id ≠ [])
    (hpath : split path.toList = "api".toList :: "v1".toList :: "loans".toList :: id :: behind) :
    ∃ r, templateRoute settings path = some r ∧
      prefixSegments loanEntry <+: prefixSegments r.pathPrefix := by
  have hmatches : matchesTemplate loanEntry path = true :=
    matchesFront_loan_iff.mpr ⟨id, behind, hpath, hid, rfl⟩
  obtain ⟨r, hroute, hcompatible, hlength⟩ :=
    @exists_templateRoute settings path loanEntry (by decide) hmatches
  have hr := (templateRoute_eq_some_iff.mp hroute).1
  exact ⟨r, hroute, loanEntry_prefix (pathPrefix_mem hr) hcompatible hlength⟩

theorem eq_placeholder_of_prefix {id : Segment} {behind : List Segment}
    (h : prefixSegments loanEntry <+:
      "api".toList :: "v1".toList :: "loans".toList :: id :: behind) : id = placeholder := by
  have hloan : ["api".toList, "v1".toList, "loans".toList, placeholder] <+:
      "api".toList :: "v1".toList :: "loans".toList :: id :: behind := h
  simp only [List.cons_prefix_cons, true_and] at hloan
  exact hloan.1.symm

theorem placeholder_of_same (hsame : matchRoute settings taken = templateRoute settings path)
    {id id' : Segment} {behind behind' : List Segment} (hid : id' ≠ [])
    (hpath : split path.toList = "api".toList :: "v1".toList :: "loans".toList :: id' :: behind')
    (htaken : split taken.toList =
      "api".toList :: "v1".toList :: "loans".toList :: id :: behind) :
    id = placeholder := by
  obtain ⟨r, hroute, hentry⟩ := @exists_templateRoute_of_loan settings path id' behind' hid hpath
  have hunder := (matchRoute_eq_some_iff.mp (hsame.trans hroute)).2.1
  rw [stem_of_not_slash (not_slash_of_api htaken), htaken] at hunder
  exact eq_placeholder_of_prefix (hentry.trans hunder)

/-- The text of the table chooses an entry for the path of the entry. -/
theorem pathPrefix_of_exact {p : String} (hp : p ∈ routePrefixes)
    (htaken : split taken.toList = prefixSegments p) :
    ∃ r, matchRoute settings taken = some r ∧ r.pathPrefix = p := by
  have hall : ∀ p ∈ routePrefixes, ∀ q ∈ routePrefixes,
      prefixSegments q <+: prefixSegments p → p.length ≤ q.length → q = p := by decide +kernel
  have hstem : split (stem taken) = prefixSegments p := by
    rw [(shape_of_routePrefix hp).1] at htaken
    rw [stem_of_not_slash (not_slash_of_api htaken), htaken, ← (shape_of_routePrefix hp).1]
  obtain ⟨entry, hentry, hentryPath⟩ : ∃ r ∈ buildRoutes settings, r.pathPrefix = p :=
    exists_route_of_prefix hp
  cases hmatch : matchRoute settings taken with
  | none =>
      have hnot := matchRoute_eq_none_iff.mp hmatch p hp
      rw [hstem] at hnot
      exact absurd List.prefix_rfl hnot
  | some r =>
      obtain ⟨hr, hunder, hlongest⟩ := matchRoute_eq_some_iff.mp hmatch
      rw [hstem] at hunder hlongest
      have hlength := hlongest entry hentry (hentryPath ▸ List.prefix_rfl)
      rw [hentryPath] at hlength
      exact ⟨r, rfl, hall p hp r.pathPrefix (pathPrefix_mem hr) hunder hlength⟩

/-- Where the text of the table decides like its templates, the path reads as text. -/
theorem readAsText_of_same (hparam : pathParam path = some taken)
    (hsame : matchRoute settings taken = templateRoute settings path) : ReadAsText path taken := by
  refine ⟨?_, ?_, ?_⟩
  · intro hslash p hp
    have hpath := startsWith_slash_of_pathParam hparam hslash
    have hnone : templateRoute settings path = none :=
      templateRoute_eq_none_iff.mpr fun p hp => matchesTemplate_of_slash hpath hp
    have hunder := matchRoute_eq_none_iff.mp (hsame.trans hnone) p hp
    rw [← isUnder_normalized hp, normalized, if_pos hslash, Bool.not_eq_true] at hunder
    exact hunder
  · intro hne p hp htaken
    have hlast : ∀ p ∈ routePrefixes,
        (prefixSegments p).getLast? = some placeholder → p = loanEntry := by decide +kernel
    obtain ⟨r, hmatch, rfl⟩ := @pathPrefix_of_exact settings taken p hp htaken
    obtain ⟨segments, last, hsegments, hpath⟩ := split_of_pathParam hparam hne
    have hmatches := (templateRoute_eq_some_iff.mp (hsame.symm.trans hmatch)).2.1
    rw [matchesTemplate, matchesSegments, ← htaken, hsegments, hpath] at hmatches
    refine hlast _ hp ?_
    rw [← htaken, hsegments, List.getLast?_concat]
    cases last_of_matchesFront hmatches rfl with
    | inl hhole => rw [hhole]
    | inr hsame => simp at hsame
  · intro id behind htaken
    refine or_iff_not_imp_left.mpr fun hid => ?_
    by_cases hne : taken = path
    · refine ⟨by_contra fun hempty => hid ?_, .inl hne⟩
      exact placeholder_of_same hsame hempty (hne ▸ htaken) htaken
    · obtain ⟨segments, last, hsegments, hpath⟩ := split_of_pathParam hparam hne
      rw [htaken] at hsegments
      rcases List.eq_nil_or_concat behind with rfl | ⟨front, x, rfl⟩
      · obtain ⟨rfl, _⟩ := List.append_inj' (show ["api".toList, "v1".toList, "loans".toList] ++
          [id] = segments ++ [last] from hsegments) rfl
        have hlast : last ++ ['\n'] ≠ [] := by simp
        exact absurd (placeholder_of_same hsame hlast hpath htaken) hid
      · rw [List.concat_eq_append] at hsegments
        obtain ⟨rfl, _⟩ := List.append_inj' (show ("api".toList :: "v1".toList ::
          "loans".toList :: id :: front) ++ [x] = segments ++ [last] from hsegments) rfl
        refine ⟨by_contra fun hempty => hid ?_, .inr (by simp)⟩
        exact placeholder_of_same hsame hempty hpath htaken

end Taken

section Main
variable {settings : Settings} {method : Method} {path taken : String}

/-- A path that the catch-all takes is answered alike just if it reads alike. -/
theorem proxyHandler_eq_iff (hparam : pathParam path = some taken) :
    proxyHandler settings taken = (if matchesSegments logoutTemplate path then .logout
      else tableHandler (templateRoute settings path)) ↔
      if isLogoutPath taken then matchesSegments logoutTemplate path = true
      else ReadAsText path taken := by
  have htable (r : Option Route) : tableHandler r ≠ .logout := by
    cases r with
    | none => exact Handler.noConfusion
    | some r => exact Handler.noConfusion
  rw [proxyHandler]
  cases hlogout : isLogoutPath taken with
  | true =>
      cases matchesSegments logoutTemplate path with
      | true => simp
      | false => simpa using (htable _).symm
  | false =>
      have hother : matchesSegments logoutTemplate path = false := by
        rw [← Bool.not_eq_true]
        intro htemplate
        rw [isLogoutPath_of_template hparam htemplate] at hlogout
        contradiction
      simp only [hother, Bool.false_eq_true, if_false]
      constructor
      · exact fun h => readAsText_of_same hparam (tableHandler_injective h)
      · exact fun h => congrArg tableHandler
          (matchRoute_eq_templateRoute fun p hp => matchesTemplate_iff hparam h hp)

/-- A path that no route takes is answered alike just if nothing matches it. -/
theorem refused_eq_iff : (if (streamParam path).isSome then .methodNotAllowed
      else if (streamParam (otherSlash path)).isSome || (pathParam (otherSlash path)).isSome then
        .redirect (otherSlash path)
      else .notFound) = (if matchesSegments logoutTemplate path then .logout
      else tableHandler (templateRoute settings path)) ↔
      streamParam path = none ∧ streamParam (otherSlash path) = none ∧
        pathParam (otherSlash path) = none ∧ matchesSegments logoutTemplate path = false ∧
        ∀ p ∈ routePrefixes, matchesTemplate p path = false := by
  rw [← @templateRoute_eq_none_iff settings path]
  cases streamParam path with
  | some loanId =>
      refine iff_of_false ?_ fun h => absurd h.1 (by simp)
      rw [Option.isSome_some, if_pos rfl]
      cases matchesSegments logoutTemplate path <;> cases templateRoute settings path <;>
        simp [tableHandler]
  | none =>
      cases streamParam (otherSlash path) <;> cases pathParam (otherSlash path) <;>
        cases matchesSegments logoutTemplate path <;> cases templateRoute settings path <;>
          simp [tableHandler]

theorem proxyHandler_not_local (settings : Settings) (path : String) :
    proxyHandler settings path ≠ .health ∧ proxyHandler settings path ≠ .ready := by
  rw [proxyHandler]
  cases isLogoutPath path <;> cases matchRoute settings path <;> simp [tableHandler]

/-- The catch-all stands before the local endpoints. -/
theorem dispatch_not_local : dispatch settings .get "health" ≠ .health ∧
    dispatch settings .get "ready" ≠ .ready := by
  have hhealth : streamParam "health" = none ∧ pathParam "health" = some "health" := by
    decide +kernel
  have hready : streamParam "ready" = none ∧ pathParam "ready" = some "ready" := by
    decide +kernel
  rw [dispatch_taken (fun _ => hhealth.1) hhealth.2, dispatch_taken (fun _ => hready.1) hready.2]
  exact ⟨(proxyHandler_not_local settings _).1, (proxyHandler_not_local settings _).2⟩

theorem reference_local : reference settings .get "health" = .health ∧
    reference settings .get "ready" = .ready := by
  have hstream : streamLoan "health" = none ∧ streamLoan "ready" = none := by decide +kernel
  simp [reference, hstream.1, hstream.2]

theorem reference_ne_sse {loanId : String} (hstream : method = .get → streamLoan path = none) :
    reference settings method path ≠ .sse loanId := by
  have hnone : (if method = .get then streamLoan path else none) = none := by
    split
    · rename_i hget
      exact hstream hget
    · rfl
  rw [reference, hnone]
  simp only
  split_ifs
  · exact Handler.noConfusion
  · exact Handler.noConfusion
  · exact Handler.noConfusion
  · cases templateRoute settings path <;> exact Handler.noConfusion

theorem readAlike_of_eq (hstream : method = .get → streamLoan path = none)
    (h : dispatch settings method path = reference settings method path) :
    ReadAlike method path := by
  have hparam : method = .get → streamParam path = none := by
    rintro rfl
    cases hsome : streamParam path with
    | none => rfl
    | some loanId =>
        rw [dispatch_stream hsome] at h
        exact absurd h.symm (reference_ne_sse hstream)
  have hlocal : method = .get → path ≠ "health" ∧ path ≠ "ready" := by
    rintro rfl
    refine ⟨?_, ?_⟩
    · rintro rfl
      exact dispatch_not_local.1 (h.trans reference_local.1)
    · rintro rfl
      exact dispatch_not_local.2 (h.trans reference_local.2)
  rw [reference_of_no_stream hstream hlocal] at h
  refine ⟨hparam, hlocal, ?_, ?_⟩
  · intro taken htaken
    rw [dispatch_taken hparam htaken] at h
    exact (proxyHandler_eq_iff htaken).mp h
  · intro hrefused
    rw [dispatch_refused hparam hrefused] at h
    exact refused_eq_iff.mp h

/-- A request is dispatched as the table reads by its templates just if it is one for
the stream, or its path reads alike. -/
theorem dispatch_eq_reference_iff :
    dispatch settings method path = reference settings method path ↔
      method = .get ∧ (streamLoan path).isSome = true ∨ ReadAlike method path := by
  constructor
  · intro h
    by_cases hstream : method = .get ∧ (streamLoan path).isSome = true
    · exact .inl hstream
    · refine .inr (readAlike_of_eq ?_ h)
      intro hget
      rw [← Option.not_isSome_iff_eq_none]
      exact fun hsome => hstream ⟨hget, hsome⟩
  · rintro (⟨rfl, hstream⟩ | h)
    · obtain ⟨loanId, hloan⟩ := Option.isSome_iff_exists.mp hstream
      rw [dispatch_stream (streamParam_of_streamLoan hloan), reference_stream hloan]
    · rw [reference_of_no_stream (streamLoan_unasked h.stream) h.localEndpoint]
      cases hparam : pathParam path with
      | some taken =>
          rw [dispatch_taken h.stream hparam]
          exact (proxyHandler_eq_iff hparam).mpr (h.taken taken hparam)
      | none =>
          rw [dispatch_refused h.stream hparam]
          exact refused_eq_iff.mpr (h.refused hparam)

example : dispatch {} .get "health" = .notFound ∧ reference {} .get "health" = .health ∧
    dispatch {} .get "api/v1/loans/7/events" = .sse "7" ∧
    reference {} .get "/api/v1/me" = .notFound ∧ dispatch {} .get "/api/v1/me" ≠ .notFound ∧
    dispatch {} .get "api/v1/me/a\nb" = .notFound ∧
    dispatch {} .get "api/v1/me\n" = dispatch {} .get "api/v1/me" ∧
    dispatch {} .post "api/v1/loans/a\nb/events" = .methodNotAllowed := by
  decide +kernel

end Main

section Loans
variable {settings : Settings} {method : Method} {path : String} {id : Segment}
  {behind : List Segment}

/-- The text of the table has one entry for the paths of all loans: that of the
creation of one. -/
theorem matchRoute_of_loan (hid : id ≠ placeholder)
    (hpath : split path.toList = "api".toList :: "v1".toList :: "loans".toList :: id :: behind) :
    ∃ route, matchRoute settings path = some route ∧ route.pathPrefix = "/api/v1/loans" := by
  obtain ⟨entry, hentry, hentryPath⟩ :
      ∃ r ∈ buildRoutes settings, r.pathPrefix = "/api/v1/loans" :=
    exists_route_of_prefix (by decide)
  have hcreate : prefixSegments "/api/v1/loans" <+: split (stem path) := by
    rw [stem_of_not_slash (not_slash_of_api hpath), hpath]
    exact ⟨id :: behind, rfl⟩
  refine ⟨entry, matchRoute_eq_some_iff.mpr ⟨hentry, hentryPath ▸ hcreate, ?_⟩, hentryPath⟩
  intro r hr hunder
  have hall : ∀ p ∈ routePrefixes,
      (prefixSegments p <+: prefixSegments "/api/v1/loans" →
        p.length ≤ "/api/v1/loans".length) ∧
      (prefixSegments "/api/v1/loans" <+: prefixSegments p →
        p.length ≤ "/api/v1/loans".length ∨ prefixSegments loanEntry <+: prefixSegments p) := by
    decide +kernel
  obtain ⟨hshorter, hlonger⟩ := hall r.pathPrefix (pathPrefix_mem hr)
  rw [hentryPath]
  cases List.prefix_or_prefix_of_prefix hunder hcreate with
  | inl habove => exact hshorter habove
  | inr hbelow =>
      refine (hlonger hbelow).resolve_right fun hentry => hid ?_
      rw [stem_of_not_slash (not_slash_of_api hpath), hpath] at hunder
      exact eq_placeholder_of_prefix (hentry.trans hunder)

theorem not_local_of_loan
    (hpath : split path.toList = "api".toList :: "v1".toList :: "loans".toList :: behind) :
    path ≠ "health" ∧ path ≠ "ready" := by
  refine ⟨?_, ?_⟩
  · intro heq
    rw [heq] at hpath
    exact absurd (List.cons.inj hpath).1 (by decide)
  · intro heq
    rw [heq] at hpath
    exact absurd (List.cons.inj hpath).1 (by decide)

def documentsEntry : String := "/api/v1/loans/{id}/documents"

private theorem eq_documentsEntry {p : String} (hp : p ∈ routePrefixes)
    (h : Compatible placeholder (prefixSegments p) (prefixSegments documentsEntry))
    (hlength : (prefixSegments documentsEntry).length ≤ (prefixSegments p).length) :
    p = documentsEntry := by
  have hall : ∀ p ∈ routePrefixes,
      Compatible placeholder (prefixSegments p) (prefixSegments documentsEntry) →
      (prefixSegments documentsEntry).length ≤ (prefixSegments p).length →
      p = documentsEntry := by decide +kernel
  exact hall p hp h hlength

/-- Everything below a loan but the stream goes to the loan service and is charged as
the creation of a loan; by the templates none of it is, and documents go to their own
service. -/
theorem loan_dispatched (hstream : method = .get → streamParam path = none)
    (hlines : '\n' ∉ path.toList) (hid : id ≠ []) (hother : id ≠ placeholder)
    (hpath : split path.toList = "api".toList :: "v1".toList :: "loans".toList :: id :: behind) :
    (∃ route, dispatch settings method path = .proxy route ∧
      route.baseUrl = settings.loanServiceUrl ∧ route.rateLimit = true) ∧
    ∃ route, reference settings method path = .proxy route ∧ route.rateLimit = false ∧
      (behind.head? = some "documents".toList → route.baseUrl = settings.documentServiceUrl) := by
  obtain ⟨route, hmatch, hentryPath⟩ := @matchRoute_of_loan settings path id behind hother hpath
  have hlogout := isLogoutPath_of_match hmatch
  have hparam : pathParam path = some path := pathParam_eq_some_iff.mpr ⟨hlines, .inl rfl⟩
  have htemplate : matchesSegments logoutTemplate path = false := by
    rw [← Bool.not_eq_true]
    intro htemplate
    rw [isLogoutPath_of_template hparam htemplate] at hlogout
    contradiction
  refine ⟨⟨route, ?_, ?_⟩, ?_⟩
  · rw [dispatch_taken hstream hparam, proxyHandler, hlogout, hmatch]
    rfl
  · have hall : ∀ r ∈ buildRoutes settings, r.pathPrefix = "/api/v1/loans" →
        r.baseUrl = settings.loanServiceUrl ∧ r.rateLimit = true := by
      simp [buildRoutes]
    exact hall route (matchRoute_eq_some_iff.mp hmatch).1 hentryPath
  · obtain ⟨r, hroute, hentry⟩ := @exists_templateRoute_of_loan settings path id behind hid hpath
    have hr := (templateRoute_eq_some_iff.mp hroute).1
    refine ⟨r, ?_, ?_, ?_⟩
    · rw [reference_of_no_stream (streamLoan_unasked hstream) fun _ => not_local_of_loan hpath,
        htemplate, hroute]
      rfl
    · have hlimited : ∀ r ∈ buildRoutes settings, r.rateLimit = true → r.pathPrefix ∈
          ["/api/v1/auth/register", "/api/v1/auth/login", "/api/v1/loans"] := by
        simp [buildRoutes]
      have hshort : ∀ p ∈ ["/api/v1/auth/register", "/api/v1/auth/login", "/api/v1/loans"],
          ¬ prefixSegments loanEntry <+: prefixSegments p := by decide +kernel
      rw [← Bool.not_eq_true]
      exact fun hlimit => hshort _ (hlimited r hr hlimit) hentry
    · intro hdocuments
      obtain ⟨rest, rfl⟩ := List.head?_eq_some_iff.mp hdocuments
      have hmatches : matchesTemplate documentsEntry path = true :=
        matchesFront_loan_iff.mpr ⟨id, _, hpath, hid,
          matchesFront_of_prefix (by decide) ⟨rest, rfl⟩⟩
      obtain ⟨r', hroute', hcompatible, hlength⟩ :=
        @exists_templateRoute settings path documentsEntry (by decide) hmatches
      obtain rfl := Option.some.inj (hroute.symm.trans hroute')
      have hall : ∀ r ∈ buildRoutes settings, r.pathPrefix = documentsEntry →
          r.baseUrl = settings.documentServiceUrl := by
        simp [buildRoutes, documentsEntry]
      exact hall r hr (eq_documentsEntry (pathPrefix_mem hr) hcompatible hlength)

theorem documents_not_reference :
    dispatch {} .post "api/v1/loans/7/documents" ≠
      reference {} .post "api/v1/loans/7/documents" := by
  decide +kernel

end Loans

end CrediGuard.Gateway
