import CrediGuard.Gateway.Proxy

/-!
The policy of the path a client asks for, and of the path that is sent upstream.

The endpoint decides on the path as it stands, and the client library removes dot
segments from the URL. It raises for the query before it sends anything, so that no
request goes upstream under another policy than its own. A library that took the
query would leave this to the path: the two policies are the same just if the
segments behind the matched prefix lead back below it, and below no longer prefix.
-/

namespace CrediGuard.Gateway
open UrlPath

section Model

/-- What is left open about the client library: the URLs it refuses, its decoding
of escapes, whether the removal of a last dot segment leaves its slash, and whether
it takes a query that is text. -/
structure UrlParser where
  accepts : String → Bool
  unquote : String → String
  keepSlash : Bool
  copyWith : String → Bool

/-- The path of a URL, as the parameter of a catch-all has it. -/
def UrlParser.param? (u : UrlParser) (url : String) : Option String :=
  if u.accepts url then
    some (u.unquote (String.ofList
      (join (removeDotSegments u.keepSlash (split (urlPath url.toList).tail)))))
  else none

end Model

section Statement
variable (u : UrlParser) (settings : Settings) (path : String)

/-- The endpoint decides the same for the path of the URL that is sent. In particular
what reaches the login or the registration has been charged to the client's `auth`
bucket, and what the endpoints that hand out tokens answer is turned into cookies. -/
structure PolicyAgrees : Prop where
  same : ∀ edge req outgoing, edge.copyWith = u.copyWith →
    (proxyEndpoint edge settings path req).sent = some outgoing →
    ∀ sent, u.param? outgoing.url = some sent → policy settings sent = policy settings path
  limited : ∀ edge req outgoing, edge.copyWith = u.copyWith →
    (proxyEndpoint edge settings path req).sent = some outgoing →
    u.param? outgoing.url = some authLoginPath ∨ u.param? outgoing.url = some authRegisterPath →
    (proxyEndpoint edge settings path req).charged =
      some ("auth:" ++ req.client.getD "unknown", settings.rateLimitAuthPerMinute, 60)
  translated : ∀ edge req outgoing, edge.copyWith = u.copyWith →
    (proxyEndpoint edge settings path req).sent = some outgoing →
    (∃ p ∈ cookiePaths, u.param? outgoing.url = some p) →
    ∀ result, edge.send outgoing = some result →
      (proxyEndpoint edge settings path req).response =
        cookieAuthResponse settings (correlationId edge req) result

/-- The endpoint decides the same for the path of the URL that `forward` makes of it. -/
def SamePolicy : Prop :=
  ∀ route refreshCookie translates,
    policy settings path = .forward route refreshCookie translates →
    ∀ sent, u.param? (forwardUrl route.baseUrl path) = some sent →
      policy settings sent = policy settings path

/-- The segments of a path behind a prefix, up to a query or a fragment. -/
def segmentsBehind (pathPrefix path : String) : List Segment :=
  (split (cut (lstripSlash path).toList)).drop (prefixSegments pathPrefix).length

/-- Where these segments lead, walked from the prefix. -/
def landing (pathPrefix path : String) : String :=
  u.unquote (String.ofList
    (join (walk u.keepSlash (prefixSegments pathPrefix) (segmentsBehind pathPrefix path))))

/-- They lead below the prefix again and below no longer one, and to the refresh
endpoint itself just if there are none. -/
def LeadsBack (pathPrefix path : String) : Prop :=
  let segments := split (stem (landing u pathPrefix path))
  prefixSegments pathPrefix <+: segments ∧
    (∀ p ∈ routePrefixes, prefixSegments p <+: segments → p.length ≤ pathPrefix.length) ∧
    (pathPrefix = "/api/v1/auth/refresh" →
      (segments = prefixSegments pathPrefix ↔ segmentsBehind pathPrefix path = []))

/-- Every forwarded path leads back to the prefix it was matched by. -/
def Settled : Prop :=
  ∀ route, matchRoute settings path = some route → route.baseUrl ≠ "" →
    u.accepts (forwardUrl route.baseUrl path) = true → LeadsBack u route.pathPrefix path

end Statement

section Exactness
variable {u : UrlParser} {settings : Settings} {path : String} {route : Route}

theorem isLogoutPath_of_match (h : matchRoute settings path = some route) :
    isLogoutPath path = false := by
  obtain ⟨hmem, hunder, _⟩ := matchRoute_eq_some_iff.mp h
  have hprefix := pathPrefix_mem hmem
  have hstrip := lstripSlash_of_isUnder hprefix ((isUnder_normalized hprefix).mpr hunder)
  have hall : ∀ p ∈ routePrefixes, ¬ prefixSegments p <+: split authLogoutPath.toList ∧
      ¬ split authLogoutPath.toList <+: prefixSegments p := by decide +kernel
  cases hlogout : isLogoutPath path with
  | false => rfl
  | true =>
      rw [isLogoutPath, isUnder_iff, hstrip, under_iff] at hlogout
      cases List.prefix_or_prefix_of_prefix hunder hlogout with
      | inl hbelow => exact absurd hbelow (hall _ hprefix).1
      | inr habove => exact absurd habove (hall _ hprefix).2

/-- A route that lies on the way to or behind a path of the auth endpoints is theirs. -/
private theorem eq_of_cookiePath {p c : String} (hp : p ∈ routePrefixes) (hc : c ∈ cookiePaths)
    (h : prefixSegments p <+: split c.toList ∨ split c.toList <+: prefixSegments p) :
    p = "/" ++ c := by
  have hall : ∀ p ∈ routePrefixes, ∀ c ∈ cookiePaths,
      prefixSegments p <+: split c.toList ∨ split c.toList <+: prefixSegments p →
      p = "/" ++ c := by decide +kernel
  exact hall p hp c hc h

private theorem prefixSegments_cookiePath {c : String} (hc : c ∈ cookiePaths) :
    prefixSegments ("/" ++ c) = split c.toList := by
  have hall : ∀ c ∈ cookiePaths, prefixSegments ("/" ++ c) = split c.toList := by decide +kernel
  exact hall c hc

/-- The route decides whether the response is turned into cookies. -/
theorem isCookieAuthPath_of_match (h : matchRoute settings path = some route) :
    isCookieAuthPath path = decide (route.pathPrefix ∈ cookiePaths.map ("/" ++ ·)) := by
  obtain ⟨hmem, hunder, _⟩ := matchRoute_eq_some_iff.mp h
  have hprefix := pathPrefix_mem hmem
  have hstrip := lstripSlash_of_isUnder hprefix ((isUnder_normalized hprefix).mpr hunder)
  rw [Bool.eq_iff_iff, decide_eq_true_iff, isCookieAuthPath, List.any_eq_true, List.mem_map]
  constructor
  · rintro ⟨c, hc, hpath⟩
    rw [isUnder_iff, hstrip, under_iff] at hpath
    have hrelated := List.prefix_or_prefix_of_prefix hunder hpath
    exact ⟨c, hc, (eq_of_cookiePath hprefix hc hrelated).symm⟩
  · rintro ⟨c, hc, heq⟩
    refine ⟨c, hc, ?_⟩
    rw [isUnder_iff, hstrip, under_iff, ← prefixSegments_cookiePath hc, heq]
    exact hunder

theorem policy_eq_forward_iff {refreshCookie translates : Bool} :
    policy settings path = .forward route refreshCookie translates ↔
      matchRoute settings path = some route ∧ route.baseUrl ≠ "" ∧
        decide (lstripSlash path = "api/v1/auth/refresh") = refreshCookie ∧
        decide (route.pathPrefix ∈ cookiePaths.map ("/" ++ ·)) = translates := by
  constructor
  · intro h
    obtain ⟨hmatch, hbase, hrefresh, htranslates⟩ := policy_forward h
    exact ⟨hmatch, hbase, hrefresh, (isCookieAuthPath_of_match hmatch).symm.trans htranslates⟩
  · rintro ⟨hmatch, hbase, rfl, rfl⟩
    simp only [policy, isLogoutPath_of_match hmatch, hmatch, if_neg hbase,
      isCookieAuthPath_of_match hmatch]
    simp

/-- The prefixes have neither dot segments nor the characters that end a path. -/
private theorem plain_of_routePrefix {p : String} (h : p ∈ routePrefixes) :
    (∀ s ∈ prefixSegments p, ¬ IsDot s) ∧ ∀ c ∈ p.toList.tail, c ∉ ['?', '#'] := by
  have hall : ∀ p ∈ routePrefixes, (∀ s ∈ prefixSegments p, ¬ IsDot s) ∧
      p.toList.tail.all (fun c => c ∉ ['?', '#']) = true := by decide +kernel
  obtain ⟨hsegments, hchars⟩ := hall p h
  exact ⟨hsegments, fun c hc => of_decide_eq_true (List.all_eq_true.mp hchars c hc)⟩

/-- A path under a prefix is cut behind the prefix. -/
private theorem cut_under {base path : List Char} (hbase : ∀ c ∈ base, c ∉ ['?', '#'])
    (h : Under base path) : Under base (cut path) ∧ (cut path = base ↔ path = base) := by
  cases h with
  | inl heq =>
      subst heq
      rw [cut_of_plain hbase]
      exact ⟨Or.inl rfl, Iff.rfl⟩
  | inr hrest =>
      obtain ⟨rest, rfl⟩ := hrest
      have hslash : ∀ c ∈ base ++ ['/'], c ∉ ['?', '#'] := by
        intro c hc
        cases List.mem_append.mp hc with
        | inl hc => exact hbase c hc
        | inr hc =>
            rw [List.mem_singleton.mp hc]
            decide
      rw [cut_append hslash]
      exact ⟨Or.inr (List.prefix_append ..), by simp⟩

/-- A matched path is its prefix with the segments behind it. -/
theorem split_cut_of_match (h : matchRoute settings path = some route) :
    split (cut (lstripSlash path).toList) =
        prefixSegments route.pathPrefix ++ segmentsBehind route.pathPrefix path ∧
      (segmentsBehind route.pathPrefix path = [] ↔
        split (stem path) = prefixSegments route.pathPrefix) := by
  obtain ⟨hmem, hunder, _⟩ := matchRoute_eq_some_iff.mp h
  have hprefix := pathPrefix_mem hmem
  have hstrip := lstripSlash_of_isUnder hprefix ((isUnder_normalized hprefix).mpr hunder)
  have hunder : Under route.pathPrefix.toList.tail (lstripSlash path).toList := by
    rw [hstrip, under_iff]
    exact hunder
  obtain ⟨hcut, hexact⟩ := cut_under (plain_of_routePrefix hprefix).2 hunder
  obtain ⟨rest, hrest⟩ := under_iff.mp hcut
  have hbehind : segmentsBehind route.pathPrefix path = rest := by
    rw [segmentsBehind, ← hrest, prefixSegments, List.drop_left]
  refine ⟨by rw [hbehind, ← hrest, prefixSegments], ?_⟩
  rw [hbehind, ← hstrip]
  constructor
  · rintro rfl
    rw [List.append_nil] at hrest
    rw [hexact.mp (split_injective hrest).symm, prefixSegments]
  · intro heq
    rw [hexact.mpr (split_injective heq)] at hrest
    simpa using hrest

/-- What is sent for a matched path is where its segments lead. -/
theorem param?_forwardUrl (h : matchRoute settings path = some route)
    (horigin : IsOrigin route.baseUrl.toList) :
    u.param? (forwardUrl route.baseUrl path) =
      if u.accepts (forwardUrl route.baseUrl path) then some (landing u route.pathPrefix path)
      else none := by
  have hprefix := pathPrefix_mem (matchRoute_eq_some_iff.mp h).1
  have hurl : (forwardUrl route.baseUrl path).toList =
      route.baseUrl.toList.rdropWhile (· = '/') ++ '/' :: (lstripSlash path).toList := by
    rw [forwardUrl, String.toList_append, String.toList_append, rstripSlash, String.toList_ofList,
      List.append_assoc]
    rfl
  rw [UrlParser.param?, hurl, urlPath_of_origin horigin, List.tail_cons, (split_cut_of_match h).1,
    removeDotSegments_append (plain_of_routePrefix hprefix).1, landing]

theorem exists_route_of_prefix {p : String} (h : p ∈ routePrefixes) :
    ∃ r ∈ buildRoutes settings, r.pathPrefix = p :=
  List.mem_map.mp (show p ∈ (buildRoutes settings).map Route.pathPrefix from h)

/-- The landing has the route of the path just if it leads back. -/
private theorem matchRoute_landing_iff (h : matchRoute settings path = some route) :
    matchRoute settings (landing u route.pathPrefix path) = some route ↔
      prefixSegments route.pathPrefix <+: split (stem (landing u route.pathPrefix path)) ∧
      ∀ p ∈ routePrefixes, prefixSegments p <+: split (stem (landing u route.pathPrefix path)) →
        p.length ≤ route.pathPrefix.length := by
  rw [matchRoute_eq_some_iff]
  constructor
  · rintro ⟨_, hunder, hlongest⟩
    refine ⟨hunder, ?_⟩
    intro p hp hpath
    obtain ⟨r, hr, rfl⟩ := exists_route_of_prefix hp
    exact hlongest r hr hpath
  · rintro ⟨hunder, hlongest⟩
    refine ⟨(matchRoute_eq_some_iff.mp h).1, hunder, ?_⟩
    exact fun r hr hpath => hlongest r.pathPrefix (pathPrefix_mem hr) hpath

/-- Whether a path is the refresh path shows in its route and its segments. -/
private theorem refresh_iff_of_match (h : matchRoute settings path = some route) :
    lstripSlash path = "api/v1/auth/refresh" ↔ route.pathPrefix = "/api/v1/auth/refresh" ∧
      split (stem path) = prefixSegments route.pathPrefix := by
  obtain ⟨hmem, hunder, _⟩ := matchRoute_eq_some_iff.mp h
  have hprefix := pathPrefix_mem hmem
  have hstrip := lstripSlash_of_isUnder hprefix ((isUnder_normalized hprefix).mpr hunder)
  have hcookie : authRefreshPath ∈ cookiePaths := by decide
  have hsegments : prefixSegments "/api/v1/auth/refresh" = split "api/v1/auth/refresh".toList :=
    prefixSegments_cookiePath hcookie
  constructor
  · intro heq
    rw [heq] at hstrip
    rw [← hstrip] at hunder
    have hroute : route.pathPrefix = "/api/v1/auth/refresh" :=
      eq_of_cookiePath hprefix hcookie (Or.inl hunder)
    exact ⟨hroute, by rw [← hstrip, hroute, hsegments]⟩
  · rintro ⟨hroute, heq⟩
    rw [hroute, hsegments, ← hstrip] at heq
    exact String.toList_inj.mp (split_injective heq)

/-- The path of an auth endpoint has the endpoint's own route. -/
theorem pathPrefix_of_cookiePath {c : String} (hc : c ∈ cookiePaths)
    (h : matchRoute settings c = some route) : route.pathPrefix = "/" ++ c := by
  obtain ⟨hmem, hunder, _⟩ := matchRoute_eq_some_iff.mp h
  have hstem : ∀ c ∈ cookiePaths, stem c = c.toList := by decide
  rw [hstem c hc] at hunder
  exact eq_of_cookiePath (pathPrefix_mem hmem) hc (Or.inl hunder)

private theorem auth_bucket (hmem : route ∈ buildRoutes settings)
    (hroute : route.pathPrefix = "/" ++ authLoginPath ∨
      route.pathPrefix = "/" ++ authRegisterPath) (req : Request) (applicantId : Option String) :
    charge route req applicantId =
      .ok (some ("auth:" ++ req.client.getD "unknown", settings.rateLimitAuthPerMinute, 60)) := by
  have hall : ∀ r ∈ buildRoutes settings,
      r.pathPrefix = "/" ++ authLoginPath ∨ r.pathPrefix = "/" ++ authRegisterPath →
      r.rateLimit = true ∧ r.rateKeyPrefix = some "auth" ∧
        r.rateLimitCount = settings.rateLimitAuthPerMinute ∧ r.rateWindowSeconds = 60 := by
    simp [buildRoutes, authLoginPath, authRegisterPath]
  obtain ⟨hlimit, hkey, hcount, hwindow⟩ := hall route hmem hroute
  simp [charge, rateKey, hlimit, hkey, hcount, hwindow]

/-- Whatever the library takes, what is sent under the policy of its own path keeps the
promises about the auth endpoints. -/
theorem SamePolicy.promises (h : SamePolicy u settings path) :
    PolicyAgrees u settings path := by
  have hforwarded {edge : Edge} {req : Request} {outgoing : Outgoing}
      (hsent : (proxyEndpoint edge settings path req).sent = some outgoing) :=
    proxyEndpoint_forwarded (forwarded_of_sent hsent).1
  have hroute {route : Route} {refreshCookie translates : Bool} {c : String}
      (hpolicy : policy settings path = .forward route refreshCookie translates)
      (hc : c ∈ cookiePaths) (hpath : u.param? (forwardUrl route.baseUrl path) = some c) :
      route ∈ buildRoutes settings ∧ route.pathPrefix = "/" ++ c ∧
        decide (route.pathPrefix ∈ cookiePaths.map ("/" ++ ·)) = translates := by
    have hthere := h _ _ _ hpolicy c hpath
    rw [hpolicy] at hthere
    obtain ⟨hmatch, _, _, htranslates⟩ := policy_eq_forward_iff.mp hthere
    exact ⟨(matchRoute_eq_some_iff.mp hmatch).1, pathPrefix_of_cookiePath hc hmatch, htranslates⟩
  refine ⟨?_, ?_, ?_⟩
  · intro edge req outgoing _ hsent sent hpath
    obtain ⟨_, _, _, _, _, _, hpolicy, _, _, _, rfl, _⟩ := hforwarded hsent
    rw [url_requestUpstream] at hpath
    exact h _ _ _ hpolicy sent hpath
  · intro edge req outgoing _ hsent hpath
    obtain ⟨route, _, _, _, applicantId, charged, hpolicy, _, _, hcharge, rfl, heq⟩ :=
      hforwarded hsent
    rw [url_requestUpstream] at hpath
    have hlogin : route ∈ buildRoutes settings ∧ (route.pathPrefix = "/" ++ authLoginPath ∨
        route.pathPrefix = "/" ++ authRegisterPath) := by
      cases hpath with
      | inl hpath =>
          obtain ⟨hmem, hprefix, _⟩ := hroute hpolicy (by decide) hpath
          exact ⟨hmem, .inl hprefix⟩
      | inr hpath =>
          obtain ⟨hmem, hprefix, _⟩ := hroute hpolicy (by decide) hpath
          exact ⟨hmem, .inr hprefix⟩
    rw [auth_bucket hlogin.1 hlogin.2] at hcharge
    rw [heq]
    exact (Except.ok.inj hcharge).symm
  · rintro edge req outgoing _ hsent ⟨c, hc, hpath⟩ result hanswer
    obtain ⟨route, _, translates, _, _, _, hpolicy, _, _, _, rfl, heq⟩ := hforwarded hsent
    rw [url_requestUpstream] at hpath
    obtain ⟨_, hprefix, htranslates⟩ := hroute hpolicy hc hpath
    have htranslates : translates = true := by
      rw [← htranslates, decide_eq_true_iff, hprefix]
      exact List.mem_map_of_mem hc
    have hforward : forward edge (requestUpstream edge route path req _ _) = some result :=
      forward_eq_some_iff.mpr ⟨(forwarded_of_sent hsent).2, hanswer⟩
    rw [heq, answered, hforward, htranslates]
    rfl

theorem services_of_origins (ha : IsOrigin settings.applicantServiceUrl.toList)
    (hl : IsOrigin settings.loanServiceUrl.toList)
    (hd : IsOrigin settings.documentServiceUrl.toList) :
    ∀ r ∈ buildRoutes settings, r.baseUrl ≠ "" → IsOrigin r.baseUrl.toList := by
  simp [buildRoutes, ha, hl, hd]

/-- The policy is the same upstream just if every forwarded path leads back to the
prefix it was matched by. -/
theorem samePolicy_iff (ha : IsOrigin settings.applicantServiceUrl.toList)
    (hl : IsOrigin settings.loanServiceUrl.toList)
    (hd : IsOrigin settings.documentServiceUrl.toList) :
    SamePolicy u settings path ↔ Settled u settings path := by
  have hservices := services_of_origins ha hl hd
  constructor
  · intro hagrees route hmatch hbase haccepts
    have hpolicy := policy_eq_forward_iff.mpr ⟨hmatch, hbase, rfl, rfl⟩
    have hmem := (matchRoute_eq_some_iff.mp hmatch).1
    have hsent := param?_forwardUrl (u := u) hmatch (hservices route hmem hbase)
    rw [if_pos haccepts] at hsent
    have hsame := hagrees _ _ _ hpolicy _ hsent
    rw [hpolicy] at hsame
    obtain ⟨hlanding, _, hrefresh, _⟩ := policy_eq_forward_iff.mp hsame
    obtain ⟨hunder, hlongest⟩ := (matchRoute_landing_iff hmatch).mp hlanding
    refine ⟨hunder, hlongest, ?_⟩
    intro hroute
    have hrefresh := decide_eq_decide.mp hrefresh
    rw [refresh_iff_of_match hlanding, refresh_iff_of_match hmatch] at hrefresh
    rw [(split_cut_of_match hmatch).2]
    simpa only [hroute, true_and] using hrefresh
  · intro hsettled route refreshCookie translates hpolicy sent hsent
    obtain ⟨hmatch, hbase, hrefresh, htranslates⟩ := policy_eq_forward_iff.mp hpolicy
    have hmem := (matchRoute_eq_some_iff.mp hmatch).1
    rw [param?_forwardUrl hmatch (hservices route hmem hbase)] at hsent
    split at hsent
    · rename_i haccepts
      obtain rfl := Option.some.inj hsent
      obtain ⟨hunder, hlongest, hexact⟩ := hsettled route hmatch hbase haccepts
      have hlanding := (matchRoute_landing_iff hmatch).mpr ⟨hunder, hlongest⟩
      rw [hpolicy]
      refine policy_eq_forward_iff.mpr ⟨hlanding, hbase, ?_, htranslates⟩
      rw [← hrefresh, decide_eq_decide, refresh_iff_of_match hlanding,
        refresh_iff_of_match hmatch]
      refine and_congr_right fun hroute => ?_
      rw [← (split_cut_of_match hmatch).2]
      exact hexact hroute
    · contradiction

/-- Paths without dot segments, queries, fragments and escapes are settled. -/
theorem settled_of_plain (hunquote : ∀ s, '%' ∉ s.toList → u.unquote s = s)
    (hsegments : ∀ s ∈ split (lstripSlash path).toList, ¬ IsDot s)
    (hchars : ∀ c ∈ (lstripSlash path).toList, c ∉ ['?', '#', '%']) :
    Settled u settings path := by
  intro route hmatch _ _
  obtain ⟨hmem, hunder, hlongest⟩ := matchRoute_eq_some_iff.mp hmatch
  have hprefix := pathPrefix_mem hmem
  have hstrip := lstripSlash_of_isUnder hprefix ((isUnder_normalized hprefix).mpr hunder)
  have hcut : cut (lstripSlash path).toList = (lstripSlash path).toList := by
    refine cut_of_plain fun c hc hend => hchars c hc ?_
    simp only [List.mem_cons, List.not_mem_nil, or_false] at hend ⊢
    exact hend.imp_right Or.inl
  obtain ⟨hbehind, hexact⟩ := split_cut_of_match hmatch
  rw [hcut] at hbehind
  have hlanding : landing u route.pathPrefix path = lstripSlash path := by
    rw [landing, ← removeDotSegments_append (plain_of_routePrefix hprefix).1, ← hbehind,
      removeDotSegments_plain hsegments, join_split, String.ofList_toList]
    exact hunquote _ fun hescape => hchars _ hescape (by simp)
  have hstem : stem (lstripSlash path) = stem path := by
    have hhead := head?_stem_of_isUnder hprefix ((isUnder_normalized hprefix).mpr hunder)
    rw [← hstrip] at hhead
    rw [stem, if_neg (by rw [hhead]; decide), hstrip]
  rw [LeadsBack, hlanding, hstem]
  refine ⟨hunder, ?_, fun _ => hexact.symm⟩
  intro p hp hpath
  obtain ⟨r, hr, rfl⟩ := exists_route_of_prefix hp
  exact hlongest r hr hpath

def takingEdge : Edge where
  decode _ := none
  allowed _ _ _ := true
  copyWith _ := true
  send _ := none
  uuid := ⟨1⟩

/-- A library that took the query would send what climbs out of the refresh path to the
login, uncharged. -/
theorem refresh_not_policyAgrees :
    ¬ PolicyAgrees ⟨fun _ => true, id, true, fun _ => true⟩ {} "api/v1/auth/refresh/../login" := by
  intro h
  let req : Request := ⟨"POST", [], [], none, ByteArray.empty, ByteArray.empty⟩
  have hurl : (proxyEndpoint takingEdge {} "api/v1/auth/refresh/../login" req).sent.map
      Outgoing.url = some "http://applicant:8001/api/v1/auth/refresh/../login" := by decide +kernel
  obtain ⟨outgoing, hsent, hurl⟩ := Option.map_eq_some_iff.mp hurl
  have hsame := h.same takingEdge req outgoing rfl hsent "api/v1/auth/login" (by
    rw [hurl]
    decide +kernel)
  revert hsame
  decide +kernel

end Exactness

end CrediGuard.Gateway
