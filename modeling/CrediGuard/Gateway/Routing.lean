import CrediGuard.Lib.Template
import CrediGuard.Lib.UrlPath
import Mathlib.Data.List.Nodup

/-!
The route table of the gateway and the choice of a route for a path.
-/

namespace CrediGuard.Gateway

structure Settings where
  applicantServiceUrl : String := "http://applicant:8001"
  loanServiceUrl : String := "http://loan-application:8002"
  documentServiceUrl : String := "http://document:8003"
  rateLimitAuthPerMinute : Int := 5
  rateLimitLoansPer10Min : Int := 3
  cookieSecure : Bool := false
  accessCookieName : String := "cg_access"
  refreshCookieName : String := "cg_refresh"
  accessCookieMaxAge : Int := 900
  refreshCookieMaxAge : Int := 604800

structure Route where
  pathPrefix : String
  baseUrl : String
  requiresAuth : Bool
  rateLimit : Bool
  isPublic : Bool := false
  rateKeyPrefix : Option String := none
  rateWindowSeconds : Int := 0
  rateLimitCount : Int := 0
  deriving DecidableEq

def buildRoutes (settings : Settings) : List Route :=
  [{ pathPrefix := "/api/v1/auth/register"
     baseUrl := settings.applicantServiceUrl
     requiresAuth := false
     rateLimit := true
     isPublic := true
     rateKeyPrefix := some "auth"
     rateWindowSeconds := 60
     rateLimitCount := settings.rateLimitAuthPerMinute },
    { pathPrefix := "/api/v1/auth/login"
      baseUrl := settings.applicantServiceUrl
      requiresAuth := false
      rateLimit := true
      isPublic := true
      rateKeyPrefix := some "auth"
      rateWindowSeconds := 60
      rateLimitCount := settings.rateLimitAuthPerMinute },
    { pathPrefix := "/api/v1/auth/refresh"
      baseUrl := settings.applicantServiceUrl
      requiresAuth := false
      rateLimit := false
      isPublic := true },
    { pathPrefix := "/api/v1/me"
      baseUrl := settings.applicantServiceUrl
      requiresAuth := true
      rateLimit := false },
    { pathPrefix := "/api/v1/loans"
      baseUrl := settings.loanServiceUrl
      requiresAuth := true
      rateLimit := true
      rateKeyPrefix := some "loans"
      rateWindowSeconds := 600
      rateLimitCount := settings.rateLimitLoansPer10Min },
    { pathPrefix := "/api/v1/loans/{id}"
      baseUrl := settings.loanServiceUrl
      requiresAuth := true
      rateLimit := false },
    { pathPrefix := "/api/v1/loans/{id}/documents"
      baseUrl := settings.documentServiceUrl
      requiresAuth := true
      rateLimit := false },
    { pathPrefix := "/api/v1/loans/{id}/events"
      baseUrl := ""
      requiresAuth := true
      rateLimit := false },
    { pathPrefix := "/api/v1/webhooks/stripe"
      baseUrl := settings.loanServiceUrl
      requiresAuth := false
      rateLimit := false
      isPublic := true }]

/-- Python's `startswith`. -/
def startsWith (s start : String) : Bool := start.toList.isPrefixOf s.toList

/-- Python's `lstrip("/")`. -/
def lstripSlash (s : String) : String := String.ofList (s.toList.dropWhile (· = '/'))

/-- Python's `rstrip("/")`. -/
def rstripSlash (s : String) : String := String.ofList (s.toList.rdropWhile (· = '/'))

def isUnder (path base : String) : Bool := path = base || startsWith path (base ++ "/")

def normalized (path : String) : String := if startsWith path "/" then path else "/" ++ path

/-- The first of the longest matching prefixes, as `max` with a key takes it. -/
def matchRoute (settings : Settings) (path : String) : Option Route :=
  ((buildRoutes settings).filter fun r => isUnder (normalized path) r.pathPrefix).maxOn?
    fun r => r.pathPrefix.length

def rateKey (route : Route) (clientIp : String) (applicantId : Option String) :
    Option String :=
  if route.rateKeyPrefix = some "auth" then some ("auth:" ++ clientIp)
  else if route.rateKeyPrefix = some "loans" then
    match applicantId with
    | none => none
    | some applicantId => some ("loans:" ++ applicantId)
  else none

section Matching
open UrlPath
variable {settings : Settings} {path : String} {route : Route}

theorem isUnder_iff {base : String} :
    isUnder path base = true ↔ Under base.toList path.toList := by
  simp [isUnder, startsWith, Under, String.toList_inj]

/-- A path without the one slash the catch-all may still have in front. -/
def stem (path : String) : List Char :=
  if path.toList.head? = some '/' then path.toList.tail else path.toList

theorem startsWith_slash : startsWith path "/" = true ↔ path.toList.head? = some '/' := by
  cases h : path.toList with
  | nil => simp [startsWith, h]
  | cons c rest =>
      have hslash : "/".toList = ['/'] := rfl
      simp only [startsWith, h, hslash, List.isPrefixOf, Bool.and_true, beq_iff_eq,
        List.head?_cons, Option.some.injEq]
      exact eq_comm

theorem normalized_toList (path : String) : (normalized path).toList = '/' :: stem path := by
  by_cases h : path.toList.head? = some '/'
  · rw [normalized, if_pos (startsWith_slash.mpr h), stem, if_pos h]
    cases hchars : path.toList with
    | nil =>
        rw [hchars] at h
        contradiction
    | cons c rest =>
        rw [hchars] at h
        rw [Option.some.inj h]
        rfl
  · have hstarts : ¬ startsWith path "/" = true := fun hstarts => h (startsWith_slash.mp hstarts)
    rw [normalized, if_neg hstarts, stem, if_neg h, String.toList_append]
    rfl

/-- The segments of a prefix, the slash in front left out. -/
def prefixSegments (pathPrefix : String) : List Segment := split pathPrefix.toList.tail

def routePrefixes : List String :=
  ["/api/v1/auth/register", "/api/v1/auth/login", "/api/v1/auth/refresh", "/api/v1/me",
    "/api/v1/loans", "/api/v1/loans/{id}", "/api/v1/loans/{id}/documents",
    "/api/v1/loans/{id}/events", "/api/v1/webhooks/stripe"]

theorem pathPrefix_mem (h : route ∈ buildRoutes settings) : route.pathPrefix ∈ routePrefixes :=
  List.mem_map_of_mem h

theorem eq_of_pathPrefix_eq {route' : Route} (h : route ∈ buildRoutes settings)
    (h' : route' ∈ buildRoutes settings) (heq : route.pathPrefix = route'.pathPrefix) :
    route = route' := by
  have hnodup : ((buildRoutes settings).map Route.pathPrefix).Nodup := by
    change routePrefixes.Nodup
    decide
  exact List.inj_on_of_nodup_map hnodup h h' heq

theorem slash_of_routePrefix {pathPrefix : String} (h : pathPrefix ∈ routePrefixes) :
    pathPrefix.toList = '/' :: pathPrefix.toList.tail ∧
      pathPrefix.toList.tail.head? = some 'a' := by
  have hall : ∀ p ∈ routePrefixes,
      p.toList = '/' :: p.toList.tail ∧ p.toList.tail.head? = some 'a' := by decide
  exact hall pathPrefix h

/-- A route matches by the segments of the path. -/
theorem isUnder_normalized {pathPrefix : String} (h : pathPrefix ∈ routePrefixes) :
    isUnder (normalized path) pathPrefix = true ↔
      prefixSegments pathPrefix <+: split (stem path) := by
  rw [isUnder_iff, normalized_toList, (slash_of_routePrefix h).1, under_iff, split_slash,
    split_slash, List.cons_prefix_cons, prefixSegments]
  simp

theorem head?_stem_of_isUnder {pathPrefix : String} (h : pathPrefix ∈ routePrefixes)
    (hunder : isUnder (normalized path) pathPrefix = true) : (stem path).head? = some 'a' := by
  obtain ⟨hslash, hhead⟩ := slash_of_routePrefix h
  have hprefix := (isUnder_normalized h).mp hunder
  rw [prefixSegments, ← under_iff] at hprefix
  cases hprefix with
  | inl heq => rw [heq, hhead]
  | inr hrest =>
      obtain ⟨rest, hrest⟩ := hrest
      cases hchars : pathPrefix.toList.tail with
      | nil =>
          rw [hchars] at hhead
          contradiction
      | cons c chars =>
          rw [hchars] at hhead hrest
          rw [← hrest]
          exact hhead

/-- A path that a route matches has at most one slash in front. -/
theorem lstripSlash_of_isUnder {pathPrefix : String} (h : pathPrefix ∈ routePrefixes)
    (hunder : isUnder (normalized path) pathPrefix = true) :
    (lstripSlash path).toList = stem path := by
  have hstem := head?_stem_of_isUnder h hunder
  have hdrop : (stem path).dropWhile (· = '/') = stem path := by
    cases hchars : stem path with
    | nil => rfl
    | cons c chars =>
        rw [hchars] at hstem
        rw [Option.some.inj hstem]
        rfl
  rw [lstripSlash, String.toList_ofList, ← hdrop]
  by_cases hslash : path.toList.head? = some '/'
  · rw [stem, if_pos hslash]
    cases hchars : path.toList with
    | nil => rfl
    | cons c chars =>
        rw [hchars] at hslash
        rw [Option.some.inj hslash]
        rfl
  · rw [stem, if_neg hslash]

private theorem eq_of_prefix_of_length {p q : String} (hp : p ∈ routePrefixes)
    (hq : q ∈ routePrefixes) (h : prefixSegments p <+: prefixSegments q)
    (hlength : p.length = q.length) : p = q := by
  have hall : ∀ p ∈ routePrefixes, ∀ q ∈ routePrefixes,
      prefixSegments p <+: prefixSegments q → p.length = q.length → p = q := by
    decide +kernel
  exact hall p hp q hq h hlength

/-- The route of a path is the one of the longest prefix the path is under. -/
theorem matchRoute_eq_some_iff :
    matchRoute settings path = some route ↔
      route ∈ buildRoutes settings ∧ prefixSegments route.pathPrefix <+: split (stem path) ∧
        ∀ r ∈ buildRoutes settings, prefixSegments r.pathPrefix <+: split (stem path) →
          r.pathPrefix.length ≤ route.pathPrefix.length := by
  rw [matchRoute, Template.maxOn?_filter_eq_some_iff]
  · -- the candidates are the entries whose segments stand in front of the path
    have hunder (r : Route) (hr : r ∈ buildRoutes settings) :
        isUnder (normalized path) r.pathPrefix = true ↔
          prefixSegments r.pathPrefix <+: split (stem path) :=
      isUnder_normalized (pathPrefix_mem hr)
    refine and_congr_right fun hroute => and_congr (hunder route hroute) ?_
    exact forall₂_congr fun r hr => imp_congr_left (hunder r hr)
  · intro r hr r' hr' hunder hunder' hlength
    have hsegments := (isUnder_normalized (pathPrefix_mem hr)).mp hunder
    have hsegments' := (isUnder_normalized (pathPrefix_mem hr')).mp hunder'
    refine eq_of_pathPrefix_eq hr hr' ?_
    cases List.prefix_or_prefix_of_prefix hsegments hsegments' with
    | inl hbelow =>
        exact eq_of_prefix_of_length (pathPrefix_mem hr) (pathPrefix_mem hr') hbelow hlength
    | inr habove =>
        exact (eq_of_prefix_of_length (pathPrefix_mem hr') (pathPrefix_mem hr) habove
          hlength.symm).symm

end Matching

end CrediGuard.Gateway
