import CrediGuard.Gateway.Routing
import CrediGuard.Lib.Json

/-!
HttpOnly cookies for the auth endpoints: which paths they are, what is kept of an
upstream `TokenResponse`, and the `Set-Cookie` headers.
-/

namespace CrediGuard.Gateway

def authRegisterPath : String := "api/v1/auth/register"
def authLoginPath : String := "api/v1/auth/login"
def authRefreshPath : String := "api/v1/auth/refresh"
def authLogoutPath : String := "api/v1/auth/logout"

def cookiePaths : List String := [authRegisterPath, authLoginPath, authRefreshPath]

def isCookieAuthPath (path : String) : Bool := cookiePaths.any fun p => isUnder (lstripSlash path) p

def isLogoutPath (path : String) : Bool := isUnder (lstripSlash path) authLogoutPath

def cookieHeader (name value : String) (maxAge : Int) (path : String) (secure : Bool) : String :=
  let parts := [name ++ "=" ++ value, "Max-Age=" ++ toString maxAge, "Path=" ++ path, "HttpOnly",
    "SameSite=Lax"]
  "; ".intercalate (if secure then parts ++ ["Secure"] else parts)

def accessCookieHeader (accessToken : String) (settings : Settings) : String :=
  cookieHeader settings.accessCookieName accessToken settings.accessCookieMaxAge "/"
    settings.cookieSecure

def refreshCookieHeader (refreshToken : String) (settings : Settings) : String :=
  cookieHeader settings.refreshCookieName refreshToken settings.refreshCookieMaxAge
    "/api/v1/auth/refresh" settings.cookieSecure

def clearCookieHeader (name path : String) (secure : Bool) : String :=
  cookieHeader name "" 0 path secure

def clearAuthCookiesHeaders (settings : Settings) : List String :=
  [clearCookieHeader settings.accessCookieName "/" settings.cookieSecure,
    clearCookieHeader settings.refreshCookieName "/api/v1/auth/refresh" settings.cookieSecure]

def invalidAuthResponse : Json := .obj [("detail", .str "Invalid auth response")]

def sanitizeAuthBody (body : ByteArray) : Json × Option String × Option String :=
  match (String.fromUTF8? body).bind Json.loads with
  | some (.obj data) =>
      match Json.get? data "access_token", Json.get? data "refresh_token" with
      | some (.str access), some (.str refresh) =>
          (.obj [("token_type", (Json.get? data "token_type").getD (.str "bearer")),
              ("expires_in", (Json.get? data "expires_in").getD .null)],
            some access, some refresh)
      | _, _ => (invalidAuthResponse, none, none)
  | _ => (invalidAuthResponse, none, none)

def buildRefreshBodyFromCookie (refreshToken : String) : ByteArray :=
  (Json.obj [("refresh_token", .str refreshToken)]).dumps.toUTF8

/-- A response of the gateway. -/
inductive Response where
  | json (status : Nat) (content : Json) (headers : List (String × String))
  | plain (status : Nat) (content : ByteArray) (mediaType : String)
      (headers : List (String × String))
  | streaming (status : Nat) (content : ByteArray) (headers : List (String × String))

def correlationHeaders (correlationId : String) : List (String × String) :=
  if correlationId = "" then [] else [("X-Correlation-ID", correlationId)]

def buildCookieAuthResponse (status : Nat) (safeBody : Json) (accessToken refreshToken : String)
    (settings : Settings) (correlationId : String) : Response :=
  .json status safeBody (correlationHeaders correlationId ++
    [("Set-Cookie", accessCookieHeader accessToken settings),
      ("Set-Cookie", refreshCookieHeader refreshToken settings)])

def buildLogoutResponse (settings : Settings) (correlationId : String) : Response :=
  .json 200 (.obj [("detail", .str "Logged out")]) (correlationHeaders correlationId ++
    (clearAuthCookiesHeaders settings).map fun clearing => ("Set-Cookie", clearing))

end CrediGuard.Gateway
