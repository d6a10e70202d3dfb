import CrediGuard.Lib.Calendar
import CrediGuard.Lib.Uuid

/-!
The applicant domain: applicants, their refresh tokens (stored hashed), the
requests and responses of the auth routes.
-/

namespace CrediGuard.Applicants

structure Applicant where
  email : String
  passwordHash : String
  firstName : String
  lastName : String
  id : Uuid
  createdAt : Datetime
  updatedAt : Datetime
  deriving DecidableEq

structure RefreshToken where
  applicantId : Uuid
  tokenHash : String
  expiresAt : Datetime
  id : Uuid
  createdAt : Datetime
  revokedAt : Option Datetime := none
  deriving DecidableEq

namespace RefreshToken

def isValid (token : RefreshToken) (now : Datetime) : Bool :=
  token.revokedAt.isNone && now < token.expiresAt

def revoke (token : RefreshToken) (now : Datetime) : RefreshToken :=
  { token with revokedAt := some now }

end RefreshToken

/-- The exceptions the service raises, its own and those of what it calls. -/
inductive Error where
  | applicantNotFound (applicantId : String)
  | emailAlreadyRegistered (email : String)
  | invalidCredentials
  | invalidRefreshToken
  | refreshTokenRevoked
  | valueError (message : String)
  | hashError
  | multipleResultsFound
  | integrityError
  | dataError
  | connectionError
  deriving DecidableEq

/-- The address is what the e-mail validator made of the text of the request. -/
structure RegisterRequest where
  email : String
  password : String
  firstName : String
  lastName : String
  password_length : 8 ≤ password.length ∧ password.length ≤ 128
  firstName_length : 1 ≤ firstName.length ∧ firstName.length ≤ 100
  lastName_length : 1 ≤ lastName.length ∧ lastName.length ≤ 100

structure LoginRequest where
  email : String
  password : String

structure RefreshTokenRequest where
  refreshToken : String

structure TokenResponse where
  accessToken : String
  refreshToken : String
  tokenType : String := "bearer"
  expiresIn : Int
  deriving DecidableEq

end CrediGuard.Applicants
