import CrediGuard.Applicants.Domain
import CrediGuard.Lib.JsonRoundTrip

/-!
The token service and the password hasher. What signs and what hashes is not
part of the repository: `Jose.encode` is the signature over a payload with the
service's private key, `Argon2` the salted hash and its verification.
-/

namespace CrediGuard.Applicants

/-- The integer part, towards zero. -/
def toInt (q : ℚ) : Int := if 0 ≤ q then ⌊q⌋ else ⌈q⌉

structure Jose where
  encode : Json → String

/-- Signatures over different payloads differ. -/
def Jose.Faithful (jose : Jose) : Prop :=
  ∀ p q, Json.Exact p → Json.Exact q → jose.encode p = jose.encode q → p = q

namespace JWTService

def accessTokenExpireMinutes : ℚ := 15

def refreshTokenExpireDays : ℚ := 7

def accessTokenLifetime : ℚ := accessTokenExpireMinutes * 60

def refreshTokenLifetime : ℚ := refreshTokenExpireDays * 86400

def accessPayload (applicantId : Uuid) (email : String) (now : Datetime) : Json :=
  .obj [("sub", .str applicantId.str), ("email", .str email), ("type", .str "access"),
    ("iat", .int (toInt now)), ("exp", .int (toInt (now + accessTokenLifetime)))]

def refreshPayload (applicantId : Uuid) (now : Datetime) : Json :=
  .obj [("sub", .str applicantId.str), ("type", .str "refresh"),
    ("iat", .int (toInt now)), ("exp", .int (toInt (now + refreshTokenLifetime)))]

variable (jose : Jose)

def createAccessToken (applicantId : Uuid) (email : String) (now : Datetime) : String :=
  jose.encode (accessPayload applicantId email now)

def createRefreshToken (applicantId : Uuid) (now : Datetime) : String :=
  jose.encode (refreshPayload applicantId now)

def getAccessTokenExpiry (now : Datetime) : Datetime := now + accessTokenLifetime

def getRefreshTokenExpiry (now : Datetime) : Datetime := now + refreshTokenLifetime

/-- Two clock readings a refresh token does not tell apart. -/
def SameSecond (s t : Datetime) : Prop :=
  toInt s = toInt t ∧ toInt (s + refreshTokenLifetime) = toInt (t + refreshTokenLifetime)

instance (s t : Datetime) : Decidable (SameSecond s t) := instDecidableAnd

theorem sameSecond_iff {s t : Datetime} (hs : 0 ≤ s) (ht : 0 ≤ t) :
    SameSecond s t ↔ ⌊s⌋ = ⌊t⌋ := by
  have hlife : refreshTokenLifetime = ((604800 : ℤ) : ℚ) := by
    norm_num [refreshTokenLifetime, refreshTokenExpireDays]
  have hnonneg (q : ℚ) (hq : 0 ≤ q) : 0 ≤ q + ((604800 : ℤ) : ℚ) := by
    push_cast
    linarith
  simp only [SameSecond, hlife, toInt, if_pos hs, if_pos ht, if_pos (hnonneg s hs),
    if_pos (hnonneg t ht), Int.floor_add_intCast]
  omega

theorem exact_refreshPayload (applicantId : Uuid) (now : Datetime) :
    Json.Exact (refreshPayload applicantId now) := by
  simp [refreshPayload, Json.Exact, Json.ExactPairs]

theorem refreshPayload_eq_iff {a b : Uuid} {s t : Datetime} :
    refreshPayload a s = refreshPayload b t ↔ a = b ∧ SameSecond s t := by
  simp [refreshPayload, SameSecond, Uuid.str_injective.eq_iff]

/-- A refresh token is its applicant and the second it was made in. -/
theorem createRefreshToken_eq_iff (h : jose.Faithful) {a b : Uuid} {s t : Datetime} :
    createRefreshToken jose a s = createRefreshToken jose b t ↔ a = b ∧ SameSecond s t := by
  rw [← refreshPayload_eq_iff]
  constructor
  · exact h _ _ (exact_refreshPayload a s) (exact_refreshPayload b t)
  · intro heq
    rw [createRefreshToken, createRefreshToken, heq]

end JWTService

inductive Argon2Error where
  | verifyMismatchError
  | hashingError
  | invalidHashError
  deriving DecidableEq

structure Argon2 where
  hash : BitVec 128 → String → String
  verify : String → String → Except Argon2Error Unit

namespace Argon2Hasher
variable (argon : Argon2)

def hash (salt : BitVec 128) (password : String) : String := argon.hash salt password

def verify (password passwordHash : String) : Except Error Bool :=
  match argon.verify passwordHash password with
  | .ok () => .ok true
  | .error .verifyMismatchError => .ok false
  | .error .hashingError => .ok false
  | .error .invalidHashError => .error .hashError

end Argon2Hasher

/-- A text verifies against the hash of a text just if it is that text. -/
def Argon2.Exact (argon : Argon2) : Prop :=
  ∀ salt p q, Argon2Hasher.verify argon p (argon.hash salt q) = .ok (decide (p = q))

section Samples

/-- A signature that spells its payload out. -/
def Jose.sample : Jose := ⟨Json.dumps⟩

theorem Jose.sample_faithful : Jose.sample.Faithful := by
  intro p q hp hq h
  have hloads : Json.loads p.dumps = Json.loads q.dumps := congrArg Json.loads h
  rw [Json.loads_dumps hp, Json.loads_dumps hq] at hloads
  exact Option.some.inj hloads

/-- A hash that spells its salt and its text out. -/
def Argon2.sample : Argon2 where
  hash salt p := String.ofList (List.replicate salt.toNat 's' ++ '$' :: p.toList)
  verify h p :=
    if (h.toList.dropWhile (· = 's')).tail = p.toList then .ok ()
    else .error .verifyMismatchError

theorem Argon2.sample_exact : Argon2.sample.Exact := by
  intro salt p q
  have hdrop : ((List.replicate salt.toNat 's' ++ '$' :: q.toList).dropWhile (· = 's')).tail =
      q.toList := by
    rw [List.dropWhile_append_of_pos (by simp)]
    rfl
  simp only [Argon2Hasher.verify, Argon2.sample, String.toList_ofList, hdrop]
  by_cases h : p = q
  · simp [h]
  · have hne : q.toList ≠ p.toList := fun heq => h (String.toList_injective heq).symm
    simp [h, hne]

end Samples

end CrediGuard.Applicants
