import CrediGuard.Applicants.Persistence
import CrediGuard.Applicants.Security

/-!
`RegisterUseCase`, `LoginUseCase` and `RefreshTokenUseCase`, in direct style and
cut at their awaits.

The values a body draws (fresh uuids, salts, clock readings, the order of the
rows of a query) are part of the call.
-/

namespace CrediGuard.Applicants
open ReadCommitted

/-- What `RegisterUseCase` draws before it makes tokens. -/
structure RegisterDraws where
  salt : BitVec 128
  applicantId : Uuid
  createdAt : Datetime
  updatedAt : Datetime

/-- What `RefreshTokenUseCase` draws before it makes tokens. -/
structure RefreshDraws where
  now : Datetime
  order : RowOrder
  revokedAt : Datetime

/-- What the making of a pair of tokens draws, in this order. -/
structure TokenDraws where
  accessAt : Datetime
  refreshAt : Datetime
  salt : BitVec 128
  expiryAt : Datetime
  tokenId : Uuid
  createdAt : Datetime
  accessExpiryAt : Datetime
  respondedAt : Datetime

/-- Tokens made at one instant, with `n` for the salt and the id. -/
def TokenDraws.at (now : Datetime) (n : BitVec 128) : TokenDraws :=
  ⟨now, now, n, now, ⟨n⟩, now, now, now⟩

inductive Operation where
  | register (request : RegisterRequest) (d : RegisterDraws)
  | login (request : LoginRequest)
  | refresh (request : RefreshTokenRequest) (d : RefreshDraws)

structure Call where
  operation : Operation
  draws : TokenDraws

variable (jose : Jose) (argon : Argon2)

def newApplicant (request : RegisterRequest) (d : RegisterDraws) : Applicant :=
  { email := request.email
    passwordHash := Argon2Hasher.hash argon d.salt request.password
    firstName := request.firstName
    lastName := request.lastName
    id := d.applicantId
    createdAt := d.createdAt
    updatedAt := d.updatedAt }

def refreshTokenEntity (applicantId : Uuid) (d : TokenDraws) : RefreshToken :=
  { applicantId := applicantId
    tokenHash := Argon2Hasher.hash argon d.salt
      (JWTService.createRefreshToken jose applicantId d.refreshAt)
    expiresAt := JWTService.getRefreshTokenExpiry d.expiryAt
    id := d.tokenId
    createdAt := d.createdAt }

def tokenResponse (applicant : Applicant) (d : TokenDraws) : TokenResponse :=
  { accessToken := JWTService.createAccessToken jose applicant.id applicant.email d.accessAt
    refreshToken := JWTService.createRefreshToken jose applicant.id d.refreshAt
    expiresIn := toInt (JWTService.getAccessTokenExpiry d.accessExpiryAt - d.respondedAt) }

/-- The first of the tokens whose hash verifies the text. -/
def firstVerified (text : String) : List RefreshToken → Except Error (Option RefreshToken)
  | [] => .ok none
  | token :: tokens =>
      match Argon2Hasher.verify argon text token.tokenHash with
      | .error e => .error e
      | .ok true => .ok (some token)
      | .ok false => firstVerified text tokens

section DirectStyle
variable (t : Tx) (d : TokenDraws)

/-- The lines the three use cases share. -/
def issueTokens (applicant : Applicant) : Statement TokenResponse := do
  RefreshTokenRepository.save t (refreshTokenEntity jose argon applicant.id d)
  pure (tokenResponse jose applicant d)

def register (request : RegisterRequest) (r : RegisterDraws) : Statement TokenResponse := do
  if ← ApplicantRepository.existsByEmail t request.email then
    Stmt.raise (.emailAlreadyRegistered request.email)
  else do
    ApplicantRepository.save t (newApplicant argon request r)
    issueTokens jose argon t d (newApplicant argon request r)

def login (request : LoginRequest) : Statement TokenResponse := do
  match ← ApplicantRepository.getByEmail t request.email with
  | none => Stmt.raise .invalidCredentials
  | some applicant => do
      if ← Stmt.ofExcept (Argon2Hasher.verify argon request.password applicant.passwordHash) then
        issueTokens jose argon t d applicant
      else Stmt.raise .invalidCredentials

def refresh (request : RefreshTokenRequest) (r : RefreshDraws) : Statement TokenResponse := do
  let tokens ← RefreshTokenRepository.getAllValid t r.order r.now
  match ← Stmt.ofExcept (firstVerified argon request.refreshToken tokens) with
  | none => Stmt.raise .invalidRefreshToken
  | some token =>
      if token.isValid r.now then do
        RefreshTokenRepository.update t (token.revoke r.revokedAt)
        match ← ApplicantRepository.getById t token.applicantId with
        | none => Stmt.raise .invalidRefreshToken
        | some applicant => issueTokens jose argon t d applicant
      else Stmt.raise .refreshTokenRevoked

def execute (c : Call) : Statement TokenResponse :=
  match c.operation with
  | .register request r => register jose argon t c.draws request r
  | .login request => login jose argon t c.draws request
  | .refresh request r => refresh jose argon t c.draws request r

end DirectStyle

section Phases

/-- The awaits of the bodies, each named by the statement that runs next. -/
inductive Phase where
  | existsByEmail (request : RegisterRequest) (r : RegisterDraws)
  | saveApplicant (applicant : Applicant)
  | getByEmail (request : LoginRequest)
  | getAllValid (request : RefreshTokenRequest) (r : RefreshDraws)
  | update (token : RefreshToken)
  | getById (token : RefreshToken)
  | saveToken (applicant : Applicant)

def Operation.start : Operation → Phase
  | .register request r => .existsByEmail request r
  | .login request => .getByEmail request
  | .refresh request r => .getAllValid request r

variable (t : Tx) (d : TokenDraws)

def resume : Phase → Statement (Phase ⊕ TokenResponse)
  | .existsByEmail request r => do
      if ← ApplicantRepository.existsByEmail t request.email then
        Stmt.raise (.emailAlreadyRegistered request.email)
      else pure (.inl (.saveApplicant (newApplicant argon request r)))
  | .saveApplicant applicant => do
      ApplicantRepository.save t applicant
      pure (.inl (.saveToken applicant))
  | .getByEmail request => do
      match ← ApplicantRepository.getByEmail t request.email with
      | none => Stmt.raise .invalidCredentials
      | some applicant => do
          if ← Stmt.ofExcept (Argon2Hasher.verify argon request.password applicant.passwordHash)
          then pure (.inl (.saveToken applicant))
          else Stmt.raise .invalidCredentials
  | .getAllValid request r => do
      let tokens ← RefreshTokenRepository.getAllValid t r.order r.now
      match ← Stmt.ofExcept (firstVerified argon request.refreshToken tokens) with
      | none => Stmt.raise .invalidRefreshToken
      | some token =>
          if token.isValid r.now then pure (.inl (.update (token.revoke r.revokedAt)))
          else Stmt.raise .refreshTokenRevoked
  | .update token => do
      RefreshTokenRepository.update t token
      pure (.inl (.getById token))
  | .getById token => do
      match ← ApplicantRepository.getById t token.applicantId with
      | none => Stmt.raise .invalidRefreshToken
      | some applicant => pure (.inl (.saveToken applicant))
  | .saveToken applicant => do
      RefreshTokenRepository.save t (refreshTokenEntity jose argon applicant.id d)
      pure (.inr (tokenResponse jose applicant d))

open RefreshTokenRepository in
/-- What a statement of a body that does not raise has done. -/
def Does (w : World) : Phase → Phase ⊕ TokenResponse → World → Prop
  | .existsByEmail request r, next, w' =>
      w' = w ∧ next = .inl (.saveApplicant (newApplicant argon request r)) ∧
        (w.applicants.visible t).filter (fun m => m.email = request.email) = []
  | .saveApplicant applicant, next, w' =>
      next = .inl (.saveToken applicant) ∧ ∃ applicants,
        w.applicants.insert ApplicantModel.clash t (ApplicantRepository.toModel applicant) =
          .done applicants ∧ w' = { w with applicants := applicants }
  | .getByEmail request, next, w' =>
      w' = w ∧ ∃ model, (w.applicants.visible t).filter (fun m => m.email = request.email) =
          [model] ∧
        Argon2Hasher.verify argon request.password model.passwordHash = .ok true ∧
        next = .inl (.saveToken (ApplicantRepository.toEntity model))
  | .getAllValid request r, next, w' =>
      w' = w ∧ ∃ m ∈ w.refreshTokens.visible t, isValid r.now m = true ∧
        Argon2Hasher.verify argon request.refreshToken m.tokenHash = .ok true ∧
        next = .inl (.update ((toEntity m).revoke r.revokedAt))
  | .update token, next, w' =>
      next = .inl (.getById token) ∧ (∃ m ∈ w.refreshTokens.visible t, m.id = token.id) ∧
        (∀ l ∈ w.locks, l.1 = token.id → l.2 = t) ∧
        w' = { w with
          refreshTokens := w.refreshTokens.write t (.update (overwrite token))
          locks := (token.id, t) :: w.locks }
  | .getById token, next, w' =>
      w' = w ∧ ∃ model, (w.applicants.visible t).filter (fun m => m.id = token.applicantId) =
          [model] ∧ next = .inl (.saveToken (ApplicantRepository.toEntity model))
  | .saveToken applicant, next, w' =>
      next = .inr (tokenResponse jose applicant d) ∧ ∃ tokens,
        w.refreshTokens.insert RefreshTokenModel.clash t
          (toModel (refreshTokenEntity jose argon applicant.id d)) = .done tokens ∧
        w' = { w with refreshTokens := tokens }

variable {argon} in
theorem firstVerified_eq_some {text : String} {tokens : List RefreshToken} {token : RefreshToken}
    (h : firstVerified argon text tokens = .ok (some token)) :
    token ∈ tokens ∧ Argon2Hasher.verify argon text token.tokenHash = .ok true := by
  induction tokens with
  | nil => simp [firstVerified] at h
  | cons a tokens ih =>
      simp only [firstVerified] at h
      cases hv : Argon2Hasher.verify argon text a.tokenHash with
      | error e => simp [hv] at h
      | ok b =>
          cases b with
          | true =>
              simp only [hv, Except.ok.injEq, Option.some.injEq] at h
              subst h
              exact ⟨List.mem_cons_self .., hv⟩
          | false =>
              simp only [hv] at h
              exact ⟨List.mem_cons_of_mem _ (ih h).1, (ih h).2⟩

theorem resume_ensures (w : World) (p : Phase) :
    Stmt.Ensures (resume jose argon t d p) w (Does jose argon t d w p) (fun _ w' => w' = w) := by
  cases p with
  | existsByEmail request r =>
      refine Stmt.Ensures.seq (existsByEmail_ensures request.email) ?_ fun _ _ h => h
      rintro found w' ⟨rfl, hfound⟩
      cases found with
      | true => exact rfl
      | false => exact ⟨rfl, rfl, hfound.mp rfl⟩
  | saveApplicant applicant =>
      refine Stmt.Ensures.seq (saveApplicant_ensures applicant) ?_ fun _ _ h => h
      rintro _ w' ⟨applicants, hinsert, rfl⟩
      exact ⟨rfl, applicants, hinsert, rfl⟩
  | getByEmail request =>
      refine Stmt.Ensures.seq (getOne_ensures _) ?_ fun _ _ h => h
      rintro found w' ⟨rfl, model, hrows, rfl⟩
      cases model with
      | none => exact rfl
      | some model =>
          refine Stmt.Ensures.seq (Stmt.ofExcept_ensures _) ?_ fun _ _ h => h.1
          rintro verified w'' ⟨rfl, hverify⟩
          cases verified with
          | true => exact ⟨rfl, model, hrows, hverify, rfl⟩
          | false => exact rfl
  | getAllValid request r =>
      refine Stmt.Ensures.bind (x := Stmt.read _) ?_
      refine Stmt.Ensures.seq (Stmt.ofExcept_ensures _) ?_ fun _ _ h => h.1
      rintro found w' ⟨rfl, hfound⟩
      cases found with
      | none => exact rfl
      | some token =>
          obtain ⟨hmem, hverify⟩ := firstVerified_eq_some hfound
          obtain ⟨m, hm, rfl⟩ := List.mem_map.mp hmem
          have hrow := List.mem_filter.mp ((r.order.perm _).subset hm)
          dsimp only
          split
          · exact ⟨rfl, m, hrow.1, hrow.2, hverify, rfl⟩
          · exact rfl
  | update token =>
      refine Stmt.Ensures.seq (update_ensures token) ?_ fun _ _ h => h
      rintro _ w' ⟨hrow, hlocks, rfl⟩
      exact ⟨rfl, hrow, hlocks, rfl⟩
  | getById token =>
      refine Stmt.Ensures.seq (getOne_ensures _) ?_ fun _ _ h => h
      rintro found w' ⟨rfl, model, hrows, rfl⟩
      cases model with
      | none => exact rfl
      | some model => exact ⟨rfl, model, hrows, rfl⟩
  | saveToken applicant =>
      refine Stmt.Ensures.seq (saveToken_ensures _) ?_ fun _ _ h => h
      rintro _ w' ⟨tokens, hinsert, rfl⟩
      exact ⟨rfl, tokens, hinsert, rfl⟩

section Iterate
variable (fuel : Nat)

private theorem iterate_saveToken (applicant : Applicant) :
    Stmt.iterate (resume jose argon t d) (fuel + 1) (.saveToken applicant) =
      issueTokens jose argon t d applicant := by
  simp only [Stmt.iterate_succ, resume, issueTokens, bind_assoc, pure_bind, Sum.elim_inr]

private theorem iterate_register (request : RegisterRequest) (r : RegisterDraws) :
    Stmt.iterate (resume jose argon t d) (fuel + 3) (.existsByEmail request r) =
      register jose argon t d request r := by
  simp only [Stmt.iterate_succ (fuel + 2), resume, register, bind_assoc]
  congr 1
  funext found
  cases found with
  | true => rfl
  | false =>
      simp only [Bool.false_eq_true, if_false, pure_bind, Sum.elim_inl,
        Stmt.iterate_succ (fuel + 1), resume, bind_assoc, iterate_saveToken]

private theorem iterate_login (request : LoginRequest) :
    Stmt.iterate (resume jose argon t d) (fuel + 2) (.getByEmail request) =
      login jose argon t d request := by
  simp only [Stmt.iterate_succ (fuel + 1), resume, login, bind_assoc]
  congr 1
  funext found
  cases found with
  | none => rfl
  | some applicant =>
      simp only [bind_assoc]
      congr 1
      funext verified
      cases verified with
      | true =>
          simp only [if_true, pure_bind, Sum.elim_inl, iterate_saveToken]
      | false => rfl

private theorem iterate_refresh (request : RefreshTokenRequest) (r : RefreshDraws) :
    Stmt.iterate (resume jose argon t d) (fuel + 4) (.getAllValid request r) =
      refresh jose argon t d request r := by
  simp only [Stmt.iterate_succ (fuel + 3), resume, refresh, bind_assoc]
  congr 1
  funext tokens
  congr 1
  funext found
  cases found with
  | none => rfl
  | some token =>
      dsimp only
      split
      · simp only [pure_bind, Sum.elim_inl, Stmt.iterate_succ (fuel + 2), resume, bind_assoc,
          Stmt.iterate_succ (fuel + 1)]
        congr 1
        funext _
        congr 1
        funext applicant
        cases applicant with
        | none => rfl
        | some applicant => simp only [pure_bind, Sum.elim_inl, iterate_saveToken]
      · rfl

/-- Run without interference, the phases are `execute`. -/
theorem iterate_start (c : Call) :
    Stmt.iterate (resume jose argon t c.draws) (fuel + 4) c.operation.start =
      execute jose argon t c := by
  obtain ⟨operation, draws⟩ := c
  cases operation with
  | register request r => exact iterate_register jose argon t draws (fuel + 1) request r
  | login request => exact iterate_login jose argon t draws (fuel + 2) request
  | refresh request r => exact iterate_refresh jose argon t draws fuel request r

end Iterate
end Phases

end CrediGuard.Applicants
