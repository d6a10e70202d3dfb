import CrediGuard.Applicants.Accounts
import CrediGuard.Gateway.Tokens

/-!
`GET /me`: `get_current_applicant_id` and `GetMeUseCase`.

Whoever shows the access token of a response sees the profile that was registered,
until the token expires and whatever the service did in between.
-/

namespace CrediGuard.Applicants
open ReadCommitted Statement

section Model

structure ApplicantResponse where
  id : Uuid
  email : String
  firstName : String
  lastName : String
  createdAt : Datetime
  deriving DecidableEq

/-- The e-mail validator behind `EmailStr`: the address of a text, or why it has none. -/
structure EmailValidator where
  validate : String → Except String String

variable (emails : EmailValidator) (tokens : TokenDecoder)

/-- A `ValidationError` is a `ValueError`. -/
def ApplicantResponse.of (applicant : Applicant) : Except Error ApplicantResponse :=
  match emails.validate applicant.email with
  | .error message => .error (.valueError message)
  | .ok email => .ok {
      id := applicant.id
      email := email
      firstName := applicant.firstName
      lastName := applicant.lastName
      createdAt := applicant.createdAt }

def GetMeUseCase.execute (t : Tx) (applicantId : Uuid) : Statement ApplicantResponse := do
  match ← ApplicantRepository.getById t applicantId with
  | none => Stmt.raise (.applicantNotFound applicantId.str)
  | some applicant => Stmt.ofExcept (ApplicantResponse.of emails applicant)

def getMe (authorization : Option String) (t : Tx) (w : World) :
    Except HTTPException (Outcome World Error ApplicantResponse) :=
  match getCurrentApplicantId tokens authorization with
  | .error e => .error e
  | .ok applicantId => .ok (GetMeUseCase.execute emails t applicantId w)

def ApplicantModel.profile (m : ApplicantModel) : ApplicantResponse :=
  ⟨m.id, m.email, m.firstName, m.lastName, m.createdAt⟩

/-- The addresses that were registered are in the form the validator gives them. -/
def NormalAddresses (s : State) : Prop :=
  ∀ n e request r, s.executions n = some e → e.call.operation = .register request r →
    emails.validate request.email = .ok request.email

end Model

section Lookup
variable {jose : Jose} {argon : Argon2} {s : State} {t : Tx} {emails : EmailValidator}

/-- The row with the id of a stored account is the account. -/
theorem AccountInv.filter_id (h : AccountInv jose argon s) {m : ApplicantModel}
    (hm : m ∈ s.world.applicants.committed) :
    s.world.applicants.committed.filter (fun x => x.id = m.id) = [m] := by
  refine h.unique.filter_eq_singleton (fun a b ha hb => ?_) hm (decide_eq_true rfl)
  simp [ApplicantModel.clash, of_decide_eq_true ha, of_decide_eq_true hb]

theorem AccountInv.byId (h : AccountInv jose argon s)
    (hws : s.world.applicants.writes t = []) {m : ApplicantModel}
    (hm : m ∈ s.world.applicants.committed) :
    (s.world.applicants.visible t).filter (fun x => x.id = m.id) = [m] := by
  rw [Table.visible_of_writes_nil hws]
  exact h.filter_id hm

theorem NormalAddresses.validate (h : NormalAddresses emails s) {email password : String}
    {m : ApplicantModel} (hm : Registered argon s email password m) :
    emails.validate m.email = .ok m.email := by
  obtain ⟨k, e, request, r, _, he, hop, _, _, _, rfl⟩ := hm
  exact h k e request r he hop

theorem AccountInv.execute_getMe (h : AccountInv jose argon s)
    (hemails : NormalAddresses emails s) (hws : s.world.applicants.writes t = [])
    {m : ApplicantModel} (hm : m ∈ s.world.applicants.committed) :
    GetMeUseCase.execute emails t m.id s.world = .returns m.profile s.world := by
  have hfound := getById_of_filter (some m) (h.byId hws hm)
  obtain ⟨password, hregistered⟩ := h.accounts m hm
  have hvalidate : emails.validate (ApplicantRepository.toEntity m).email = .ok m.email :=
    hemails.validate hregistered
  rw [GetMeUseCase.execute, Stmt.bind_of_returns hfound]
  simp only [Option.map_some, ApplicantResponse.of, hvalidate, Stmt.ofExcept_ok]
  rfl

end Lookup

section Header
variable {tokens : TokenDecoder} {token : String} {applicantId : Uuid} {email : Json}

theorem getCurrentApplicantId_bearer
    (h : decodeAccessToken tokens token = some (applicantId, email)) :
    getCurrentApplicantId tokens (some ("Bearer " ++ token)) = .ok applicantId := by
  have hlist : ("Bearer " ++ token).toList = "Bearer ".toList ++ token.toList :=
    String.toList_append
  have hprefix : "Bearer ".toList.isPrefixOf ("Bearer " ++ token).toList = true := by
    rw [hlist]
    exact List.isPrefixOf_iff_prefix.mpr (List.prefix_append ..)
  have hdrop : String.ofList (("Bearer " ++ token).toList.drop 7) = token := by
    rw [hlist]
    exact String.ofList_toList
  simp only [getCurrentApplicantId, hprefix, if_true, hdrop, h]

end Header

section Runs
variable {jose : Jose} {argon : Argon2} {labels : List Label} {h : Ledger}

/-- Tokens that were returned were made for a stored account. -/
theorem AccountInv.account_of_mint (hinv : AccountInv jose argon h.state)
    (hledger : LedgerInv jose h) (hfaithful : jose.Faithful) {m : Mint} (hm : m ∈ h.minted)
    {e : Execution} {a : TokenResponse} (he : h.state.executions m.execution = some e)
    (ha : e.progress = .returned a) :
    ∃ account ∈ h.state.world.applicants.committed, account.id = m.applicant.id := by
  have hcur := hinv.present m.execution e he
  rw [ha] at hcur
  obtain ⟨_, account, haccount, hresponse, _⟩ := hcur
  refine ⟨account, haccount, ?_⟩
  have htokens : tokenResponse jose m.applicant m.draws =
      tokenResponse jose (ApplicantRepository.toEntity account) e.call.draws :=
    (hledger.response_eq hm he ha).symm.trans hresponse
  have hrefresh : JWTService.createRefreshToken jose m.applicant.id m.draws.refreshAt =
      JWTService.createRefreshToken jose account.id e.call.draws.refreshAt :=
    congrArg TokenResponse.refreshToken htokens
  exact ((JWTService.createRefreshToken_eq_iff jose hfaithful).mp hrefresh).1.symm

theorem AccountInv.of_ledger_run (hargon : argon.Exact)
    (hrun : Runs.run (Ledger.step jose argon) ⟨.init, []⟩ labels = some h) :
    AccountInv jose argon h.state := by
  refine Runs.invariant (I := fun h => AccountInv jose argon h.state) ?_ .init hrun
  intro h l h' hinv hstep
  obtain ⟨s', hs', rfl⟩ := Option.map_eq_some_iff.mp hstep
  exact (hinv.step hargon hs').1

/-- A live access token of a response leads to the account the response is for. -/
theorem profile_of_run (hfaithful : jose.Faithful) (hargon : argon.Exact)
    (hrun : Runs.run (Ledger.step jose argon) ⟨.init, []⟩ labels = some h)
    {now : Datetime} {tokens : TokenDecoder}
    (htokens : tokens.decode = Gateway.decodeSigned jose h.signed now)
    {emails : EmailValidator} (hemails : NormalAddresses emails h.state) {n : Nat}
    {e : Execution} {a : TokenResponse} (he : h.state.executions n = some e)
    (ha : e.progress = .returned a)
    (hlive : ⌊now⌋ ≤ toInt (e.call.draws.accessAt + JWTService.accessTokenLifetime)) {t : Tx}
    (hws : h.state.world.applicants.writes t = []) :
    ∃ m password, Registered argon h.state m.email password m ∧
      Entitled jose argon h.state m e.call.operation ∧
      getMe emails tokens (some ("Bearer " ++ a.accessToken)) t h.state.world =
        .ok (.returns m.profile h.state.world) := by
  have hinv := AccountInv.of_ledger_run hargon hrun
  have hledger : LedgerInv jose h := LedgerInv.of_run ⟨rfl, rfl, rfl, fun _ => rfl⟩ hrun
  have hcur := hinv.present n e he
  rw [ha] at hcur
  obtain ⟨_, m, hm, hresponse, hentitled⟩ := hcur
  obtain ⟨password, hregistered⟩ := hinv.accounts m hm
  refine ⟨m, password, hregistered, hentitled, ?_⟩
  -- the token is one the execution has made
  have hmade := hledger.present n e he
  rw [ha] at hmade
  obtain ⟨applicant, hmints, hresponse'⟩ := hmade
  have hmint : (⟨n, applicant, e.call.draws⟩ : Mint) ∈ mintsOf h.minted n := by
    rw [hmints]
    exact List.mem_singleton_self _
  have htoken : a.accessToken = Mint.accessToken jose ⟨n, applicant, e.call.draws⟩ := by
    rw [hresponse']
    rfl
  have hdecode : tokens.decode a.accessToken =
      some (Gateway.accessClaims ⟨n, applicant, e.call.draws⟩) := by
    rw [htokens]
    exact Gateway.decode_access hfaithful (mem_mintsOf.mp hmint).1 htoken.symm hlive
  have happlicant : applicant.id = m.id := by
    have hrefresh : JWTService.createRefreshToken jose applicant.id e.call.draws.refreshAt =
        JWTService.createRefreshToken jose m.id e.call.draws.refreshAt :=
      congrArg TokenResponse.refreshToken (hresponse'.symm.trans hresponse)
    exact ((JWTService.createRefreshToken_eq_iff jose hfaithful).mp hrefresh).1
  have hid := getCurrentApplicantId_bearer (Gateway.decodeAccessToken_access hdecode)
  simp only [getMe, hid, happlicant]
  rw [hinv.execute_getMe hemails hws hm]

end Runs

section Registration

def EmailValidator.sample : EmailValidator := ⟨.ok⟩

def Progress.response? : Progress → Option TokenResponse
  | .returned response => some response
  | _ => none

theorem Progress.returned_of_isSome {p : Progress} (h : (response? p).isSome = true) :
    ∃ a, p = .returned a := by
  cases p with
  | returned a => exact ⟨a, rfl⟩
  | running _ | committing _ | aborting _ | raised _ => contradiction

theorem profile_registration : ∃ h,
    Runs.run (Ledger.step .sample .sample) ⟨.init, []⟩ registrationLabels = some h ∧
    ∃ e a, h.state.executions 2 = some e ∧ e.progress = .returned a ∧
      ∃ m password, Registered .sample h.state m.email password m ∧
        Entitled .sample .sample h.state m e.call.operation ∧
        getMe .sample ⟨Gateway.decodeSigned .sample h.signed 3, fun _ => ""⟩
            (some ("Bearer " ++ a.accessToken)) 9 h.state.world =
          .ok (.returns m.profile h.state.world) := by
  have heval : (Runs.run (Ledger.step .sample .sample) ⟨.init, []⟩ registrationLabels).map
      (fun h => (h.state.executions 2).map fun e =>
        ((Progress.response? e.progress).isSome,
          decide (⌊(3 : Datetime)⌋ ≤ toInt (e.call.draws.accessAt +
            JWTService.accessTokenLifetime)))) = some (some (true, true)) := by decide +kernel
  obtain ⟨h, hrun, heval⟩ := Option.map_eq_some_iff.mp heval
  obtain ⟨e, he, heval⟩ := Option.map_eq_some_iff.mp heval
  obtain ⟨hresponse, hlive⟩ := Prod.mk.inj heval
  have hempty : (Runs.run (Ledger.step .sample .sample) ⟨.init, []⟩ registrationLabels).map
      (fun h => h.state.world.applicants.pending.isEmpty) = some true := by decide +kernel
  rw [hrun] at hempty
  have hws := Table.writes_of_pending_nil 9
    (List.isEmpty_iff.mp (Option.some.inj hempty))
  obtain ⟨a, hp⟩ := Progress.returned_of_isSome hresponse
  exact ⟨h, hrun, e, a, he, hp, profile_of_run Jose.sample_faithful Argon2.sample_exact hrun
    rfl (fun _ _ _ _ _ _ => rfl) he hp (of_decide_eq_true hlive) hws⟩

end Registration

end CrediGuard.Applicants
