import CrediGuard.Applicants.Rotation
import CrediGuard.Applicants.RotationFrame

/-!
The accounts of the applicant service.

An account is stored by the registration that is answered for it, and never changes.
Whoever is answered is answered for one stored account: the registered one, the one
registered with the credentials of the login, the one the refresh token was given for.
-/

namespace CrediGuard.Applicants
open ReadCommitted

section Model
variable (jose : Jose) (argon : Argon2)

/-- Empty tables. -/
def State.init : State := ⟨⟨⟨[], []⟩, ⟨[], []⟩, []⟩, fun _ => none, []⟩

/-- A call that has returned has registered the account with these credentials. -/
def Registered (s : State) (email password : String) (m : ApplicantModel) : Prop :=
  ∃ k e request r a, s.executions k = some e ∧ e.call.operation = .register request r ∧
    e.progress = .returned a ∧ request.email = email ∧ request.password = password ∧
    m = ApplicantRepository.toModel (newApplicant argon request r)

/-- A call has returned the refresh token `text` for the account. -/
def Given (s : State) (m : ApplicantModel) (text : String) : Prop :=
  ∃ k e a, s.executions k = some e ∧ e.progress = .returned a ∧ a.refreshToken = text ∧
    a = tokenResponse jose (ApplicantRepository.toEntity m) e.call.draws

/-- Why a call is answered for the account `m`. -/
def Entitled (s : State) (m : ApplicantModel) : Operation → Prop
  | .register request r => m = ApplicantRepository.toModel (newApplicant argon request r)
  | .login request => Registered argon s request.email request.password m
  | .refresh request _ => Given jose s m request.refreshToken

/-- A login of a transaction without writes goes on just for what was registered. -/
structure LoginDecided (s : State) (t : Tx) (d : TokenDraws) (request : LoginRequest) : Prop where
  accepts : ∀ m, resume jose argon t d (.getByEmail request) s.world =
      .returns (.inl (.saveToken (ApplicantRepository.toEntity m))) s.world ↔
    Registered argon s request.email request.password m
  refuses : (∀ m, ¬ Registered argon s request.email request.password m) →
    resume jose argon t d (.getByEmail request) s.world = .raises .invalidCredentials s.world

structure Accounts (s : State) : Prop where
  unique : s.world.applicants.committed.Pairwise fun a b => a.id ≠ b.id ∧ a.email ≠ b.email
  registered : ∀ m ∈ s.world.applicants.committed, ∃ password,
    Registered argon s m.email password m
  answered : ∀ n e a, s.executions n = some e → e.progress = .returned a →
    ∃ m ∈ s.world.applicants.committed,
      a = tokenResponse jose (ApplicantRepository.toEntity m) e.call.draws ∧
      Entitled jose argon s m e.call.operation
  login : ∀ t d request, s.world.applicants.writes t = [] → LoginDecided jose argon s t d request
  register : ∀ t d request r, s.world.applicants.writes t = [] →
    (resume jose argon t d (.existsByEmail request r) s.world =
        .raises (.emailAlreadyRegistered request.email) s.world ↔
      ∃ password m, Registered argon s request.email password m)

/-- A step stores accounts and changes none. -/
def AppendsAccounts (s : State) (l : Label) : Prop :=
  ∀ s', step jose argon s l = some s' →
    s.world.applicants.committed <+: s'.world.applicants.committed

end Model

section Invariant
variable (jose : Jose) (argon : Argon2)

/-- The token is that of a stored row. -/
def Backed (s : State) (token : RefreshToken) : Prop :=
  ∃ m ∈ s.rows, rowKey m = (token.id, token.applicantId, token.tokenHash)

/-- The account with the id was given the refresh token `text`. -/
def Bearer (s : State) (applicantId : Uuid) (text : String) : Prop :=
  ∃ m ∈ s.world.applicants.committed, m.id = applicantId ∧ Given jose s m text

/-- A call that is about to make tokens for the applicant. -/
def Opens (s : State) (applicant : Applicant) (ws : List (Write ApplicantModel)) :
    Operation → Prop
  | .register request r => applicant = newApplicant argon request r ∧
      ws = [.insert (ApplicantRepository.toModel applicant)]
  | .login request => ws = [] ∧ ∃ m ∈ s.world.applicants.committed,
      applicant = ApplicantRepository.toEntity m ∧ Registered argon s request.email
        request.password m
  | .refresh request _ => ws = [] ∧ ∃ m ∈ s.world.applicants.committed,
      applicant = ApplicantRepository.toEntity m ∧ Given jose s m request.refreshToken

/-- What a call has written before it stores its own token. -/
def Revokes (s : State) (ws : List (Write RefreshTokenModel)) : Prop :=
  ws = [] ∨ ∃ token, Backed s token ∧ ws = [.update (RefreshTokenRepository.overwrite token)]

/-- What holds of a call and its writes to the two tables at a phase. -/
def AccountPhase (s : State) (operation : Operation) (ws : List (Write ApplicantModel))
    (ts : List (Write RefreshTokenModel)) : Phase → Prop
  | .existsByEmail request r => operation = .register request r ∧ ws = [] ∧ ts = []
  | .saveApplicant applicant => ∃ request r, operation = .register request r ∧
      applicant = newApplicant argon request r ∧ ws = [] ∧ ts = []
  | .getByEmail request => operation = .login request ∧ ws = [] ∧ ts = []
  | .getAllValid request r => operation = .refresh request r ∧ ws = [] ∧ ts = []
  | .update token => ∃ request r, operation = .refresh request r ∧ Backed s token ∧
      Bearer jose s token.applicantId request.refreshToken ∧ ws = [] ∧ ts = []
  | .getById token => ∃ request r, operation = .refresh request r ∧ Revokes s ts ∧
      Bearer jose s token.applicantId request.refreshToken ∧ ws = []
  | .saveToken applicant => Opens jose argon s applicant ws operation ∧ Revokes s ts

def AccountProgress (s : State) (c : Call) (ws : List (Write ApplicantModel))
    (ts : List (Write RefreshTokenModel)) : Progress → Prop
  | .running p => AccountPhase jose argon s c.operation ws ts p
  | .committing a => ∃ applicant before, a = tokenResponse jose applicant c.draws ∧
      Opens jose argon s applicant ws c.operation ∧ Revokes s before ∧
      ts = before ++ [.insert (RefreshTokenRepository.toModel
        (refreshTokenEntity jose argon applicant.id c.draws))]
  | .aborting _ => True
  | .returned a => (ws = [] ∧ ts = []) ∧ ∃ m ∈ s.world.applicants.committed,
      a = tokenResponse jose (ApplicantRepository.toEntity m) c.draws ∧
      Entitled jose argon s m c.operation
  | .raised _ => ws = [] ∧ ts = []

structure AccountInv (s : State) : Prop where
  unique : s.world.applicants.Unique ApplicantModel.clash
  ids : s.world.refreshTokens.Unique sameId
  overwrites : Overwrites s.world.refreshTokens.pending
  accounts : ∀ m ∈ s.world.applicants.committed, ∃ password, Registered argon s m.email password m
  tokens : ∀ m ∈ s.rows, ∃ text, RowOf argon m text ∧ Bearer jose s m.applicantId text
  absent : ∀ n, s.executions n = none →
    s.world.applicants.writes n = [] ∧ s.world.refreshTokens.writes n = []
  present : ∀ n e, s.executions n = some e → AccountProgress jose argon s e.call
    (s.world.applicants.writes n) (s.world.refreshTokens.writes n) e.progress

/-- Answers, accounts and tokens stay. -/
structure Grows (s s' : State) : Prop where
  returned : ∀ k e a, s.executions k = some e → e.progress = .returned a →
    s'.executions k = some e
  accounts : s.world.applicants.committed <+: s'.world.applicants.committed
  rows : ∀ m ∈ s.rows, ∃ m' ∈ s'.rows, rowKey m' = rowKey m

section Mono
variable {jose argon} {s s' : State} {m : ApplicantModel} {c : Call}
  {ws : List (Write ApplicantModel)} {ts : List (Write RefreshTokenModel)}

theorem Registered.mono {email password : String} (h : Registered argon s email password m)
    (hgrows : Grows s s') : Registered argon s' email password m := by
  obtain ⟨k, e, request, r, a, he, hop, hp, hrest⟩ := h
  exact ⟨k, e, request, r, a, hgrows.returned k e a he hp, hop, hp, hrest⟩

theorem Given.mono {text : String} (h : Given jose s m text) (hgrows : Grows s s') :
    Given jose s' m text := by
  obtain ⟨k, e, a, he, hp, hrest⟩ := h
  exact ⟨k, e, a, hgrows.returned k e a he hp, hp, hrest⟩

theorem Bearer.mono {applicantId : Uuid} {text : String} (h : Bearer jose s applicantId text)
    (hgrows : Grows s s') : Bearer jose s' applicantId text := by
  obtain ⟨m, hm, hid, hgiven⟩ := h
  exact ⟨m, hgrows.accounts.subset hm, hid, hgiven.mono hgrows⟩

theorem Entitled.mono {operation : Operation} (h : Entitled jose argon s m operation)
    (hgrows : Grows s s') : Entitled jose argon s' m operation := by
  cases operation with
  | register request r => exact h
  | login request => exact Registered.mono h hgrows
  | refresh request r => exact Given.mono h hgrows

theorem Backed.mono {token : RefreshToken} (h : Backed s token) (hgrows : Grows s s') :
    Backed s' token := by
  obtain ⟨m, hm, hkey⟩ := h
  obtain ⟨m', hm', hkey'⟩ := hgrows.rows m hm
  exact ⟨m', hm', hkey'.trans hkey⟩

theorem Revokes.mono (h : Revokes s ts) (hgrows : Grows s s') : Revokes s' ts := by
  refine h.imp_right ?_
  rintro ⟨token, hbacked, hts⟩
  exact ⟨token, hbacked.mono hgrows, hts⟩

theorem Opens.mono {applicant : Applicant} {operation : Operation}
    (h : Opens jose argon s applicant ws operation) (hgrows : Grows s s') :
    Opens jose argon s' applicant ws operation := by
  cases operation with
  | register request r => exact h
  | login request =>
      obtain ⟨hws, m, hm, happlicant, hregistered⟩ := h
      exact ⟨hws, m, hgrows.accounts.subset hm, happlicant, hregistered.mono hgrows⟩
  | refresh request r =>
      obtain ⟨hws, m, hm, happlicant, hgiven⟩ := h
      exact ⟨hws, m, hgrows.accounts.subset hm, happlicant, hgiven.mono hgrows⟩

theorem AccountPhase.mono {operation : Operation} {p : Phase}
    (h : AccountPhase jose argon s operation ws ts p) (hgrows : Grows s s') :
    AccountPhase jose argon s' operation ws ts p := by
  cases p with
  | existsByEmail request r => exact h
  | saveApplicant applicant => exact h
  | getByEmail request => exact h
  | getAllValid request r => exact h
  | update token =>
      obtain ⟨request, r, hop, hbacked, hbearer, hws⟩ := h
      exact ⟨request, r, hop, hbacked.mono hgrows, hbearer.mono hgrows, hws⟩
  | getById token =>
      obtain ⟨request, r, hop, hrevokes, hbearer, hws⟩ := h
      exact ⟨request, r, hop, hrevokes.mono hgrows, hbearer.mono hgrows, hws⟩
  | saveToken applicant => exact ⟨h.1.mono hgrows, h.2.mono hgrows⟩

theorem AccountProgress.mono {p : Progress} (h : AccountProgress jose argon s c ws ts p)
    (hgrows : Grows s s') : AccountProgress jose argon s' c ws ts p := by
  cases p with
  | running p => exact AccountPhase.mono h hgrows
  | committing a =>
      obtain ⟨applicant, before, ha, hopens, hrevokes, hts⟩ := h
      exact ⟨applicant, before, ha, hopens.mono hgrows, hrevokes.mono hgrows, hts⟩
  | aborting e => trivial
  | returned a =>
      obtain ⟨hws, m, hm, ha, hentitled⟩ := h
      exact ⟨hws, m, hgrows.accounts.subset hm, ha, hentitled.mono hgrows⟩
  | raised e => exact h

end Mono
end Invariant

section Step
variable {jose : Jose} {argon : Argon2} {s s' : State} {n : Nat} {e e' : Execution}

theorem returned_update (hopen : ∀ a, e.progress ≠ .returned a) (he : s.executions n = some e)
    (hs' : s'.executions = Function.update s.executions n (some e')) (k : Nat) (q : Execution)
    (a : TokenResponse) (hq : s.executions k = some q) (hp : q.progress = .returned a) :
    s'.executions k = some q := by
  have hk : k ≠ n := by
    rintro rfl
    obtain rfl := Option.some.inj (he.symm.trans hq)
    exact hopen a hp
  rw [hs', Function.update_of_ne hk]
  exact hq

/-- What has returned stays as it is. -/
theorem returned_step {l : Label} (hstep : Applicants.step jose argon s l = some s') (k : Nat)
    (q : Execution) (a : TokenResponse) (hq : s.executions k = some q)
    (hp : q.progress = .returned a) : s'.executions k = some q := by
  cases l with
  | arrive n c =>
      obtain ⟨hnone, rfl⟩ := step_arrive_cases hstep
      have hk : k ≠ n := by
        rintro rfl
        rw [hnone] at hq
        contradiction
      exact (Function.update_of_ne hk ..).trans hq
  | awaitFails n =>
      obtain ⟨e, he, hopen, rfl⟩ := step_awaitFails_cases hstep
      refine returned_update ?_ he rfl k q a hq hp
      intro b hb
      rw [hb] at hopen
      simp at hopen
  | await n =>
      obtain ⟨e, progress, w, he, hadvance, rfl⟩ := step_await_cases hstep
      refine returned_update ?_ he rfl k q a hq hp
      intro b hb
      rw [hb] at hadvance
      cases hadvance

theorem Grows.of_committed
    (hreturned : ∀ k q a, s.executions k = some q → q.progress = .returned a →
      s'.executions k = some q)
    (happlicants : s'.world.applicants.committed = s.world.applicants.committed)
    (hrows : s'.rows = s.rows) : Grows s s' := by
  refine ⟨hreturned, ?_, ?_⟩
  · rw [happlicants]
  · rw [hrows]
    exact fun m hm => ⟨m, hm, rfl⟩

theorem AccountInv.set (h : AccountInv jose argon s)
    (hs' : s'.executions = Function.update s.executions n (some e')) (hgrows : Grows s s')
    (hunique : s'.world.applicants.Unique ApplicantModel.clash)
    (hids : s'.world.refreshTokens.Unique sameId)
    (hover : Overwrites s'.world.refreshTokens.pending)
    (haccounts : ∀ m ∈ s'.world.applicants.committed, m ∈ s.world.applicants.committed ∨
      ∃ password, Registered argon s' m.email password m)
    (htokens : ∀ m ∈ s'.rows, (∃ m₀ ∈ s.rows, rowKey m₀ = rowKey m) ∨
      ∃ text, RowOf argon m text ∧ Bearer jose s' m.applicantId text)
    (hother : ∀ k, k ≠ n → s'.world.applicants.writes k = s.world.applicants.writes k ∧
      s'.world.refreshTokens.writes k = s.world.refreshTokens.writes k)
    (hn : AccountProgress jose argon s' e'.call (s'.world.applicants.writes n)
      (s'.world.refreshTokens.writes n) e'.progress) : AccountInv jose argon s' := by
  refine ⟨hunique, hids, hover, ?_, ?_, ?_, ?_⟩
  · intro m hm
    cases haccounts m hm with
    | inr hnew => exact hnew
    | inl hold =>
        obtain ⟨password, hregistered⟩ := h.accounts m hold
        exact ⟨password, hregistered.mono hgrows⟩
  · intro m hm
    cases htokens m hm with
    | inr hnew => exact hnew
    | inl hold =>
        obtain ⟨m₀, hm₀, hkey⟩ := hold
        obtain ⟨_, hkey⟩ := Prod.mk.inj hkey
        obtain ⟨happlicant, hhash⟩ := Prod.mk.inj hkey
        obtain ⟨text, ⟨salt, hsalt⟩, hbearer⟩ := h.tokens m₀ hm₀
        refine ⟨text, ⟨salt, hhash.symm.trans hsalt⟩, ?_⟩
        rw [← happlicant]
        exact hbearer.mono hgrows
  · intro k hk
    have hkn : k ≠ n := by
      rintro rfl
      rw [hs', Function.update_self] at hk
      contradiction
    rw [hs', Function.update_of_ne hkn] at hk
    rw [(hother k hkn).1, (hother k hkn).2]
    exact h.absent k hk
  · intro k q hq
    by_cases hkn : k = n
    · subst hkn
      rw [hs', Function.update_self] at hq
      obtain rfl := Option.some.inj hq
      exact hn
    · rw [hs', Function.update_of_ne hkn] at hq
      rw [(hother k hkn).1, (hother k hkn).2]
      exact (h.present k q hq).mono hgrows

/-- A move that commits nothing. -/
theorem AccountInv.moves (h : AccountInv jose argon s)
    (hs' : s'.executions = Function.update s.executions n (some e'))
    (hreturned : ∀ k q a, s.executions k = some q → q.progress = .returned a →
      s'.executions k = some q)
    (happlicants : s'.world.applicants.committed = s.world.applicants.committed)
    (hrows : s'.rows = s.rows)
    (hunique : s'.world.applicants.Unique ApplicantModel.clash)
    (hids : s'.world.refreshTokens.Unique sameId)
    (hover : Overwrites s'.world.refreshTokens.pending)
    (hother : ∀ k, k ≠ n → s'.world.applicants.writes k = s.world.applicants.writes k ∧
      s'.world.refreshTokens.writes k = s.world.refreshTokens.writes k)
    (hn : AccountProgress jose argon s e'.call (s'.world.applicants.writes n)
      (s'.world.refreshTokens.writes n) e'.progress) : AccountInv jose argon s' := by
  have hgrows : Grows s s' := .of_committed hreturned happlicants hrows
  refine h.set hs' hgrows hunique hids hover ?_ ?_ hother (hn.mono hgrows)
  · rw [happlicants]
    exact fun m hm => .inl hm
  · rw [hrows]
    exact fun m hm => .inl ⟨m, hm, rfl⟩

/-- A move that writes nothing. -/
theorem AccountInv.reads (h : AccountInv jose argon s)
    (hs' : s'.executions = Function.update s.executions n (some e'))
    (hreturned : ∀ k q a, s.executions k = some q → q.progress = .returned a →
      s'.executions k = some q)
    (hworld : s'.world = s.world)
    (hn : AccountProgress jose argon s e'.call (s.world.applicants.writes n)
      (s.world.refreshTokens.writes n) e'.progress) : AccountInv jose argon s' := by
  refine h.moves hs' hreturned ?_ ?_ ?_ ?_ ?_ (fun _ _ => ?_) ?_
  · rw [hworld]
  · rw [State.rows, hworld]
  · rw [hworld]
    exact h.unique
  · rw [hworld]
    exact h.ids
  · rw [hworld]
    exact h.overwrites
  · rw [hworld]
    exact ⟨rfl, rfl⟩
  · rw [hworld]
    exact hn

theorem accountPhase_start (operation : Operation) :
    AccountPhase jose argon s operation [] [] operation.start := by
  cases operation with
  | register request r => exact ⟨rfl, rfl, rfl⟩
  | login request => exact ⟨rfl, rfl, rfl⟩
  | refresh request r => exact ⟨rfl, rfl, rfl⟩

/-- An account whose e-mail and password hash a login has matched was registered so. -/
theorem AccountInv.registered_of_verify (hargon : argon.Exact) (h : AccountInv jose argon s)
    {m : ApplicantModel} (hm : m ∈ s.world.applicants.committed) {email password : String}
    (hemail : m.email = email)
    (hverify : Argon2Hasher.verify argon password m.passwordHash = .ok true) :
    Registered argon s email password m := by
  obtain ⟨password', k, e, request, r, a, he, hop, hp, hremail, hrpassword, hmodel⟩ :=
    h.accounts m hm
  refine ⟨k, e, request, r, a, he, hop, hp, hremail.trans hemail, ?_, hmodel⟩
  have hhash : m.passwordHash = argon.hash r.salt request.password := by
    rw [hmodel]
    rfl
  rw [hhash, hargon] at hverify
  exact (of_decide_eq_true (Except.ok.inj hverify)).symm

/-- A text that verifies a stored row was given to the applicant of the row. -/
theorem AccountInv.bearer_of_verify (hargon : argon.Exact) (h : AccountInv jose argon s)
    {m : RefreshTokenModel} (hm : m ∈ s.rows) {text : String}
    (hverify : Argon2Hasher.verify argon text m.tokenHash = .ok true) :
    Bearer jose s m.applicantId text := by
  obtain ⟨text', hrow, hbearer⟩ := h.tokens m hm
  obtain rfl := (hrow.verify_iff hargon).mp hverify
  exact hbearer

theorem AccountInv.next (hargon : argon.Exact) (h : AccountInv jose argon s)
    (he : s.executions n = some e) {p : Phase} (hp : e.progress = .running p)
    {q : Phase ⊕ TokenResponse} {w : World}
    (hdoes : Does jose argon n e.call.draws s.world p q w) :
    AccountInv jose argon { s.setExecution n { e with progress := .after q } with
      world := w, issued := Progress.issues (.after q) ++ s.issued } := by
  have hcur := h.present n e he
  rw [hp] at hcur
  have hopen (a : TokenResponse) : e.progress ≠ .returned a := by
    rw [hp]
    simp
  -- a statement that writes to neither table
  have hreads (hw : w = s.world) (hn : AccountProgress jose argon s e.call
      (s.world.applicants.writes n) (s.world.refreshTokens.writes n) (.after q)) :
      AccountInv jose argon { s.setExecution n { e with progress := .after q } with
        world := w, issued := Progress.issues (.after q) ++ s.issued } :=
    h.reads rfl (returned_update hopen he rfl) hw hn
  cases p with
  | existsByEmail request r =>
      obtain ⟨hop, hws, hts⟩ := hcur
      obtain ⟨hw, rfl, _⟩ := hdoes
      exact hreads hw ⟨request, r, hop, rfl, hws, hts⟩
  | getByEmail request =>
      obtain ⟨hop, hws, hts⟩ := hcur
      obtain ⟨hw, model, hrows, hverify, rfl⟩ := hdoes
      obtain ⟨hmem, hemail⟩ := mem_of_filter_eq_singleton hrows
      rw [Table.visible_of_writes_nil hws] at hmem
      refine hreads hw ⟨?_, .inl hts⟩
      rw [hop]
      exact ⟨hws, model, hmem, rfl,
        h.registered_of_verify hargon hmem (of_decide_eq_true hemail) hverify⟩
  | getAllValid request r =>
      obtain ⟨hop, hws, hts⟩ := hcur
      obtain ⟨hw, m, hm, _, hverify, rfl⟩ := hdoes
      rw [Table.visible_of_writes_nil hts] at hm
      refine hreads hw ⟨request, r, hop, ⟨m, hm, rfl⟩, ?_, hws, hts⟩
      exact h.bearer_of_verify hargon hm hverify
  | getById token =>
      obtain ⟨request, r, hop, hrevokes, hbearer, hws⟩ := hcur
      obtain ⟨hw, model, hrows, rfl⟩ := hdoes
      obtain ⟨hmem, hid⟩ := mem_of_filter_eq_singleton hrows
      rw [Table.visible_of_writes_nil hws] at hmem
      refine hreads hw ⟨?_, hrevokes⟩
      obtain ⟨m, hm, hmid, hgiven⟩ := hbearer
      have hclash : m.clash model = true := by
        simp [ApplicantModel.clash, hmid.trans (of_decide_eq_true hid).symm]
      obtain rfl := h.unique.eq_of_clash ApplicantModel.clash_comm hm hmem hclash
      rw [hop]
      exact ⟨hws, m, hm, rfl, hgiven⟩
  | saveApplicant applicant =>
      obtain ⟨request, r, hop, happlicant, hws, hts⟩ := hcur
      obtain ⟨rfl, applicants, hinsert, rfl⟩ := hdoes
      have hkeeps : Keeps ApplicantModel.clash (s.world.applicants.writes n) := by
        rw [hws]
        exact fun f hf => absurd hf List.not_mem_nil
      have hunique := h.unique.insert ApplicantModel.clash_comm hkeeps hinsert
      obtain ⟨rfl, _, _⟩ := Table.insert_eq_done hinsert
      refine h.moves (n := n) rfl (returned_update hopen he rfl) rfl rfl hunique h.ids
        h.overwrites (fun k hk => ⟨Table.writes_write_of_ne _ _ hk.symm, rfl⟩) ⟨?_, .inl hts⟩
      change Opens jose argon s applicant
        ((s.world.applicants.write n (.insert (ApplicantRepository.toModel applicant))).writes n)
        e.call.operation
      rw [Table.writes_write_self, hws, hop]
      exact ⟨happlicant, rfl⟩
  | update token =>
      obtain ⟨request, r, hop, hbacked, hbearer, hws, hts⟩ := hcur
      obtain ⟨rfl, _, _, rfl⟩ := hdoes
      refine h.moves (n := n) rfl (returned_update hopen he rfl) rfl rfl h.unique
        (h.ids.update n _) (h.overwrites.write n ?_)
        (fun k hk => ⟨rfl, Table.writes_write_of_ne _ _ hk.symm⟩)
        ⟨request, r, hop, .inr ⟨token, hbacked, ?_⟩, hbearer, hws⟩
      · rintro f hf
        exact ⟨token, (Write.update.inj hf).symm⟩
      · exact (Table.writes_write_self ..).trans (by rw [hts]; rfl)
  | saveToken applicant =>
      obtain ⟨hopens, hrevokes⟩ := hcur
      obtain ⟨rfl, tokens, hinsert, rfl⟩ := hdoes
      have hids := h.ids.insert_of_imp (fun _ _ => sameId_of_clash) sameId_comm
        (h.overwrites.keeps n) hinsert
      obtain ⟨rfl, _, _⟩ := Table.insert_eq_done hinsert
      refine h.moves (n := n) rfl (returned_update hopen he rfl) rfl rfl h.unique hids
        (h.overwrites.write n fun f hf => absurd hf (by simp))
        (fun k hk => ⟨rfl, Table.writes_write_of_ne _ _ hk.symm⟩)
        ⟨applicant, _, rfl, hopens, hrevokes, Table.writes_write_self ..⟩

theorem Does.applicants_committed {t : Tx} {d : TokenDraws} {w w' : World} {p : Phase}
    {q : Phase ⊕ TokenResponse} (h : Does jose argon t d w p q w') :
    w.applicants.committed <+: w'.applicants.committed := by
  cases p with
  | existsByEmail request r => rw [h.1]
  | saveApplicant applicant =>
      obtain ⟨_, applicants, hinsert, rfl⟩ := h
      rw [(Table.insert_eq_done hinsert).1]
      exact List.prefix_rfl
  | getByEmail request => rw [h.1]
  | getAllValid request r => rw [h.1]
  | update token =>
      obtain ⟨_, _, _, rfl⟩ := h
      exact List.prefix_rfl
  | getById token => rw [h.1]
  | saveToken applicant =>
      obtain ⟨_, tokens, _, rfl⟩ := h
      exact List.prefix_rfl

end Step

section Commit
variable {jose : Jose} {argon : Argon2} {s : State} {n : Nat} {e : Execution} {a : TokenResponse}

/-- The account a call makes its tokens for, once its writes are applied. -/
theorem Opens.account {applicant : Applicant} {ws : List (Write ApplicantModel)}
    {operation : Operation} (h : Opens jose argon s applicant ws operation) :
    Keeps ApplicantModel.clash ws ∧
      ∃ m ∈ applyAll ws s.world.applicants.committed,
        applicant = ApplicantRepository.toEntity m ∧
        s.world.applicants.committed <+: applyAll ws s.world.applicants.committed ∧
        ∀ x ∈ applyAll ws s.world.applicants.committed, x ∈ s.world.applicants.committed ∨
          x = m ∧ ∃ request r, operation = .register request r ∧
            m = ApplicantRepository.toModel (newApplicant argon request r) := by
  have hnone (hws : ws = []) : Keeps ApplicantModel.clash ws := by
    rw [hws]
    exact fun f hf => absurd hf List.not_mem_nil
  cases operation with
  | register request r =>
      obtain ⟨rfl, rfl⟩ := h
      refine ⟨fun f hf => absurd (List.mem_singleton.mp hf) (by simp), _,
        List.mem_append_right _ (List.mem_singleton_self _), rfl, List.prefix_append .., ?_⟩
      intro x hx
      refine (List.mem_append.mp hx).imp_right fun hx => ?_
      exact ⟨List.mem_singleton.mp hx, request, r, rfl, rfl⟩
  | login request =>
      obtain ⟨hws, m, hm, happlicant, _⟩ := h
      refine ⟨hnone hws, m, ?_⟩
      rw [hws]
      exact ⟨hm, happlicant, List.prefix_rfl, fun x hx => .inl hx⟩
  | refresh request r =>
      obtain ⟨hws, m, hm, happlicant, _⟩ := h
      refine ⟨hnone hws, m, ?_⟩
      rw [hws]
      exact ⟨hm, happlicant, List.prefix_rfl, fun x hx => .inl hx⟩

/-- A revocation keeps what a row is. -/
theorem Revokes.rows {ts : List (Write RefreshTokenModel)} (h : Revokes s ts)
    (hids : s.world.refreshTokens.Unique sameId) :
    (applyAll ts s.rows).map rowKey = s.rows.map rowKey := by
  cases h with
  | inl hts => rw [hts, applyAll_nil]
  | inr hrevokes =>
      obtain ⟨token, ⟨m, hm, hkey⟩, rfl⟩ := hrevokes
      obtain ⟨hid, hkey⟩ := Prod.mk.inj hkey
      simp only [applyAll_cons, applyAll_nil, apply_update, List.map_map]
      refine List.map_congr_left fun x hx => ?_
      by_cases hx' : x.id = token.id
      · obtain rfl := eq_of_id hids hx hm (hx'.trans hid.symm)
        simp [rowKey, RefreshTokenRepository.overwrite, hx', (Prod.mk.inj hkey).2]
      · simp only [Function.comp_apply, overwrite_of_ne hx']

theorem AccountInv.commits (h : AccountInv jose argon s) (he : s.executions n = some e)
    (hp : e.progress = .committing a) :
    AccountInv jose argon (s.commits n e a) ∧
      s.world.applicants.committed <+: (s.commits n e a).world.applicants.committed := by
  have hcur := h.present n e he
  rw [hp] at hcur
  obtain ⟨applicant, before, ha, hopens, hrevokes, hts⟩ := hcur
  obtain ⟨hkeeps, m, hm, happlicant, hprefix, hnew⟩ := hopens.account
  have hrows : (s.commits n e a).rows = applyAll before s.rows ++
      [RefreshTokenRepository.toModel
        (refreshTokenEntity jose argon applicant.id e.call.draws)] := by
    change applyAll (s.world.refreshTokens.writes n) s.rows = _
    rw [hts]
    simp only [applyAll, List.foldl_append, List.foldl_cons, List.foldl_nil, apply_insert]
  have hkeys := hrevokes.rows h.ids
  have hopen (a' : TokenResponse) : e.progress ≠ .returned a' := by
    rw [hp]
    simp
  have hgrows : Grows s (s.commits n e a) := by
    refine ⟨returned_update hopen he rfl, hprefix, ?_⟩
    intro x hx
    have hkey : rowKey x ∈ (applyAll before s.rows).map rowKey := by
      rw [hkeys]
      exact List.mem_map_of_mem hx
    obtain ⟨y, hy, hyx⟩ := List.mem_map.mp hkey
    refine ⟨y, ?_, hyx⟩
    rw [hrows]
    exact List.mem_append_left _ hy
  have hat : (s.commits n e a).executions n = some { e with progress := .returned a } :=
    Function.update_self ..
  have hgiven : Given jose (s.commits n e a) m a.refreshToken :=
    ⟨n, _, a, hat, rfl, rfl, happlicant ▸ ha⟩
  refine ⟨h.set (n := n) rfl hgrows (h.unique.commit n ApplicantModel.clash_comm hkeeps)
    (h.ids.commit n sameId_comm (h.overwrites.keeps n)) (h.overwrites.filter _) ?_ ?_ ?_ ?_,
    hprefix⟩
  · intro x hx
    refine (hnew x hx).imp_right ?_
    rintro ⟨rfl, request, r, hop, hmodel⟩
    refine ⟨request.password, n, _, request, r, a, hat, hop, rfl, ?_, rfl, hmodel⟩
    rw [hmodel]
    rfl
  · intro x hx
    rw [hrows] at hx
    cases List.mem_append.mp hx with
    | inl hold =>
        have hkey := List.mem_map_of_mem (f := rowKey) hold
        rw [hkeys] at hkey
        exact .inl (List.mem_map.mp hkey)
    | inr hthis =>
        obtain rfl := List.mem_singleton.mp hthis
        refine .inr ⟨a.refreshToken, ⟨e.call.draws.salt, ?_⟩, m, hm, ?_, hgiven⟩
        · rw [ha]
          rfl
        · rw [happlicant]
          rfl
  · intro k hk
    exact ⟨(Table.writes_commit _ n k).trans (if_neg (Ne.symm hk)),
      (Table.writes_commit _ n k).trans (if_neg (Ne.symm hk))⟩
  · refine ⟨⟨Table.writes_commit_self _ _, Table.writes_commit_self _ _⟩, m, hm,
      happlicant ▸ ha, ?_⟩
    -- a refresh or a login is for an account of before
    generalize e.call.operation = operation at hopens
    cases operation with
    | register request r =>
        obtain ⟨hthis, _⟩ := hopens
        rw [Entitled, ← hthis, happlicant]
        rfl
    | login request =>
        obtain ⟨_, m', _, happlicant', hregistered⟩ := hopens
        obtain rfl : m' = m := congrArg ApplicantRepository.toModel
          (happlicant'.symm.trans happlicant)
        exact Registered.mono hregistered hgrows
    | refresh request r =>
        obtain ⟨_, m', _, happlicant', hgiven'⟩ := hopens
        obtain rfl : m' = m := congrArg ApplicantRepository.toModel
          (happlicant'.symm.trans happlicant)
        exact Given.mono hgiven' hgrows

end Commit

section Runs
variable {jose : Jose} {argon : Argon2} {s s' : State}

theorem AccountInv.step (hargon : argon.Exact) (h : AccountInv jose argon s) {l : Label}
    (hstep : Applicants.step jose argon s l = some s') :
    AccountInv jose argon s' ∧
      s.world.applicants.committed <+: s'.world.applicants.committed := by
  have hreturned := returned_step hstep
  cases l with
  | arrive n c =>
      obtain ⟨hnone, rfl⟩ := step_arrive_cases hstep
      refine ⟨h.reads (n := n) rfl hreturned rfl ?_, List.prefix_rfl⟩
      obtain ⟨hws, hts⟩ := h.absent n hnone
      rw [hws, hts]
      exact accountPhase_start c.operation
  | awaitFails n =>
      obtain ⟨e, he, _, rfl⟩ := step_awaitFails_cases hstep
      exact ⟨h.reads rfl hreturned rfl trivial, List.prefix_rfl⟩
  | await n =>
      obtain ⟨e, progress, w, he, hadvance, rfl⟩ := step_await_cases hstep
      generalize hp : e.progress = p at hadvance
      cases hadvance with
      | next p q w' hresume =>
          have hdoes := (resume_ensures jose argon n e.call.draws s.world p).of_returns hresume
          exact ⟨h.next hargon he hp hdoes, hdoes.applicants_committed⟩
      | raises p error w' hresume =>
          obtain rfl := (resume_ensures jose argon n e.call.draws s.world p).of_raises hresume
          exact ⟨h.reads rfl hreturned rfl trivial, List.prefix_rfl⟩
      | commits a => exact h.commits he hp
      | rollsBack error =>
          refine ⟨h.moves rfl hreturned rfl rfl (h.unique.rollback n) (h.ids.rollback n)
            (h.overwrites.filter _) ?_ ?_, List.prefix_rfl⟩
          · exact fun k hk => ⟨(Table.writes_rollback _ n k).trans (if_neg (Ne.symm hk)),
              (Table.writes_rollback _ n k).trans (if_neg (Ne.symm hk))⟩
          · exact ⟨Table.writes_rollback_self _ _, Table.writes_rollback_self _ _⟩

theorem AccountInv.init : AccountInv jose argon .init :=
  ⟨List.Pairwise.nil, List.Pairwise.nil, fun _ hp => absurd hp List.not_mem_nil,
    fun _ hm => absurd hm List.not_mem_nil, fun _ hm => absurd hm List.not_mem_nil,
    fun _ _ => ⟨rfl, rfl⟩, fun _ _ h => absurd h nofun⟩

end Runs

section Decisions
variable {jose : Jose} {argon : Argon2} {s : State} {t : Tx} {d : TokenDraws}

/-- What was registered is stored. -/
theorem AccountInv.mem_of_registered (h : AccountInv jose argon s) {email password : String}
    {m : ApplicantModel} (hm : Registered argon s email password m) :
    m ∈ s.world.applicants.committed := by
  obtain ⟨k, e, request, r, a, he, hop, hp, _, _, hmodel⟩ := hm
  have hcur := h.present k e he
  rw [hp] at hcur
  obtain ⟨_, m', hm', _, hentitled⟩ := hcur
  rw [hop] at hentitled
  rw [hmodel, ← show m' = _ from hentitled]
  exact hm'

theorem Registered.email {email password : String} {m : ApplicantModel}
    (h : Registered argon s email password m) : m.email = email := by
  obtain ⟨_, _, request, r, _, _, _, _, hemail, _, rfl⟩ := h
  exact hemail

theorem Registered.verify (hargon : argon.Exact) {email password : String} {m : ApplicantModel}
    (h : Registered argon s email password m) (text : String) :
    Argon2Hasher.verify argon text m.passwordHash = .ok (decide (text = password)) := by
  obtain ⟨_, _, request, r, _, _, _, _, _, rfl, rfl⟩ := h
  exact hargon r.salt text request.password

/-- The rows a query by e-mail finds. -/
theorem AccountInv.byEmail (h : AccountInv jose argon s)
    (hws : s.world.applicants.writes t = []) (email : String) :
    (∀ m ∈ s.world.applicants.committed, m.email ≠ email) ∧
        (s.world.applicants.visible t).filter (fun m => m.email = email) = [] ∨
      ∃ m ∈ s.world.applicants.committed, m.email = email ∧
        (s.world.applicants.visible t).filter (fun m => m.email = email) = [m] := by
  rw [Table.visible_of_writes_nil hws]
  by_cases hfree : ∀ m ∈ s.world.applicants.committed, m.email ≠ email
  · refine .inl ⟨hfree, List.filter_eq_nil_iff.mpr fun m hm hemail => ?_⟩
    exact hfree m hm (of_decide_eq_true hemail)
  · simp only [not_forall, not_not] at hfree
    obtain ⟨m, hm, hemail⟩ := hfree
    refine .inr ⟨m, hm, hemail, ?_⟩
    refine h.unique.filter_eq_singleton (fun a b ha hb => ?_) hm (decide_eq_true hemail)
    simp [ApplicantModel.clash, of_decide_eq_true ha, of_decide_eq_true hb]

theorem resume_getByEmail {request : LoginRequest} {model : ApplicantModel} {verified : Bool}
    (hrows : (s.world.applicants.visible t).filter (fun m => m.email = request.email) = [model])
    (hverify : Argon2Hasher.verify argon request.password model.passwordHash = .ok verified) :
    resume jose argon t d (.getByEmail request) s.world =
      if verified then
        .returns (.inl (.saveToken (ApplicantRepository.toEntity model))) s.world
      else .raises .invalidCredentials s.world := by
  have hfound := getByEmail_of_filter (some model) hrows
  simp only [resume]
  rw [Stmt.bind_of_returns hfound]
  have hhash : (ApplicantRepository.toEntity model).passwordHash = model.passwordHash := rfl
  simp only [Option.map_some, hhash, hverify, Stmt.ofExcept_ok, pure_bind]
  cases verified with
  | true => rfl
  | false => rfl

theorem AccountInv.loginDecided (hargon : argon.Exact) (h : AccountInv jose argon s)
    (hws : s.world.applicants.writes t = []) (request : LoginRequest) :
    LoginDecided jose argon s t d request := by
  refine ⟨?_, ?_⟩
  · intro m
    constructor
    · intro hx
      have hdoes := (resume_ensures jose argon t d s.world _).of_returns hx
      obtain ⟨_, model, hrows, hverify, hnext⟩ := hdoes
      obtain ⟨hmem, hemail⟩ := mem_of_filter_eq_singleton hrows
      rw [Table.visible_of_writes_nil hws] at hmem
      obtain rfl : m = model := congrArg ApplicantRepository.toModel
        (Phase.saveToken.inj (Sum.inl.inj hnext))
      exact h.registered_of_verify hargon hmem (of_decide_eq_true hemail) hverify
    · intro hm
      cases h.byEmail hws request.email with
      | inl hnone => exact absurd hm.email (hnone.1 m (h.mem_of_registered hm))
      | inr hfound =>
          obtain ⟨model, hmodel, hemail, hrows⟩ := hfound
          have hclash : m.clash model = true := by
            simp [ApplicantModel.clash, hm.email, hemail]
          obtain rfl := h.unique.eq_of_clash ApplicantModel.clash_comm (h.mem_of_registered hm)
            hmodel hclash
          rw [resume_getByEmail hrows (hm.verify hargon _), decide_eq_true rfl, if_pos rfl]
  · intro hnone
    cases h.byEmail hws request.email with
    | inl hfree =>
        have hfound := getByEmail_of_filter none hfree.2
        simp only [resume]
        rw [Stmt.bind_of_returns hfound]
        rfl
    | inr hfound =>
        obtain ⟨model, hmodel, hemail, hrows⟩ := hfound
        obtain ⟨password, hregistered⟩ := h.accounts model hmodel
        have hne : request.password ≠ password := by
          intro heq
          rw [hemail, ← heq] at hregistered
          exact hnone model hregistered
        rw [resume_getByEmail hrows (hregistered.verify hargon _), decide_eq_false hne]
        rfl

theorem AccountInv.registerDecided (h : AccountInv jose argon s)
    (hws : s.world.applicants.writes t = []) (request : RegisterRequest) (r : RegisterDraws) :
    resume jose argon t d (.existsByEmail request r) s.world =
        .raises (.emailAlreadyRegistered request.email) s.world ↔
      ∃ password m, Registered argon s request.email password m := by
  simp only [resume]
  cases h.byEmail hws request.email with
  | inl hfree =>
      rw [Stmt.bind_of_returns (existsByEmail_of_filter none hfree.2)]
      refine ⟨fun hx => absurd hx (by simp), ?_⟩
      rintro ⟨password, m, hm⟩
      exact absurd hm.email (hfree.1 m (h.mem_of_registered hm))
  | inr hfound =>
      obtain ⟨model, hmodel, hemail, hrows⟩ := hfound
      rw [Stmt.bind_of_returns (existsByEmail_of_filter (some model) hrows)]
      refine ⟨fun _ => ?_, fun _ => rfl⟩
      obtain ⟨password, hregistered⟩ := h.accounts model hmodel
      exact ⟨password, model, hemail ▸ hregistered⟩

theorem AccountInv.accountable (hargon : argon.Exact) (h : AccountInv jose argon s) :
    Accounts jose argon s := by
  refine ⟨?_, h.accounts, ?_, fun t d request hws => h.loginDecided hargon hws request,
    fun t d request r hws => h.registerDecided hws request r⟩
  · refine h.unique.committed.imp ?_
    intro a b hab
    simpa [ApplicantModel.clash] using hab
  · intro n e a he hp
    have hcur := h.present n e he
    rw [hp] at hcur
    exact hcur.2

/-- Whatever the calls do, fail at or roll back, from an empty database on. -/
theorem accounts_throughout (jose : Jose) (hargon : argon.Exact) (ls : List Label) :
    Runs.Throughout (step jose argon) (Accounts jose argon) .init ls ∧
      Runs.EachStep (step jose argon) (AppendsAccounts jose argon) .init ls := by
  have hstep (s s' : State) (l : Label) (h : AccountInv jose argon s)
      (hstep : step jose argon s l = some s') := h.step hargon hstep
  refine ⟨?_, ?_⟩
  · exact Runs.throughout_of_invariant (fun s l s' h h' => (hstep s s' l h h').1)
      (fun _ h => h.accountable hargon) .init ls
  · exact Runs.eachStep_of_invariant (fun s l s' h h' => (hstep s s' l h h').1)
      (fun s l h s' h' => (hstep s s' l h h').2) .init ls

end Decisions

section Registration

/-- A registration and a login with the same credentials, interleaved with one that fails. -/
def registrationLabels : List Label :=
  [.arrive 0 ⟨.register ada ⟨7, ⟨1⟩, 0, 0⟩, .at 1 2⟩,
    .arrive 1 ⟨.register ada ⟨8, ⟨2⟩, 0, 0⟩, .at 1 3⟩] ++
    [.await 0, .await 1, .await 0, .await 0, .await 0, .await 1, .await 1] ++
    [.arrive 2 ⟨.login ⟨"ada@example.com", "password"⟩, .at 2 4⟩, .await 2, .await 2, .await 2]

theorem accounts_registration :
    ((Runs.run (step .sample .sample) .init registrationLabels).map fun s =>
        (s.world.applicants.committed.length, s.issued.length)) = some (1, 2) ∧
      Runs.Throughout (step .sample .sample) (Accounts .sample .sample) .init
        registrationLabels ∧
      Runs.EachStep (step .sample .sample) (AppendsAccounts .sample .sample) .init
        registrationLabels :=
  ⟨by decide +kernel,
    accounts_throughout Jose.sample Argon2.sample_exact registrationLabels⟩

end Registration

end CrediGuard.Applicants
