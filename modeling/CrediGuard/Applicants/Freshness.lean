import CrediGuard.Lib.Runs
import CrediGuard.Lib.Session
import CrediGuard.Applicants.TokenRows

/-!
Every issued refresh token is fresh.

A refresh token is a signature over its applicant and two truncated clock
readings. One call after the other, with clocks that never go back, the tokens of
a run are pairwise distinct, and none is exchanged twice, just if no applicant
gets two of them in one second.
-/

namespace CrediGuard.Applicants
open ReadCommitted Statement

section History
variable (jose : Jose) (argon : Argon2)

/-- The clock readings of a call, in the order it takes them. -/
def Call.readings (c : Call) : List Datetime :=
  let d := c.draws
  let tokens := [d.accessAt, d.refreshAt, d.expiryAt, d.createdAt, d.accessExpiryAt, d.respondedAt]
  match c.operation with
  | .register _ r => r.createdAt :: r.updatedAt :: tokens
  | .login _ => tokens
  | .refresh _ r => r.now :: r.revokedAt :: tokens

/-- The applicant that a call which succeeds makes tokens for. -/
def applicantOf (w : World) : Operation → Option Uuid
  | .register _ r => some r.applicantId
  | .login request =>
      (w.applicants.committed.find? fun m => m.email = request.email).map fun m => m.id
  | .refresh request r =>
      (w.refreshTokens.committed.find? fun m => RefreshTokenRepository.isValid r.now m &&
        Argon2Hasher.verify argon request.refreshToken m.tokenHash = .ok true).map
          fun m => m.applicantId

/-- A successful call. -/
structure Entry where
  call : Call
  applicantId : Option Uuid
  response : TokenResponse

structure History where
  world : World
  /-- The latest clock reading. -/
  clock : Option Datetime
  /-- The successful calls, the latest first. -/
  log : List Entry

def History.init : History := ⟨⟨⟨[], []⟩, ⟨[], []⟩, []⟩, none, []⟩

/-- A call, and whether the COMMIT behind it works. -/
structure Attempt where
  call : Call
  commits : Bool := true

/-- `execute` inside the transaction of `get_session`. -/
def withSession (a : Attempt) (w : World) : Option (Except Error TokenResponse × World) :=
  Session.alone (fun w => w.commit 0) (fun w => w.rollback 0)
    (if a.commits then none else some .connectionError) (execute jose argon 0 a.call) w

def historyStep (h : History) (a : Attempt) : Option History :=
  if (h.clock.toList ++ a.call.readings).Pairwise (· ≤ ·) then
    (withSession jose argon a h.world).map fun (result, w) =>
      { world := w
        clock := some a.call.draws.respondedAt
        log := match result with
          | .error _ => h.log
          | .ok response =>
              ⟨a.call, applicantOf argon h.world a.call.operation, response⟩ :: h.log }
  else none

/-- The refresh token a successful call was given to exchange. -/
def Entry.exchanged? (e : Entry) : Option String :=
  match e.call.operation with
  | .refresh request _ => some request.refreshToken
  | _ => none

def History.issued (h : History) : List String := h.log.map fun e => e.response.refreshToken

def History.exchanged (h : History) : List String := h.log.filterMap Entry.exchanged?

/-- No two calls have returned one refresh token, and none was exchanged twice. -/
def FreshTokens (h : History) : Prop := h.issued.Nodup ∧ h.exchanged.Nodup

/-- A call that succeeds makes the first token of its applicant in this second. -/
def NewSecond (h : History) (a : Attempt) : Prop :=
  ∀ response w, withSession jose argon a h.world = some (.ok response, w) →
    ∀ e ∈ h.log, e.applicantId = applicantOf argon h.world a.call.operation →
      ¬ JWTService.SameSecond e.call.draws.refreshAt a.call.draws.refreshAt

end History

section Effect
variable {jose : Jose} {argon : Argon2}

/-- No transaction is open. -/
structure World.Closed (w : World) : Prop where
  applicants : w.applicants.pending = []
  refreshTokens : w.refreshTokens.pending = []
  locks : w.locks = []

theorem World.Closed.rollback {w : World} (h : w.Closed) (t : Tx) : w.rollback t = w := by
  simp only [World.rollback, Table.rollback_of_pending_nil t h.applicants,
    Table.rollback_of_pending_nil t h.refreshTokens, h.locks, List.filter_nil]
  rw [← h.locks]

theorem World.Closed.visible_applicants {w : World} (h : w.Closed) (t : Tx) :
    w.applicants.visible t = w.applicants.committed :=
  Table.visible_of_writes_nil (Table.writes_of_pending_nil t h.applicants)

theorem World.Closed.visible_refreshTokens {w : World} (h : w.Closed) (t : Tx) :
    w.refreshTokens.visible t = w.refreshTokens.committed :=
  Table.visible_of_writes_nil (Table.writes_of_pending_nil t h.refreshTokens)

/-- A COMMIT closes what a ROLLBACK would close. -/
theorem World.Closed.of_rollback {w : World} {t : Tx} (h : (w.rollback t).Closed) :
    (w.commit t).Closed :=
  ⟨h.applicants, h.refreshTokens, h.locks⟩

/-- The row an exchange finds in a closed world. -/
def Finds (argon : Argon2) (w : World) (c : Call) (m : RefreshTokenModel) : Prop :=
  ∃ request r, c.operation = .refresh request r ∧ m ∈ w.refreshTokens.committed ∧
    RefreshTokenRepository.isValid r.now m = true ∧
    Argon2Hasher.verify argon request.refreshToken m.tokenHash = .ok true

theorem Finds.applicantOf {w : World} {c : Call} {m : RefreshTokenModel} {issued : List String}
    (hargon : argon.Exact) (hunique : w.refreshTokens.Unique sameId)
    (hstored : Stored argon w.refreshTokens.committed issued) (h : Finds argon w c m) :
    applicantOf argon w c.operation = some m.applicantId := by
  obtain ⟨request, r, hop, hm, hvalid, hverify⟩ := h
  simp only [hop, Applicants.applicantOf, Option.map_eq_some_iff]
  cases hfind : w.refreshTokens.committed.find? fun m => RefreshTokenRepository.isValid r.now m &&
      Argon2Hasher.verify argon request.refreshToken m.tokenHash = .ok true with
  | none =>
      have := List.find?_eq_none.mp hfind m hm
      simp [hvalid, hverify] at this
  | some x =>
      have hx := List.find?_some hfind
      simp only [Bool.and_eq_true, decide_eq_true_eq] at hx
      obtain rfl : x = m := eq_of_id hunique (List.mem_of_find?_eq_some hfind) hm
        (hstored.once_of_verify hargon (List.mem_of_find?_eq_some hfind) hm hx.2 hverify)
      exact ⟨x, rfl, rfl⟩

/-- What a call that began in the closed world `w₀` has done before it stores its
new token. -/
structure Prepared (argon : Argon2) (w₀ : World) (c : Call) (applicantId : Uuid) (w : World) :
    Prop where
  rollback : w.rollback 0 = w₀
  unique : w.refreshTokens.Unique sameId
  written : Written argon w₀.refreshTokens.committed c (w.refreshTokens.writes 0)
  applicant : applicantOf argon w₀ c.operation = some applicantId
  finds : NotRefresh c ∨ ∃ m, Finds argon w₀ c m

/-- The assertion at each await of a call that nobody interferes with. -/
def Alone (argon : Argon2) (w₀ : World) (c : Call) : Phase → World → Prop
  | .existsByEmail request r, w => w = w₀ ∧ c.operation = .register request r
  | .saveApplicant applicant, w => w = w₀ ∧ NotRefresh c ∧
      applicantOf argon w₀ c.operation = some applicant.id
  | .getByEmail request, w => w = w₀ ∧ c.operation = .login request
  | .getAllValid request r, w => w = w₀ ∧ c.operation = .refresh request r
  | .update token, w => w = w₀ ∧ ∃ m revokedAt, Finds argon w₀ c m ∧
      token = (RefreshTokenRepository.toEntity m).revoke revokedAt
  | .getById token, w => ∃ m revokedAt, Finds argon w₀ c m ∧
      token = (RefreshTokenRepository.toEntity m).revoke revokedAt ∧
      Prepared argon w₀ c m.applicantId w
  | .saveToken applicant, w => Prepared argon w₀ c applicant.id w

/-- What a call that returns has done, before its COMMIT. -/
structure Succeeds (jose : Jose) (argon : Argon2) (w₀ : World) (c : Call) (a : TokenResponse)
    (w : World) : Prop where
  rollback : w.rollback 0 = w₀
  unique : w.refreshTokens.Unique sameId
  token : ∃ applicantId, applicantOf argon w₀ c.operation = some applicantId ∧
    a.refreshToken = JWTService.createRefreshToken jose applicantId c.draws.refreshAt
  row : ∃ ws m, w.refreshTokens.writes 0 = ws ++ [.insert m] ∧
    Written argon w₀.refreshTokens.committed c ws ∧ RowOf argon m a.refreshToken ∧
    m.revokedAt = none
  finds : NotRefresh c ∨ ∃ m, Finds argon w₀ c m

variable {w₀ : World} {c : Call}

theorem Prepared.of_closed (hclosed : w₀.Closed) (hunique : w₀.refreshTokens.Unique sameId)
    (hnot : NotRefresh c) {applicantId : Uuid}
    (happlicant : applicantOf argon w₀ c.operation = some applicantId) :
    Prepared argon w₀ c applicantId w₀ :=
  ⟨hclosed.rollback 0, hunique,
    .inl ⟨hnot, Table.writes_of_pending_nil 0 hclosed.refreshTokens⟩, happlicant, .inl hnot⟩

theorem alone_start : Alone argon w₀ c c.operation.start w₀ := by
  cases hop : c.operation with
  | register request r => exact ⟨rfl, hop⟩
  | login request => exact ⟨rfl, hop⟩
  | refresh request r => exact ⟨rfl, hop⟩

theorem find?_of_filter {α : Type} {p : α → Bool} {as : List α} {a : α}
    (h : as.filter p = [a]) : as.find? p = some a := by
  rw [← List.head?_filter, h]
  rfl

theorem alone_next (hargon : argon.Exact) (hclosed : w₀.Closed)
    (hunique : w₀.refreshTokens.Unique sameId) {issued : List String}
    (hstored : Stored argon w₀.refreshTokens.committed issued) {p : Phase}
    {q : Phase ⊕ TokenResponse} {w w' : World} (h : Alone argon w₀ c p w)
    (hdoes : Does jose argon 0 c.draws w p q w') :
    Sum.elim (Alone argon w₀ c · w') (Succeeds jose argon w₀ c · w') q := by
  have happlicants := hclosed.visible_applicants 0
  have hwrites := Table.writes_of_pending_nil 0 hclosed.refreshTokens
  cases p with
  | existsByEmail request r =>
      obtain ⟨rfl, hop⟩ := h
      obtain ⟨rfl, rfl, _⟩ := hdoes
      exact ⟨rfl, fun _ _ h => by simp [hop] at h, by rw [hop]; rfl⟩
  | saveApplicant applicant =>
      obtain ⟨rfl, hnot, happlicant⟩ := h
      obtain ⟨rfl, applicants, hinsert, rfl⟩ := hdoes
      obtain ⟨rfl, _, _⟩ := Table.insert_eq_done hinsert
      refine ⟨?_, hunique, .inl ⟨hnot, hwrites⟩, happlicant, .inl hnot⟩
      conv_rhs => rw [← hclosed.rollback 0]
      simp only [World.rollback, Table.rollback_write]
  | getByEmail request =>
      obtain ⟨rfl, hop⟩ := h
      obtain ⟨rfl, model, hrows, _, rfl⟩ := hdoes
      rw [happlicants] at hrows
      refine .of_closed hclosed hunique (fun _ _ h => by simp [hop] at h) ?_
      simp only [hop, applicantOf, find?_of_filter hrows]
      rfl
  | getAllValid request r =>
      obtain ⟨rfl, hop⟩ := h
      obtain ⟨rfl, m, hm, hvalid, hverify, rfl⟩ := hdoes
      rw [hclosed.visible_refreshTokens] at hm
      exact ⟨rfl, m, r.revokedAt, ⟨request, r, hop, hm, hvalid, hverify⟩, rfl⟩
  | update token =>
      obtain ⟨rfl, m, revokedAt, hfinds, rfl⟩ := h
      obtain ⟨rfl, _, _, rfl⟩ := hdoes
      refine ⟨m, revokedAt, hfinds, rfl, ?_, hunique.update 0 _, ?_,
        hfinds.applicantOf hargon hunique hstored, .inr ⟨m, hfinds⟩⟩
      · conv_rhs => rw [← hclosed.rollback 0]
        simp [World.rollback]
      · obtain ⟨request, r, hop, hm, hvalid, hverify⟩ := hfinds
        refine .inr ⟨request, r, (RefreshTokenRepository.toEntity m).revoke revokedAt, hop,
          ⟨⟨m, hm, rfl, rfl⟩, hverify, ?_⟩, ?_⟩
        · simp [RefreshToken.revoke]
        · rw [Table.writes_write_self, hwrites]
          rfl
  | getById token =>
      obtain ⟨m, revokedAt, hfinds, rfl, hprepared⟩ := h
      obtain ⟨rfl, model, hrows, rfl⟩ := hdoes
      have hid : model.id = m.applicantId := by
        have hmem : model ∈ [model] := List.mem_singleton_self _
        rw [← hrows] at hmem
        exact of_decide_eq_true (List.mem_filter.mp hmem).2
      change Prepared argon w₀ c model.id w'
      rw [hid]
      exact hprepared
  | saveToken applicant =>
      obtain ⟨rfl, tokens, hinsert, rfl⟩ := hdoes
      have hunique' := h.unique.insert_of_imp (fun _ _ => sameId_of_clash) sameId_comm
        h.written.keeps hinsert
      obtain ⟨rfl, _, _⟩ := Table.insert_eq_done hinsert
      refine ⟨?_, hunique', ⟨applicant.id, h.applicant, rfl⟩,
        ⟨_, _, Table.writes_write_self _ _ _, h.written, ⟨c.draws.salt, rfl⟩, rfl⟩, h.finds⟩
      rw [← h.rollback]
      simp only [World.rollback, Table.rollback_write]

theorem Alone.rollback (hclosed : w₀.Closed) {p : Phase} {w : World}
    (h : Alone argon w₀ c p w) : w.rollback 0 = w₀ := by
  cases p with
  | existsByEmail request r => rw [h.1, hclosed.rollback]
  | saveApplicant applicant => rw [h.1, hclosed.rollback]
  | getByEmail request => rw [h.1, hclosed.rollback]
  | getAllValid request r => rw [h.1, hclosed.rollback]
  | update token => rw [h.1, hclosed.rollback]
  | getById token =>
      obtain ⟨m, revokedAt, _, _, hprepared⟩ := h
      exact hprepared.rollback
  | saveToken applicant => exact Prepared.rollback h

theorem execute_ensures (hargon : argon.Exact) (hclosed : w₀.Closed)
    (hunique : w₀.refreshTokens.Unique sameId) {issued : List String}
    (hstored : Stored argon w₀.refreshTokens.committed issued) :
    Stmt.Ensures (execute jose argon 0 c) w₀ (Succeeds jose argon w₀ c)
      (fun _ w => w.rollback 0 = w₀) := by
  rw [← iterate_start jose argon 0 0 c]
  refine Stmt.iterate_ensures (J := Alone argon w₀ c) ?_ _ alone_start
  intro p w hp
  refine (resume_ensures jose argon 0 c.draws w p).mono ?_ ?_
  · intro q w' hdoes
    exact alone_next hargon hclosed hunique hstored hp hdoes
  · rintro e w' rfl
    exact hp.rollback hclosed

end Effect

section Exactness
variable {jose : Jose} {argon : Argon2} {h h' : History} {a : Attempt}

structure FreshInv (jose : Jose) (argon : Argon2) (h : History) : Prop where
  closed : h.world.Closed
  unique : h.world.refreshTokens.Unique sameId
  stored : Stored argon h.world.refreshTokens.committed h.issued
  named : ∀ e ∈ h.log, ∃ applicantId, e.applicantId = some applicantId ∧
    e.response.refreshToken =
      JWTService.createRefreshToken jose applicantId e.call.draws.refreshAt
  spent : ∀ text ∈ h.exchanged, text ∈ h.issued ∧
    ∀ m ∈ h.world.refreshTokens.committed,
      Argon2Hasher.verify argon text m.tokenHash = .ok true → m.revokedAt ≠ none

/-- What a call can do to a closed world. -/
inductive CallOutcome (jose : Jose) (argon : Argon2) (w₀ : World) (a : Attempt) :
    Except Error TokenResponse → World → Prop
  | fails (e : Error) : CallOutcome jose argon w₀ a (.error e) w₀
  | succeeds (response : TokenResponse) (w : World)
      (h : Succeeds jose argon w₀ a.call response w) :
      CallOutcome jose argon w₀ a (.ok response) (w.commit 0)

/-- What `get_session` makes of a call that runs alone. -/
theorem withSession_cases {Q : TokenResponse → World → Prop} {w₀ w : World}
    {result : Except Error TokenResponse}
    (hbody : Stmt.Ensures (execute jose argon 0 a.call) w₀ Q (fun _ w => w.rollback 0 = w₀))
    (hQ : ∀ response w, Q response w → w.rollback 0 = w₀)
    (hx : withSession jose argon a w₀ = some (result, w)) :
    (∃ e, result = .error e ∧ w = w₀) ∨
      ∃ response v, result = .ok response ∧ Q response v ∧ w = v.commit 0 :=
  Session.alone_cases (hbody.mono (fun _ _ h => ⟨hQ _ _ h, h⟩) fun _ _ h => h) hx

theorem withSession_outcome (hargon : argon.Exact) {w₀ : World} (hclosed : w₀.Closed)
    (hunique : w₀.refreshTokens.Unique sameId) {issued : List String}
    (hstored : Stored argon w₀.refreshTokens.committed issued)
    {result : Except Error TokenResponse} {w' : World}
    (h : withSession jose argon a w₀ = some (result, w')) :
    CallOutcome jose argon w₀ a result w' := by
  cases withSession_cases (execute_ensures hargon hclosed hunique hstored)
      (fun _ _ hsucceeds => hsucceeds.rollback) h with
  | inl hfails =>
      obtain ⟨e, rfl, rfl⟩ := hfails
      exact .fails e
  | inr hreturns =>
      obtain ⟨response, w, rfl, hsucceeds, rfl⟩ := hreturns
      exact .succeeds response w hsucceeds

theorem historyStep_cases (hstep : historyStep jose argon h a = some h') :
    ∃ result w, withSession jose argon a h.world = some (result, w) ∧ h'.world = w ∧
      h'.log = match result with
        | .error _ => h.log
        | .ok response =>
            ⟨a.call, applicantOf argon h.world a.call.operation, response⟩ :: h.log := by
  simp only [historyStep] at hstep
  split at hstep
  · obtain ⟨⟨result, w⟩, hx, rfl⟩ := Option.map_eq_some_iff.mp hstep
    exact ⟨result, w, hx, rfl, rfl⟩
  · contradiction

/-- The refresh token of a call is new just if its second is. -/
theorem new_iff (hjose : jose.Faithful) (hinv : FreshInv jose argon h) {response : TokenResponse}
    {w w' : World} (hsucceeds : Succeeds jose argon h.world a.call response w)
    (hx : withSession jose argon a h.world = some (.ok response, w')) :
    response.refreshToken ∉ h.issued ↔ NewSecond jose argon h a := by
  obtain ⟨applicantId, happlicant, htoken⟩ := hsucceeds.token
  constructor
  · intro hnew response' w'' hx' e he hsame hsecond
    obtain ⟨id, hid, hetoken⟩ := hinv.named e he
    have hidEq : id = applicantId :=
      Option.some.inj (hid.symm.trans (hsame.trans happlicant))
    refine hnew (List.mem_map.mpr ⟨e, he, ?_⟩)
    rw [hetoken, htoken]
    exact (JWTService.createRefreshToken_eq_iff jose hjose).mpr ⟨hidEq, hsecond⟩
  · intro hsecond hmem
    obtain ⟨e, he, heq⟩ := List.mem_map.mp hmem
    obtain ⟨id, hid, hetoken⟩ := hinv.named e he
    rw [hetoken, htoken] at heq
    obtain ⟨rfl, hsame⟩ := (JWTService.createRefreshToken_eq_iff jose hjose).mp heq
    exact hsecond response w' hx e he (hid.trans happlicant.symm) hsame

/-- The token a call exchanges has not been exchanged before. -/
theorem not_spent (hinv : FreshInv jose argon h) {response : TokenResponse} {w : World}
    (hsucceeds : Succeeds jose argon h.world a.call response w)
    {request : RefreshTokenRequest} {r : RefreshDraws}
    (hop : a.call.operation = .refresh request r) : request.refreshToken ∉ h.exchanged := by
  intro hmem
  cases hsucceeds.finds with
  | inl hnot => exact hnot request r hop
  | inr hfinds =>
      obtain ⟨m, request', r', hop', hm, hvalid, hverify⟩ := hfinds
      obtain ⟨rfl, rfl⟩ := Operation.refresh.inj (hop.symm.trans hop')
      simp only [RefreshTokenRepository.isValid, Bool.and_eq_true, Option.isNone_iff_eq_none]
        at hvalid
      exact (hinv.spent _ hmem).2 m hm hverify hvalid.2

theorem exchanged_of_log {e : Entry} (hlog : h'.log = e :: h.log) :
    h'.exchanged = e.exchanged?.toList ++ h.exchanged := by
  cases he : e.exchanged? <;> simp [History.exchanged, hlog, he]

theorem issued_of_log {e : Entry} (hlog : h'.log = e :: h.log) :
    h'.issued = e.response.refreshToken :: h.issued := by
  simp [History.issued, hlog]

theorem exchanged?_eq_some {e : Entry} {text : String} (he : e.exchanged? = some text) :
    ∃ request r, e.call.operation = .refresh request r ∧ request.refreshToken = text := by
  simp only [Entry.exchanged?] at he
  split at he
  · rename_i request r hop
    exact ⟨request, r, hop, Option.some.inj he⟩
  · contradiction

theorem FreshInv.succeeds (hargon : argon.Exact) (hinv : FreshInv jose argon h)
    {response : TokenResponse} {w : World}
    (hsucceeds : Succeeds jose argon h.world a.call response w)
    (hnew : response.refreshToken ∉ h.issued) (hworld : h'.world = w.commit 0)
    (hlog : h'.log =
      ⟨a.call, applicantOf argon h.world a.call.operation, response⟩ :: h.log) :
    FreshInv jose argon h' := by
  obtain ⟨ws, m, hws, hwritten, hrow, hrevoked⟩ := hsucceeds.row
  have hbefore : w.refreshTokens.committed = h.world.refreshTokens.committed := by
    rw [← hsucceeds.rollback]
    rfl
  rw [← hbefore] at hwritten
  have hkeeps : Keeps sameId (w.refreshTokens.writes 0) := by
    intro f hf
    rw [hws] at hf
    refine hwritten.keeps f ?_
    simpa using hf
  obtain ⟨f, hrows, hrotates⟩ := hwritten.committed_commit hsucceeds.unique hws
  rw [hbefore] at hrows hrotates
  have hissued := issued_of_log hlog
  have hrows' : h'.world.refreshTokens.committed =
      h.world.refreshTokens.committed.map f ++ [m] := by
    rw [hworld]
    exact hrows
  -- a row that verifies an issued text is a row of before
  have hold (x : RefreshTokenModel) (hx : x ∈ h'.world.refreshTokens.committed) (text : String)
      (htext : text ∈ h.issued) (hverify : Argon2Hasher.verify argon text x.tokenHash = .ok true) :
      ∃ y ∈ h.world.refreshTokens.committed, f y = x ∧
        Argon2Hasher.verify argon text y.tokenHash = .ok true := by
    rw [hrows'] at hx
    cases List.mem_append.mp hx with
    | inl hx =>
        obtain ⟨y, hy, rfl⟩ := List.mem_map.mp hx
        rw [hrotates.hash y hy] at hverify
        exact ⟨y, hy, rfl, hverify⟩
    | inr hx =>
        rw [List.mem_singleton.mp hx] at hverify
        rw [(hrow.verify_iff hargon).mp hverify] at htext
        exact absurd htext hnew
  refine ⟨?_, ?_, ?_, ?_, ?_⟩
  · rw [hworld]
    refine .of_rollback ?_
    rw [hsucceeds.rollback]
    exact hinv.closed
  · rw [hworld]
    exact hsucceeds.unique.commit 0 sameId_comm hkeeps
  · rw [hrows', hissued]
    exact hinv.stored.append hargon hrotates.id hrotates.hash hrow hnew
  · intro e he
    rw [hlog] at he
    cases List.mem_cons.mp he with
    | inl hhead =>
        obtain ⟨applicantId, happlicant, htoken⟩ := hsucceeds.token
        rw [hhead]
        exact ⟨applicantId, happlicant, htoken⟩
    | inr htail => exact hinv.named e htail
  · intro text htext
    rw [exchanged_of_log hlog, List.mem_append, Option.mem_toList] at htext
    rw [hissued]
    cases htext with
    | inr htext =>
        obtain ⟨hmem, hspent⟩ := hinv.spent text htext
        refine ⟨List.mem_cons_of_mem _ hmem, ?_⟩
        intro x hx hverify
        obtain ⟨y, hy, rfl, hverify'⟩ := hold x hx text hmem hverify
        exact hrotates.keeps y hy (hspent y hy hverify')
    | inl htext =>
        obtain ⟨request, r, hop, rfl⟩ := exchanged?_eq_some htext
        obtain ⟨z, hz, hverifyz, hrevokedz⟩ := hrotates.redeems request r hop
        have hmem := (hinv.stored.of_verify hargon hz hverifyz).1
        refine ⟨List.mem_cons_of_mem _ hmem, ?_⟩
        intro x hx hverify
        obtain ⟨y, hy, rfl, hverify'⟩ := hold x hx _ hmem hverify
        rw [eq_of_id hinv.unique hy hz
          (hinv.stored.once_of_verify hargon hy hz hverify' hverifyz)]
        exact hrevokedz

theorem FreshInv.step (hjose : jose.Faithful) (hargon : argon.Exact)
    (hinv : FreshInv jose argon h) (hsecond : NewSecond jose argon h a)
    (hstep : historyStep jose argon h a = some h') : FreshInv jose argon h' := by
  obtain ⟨result, w, hx, hworld, hlog⟩ := historyStep_cases hstep
  have houtcome := withSession_outcome hargon hinv.closed hinv.unique hinv.stored hx
  cases houtcome with
  | fails e =>
      have hissued : h'.issued = h.issued := by rw [History.issued, hlog, History.issued]
      have hexchanged : h'.exchanged = h.exchanged := by
        rw [History.exchanged, hlog, History.exchanged]
      refine ⟨?_, ?_, ?_, ?_, ?_⟩
      · rw [hworld]
        exact hinv.closed
      · rw [hworld]
        exact hinv.unique
      · rw [hworld, hissued]
        exact hinv.stored
      · rw [hlog]
        exact hinv.named
      · rw [hworld, hissued, hexchanged]
        exact hinv.spent
  | succeeds response w' hsucceeds =>
      exact hinv.succeeds hargon hsucceeds ((new_iff hjose hinv hsucceeds hx).mpr hsecond)
        hworld hlog

theorem step_freshTokens (hjose : jose.Faithful) (hargon : argon.Exact)
    (hinv : FreshInv jose argon h) (hfresh : FreshTokens h)
    (hstep : historyStep jose argon h a = some h') :
    FreshTokens h' ↔ NewSecond jose argon h a := by
  obtain ⟨result, w, hx, hworld, hlog⟩ := historyStep_cases hstep
  have houtcome := withSession_outcome hargon hinv.closed hinv.unique hinv.stored hx
  cases houtcome with
  | fails e =>
      refine ⟨fun _ response w' hx' => ?_, fun _ => ?_⟩
      · simp [hx] at hx'
      · simpa only [FreshTokens, History.issued, History.exchanged, hlog] using hfresh
  | succeeds response w' hsucceeds =>
      rw [← new_iff hjose hinv hsucceeds hx, FreshTokens, issued_of_log hlog,
        exchanged_of_log hlog, List.nodup_cons]
      refine ⟨fun hall => hall.1.1, fun hnew => ⟨⟨hnew, hfresh.1⟩, ?_⟩⟩
      cases hop : Entry.exchanged?
          ⟨a.call, applicantOf argon h.world a.call.operation, response⟩ with
      | none => exact hfresh.2
      | some text =>
          obtain ⟨request, r, hrefresh, rfl⟩ := exchanged?_eq_some hop
          exact List.nodup_cons.mpr ⟨not_spent hinv hsucceeds hrefresh, hfresh.2⟩

theorem freshInv_init : FreshInv jose argon .init := by
  refine ⟨⟨rfl, rfl, rfl⟩, List.Pairwise.nil, ⟨?_, ?_⟩, ?_, ?_⟩
  · exact fun m hm => absurd hm List.not_mem_nil
  · exact fun m hm => absurd hm List.not_mem_nil
  · exact fun e he => absurd he List.not_mem_nil
  · exact fun text htext => absurd htext List.not_mem_nil

/-- In a run of calls one after the other, all refresh tokens are new, and none is
exchanged twice, just if every call that succeeds makes the first refresh token of
its applicant in its second. -/
theorem freshTokens_iff (hjose : jose.Faithful) (hargon : argon.Exact)
    (attempts : List Attempt) :
    Runs.Throughout (historyStep jose argon) FreshTokens .init attempts ↔
      Runs.EachStep (historyStep jose argon) (NewSecond jose argon) .init attempts := by
  refine Runs.throughout_iff_eachStep (I := FreshInv jose argon) ?_ ?_ freshInv_init
    ⟨List.nodup_nil, List.nodup_nil⟩ attempts
  · intro h a h' hinv _ hsecond hstep
    exact hinv.step hjose hargon hsecond hstep
  · intro h a h' hinv hfresh hstep
    exact step_freshTokens hjose hargon hinv hfresh hstep

end Exactness

section SameSecond

def ada : RegisterRequest where
  email := "ada@example.com"
  password := "password"
  firstName := "Ada"
  lastName := "A"
  password_length := by decide
  firstName_length := by decide
  lastName_length := by decide

/-- An exchange, at `now`, of the token that applicant 1 got in second 0. -/
def exchangeAt (now : Datetime) (n : BitVec 128) : Attempt where
  call := {
    operation := .refresh ⟨JWTService.createRefreshToken .sample ⟨1⟩ 0⟩ ⟨now, .stored, now⟩
    draws := .at now n }

/-- A registration and a login in one second, then two exchanges of one token. -/
def sameSecondAttempts : List Attempt :=
  [{ call := ⟨.register ada ⟨0, ⟨1⟩, 0, 0⟩, .at 0 1⟩ },
    { call := ⟨.login ⟨"ada@example.com", "password"⟩, .at 0 2⟩ },
    exchangeAt 1 3, exchangeAt 2 4]

theorem sameSecond_not_freshTokens :
    ∃ h', Runs.run (historyStep .sample .sample) .init sameSecondAttempts = some h' ∧
      ¬ h'.issued.Nodup ∧ ¬ h'.exchanged.Nodup := by
  have hrun : ((Runs.run (historyStep .sample .sample) .init sameSecondAttempts).map fun h =>
      decide (¬ h.issued.Nodup ∧ ¬ h.exchanged.Nodup)) = some true := by decide +kernel
  obtain ⟨h', hh', hall⟩ := Option.map_eq_some_iff.mp hrun
  exact ⟨h', hh', of_decide_eq_true hall⟩

theorem freshTokens_iff_sameSecond :
    Runs.Throughout (historyStep .sample .sample) FreshTokens .init sameSecondAttempts ↔
      Runs.EachStep (historyStep .sample .sample) (NewSecond .sample .sample) .init
        sameSecondAttempts :=
  freshTokens_iff Jose.sample_faithful Argon2.sample_exact sameSecondAttempts

end SameSecond

end CrediGuard.Applicants
