import CrediGuard.Applicants.Freshness

/-!
What one exchange of a refresh token changes.

The exchange looks among the valid tokens of all applicants and trusts the first
hash that verifies. Over whole runs every stored hash is one of a token that an
earlier call returned, and its row names the applicant that token was made for. Two
rows may store one token; the exchange revokes one of them.
-/

namespace CrediGuard.Applicants
open ReadCommitted Statement

section Model
variable (jose : Jose) (argon : Argon2)

/-- The exchange may redeem the row. -/
def Redeemable (request : RefreshTokenRequest) (r : RefreshDraws) (m : RefreshTokenModel) :
    Prop :=
  RefreshTokenRepository.isValid r.now m = true ∧
    Argon2Hasher.verify argon request.refreshToken m.tokenHash = .ok true

/-- The applicant a call makes tokens for: the one it stores, the one with the e-mail
address, or the owner of a row it may redeem. -/
def Operation.IsFor (w : World) (applicantId : Uuid) : Operation → Prop
  | .register _ r => r.applicantId = applicantId
  | .login request => ∃ m ∈ w.applicants.committed,
      m.email = request.email ∧ m.id = applicantId
  | .refresh request r => ∃ m ∈ w.refreshTokens.committed,
      Redeemable argon request r m ∧ m.applicantId = applicantId

/-- A successful call, and the tables it began with. -/
structure Issue where
  before : World
  call : Call
  response : TokenResponse

/-- Both tokens of the response are the applicant's. -/
def Issue.For (i : Issue) (applicantId : Uuid) : Prop :=
  i.call.operation.IsFor argon i.before applicantId ∧
    ∃ applicant : Applicant, applicant.id = applicantId ∧
      i.response = tokenResponse jose applicant i.call.draws

structure Sequence where
  world : World
  /-- The successful calls, the latest first. -/
  log : List Issue

def Sequence.init : Sequence := ⟨⟨⟨[], []⟩, ⟨[], []⟩, []⟩, []⟩

/-- One call after the other, at any times. -/
def sequenceStep (s : Sequence) (a : Attempt) : Option Sequence :=
  (withSession jose argon a s.world).map fun (result, w) =>
    { world := w
      log := match result with
        | .error _ => s.log
        | .ok response => ⟨s.world, a.call, response⟩ :: s.log }

/-- The row is the unrevoked one of a token that was made with these draws. -/
structure RowFor (applicantId : Uuid) (text : String) (d : TokenDraws) (m : RefreshTokenModel) :
    Prop where
  applicantId : m.applicantId = applicantId
  text : RowOf argon m text
  revokedAt : m.revokedAt = none
  expiresAt : m.expiresAt = JWTService.getRefreshTokenExpiry d.expiryAt

/-- Of the rows, one of the token is revoked, and one is added. -/
structure RowRotated (applicantId : Uuid) (request : RefreshTokenRequest) (r : RefreshDraws)
    (d : TokenDraws) (response : TokenResponse) (rows rows' before : List RefreshTokenModel)
    (m : RefreshTokenModel) (after : List RefreshTokenModel) (new : RefreshTokenModel) :
    Prop where
  was : rows = before ++ m :: after
  becomes : rows' = before ++ { m with revokedAt := some r.revokedAt } :: after ++ [new]
  owner : m.applicantId = applicantId
  text : RowOf argon m request.refreshToken
  valid : RefreshTokenRepository.isValid r.now m = true
  added : RowFor argon applicantId response.refreshToken d new
  addedValid : r.now < JWTService.getRefreshTokenExpiry d.expiryAt →
    RefreshTokenRepository.isValid r.now new = true

/-- What an exchange that succeeds has found and changed. -/
structure Rotated (s : Sequence) (request : RefreshTokenRequest) (r : RefreshDraws)
    (d : TokenDraws) (response : TokenResponse) (w : World) (applicantId : Uuid) : Prop where
  issued : ∃ i ∈ s.log, i.response.refreshToken = request.refreshToken ∧
    i.For jose argon applicantId
  tokens : ∃ m ∈ s.world.applicants.committed, m.id = applicantId ∧
    response = tokenResponse jose (ApplicantRepository.toEntity m) d
  rows : ∃ before m after new, RowRotated argon applicantId request r d response
    s.world.refreshTokens.committed w.refreshTokens.committed before m after new
  applicants : w.applicants.committed = s.world.applicants.committed

variable {argon} in
theorem RowFor.isValid {applicantId : Uuid} {text : String} {d : TokenDraws}
    {m : RefreshTokenModel} (h : RowFor argon applicantId text d m) {now : Datetime}
    (hnow : now < JWTService.getRefreshTokenExpiry d.expiryAt) :
    RefreshTokenRepository.isValid now m = true := by
  simp [RefreshTokenRepository.isValid, h.expiresAt, h.revokedAt, hnow]

end Model

section Calls
variable {jose : Jose} {argon : Argon2} {w₀ : World} {d : TokenDraws}

/-- What no call changes of a row. -/
def rowKey (m : RefreshTokenModel) : Uuid × Uuid × String := (m.id, m.applicantId, m.tokenHash)

/-- A call that returns, before its COMMIT: the rows of before, as the call leaves
them, and a new one. -/
structure Issues (jose : Jose) (argon : Argon2) (w₀ : World) (c : Call) (applicant : Applicant)
    (response : TokenResponse) (rows : List RefreshTokenModel) (new : RefreshTokenModel)
    (w : World) : Prop where
  rollback : w.rollback 0 = w₀
  visible : w.refreshTokens.visible 0 = rows ++ [new]
  keys : rows.map rowKey = w₀.refreshTokens.committed.map rowKey
  fresh : ∀ m ∈ rows, m.id ≠ new.id
  isFor : c.operation.IsFor argon w₀ applicant.id
  made : response = tokenResponse jose applicant c.draws
  row : RowFor argon applicant.id response.refreshToken c.draws new

/-- The common end of the three use cases. -/
theorem issueTokens_ensures {operation : Operation} {applicant : Applicant}
    {rows : List RefreshTokenModel} {w : World} (hrollback : w.rollback 0 = w₀)
    (hvisible : w.refreshTokens.visible 0 = rows)
    (hkeys : rows.map rowKey = w₀.refreshTokens.committed.map rowKey)
    (hfor : operation.IsFor argon w₀ applicant.id) :
    Stmt.Ensures (issueTokens jose argon 0 d applicant) w
      (fun response w' => (∃ new,
        Issues jose argon w₀ ⟨operation, d⟩ applicant response rows new w') ∧
          w'.applicants = w.applicants)
      (fun _ w' => w'.rollback 0 = w₀) := by
  refine Stmt.Ensures.seq (saveToken_ensures _) ?_ fun _ _ h => h ▸ hrollback
  intro _ w' h
  obtain ⟨tokens, hinsert, rfl⟩ := h
  obtain ⟨rfl, _, hclash⟩ := Table.insert_eq_done hinsert
  refine ⟨⟨RefreshTokenRepository.toModel (refreshTokenEntity jose argon applicant.id d),
    ?_, ?_, hkeys, ?_, hfor, rfl, ⟨rfl, ⟨d.salt, rfl⟩, rfl, rfl⟩⟩, rfl⟩
  · rw [← hrollback]
    simp only [World.rollback, Table.rollback_write]
  · rw [Table.visible_write_self, hvisible]
    rfl
  · intro m hm hid
    have hdiffers := hclash m (hvisible ▸ hm)
    simp [RefreshTokenModel.clash, hid] at hdiffers

/-- One row of the table is revoked. -/
theorem map_overwrite {before after : List RefreshTokenModel} {m : RefreshTokenModel}
    {revokedAt : Datetime} (hids : ((before ++ m :: after).map fun m => m.id).Nodup) :
    (before ++ m :: after).map (RefreshTokenRepository.overwrite
        ((RefreshTokenRepository.toEntity m).revoke revokedAt)) =
      before ++ { m with revokedAt := some revokedAt } :: after := by
  have hother (rows : List RefreshTokenModel) (h : m.id ∉ rows.map fun m => m.id) :
      rows.map (RefreshTokenRepository.overwrite
        ((RefreshTokenRepository.toEntity m).revoke revokedAt)) = rows := by
    refine (List.map_congr_left ?_).trans (List.map_id rows)
    intro x hx
    refine overwrite_of_ne ?_
    intro hid
    exact h (List.mem_map.mpr ⟨x, hx, hid⟩)
  simp only [List.map_append, List.map_cons] at hids
  obtain ⟨_, hrest, hdisjoint⟩ := List.nodup_append.mp hids
  rw [List.map_append, List.map_cons, hother before, hother after (List.nodup_cons.mp hrest).1]
  · simp [RefreshTokenRepository.overwrite, RefreshTokenRepository.toEntity, RefreshToken.revoke]
  · intro hmem
    exact hdisjoint m.id hmem m.id (List.mem_cons_self ..) rfl

theorem mem_of_filter_eq_singleton {α : Type} {p : α → Bool} {as : List α} {a : α}
    (h : as.filter p = [a]) : a ∈ as ∧ p a = true := by
  have hmem : a ∈ as.filter p := by
    rw [h]
    exact List.mem_singleton_self a
  exact List.mem_filter.mp hmem

theorem register_ensures (hclosed : w₀.Closed) (request : RegisterRequest) (r : RegisterDraws) :
    Stmt.Ensures (register jose argon 0 d request r) w₀
      (fun response w => ∃ applicant rows new,
        Issues jose argon w₀ ⟨.register request r, d⟩ applicant response rows new w)
      (fun _ w => w.rollback 0 = w₀) := by
  have hrollback := hclosed.rollback 0
  refine Stmt.Ensures.seq (existsByEmail_ensures request.email) ?_ fun _ _ h => h ▸ hrollback
  intro found w h
  obtain ⟨rfl, _⟩ := h
  cases found with
  | true => exact hrollback
  | false =>
      refine Stmt.Ensures.seq (saveApplicant_ensures _) ?_ fun _ _ h => h ▸ hrollback
      intro _ w' h
      obtain ⟨applicants, hinsert, rfl⟩ := h
      obtain ⟨rfl, _, _⟩ := Table.insert_eq_done hinsert
      have hfor : Operation.IsFor argon w (newApplicant argon request r).id
          (.register request r) := rfl
      refine (issueTokens_ensures ?_ ?_ rfl hfor).mono ?_ fun _ _ h => h
      · conv_rhs => rw [← hrollback]
        simp only [World.rollback, Table.rollback_write]
      · exact hclosed.visible_refreshTokens 0
      · intro response w'' h
        obtain ⟨⟨new, hissues⟩, _⟩ := h
        exact ⟨_, _, new, hissues⟩

theorem login_ensures (hclosed : w₀.Closed) (request : LoginRequest) :
    Stmt.Ensures (login jose argon 0 d request) w₀
      (fun response w => ∃ applicant rows new,
        Issues jose argon w₀ ⟨.login request, d⟩ applicant response rows new w)
      (fun _ w => w.rollback 0 = w₀) := by
  have hrollback := hclosed.rollback 0
  refine Stmt.Ensures.seq (getOne_ensures _) ?_ fun _ _ h => h ▸ hrollback
  intro found w h
  obtain ⟨rfl, model, hrows, rfl⟩ := h
  cases model with
  | none => exact hrollback
  | some model =>
      have hfor : Operation.IsFor argon w (ApplicantRepository.toEntity model).id
          (.login request) := by
        rw [hclosed.visible_applicants] at hrows
        obtain ⟨hmem, hemail⟩ := mem_of_filter_eq_singleton hrows
        exact ⟨model, hmem, of_decide_eq_true hemail, rfl⟩
      refine Stmt.Ensures.seq (Stmt.ofExcept_ensures _) ?_ fun _ _ h => h.1 ▸ hrollback
      intro verified w' h
      obtain ⟨rfl, _⟩ := h
      cases verified with
      | false => exact hrollback
      | true =>
          refine (issueTokens_ensures hrollback (hclosed.visible_refreshTokens 0) rfl hfor).mono
            ?_ fun _ _ h => h
          intro response w'' h
          obtain ⟨⟨new, hissues⟩, _⟩ := h
          exact ⟨_, _, new, hissues⟩

/-- An exchange that returns, before its COMMIT. -/
structure Redeems (jose : Jose) (argon : Argon2) (w₀ : World) (request : RefreshTokenRequest)
    (r : RefreshDraws) (d : TokenDraws) (response : TokenResponse)
    (before : List RefreshTokenModel) (m : RefreshTokenModel) (after : List RefreshTokenModel)
    (model : ApplicantModel) (new : RefreshTokenModel) (w : World) : Prop where
  rows : w₀.refreshTokens.committed = before ++ m :: after
  redeemable : Redeemable argon request r m
  stored : model ∈ w₀.applicants.committed
  owner : model.id = m.applicantId
  applicants : w.applicants = w₀.applicants
  issues : Issues jose argon w₀ ⟨.refresh request r, d⟩ (ApplicantRepository.toEntity model)
    response (before ++ { m with revokedAt := some r.revokedAt } :: after) new w

theorem visible_revoke {T : Table Tx RefreshTokenModel} {before after : List RefreshTokenModel}
    {m : RefreshTokenModel} {revokedAt : Datetime} (hrows : T.visible 0 = before ++ m :: after)
    (hids : ((T.visible 0).map fun m => m.id).Nodup) :
    (T.write 0 (.update (RefreshTokenRepository.overwrite
        ((RefreshTokenRepository.toEntity m).revoke revokedAt)))).visible 0 =
      before ++ { m with revokedAt := some revokedAt } :: after := by
  rw [Table.visible_write_self, apply_update, hrows]
  exact map_overwrite (hrows ▸ hids)

/-- The second half of an exchange, once it has revoked the row of `m`. -/
theorem redeem_ensures (hclosed : w₀.Closed) {request : RefreshTokenRequest} {r : RefreshDraws}
    {before after : List RefreshTokenModel} {m : RefreshTokenModel} {w : World}
    (hrollback : w.rollback 0 = w₀) (hsame : w.applicants = w₀.applicants)
    (hrows : w₀.refreshTokens.committed = before ++ m :: after)
    (hvisible : w.refreshTokens.visible 0 =
      before ++ { m with revokedAt := some r.revokedAt } :: after)
    (hredeemable : Redeemable argon request r m) :
    Stmt.Ensures (do
        match ← ApplicantRepository.getById 0 m.applicantId with
        | none => Stmt.raise .invalidRefreshToken
        | some applicant => issueTokens jose argon 0 d applicant) w
      (fun response w' => ∃ before m after model new,
        Redeems jose argon w₀ request r d response before m after model new w')
      (fun _ w' => w'.rollback 0 = w₀) := by
  have happlicants : w.applicants.visible 0 = w₀.applicants.committed := by
    rw [hsame]
    exact hclosed.visible_applicants 0
  refine Stmt.Ensures.seq (getOne_ensures _) ?_ fun _ _ h => h ▸ hrollback
  intro owner w' h
  obtain ⟨rfl, model, hmodel, rfl⟩ := h
  cases model with
  | none => exact hrollback
  | some model =>
      rw [happlicants] at hmodel
      obtain ⟨hstored, hid⟩ := mem_of_filter_eq_singleton hmodel
      have howner : model.id = m.applicantId := of_decide_eq_true hid
      have hm : m ∈ w₀.refreshTokens.committed := by simp [hrows]
      have hfor : Operation.IsFor argon w₀ (ApplicantRepository.toEntity model).id
          (.refresh request r) := ⟨m, hm, hredeemable, howner.symm⟩
      refine (issueTokens_ensures hrollback hvisible ?_ hfor).mono ?_ fun _ _ h => h
      · rw [hrows, List.map_append, List.map_append, List.map_cons, List.map_cons]
        rfl
      · intro response w'' h
        obtain ⟨⟨new, hissues⟩, hkept⟩ := h
        exact ⟨before, m, after, model, new, hrows, hredeemable, hstored, howner,
          hkept.trans hsame, hissues⟩

theorem refresh_ensures (hclosed : w₀.Closed)
    (hids : (w₀.refreshTokens.committed.map fun m => m.id).Nodup)
    (request : RefreshTokenRequest) (r : RefreshDraws) :
    Stmt.Ensures (refresh jose argon 0 d request r) w₀
      (fun response w => ∃ before m after model new,
        Redeems jose argon w₀ request r d response before m after model new w)
      (fun _ w => w.rollback 0 = w₀) := by
  have hrollback := hclosed.rollback 0
  have hvisible := hclosed.visible_refreshTokens 0
  refine Stmt.Ensures.bind (x := Stmt.read _) ?_
  refine Stmt.Ensures.seq (Stmt.ofExcept_ensures _) ?_ fun _ _ h => h.1 ▸ hrollback
  intro found w h
  obtain ⟨rfl, hfound⟩ := h
  cases found with
  | none => exact hrollback
  | some token =>
      obtain ⟨hmem, hverify⟩ := firstVerified_eq_some hfound
      obtain ⟨m, hm, rfl⟩ := List.mem_map.mp hmem
      obtain ⟨hrow, hvalid⟩ := List.mem_filter.mp ((r.order.perm _).subset hm)
      rw [hvisible] at hrow
      obtain ⟨before, after, hrows⟩ := List.append_of_mem hrow
      dsimp only
      split
      · refine Stmt.Ensures.seq (update_ensures _) ?_ fun _ _ h => h ▸ hrollback
        intro _ w' h
        obtain ⟨_, _, rfl⟩ := h
        refine redeem_ensures hclosed ?_ rfl hrows ?_ ⟨hvalid, hverify⟩
        · conv_rhs => rw [← hrollback]
          simp [World.rollback]
        · exact visible_revoke (hvisible.trans hrows) (by rw [hvisible]; exact hids)
      · exact hrollback

theorem execute_issues (hclosed : w₀.Closed)
    (hids : (w₀.refreshTokens.committed.map fun m => m.id).Nodup) (c : Call) :
    Stmt.Ensures (execute jose argon 0 c) w₀
      (fun response w => ∃ applicant rows new,
        Issues jose argon w₀ c applicant response rows new w)
      (fun _ w => w.rollback 0 = w₀) := by
  obtain ⟨operation, d⟩ := c
  cases operation with
  | register request r => exact register_ensures hclosed request r
  | login request => exact login_ensures hclosed request
  | refresh request r =>
      refine (refresh_ensures hclosed hids request r).mono ?_ fun _ _ h => h
      intro response w h
      obtain ⟨before, m, after, model, new, hredeems⟩ := h
      exact ⟨_, _, new, hredeems.issues⟩

theorem update_settles {t : Tx} {w : World} (token : RefreshToken) (hlocks : w.locks = []) :
    Stmt.Settles (RefreshTokenRepository.update t token) w fun _ w' =>
      w'.refreshTokens.openInserts t = w.refreshTokens.openInserts t := by
  simp only [Stmt.Settles, RefreshTokenRepository.update, hlocks, List.any_nil,
    Bool.false_eq_true, if_false]
  by_cases hfound : (w.refreshTokens.visible t).any fun m => m.id = token.id
  · simp only [if_pos hfound]
    exact Table.openInserts_write _ _ _
  · simp only [if_neg hfound]

theorem saveToken_settles {t : Tx} {w : World} (token : RefreshToken)
    (hopen : w.refreshTokens.openInserts t = []) :
    Stmt.Settles (RefreshTokenRepository.save t token) w fun _ _ => True := by
  simp only [Stmt.Settles, RefreshTokenRepository.save, Table.insert, hopen, List.any_nil,
    Bool.false_eq_true, if_false]
  by_cases hfits : token.tokenHash.length ≤ 255
  · by_cases hclash : (w.refreshTokens.visible t).any
        (RefreshTokenModel.clash (RefreshTokenRepository.toModel token))
    · simp only [if_pos hfits, if_pos hclash]
    · simp only [if_pos hfits, if_neg hclash]
  · simp only [if_neg hfits]

/-- An exchange that nobody interferes with never waits. -/
theorem refresh_settles (hclosed : w₀.Closed) (request : RefreshTokenRequest)
    (r : RefreshDraws) :
    Stmt.Settles (refresh jose argon 0 d request r) w₀ fun _ _ => True := by
  have hopen := Table.openInserts_of_pending_nil 0 hclosed.refreshTokens
  refine Stmt.Settles.bind (x := Stmt.read _) ?_
  refine Stmt.Settles.seq (Stmt.ofExcept_settles _ _) ?_
  intro found w hw
  subst hw
  cases found with
  | none => trivial
  | some token =>
      dsimp only
      split
      · refine Stmt.Settles.seq (update_settles _ hclosed.locks) ?_
        intro _ w' hsame
        rw [hopen] at hsame
        refine Stmt.Settles.bind (x := ApplicantRepository.getById 0 token.applicantId) ?_
        refine Stmt.Settles.bind (x := Stmt.read _) ?_
        refine Stmt.Settles.seq (Stmt.oneOrNone_settles _ _ _) ?_
        intro model w'' hw''
        subst hw''
        cases model with
        | none => trivial
        | some model =>
            refine Stmt.Settles.seq (saveToken_settles _ hsame) ?_
            intro _ _ _
            trivial
      · trivial

end Calls

section Runs
variable {jose : Jose} {argon : Argon2} {s s' : Sequence} {a : Attempt}

/-- Every stored hash is that of a token a call has returned, for the owner of the row. -/
structure SequenceInv (jose : Jose) (argon : Argon2) (s : Sequence) : Prop where
  closed : s.world.Closed
  ids : (s.world.refreshTokens.committed.map fun m => m.id).Nodup
  owned : ∀ m ∈ s.world.refreshTokens.committed, ∃ i ∈ s.log,
    i.For jose argon m.applicantId ∧ RowOf argon m i.response.refreshToken

theorem map_id_eq_of_keys {rows rows' : List RefreshTokenModel}
    (h : rows'.map rowKey = rows.map rowKey) :
    (rows'.map fun m => m.id) = rows.map fun m => m.id := by
  have hfst := congrArg (List.map Prod.fst) h
  rw [List.map_map, List.map_map] at hfst
  exact hfst

theorem exists_of_keys {rows rows' : List RefreshTokenModel} {m : RefreshTokenModel}
    (h : rows'.map rowKey = rows.map rowKey) (hm : m ∈ rows') :
    ∃ m' ∈ rows, m'.applicantId = m.applicantId ∧ m'.tokenHash = m.tokenHash := by
  have hkey : rowKey m ∈ rows.map rowKey := by
    rw [← h]
    exact List.mem_map_of_mem hm
  obtain ⟨m', hm', heq⟩ := List.mem_map.mp hkey
  simp only [rowKey, Prod.mk.injEq] at heq
  exact ⟨m', hm', heq.2⟩

theorem SequenceInv.issues (h : SequenceInv jose argon s) {applicant : Applicant}
    {response : TokenResponse} {rows : List RefreshTokenModel} {new : RefreshTokenModel}
    {w : World} (hissues : Issues jose argon s.world a.call applicant response rows new w) :
    SequenceInv jose argon ⟨w.commit 0, ⟨s.world, a.call, response⟩ :: s.log⟩ := by
  have hcommitted : (w.commit 0).refreshTokens.committed = rows ++ [new] := hissues.visible
  refine ⟨?_, ?_, ?_⟩
  · refine .of_rollback ?_
    rw [hissues.rollback]
    exact h.closed
  · rw [hcommitted, List.map_append, List.nodup_append, map_id_eq_of_keys hissues.keys]
    refine ⟨h.ids, List.nodup_singleton _, ?_⟩
    intro id hid id' hid' heq
    obtain ⟨m, hm, rfl⟩ := List.mem_map.mp (map_id_eq_of_keys hissues.keys ▸ hid)
    rw [List.map_singleton, List.mem_singleton] at hid'
    exact hissues.fresh m hm (heq.trans hid')
  · intro m hm
    rw [hcommitted] at hm
    cases List.mem_append.mp hm with
    | inl hold =>
        obtain ⟨m', hm', howner, hhash⟩ := exists_of_keys hissues.keys hold
        obtain ⟨i, hi, hfor, salt, hsalt⟩ := h.owned m' hm'
        refine ⟨i, List.mem_cons_of_mem _ hi, howner ▸ hfor, salt, ?_⟩
        rw [← hhash, hsalt]
    | inr hnew =>
        rw [List.mem_singleton.mp hnew, hissues.row.applicantId]
        exact ⟨_, List.mem_cons_self .., ⟨hissues.isFor, applicant, rfl, hissues.made⟩,
          hissues.row.text⟩

/-- A call that fails leaves everything as it was. -/
theorem SequenceInv.step_cases (h : SequenceInv jose argon s)
    (hstep : sequenceStep jose argon s a = some s') :
    s' = s ∨ ∃ applicant response rows new w,
      Issues jose argon s.world a.call applicant response rows new w ∧
        s' = ⟨w.commit 0, ⟨s.world, a.call, response⟩ :: s.log⟩ := by
  obtain ⟨⟨result, w⟩, hx, rfl⟩ := Option.map_eq_some_iff.mp hstep
  have hrollback (response : TokenResponse) (v : World) (hv : ∃ applicant rows new,
      Issues jose argon s.world a.call applicant response rows new v) :
      v.rollback 0 = s.world := by
    obtain ⟨applicant, rows, new, hissues⟩ := hv
    exact hissues.rollback
  cases withSession_cases (execute_issues h.closed h.ids a.call) hrollback hx with
  | inl hfails =>
      obtain ⟨e, rfl, rfl⟩ := hfails
      exact .inl rfl
  | inr hreturns =>
      obtain ⟨response, v, rfl, ⟨applicant, rows, new, hissues⟩, rfl⟩ := hreturns
      exact .inr ⟨applicant, response, rows, new, v, hissues, rfl⟩

theorem SequenceInv.step (h : SequenceInv jose argon s)
    (hstep : sequenceStep jose argon s a = some s') : SequenceInv jose argon s' := by
  cases h.step_cases hstep with
  | inl hsame =>
      rw [hsame]
      exact h
  | inr hissued =>
      obtain ⟨applicant, response, rows, new, w, hissues, rfl⟩ := hissued
      exact h.issues hissues

theorem SequenceInv.init : SequenceInv jose argon .init :=
  ⟨⟨rfl, rfl, rfl⟩, List.nodup_nil, fun _ hm => absurd hm List.not_mem_nil⟩

/-- What an exchange redeems was issued, by an earlier call, for the applicant it serves. -/
theorem SequenceInv.rotated (hargon : argon.Exact) (h : SequenceInv jose argon s)
    {request : RefreshTokenRequest} {r : RefreshDraws} {d : TokenDraws}
    {response : TokenResponse} {before after : List RefreshTokenModel} {m : RefreshTokenModel}
    {model : ApplicantModel} {new : RefreshTokenModel} {w : World}
    (hredeems : Redeems jose argon s.world request r d response before m after model new w) :
    Rotated jose argon s request r d response (w.commit 0) model.id := by
  have hm : m ∈ s.world.refreshTokens.committed := by simp [hredeems.rows]
  obtain ⟨i, hi, hfor, hrow⟩ := h.owned m hm
  have htext : request.refreshToken = i.response.refreshToken :=
    (hrow.verify_iff hargon).mp hredeems.redeemable.2
  refine ⟨⟨i, hi, htext.symm, hredeems.owner ▸ hfor⟩,
    ⟨model, hredeems.stored, rfl, hredeems.issues.made⟩,
    ⟨before, m, after, new, hredeems.rows, hredeems.issues.visible, hredeems.owner.symm,
      htext ▸ hrow, hredeems.redeemable.1, hredeems.issues.row,
      hredeems.issues.row.isValid⟩, ?_⟩
  change w.applicants.visible 0 = _
  rw [hredeems.applicants]
  exact Table.visible_of_writes_nil (Table.writes_of_pending_nil 0 h.closed.applicants)

/-- In a run of calls one after the other, at any times: an exchange that succeeds
redeems a token that was issued to the applicant it makes tokens for, revokes one
row of that token and adds one; an exchange that fails changes nothing. -/
theorem refresh_rotates (hargon : argon.Exact) (attempts : List Attempt)
    (hrun : Runs.run (sequenceStep jose argon) .init attempts = some s)
    (request : RefreshTokenRequest) (r : RefreshDraws) (d : TokenDraws) (commits : Bool) :
    ∃ result w,
      withSession jose argon ⟨⟨.refresh request r, d⟩, commits⟩ s.world = some (result, w) ∧
      match result with
      | .error _ => w = s.world
      | .ok response => ∃ applicantId, Rotated jose argon s request r d response w applicantId := by
  have hinv : SequenceInv jose argon s :=
    Runs.invariant (fun _ _ _ h hstep => h.step hstep) .init hrun
  have hsome : (withSession jose argon ⟨⟨.refresh request r, d⟩, commits⟩ s.world).isSome :=
    Session.alone_isSome (refresh_settles hinv.closed request r)
  obtain ⟨⟨result, w⟩, hx⟩ := Option.isSome_iff_exists.mp hsome
  refine ⟨result, w, hx, ?_⟩
  have hrollback (response : TokenResponse) (v : World) (hv : ∃ before m after model new,
      Redeems jose argon s.world request r d response before m after model new v) :
      v.rollback 0 = s.world := by
    obtain ⟨before, m, after, model, new, hredeems⟩ := hv
    exact hredeems.issues.rollback
  cases withSession_cases (a := ⟨⟨.refresh request r, d⟩, commits⟩)
      (refresh_ensures hinv.closed hinv.ids request r) hrollback hx with
  | inl hfails =>
      obtain ⟨e, rfl, rfl⟩ := hfails
      rfl
  | inr hreturns =>
      obtain ⟨response, v, rfl, ⟨before, m, after, model, new, hredeems⟩, rfl⟩ := hreturns
      exact ⟨model.id, hinv.rotated hargon hredeems⟩

/-- A registration and a login in one second store one token twice; the token is exchanged. -/
theorem refresh_rotates_stored : ∃ s response w applicantId,
    Runs.run (sequenceStep .sample .sample) .init (sameSecondAttempts.take 2) = some s ∧
      withSession .sample .sample (exchangeAt 1 3) s.world = some (.ok response, w) ∧
      Rotated .sample .sample s ⟨JWTService.createRefreshToken .sample ⟨1⟩ 0⟩ ⟨1, .stored, 1⟩
        (.at 1 3) response w applicantId := by
  have hok : ((Runs.run (sequenceStep .sample .sample) .init (sameSecondAttempts.take 2)).bind
      fun s => (withSession .sample .sample (exchangeAt 1 3) s.world).map fun p => p.1.isOk) =
        some true := by decide +kernel
  obtain ⟨s, hrun, hserved⟩ := Option.bind_eq_some_iff.mp hok
  obtain ⟨⟨result, w⟩, hx, hresult⟩ := Option.map_eq_some_iff.mp hserved
  obtain ⟨result', w', hx', hrotates⟩ := refresh_rotates Argon2.sample_exact _ hrun
    ⟨JWTService.createRefreshToken .sample ⟨1⟩ 0⟩ ⟨1, .stored, 1⟩ (.at 1 3) true
  obtain ⟨rfl, rfl⟩ := Prod.mk.inj (Option.some.inj (hx.symm.trans hx'))
  cases result with
  | error e => contradiction
  | ok response =>
      obtain ⟨applicantId, hrotated⟩ := hrotates
      exact ⟨s, response, w, applicantId, hrun, hx, hrotated⟩

end Runs

end CrediGuard.Applicants
