import CrediGuard.Applicants.Reuse

/-!
How often a refresh token can be exchanged.

Two calls of one second may return one token, which then has two rows. One call
after the other, a token is exchanged exactly as often as it was handed out: the
unrevoked rows of a token are as many as the times it was handed out and not yet
exchanged.
-/

namespace CrediGuard.Applicants
open ReadCommitted Statement

section Model
variable (jose : Jose) (argon : Argon2)

def Issue.redeemed? (i : Issue) : Option String :=
  match i.call.operation with
  | .refresh request _ => some request.refreshToken
  | _ => none

/-- The tokens that were exchanged, the latest first. -/
def Sequence.redeemed (s : Sequence) : List String := s.log.filterMap Issue.redeemed?

/-- The token has not expired, whenever it was handed out. -/
def Sequence.Lives (s : Sequence) (text : String) (now : Datetime) : Prop :=
  ∀ i ∈ s.log, i.response.refreshToken = text →
    now < JWTService.getRefreshTokenExpiry i.call.draws.expiryAt

/-- The token these draws make can be stored, for every applicant there is. -/
def CanStore (w : World) (d : TokenDraws) : Prop :=
  ∀ applicant ∈ w.applicants.committed,
    (refreshTokenEntity jose argon applicant.id d).tokenHash.length ≤ 255 ∧
      ∀ m ∈ w.refreshTokens.committed, RefreshTokenModel.clash
        (RefreshTokenRepository.toModel (refreshTokenEntity jose argon applicant.id d)) m = false

/-- The row can be exchanged for the token, expiry apart. -/
def isOpen (text : String) (m : RefreshTokenModel) : Bool :=
  m.revokedAt.isNone && Argon2Hasher.verify argon text m.tokenHash = .ok true

def openRows (text : String) (rows : List RefreshTokenModel) : Nat :=
  rows.countP (isOpen argon text)

end Model

section Calls
variable {jose : Jose} {argon : Argon2} {w₀ : World} {d : TokenDraws}

/-- A registration or a login that returns, before its COMMIT. -/
structure SignsIn (jose : Jose) (argon : Argon2) (w₀ : World) (c : Call) (response : TokenResponse)
    (new : RefreshTokenModel) (w : World) : Prop where
  notRefresh : NotRefresh c
  issues : ∃ applicant,
    Issues jose argon w₀ c applicant response w₀.refreshTokens.committed new w
  unique : (w.applicants.commit 0).Unique ApplicantModel.clash
  owner : ∃ m ∈ w.applicants.visible 0, m.id = new.applicantId
  kept : w₀.applicants.committed ⊆ w.applicants.visible 0

theorem register_opens (hclosed : w₀.Closed) (hunique : w₀.applicants.Unique ApplicantModel.clash)
    (request : RegisterRequest) (r : RegisterDraws) :
    Stmt.Ensures (register jose argon 0 d request r) w₀
      (fun response w => ∃ new, SignsIn jose argon w₀ ⟨.register request r, d⟩ response new w)
      (fun _ w => w.rollback 0 = w₀) := by
  have hrollback := hclosed.rollback 0
  refine Stmt.Ensures.seq (existsByEmail_ensures request.email) ?_ fun _ _ h => h ▸ hrollback
  intro found w h
  obtain ⟨rfl, _⟩ := h
  cases found with
  | true => exact hrollback
  | false =>
      refine Stmt.Ensures.seq (saveApplicant_ensures _) ?_ fun _ _ h => h ▸ hrollback
      intro _ w' h
      obtain ⟨applicants, hinsert, rfl⟩ := h
      have hkeeps : Keeps ApplicantModel.clash (w.applicants.writes 0) := by
        rw [Table.writes_of_pending_nil 0 hclosed.applicants]
        exact fun _ hf => absurd hf List.not_mem_nil
      have hunique' := hunique.insert ApplicantModel.clash_comm hkeeps hinsert
      obtain ⟨rfl, _, _⟩ := Table.insert_eq_done hinsert
      have hfor : Operation.IsFor argon w (newApplicant argon request r).id
          (.register request r) := rfl
      refine (issueTokens_ensures ?_ ?_ rfl hfor).mono ?_ fun _ _ h => h
      · conv_rhs => rw [← hrollback]
        simp only [World.rollback, Table.rollback_write]
      · exact hclosed.visible_refreshTokens 0
      · intro response w'' h
        obtain ⟨⟨new, hissues⟩, hsame⟩ := h
        have hvisible : w''.applicants.visible 0 = w.applicants.committed ++
            [ApplicantRepository.toModel (newApplicant argon request r)] := by
          rw [hsame, Table.visible_write_self, hclosed.visible_applicants]
          rfl
        refine ⟨new, by simp [NotRefresh], ⟨_, hissues⟩, ?_, ?_, ?_⟩
        · rw [hsame]
          refine hunique'.commit 0 ApplicantModel.clash_comm ?_
          rw [Table.writes_write_self, Table.writes_of_pending_nil 0 hclosed.applicants]
          exact fun f hf => absurd hf (by simp)
        · rw [hvisible, hissues.row.applicantId]
          exact ⟨_, List.mem_concat_self, rfl⟩
        · rw [hvisible]
          exact List.subset_append_left ..

theorem login_opens (hclosed : w₀.Closed) (hunique : w₀.applicants.Unique ApplicantModel.clash)
    (request : LoginRequest) :
    Stmt.Ensures (login jose argon 0 d request) w₀
      (fun response w => ∃ new, SignsIn jose argon w₀ ⟨.login request, d⟩ response new w)
      (fun _ w => w.rollback 0 = w₀) := by
  have hrollback := hclosed.rollback 0
  have happlicants := hclosed.visible_applicants 0
  refine Stmt.Ensures.seq (getOne_ensures _) ?_ fun _ _ h => h ▸ hrollback
  intro found w h
  obtain ⟨rfl, model, hrows, rfl⟩ := h
  cases model with
  | none => exact hrollback
  | some model =>
      rw [happlicants] at hrows
      obtain ⟨hmem, hemail⟩ := mem_of_filter_eq_singleton hrows
      have hfor : Operation.IsFor argon w (ApplicantRepository.toEntity model).id
          (.login request) := ⟨model, hmem, of_decide_eq_true hemail, rfl⟩
      refine Stmt.Ensures.seq (Stmt.ofExcept_ensures _) ?_ fun _ _ h => h.1 ▸ hrollback
      intro verified w' h
      obtain ⟨rfl, _⟩ := h
      cases verified with
      | false => exact hrollback
      | true =>
          refine (issueTokens_ensures hrollback (hclosed.visible_refreshTokens 0) rfl hfor).mono
            ?_ fun _ _ h => h
          intro response w'' h
          obtain ⟨⟨new, hissues⟩, hsame⟩ := h
          refine ⟨new, by simp [NotRefresh], ⟨_, hissues⟩, ?_, ?_, ?_⟩
          · rw [hsame, Table.commit_of_pending_nil 0 hclosed.applicants]
            exact hunique
          · rw [hsame, happlicants, hissues.row.applicantId]
            exact ⟨model, hmem, rfl⟩
          · rw [hsame, happlicants]
            exact List.Subset.refl _

/-- What a call that returns has done, before its COMMIT. -/
inductive Effect (jose : Jose) (argon : Argon2) (w₀ : World) (c : Call) (response : TokenResponse)
    (w : World) : Prop
  | opens (new : RefreshTokenModel) (h : SignsIn jose argon w₀ c response new w)
  | redeems (request : RefreshTokenRequest) (r : RefreshDraws) (before : List RefreshTokenModel)
      (m : RefreshTokenModel) (after : List RefreshTokenModel) (model : ApplicantModel)
      (new : RefreshTokenModel) (hcall : c = ⟨.refresh request r, c.draws⟩)
      (h : Redeems jose argon w₀ request r c.draws response before m after model new w)

theorem Effect.rollback {c : Call} {response : TokenResponse} {w : World}
    (h : Effect jose argon w₀ c response w) : w.rollback 0 = w₀ := by
  cases h with
  | opens new h =>
      obtain ⟨applicant, hissues⟩ := h.issues
      exact hissues.rollback
  | redeems request r before m after model new hcall h => exact h.issues.rollback

theorem Effect.made {c : Call} {response : TokenResponse} {w : World}
    (h : Effect jose argon w₀ c response w) :
    ∃ applicant, response = tokenResponse jose applicant c.draws := by
  cases h with
  | opens new h =>
      obtain ⟨applicant, hissues⟩ := h.issues
      exact ⟨applicant, hissues.made⟩
  | redeems request r before m after model new hcall h => exact ⟨_, h.issues.made⟩

theorem execute_effect (hclosed : w₀.Closed)
    (hids : (w₀.refreshTokens.committed.map fun m => m.id).Nodup)
    (hunique : w₀.applicants.Unique ApplicantModel.clash) (c : Call) :
    Stmt.Ensures (execute jose argon 0 c) w₀ (Effect jose argon w₀ c)
      (fun _ w => w.rollback 0 = w₀) := by
  obtain ⟨operation, d⟩ := c
  cases operation with
  | register request r =>
      refine (register_opens hclosed hunique request r).mono ?_ fun _ _ h => h
      intro response w h
      obtain ⟨new, hopens⟩ := h
      exact .opens new hopens
  | login request =>
      refine (login_opens hclosed hunique request).mono ?_ fun _ _ h => h
      intro response w h
      obtain ⟨new, hopens⟩ := h
      exact .opens new hopens
  | refresh request r =>
      refine (refresh_ensures hclosed hids request r).mono ?_ fun _ _ h => h
      intro response w h
      obtain ⟨before, m, after, model, new, hredeems⟩ := h
      exact .redeems request r before m after model new rfl hredeems

end Calls

section Refusals
variable {jose : Jose} {argon : Argon2} {w₀ w : World} {d : TokenDraws}
  {request : RefreshTokenRequest} {r : RefreshDraws}

theorem issueTokens_stores (applicant : Applicant)
    (hfits : (refreshTokenEntity jose argon applicant.id d).tokenHash.length ≤ 255)
    (hfree : ∀ m ∈ w.refreshTokens.visible 0, RefreshTokenModel.clash
      (RefreshTokenRepository.toModel (refreshTokenEntity jose argon applicant.id d)) m = false) :
    Stmt.Ensures (issueTokens jose argon 0 d applicant) w (fun _ _ => True)
      (fun _ _ => False) := by
  have hsave : Stmt.Ensures
      (RefreshTokenRepository.save 0 (refreshTokenEntity jose argon applicant.id d)) w
      (fun _ _ => True) (fun _ _ => False) := by
    have hvisible : (w.refreshTokens.visible 0).any (RefreshTokenModel.clash
        (RefreshTokenRepository.toModel (refreshTokenEntity jose argon applicant.id d))) =
          false := by
      simpa using hfree
    simp only [Stmt.Ensures, RefreshTokenRepository.save, if_pos hfits, Table.insert, hvisible,
      Bool.false_eq_true, if_false]
    by_cases hopen : (w.refreshTokens.openInserts 0).any (RefreshTokenModel.clash
        (RefreshTokenRepository.toModel (refreshTokenEntity jose argon applicant.id d)))
    · simp only [if_pos hopen]
    · simp only [if_neg hopen]
  exact hsave.seq (fun _ _ _ => trivial) fun _ _ h => h

theorem getById_finds {t : Tx} {applicantId : Uuid} {model : ApplicantModel}
    (h : (w.applicants.visible t).filter (fun m => m.id = applicantId) = [model]) :
    Stmt.Ensures (ApplicantRepository.getById t applicantId) w
      (fun found w' => w' = w ∧ found = some (ApplicantRepository.toEntity model))
      (fun _ _ => False) := by
  have hfound := getById_of_filter (some model) h
  simp only [Stmt.Ensures, hfound, Option.map_some, and_self]

theorem clash_revoked (a m : RefreshTokenModel) (revokedAt : Option Datetime) :
    a.clash { m with revokedAt := revokedAt } = a.clash m := rfl

/-- The second half of an exchange, once it has revoked the row of `m`. -/
theorem redeem_refuses {before after : List RefreshTokenModel} {m : RefreshTokenModel}
    (hclosed : w₀.Closed) (hunique : w₀.applicants.Unique ApplicantModel.clash)
    (howners : ∀ m ∈ w₀.refreshTokens.committed, ∃ applicant ∈ w₀.applicants.committed,
      applicant.id = m.applicantId)
    (hstore : CanStore jose argon w₀ d) (hsame : w.applicants = w₀.applicants)
    (hrows : w₀.refreshTokens.committed = before ++ m :: after)
    (hvisible : w.refreshTokens.visible 0 =
      before ++ { m with revokedAt := some r.revokedAt } :: after) :
    Stmt.Ensures (do
        match ← ApplicantRepository.getById 0 m.applicantId with
        | none => Stmt.raise .invalidRefreshToken
        | some applicant => issueTokens jose argon 0 d applicant) w (fun _ _ => True)
      (fun e _ => e = .invalidRefreshToken ∨ e = .refreshTokenRevoked) := by
  have hm : m ∈ w₀.refreshTokens.committed := by simp [hrows]
  obtain ⟨model, hmodel, howner⟩ := howners m hm
  have hfilter : (w.applicants.visible 0).filter (fun x => x.id = m.applicantId) = [model] := by
    rw [hsame, hclosed.visible_applicants]
    refine hunique.filter_eq_singleton (fun a b ha hb => ?_) hmodel (decide_eq_true howner)
    simp [ApplicantModel.clash, of_decide_eq_true ha, of_decide_eq_true hb]
  refine Stmt.Ensures.seq (getById_finds hfilter) ?_ fun _ _ h => h.elim
  intro found w' h
  obtain ⟨rfl, rfl⟩ := h
  obtain ⟨hfits, hfree⟩ := hstore model hmodel
  refine (issueTokens_stores (ApplicantRepository.toEntity model) hfits ?_).mono
    (fun _ _ _ => trivial) fun _ _ h => h.elim
  intro x hx
  rw [hvisible, List.mem_append, List.mem_cons] at hx
  rw [hrows] at hfree
  obtain hx | rfl | hx := hx
  · exact hfree x (by simp [hx])
  · rw [clash_revoked]
    exact hfree m (by simp)
  · exact hfree x (by simp [hx])

/-- Where all rows have their applicants and the new token can be stored, an exchange
raises nothing but its own errors. -/
theorem refresh_refuses (hclosed : w₀.Closed)
    (hids : (w₀.refreshTokens.committed.map fun m => m.id).Nodup)
    (hunique : w₀.applicants.Unique ApplicantModel.clash)
    (hchecks : ∀ m ∈ w₀.refreshTokens.committed, ∀ p, ∃ b,
      Argon2Hasher.verify argon p m.tokenHash = .ok b)
    (howners : ∀ m ∈ w₀.refreshTokens.committed, ∃ applicant ∈ w₀.applicants.committed,
      applicant.id = m.applicantId)
    (hstore : CanStore jose argon w₀ d) :
    Stmt.Ensures (refresh jose argon 0 d request r) w₀ (fun _ _ => True)
      (fun e _ => e = .invalidRefreshToken ∨ e = .refreshTokenRevoked) := by
  have hvisible := hclosed.visible_refreshTokens 0
  refine Stmt.Ensures.bind (x := Stmt.read _) ?_
  have hsearch : ∃ found, firstVerified argon request.refreshToken ((r.order.arrange
      ((w₀.refreshTokens.visible 0).filter (RefreshTokenRepository.isValid r.now))).map
        RefreshTokenRepository.toEntity) = .ok found := by
    refine firstVerified_exists ?_
    intro token htoken
    obtain ⟨m, hm, rfl⟩ := List.mem_map.mp htoken
    have hrow := (List.mem_filter.mp ((r.order.perm _).subset hm)).1
    exact hchecks m (hvisible ▸ hrow) request.refreshToken
  obtain ⟨found, hfound⟩ := hsearch
  refine Stmt.Ensures.seq (Stmt.ofExcept_ensures _) ?_ ?_
  · intro found' w h
    obtain ⟨rfl, hfound'⟩ := h
    cases found' with
    | none => exact .inl rfl
    | some token =>
        obtain ⟨hmem, _⟩ := firstVerified_eq_some hfound'
        obtain ⟨m, hm, rfl⟩ := List.mem_map.mp hmem
        have hrow := (List.mem_filter.mp ((r.order.perm _).subset hm)).1
        have hm : m ∈ w.refreshTokens.committed := hvisible ▸ hrow
        obtain ⟨before, after, hrows⟩ := List.append_of_mem hm
        dsimp only
        split
        · refine Stmt.Ensures.seq ((update_of_row _ ⟨m, hrow, rfl⟩ hclosed.locks).and
            (update_ensures _)) ?_ fun _ _ h => h.1.elim
          intro _ w' h
          obtain ⟨_, _, _, rfl⟩ := h
          refine redeem_refuses (r := r) hclosed hunique howners hstore rfl hrows ?_
          exact visible_revoke (hvisible.trans hrows) (by rw [hvisible]; exact hids)
        · exact .inr rfl
  · intro e w h
    rw [hfound] at h
    exact absurd h.2 (by simp)

end Refusals

section Tally
variable {jose : Jose} {argon : Argon2} {s s' : Sequence} {a : Attempt} {text : String}

/-- The tables and the log agree on how often each token can be exchanged. -/
structure Tallied (jose : Jose) (argon : Argon2) (s : Sequence) : Prop where
  inv : SequenceInv jose argon s
  unique : s.world.applicants.Unique ApplicantModel.clash
  owners : ∀ m ∈ s.world.refreshTokens.committed, ∃ applicant ∈ s.world.applicants.committed,
    applicant.id = m.applicantId
  dated : ∀ m ∈ s.world.refreshTokens.committed, ∃ i ∈ s.log,
    RowOf argon m i.response.refreshToken ∧
      m.expiresAt = JWTService.getRefreshTokenExpiry i.call.draws.expiryAt
  balanced : ∀ text, s.issued.count text =
    s.redeemed.count text + openRows argon text s.world.refreshTokens.committed

theorem isOpen_of_rowOf (hargon : argon.Exact) {m : RefreshTokenModel} {p : String}
    (hrow : RowOf argon m p) (hrevoked : m.revokedAt = none) :
    isOpen argon text m = decide (p = text) := by
  rw [isOpen, hrevoked, Bool.eq_iff_iff, Option.isNone_none, Bool.true_and, decide_eq_true_iff,
    decide_eq_true_iff, hrow.verify_iff hargon, eq_comm]

theorem openRows_concat (hargon : argon.Exact) {rows : List RefreshTokenModel}
    {new : RefreshTokenModel} {applicantId : Uuid} {p : String} {d : TokenDraws}
    (h : RowFor argon applicantId p d new) :
    openRows argon text (rows ++ [new]) = openRows argon text rows + if p = text then 1 else 0 := by
  rw [openRows, List.countP_append, List.countP_singleton,
    isOpen_of_rowOf hargon h.text h.revokedAt]
  simp only [decide_eq_true_eq, openRows]

theorem openRows_revoke (hargon : argon.Exact) {before after : List RefreshTokenModel}
    {m : RefreshTokenModel} {p : String} (revokedAt : Datetime) (hrow : RowOf argon m p)
    (hrevoked : m.revokedAt = none) :
    openRows argon text (before ++ m :: after) =
      openRows argon text (before ++ { m with revokedAt := some revokedAt } :: after) +
        if p = text then 1 else 0 := by
  have hclosed : isOpen argon text { m with revokedAt := some revokedAt } = false := rfl
  simp only [openRows, List.countP_append, List.countP_cons, isOpen_of_rowOf hargon hrow hrevoked,
    hclosed, decide_eq_true_eq, Bool.false_eq_true, if_false]
  omega

theorem Tallied.init : Tallied jose argon .init :=
  ⟨.init, List.Pairwise.nil, fun _ hm => absurd hm List.not_mem_nil,
    fun _ hm => absurd hm List.not_mem_nil, fun _ => rfl⟩

theorem Tallied.step_cases (h : Tallied jose argon s)
    (hstep : sequenceStep jose argon s a = some s') :
    s' = s ∨ ∃ response w, Effect jose argon s.world a.call response w ∧
      s' = ⟨w.commit 0, ⟨s.world, a.call, response⟩ :: s.log⟩ := by
  obtain ⟨⟨result, w⟩, hx, rfl⟩ := Option.map_eq_some_iff.mp hstep
  cases withSession_cases (execute_effect h.inv.closed h.inv.ids h.unique a.call)
      (fun _ _ => Effect.rollback) hx with
  | inl hfails =>
      obtain ⟨e, rfl, rfl⟩ := hfails
      exact .inl rfl
  | inr hreturns =>
      obtain ⟨response, v, rfl, heffect, rfl⟩ := hreturns
      exact .inr ⟨response, v, heffect, rfl⟩

theorem count_issued (i : Issue) (log : List Issue) (w : World) :
    (Sequence.mk w (i :: log)).issued.count text =
      (Sequence.mk w log).issued.count text + if i.response.refreshToken = text then 1 else 0 := by
  simp [Sequence.issued, List.count_cons]

theorem Tallied.opens (hargon : argon.Exact) (h : Tallied jose argon s) {c : Call}
    {response : TokenResponse} {new : RefreshTokenModel} {w : World}
    (hopens : SignsIn jose argon s.world c response new w) :
    Tallied jose argon ⟨w.commit 0, ⟨s.world, c, response⟩ :: s.log⟩ := by
  obtain ⟨applicant, hissues⟩ := hopens.issues
  have hrows : (w.commit 0).refreshTokens.committed = s.world.refreshTokens.committed ++ [new] :=
    hissues.visible
  have hredeemed : (Sequence.mk (w.commit 0) (⟨s.world, c, response⟩ :: s.log)).redeemed =
      s.redeemed := by
    refine List.filterMap_cons_none ?_
    rw [Issue.redeemed?]
    split
    · rename_i request r hop
      exact absurd hop (hopens.notRefresh request r)
    · rfl
  refine ⟨h.inv.issues (a := ⟨c, true⟩) hissues, hopens.unique, ?_, ?_, ?_⟩
  · intro m hm
    rw [hrows] at hm
    cases List.mem_append.mp hm with
    | inl hold =>
        obtain ⟨owner, howner, hid⟩ := h.owners m hold
        exact ⟨owner, hopens.kept howner, hid⟩
    | inr hnew =>
        rw [List.mem_singleton.mp hnew]
        exact hopens.owner
  · intro m hm
    rw [hrows] at hm
    cases List.mem_append.mp hm with
    | inl hold =>
        obtain ⟨i, hi, hdated⟩ := h.dated m hold
        exact ⟨i, List.mem_cons_of_mem _ hi, hdated⟩
    | inr hnew =>
        rw [List.mem_singleton.mp hnew]
        exact ⟨_, List.mem_cons_self .., hissues.row.text, hissues.row.expiresAt⟩
  · intro text
    rw [count_issued, hredeemed, hrows, openRows_concat hargon hissues.row, ← Nat.add_assoc,
      ← h.balanced text]
    rfl

theorem Tallied.redeems (hargon : argon.Exact) (h : Tallied jose argon s)
    {request : RefreshTokenRequest} {r : RefreshDraws} {d : TokenDraws}
    {response : TokenResponse} {before after : List RefreshTokenModel} {m : RefreshTokenModel}
    {model : ApplicantModel} {new : RefreshTokenModel} {w : World}
    (hredeems : Redeems jose argon s.world request r d response before m after model new w) :
    Tallied jose argon ⟨w.commit 0, ⟨s.world, ⟨.refresh request r, d⟩, response⟩ :: s.log⟩ := by
  have hissues := hredeems.issues
  have hm : m ∈ s.world.refreshTokens.committed := by simp [hredeems.rows]
  have happlicants : (w.commit 0).applicants = s.world.applicants := by
    rw [World.commit, hredeems.applicants]
    exact Table.commit_of_pending_nil 0 h.inv.closed.applicants
  have hrows : (w.commit 0).refreshTokens.committed =
      (before ++ { m with revokedAt := some r.revokedAt } :: after) ++ [new] := hissues.visible
  have hrevoked : m.revokedAt = none := by
    have hvalid := hredeems.redeemable.1
    simp only [RefreshTokenRepository.isValid, Bool.and_eq_true, Option.isNone_iff_eq_none]
      at hvalid
    exact hvalid.2
  have hrow := h.inv.rowOf_of_redeemable hargon hm hredeems.redeemable
  -- a row of before is there still, the redeemed one but for its revocation
  have hold (x : RefreshTokenModel)
      (hx : x ∈ before ++ { m with revokedAt := some r.revokedAt } :: after) :
      ∃ y ∈ s.world.refreshTokens.committed, y.applicantId = x.applicantId ∧
        y.tokenHash = x.tokenHash ∧ y.expiresAt = x.expiresAt := by
    rw [hredeems.rows]
    obtain hx | hx | hx := by simpa using hx
    · exact ⟨x, by simp [hx], rfl, rfl, rfl⟩
    · exact ⟨m, by simp, by rw [hx], by rw [hx], by rw [hx]⟩
    · exact ⟨x, by simp [hx], rfl, rfl, rfl⟩
  refine ⟨h.inv.issues (a := ⟨⟨.refresh request r, d⟩, true⟩) hissues, ?_, ?_, ?_, ?_⟩
  · rw [happlicants]
    exact h.unique
  · intro x hx
    rw [happlicants]
    rw [hrows] at hx
    cases List.mem_append.mp hx with
    | inl hx =>
        obtain ⟨y, hy, howner, _, _⟩ := hold x hx
        exact howner ▸ h.owners y hy
    | inr hnew =>
        rw [List.mem_singleton.mp hnew, hissues.row.applicantId]
        exact ⟨model, hredeems.stored, rfl⟩
  · intro x hx
    rw [hrows] at hx
    cases List.mem_append.mp hx with
    | inl hx =>
        obtain ⟨y, hy, _, hhash, hexpires⟩ := hold x hx
        obtain ⟨i, hi, ⟨salt, hsalt⟩, hdated⟩ := h.dated y hy
        exact ⟨i, List.mem_cons_of_mem _ hi, ⟨salt, hhash ▸ hsalt⟩, hexpires ▸ hdated⟩
    | inr hnew =>
        rw [List.mem_singleton.mp hnew]
        exact ⟨_, List.mem_cons_self .., hissues.row.text, hissues.row.expiresAt⟩
  · intro text
    have hbalanced := h.balanced text
    rw [hredeems.rows, openRows_revoke hargon r.revokedAt hrow hrevoked] at hbalanced
    have hredeemed : (Sequence.mk (w.commit 0)
        (⟨s.world, ⟨.refresh request r, d⟩, response⟩ :: s.log)).redeemed =
          request.refreshToken :: s.redeemed := List.filterMap_cons_some rfl
    rw [count_issued, hredeemed, hrows, openRows_concat hargon hissues.row, List.count_cons]
    simp only [beq_iff_eq]
    have hlog : (Sequence.mk (w.commit 0) s.log).issued = s.issued := rfl
    rw [hlog, hbalanced]
    omega

theorem Tallied.effect (hargon : argon.Exact) (h : Tallied jose argon s) {c : Call}
    {response : TokenResponse} {w : World} (heffect : Effect jose argon s.world c response w) :
    Tallied jose argon ⟨w.commit 0, ⟨s.world, c, response⟩ :: s.log⟩ := by
  cases heffect with
  | opens new hopens => exact h.opens hargon hopens
  | redeems request r before m after model new hcall hredeems =>
      rw [hcall]
      exact h.redeems hargon hredeems

theorem Tallied.step (hargon : argon.Exact) (h : Tallied jose argon s)
    (hstep : sequenceStep jose argon s a = some s') : Tallied jose argon s' := by
  cases h.step_cases hstep with
  | inl hsame =>
      rw [hsame]
      exact h
  | inr hreturns =>
      obtain ⟨response, w, heffect, rfl⟩ := hreturns
      exact h.effect hargon heffect

theorem tallied_of_run (hargon : argon.Exact) {attempts : List Attempt}
    (hrun : Runs.run (sequenceStep jose argon) .init attempts = some s) : Tallied jose argon s :=
  Runs.invariant (fun _ _ _ h hstep => h.step hargon hstep) .init hrun

/-- While it lives, a token can be redeemed just if it was handed out more often than it
was exchanged. -/
theorem Tallied.exists_redeemable_iff (hargon : argon.Exact) (h : Tallied jose argon s)
    {request : RefreshTokenRequest} {r : RefreshDraws}
    (hlives : s.Lives request.refreshToken r.now) :
    (∃ m ∈ s.world.refreshTokens.committed, Redeemable argon request r m) ↔
      s.redeemed.count request.refreshToken < s.issued.count request.refreshToken := by
  have hopen : (∃ m ∈ s.world.refreshTokens.committed, Redeemable argon request r m) ↔
      ∃ m ∈ s.world.refreshTokens.committed, isOpen argon request.refreshToken m = true := by
    refine exists_congr fun m => and_congr_right fun hm => ?_
    simp only [Redeemable, RefreshTokenRepository.isValid, isOpen, Bool.and_eq_true,
      decide_eq_true_eq]
    refine ⟨fun hredeemable => ⟨hredeemable.1.2, hredeemable.2⟩, fun hmatch => ?_⟩
    obtain ⟨i, hi, hrow, hexpires⟩ := h.dated m hm
    have htext := (hrow.verify_iff hargon).mp hmatch.2
    exact ⟨⟨hexpires ▸ hlives i hi htext.symm, hmatch.1⟩, hmatch.2⟩
  rw [hopen, ← List.countP_pos_iff, h.balanced]
  exact (Nat.lt_add_right_iff_pos).symm

/-- What an exchange of a living token does is a matter of the two counts. -/
theorem Tallied.decides (hargon : argon.Exact) (h : Tallied jose argon s)
    {request : RefreshTokenRequest} {r : RefreshDraws} {d : TokenDraws}
    (hlives : s.Lives request.refreshToken r.now) (hstore : CanStore jose argon s.world d) :
    Stmt.Ensures (refresh jose argon 0 d request r) s.world
      (fun _ _ => s.redeemed.count request.refreshToken < s.issued.count request.refreshToken)
      (fun e w => e = .invalidRefreshToken ∧
        ¬ s.redeemed.count request.refreshToken < s.issued.count request.refreshToken ∧
        w.rollback 0 = s.world) := by
  rw [← h.exists_redeemable_iff hargon hlives]
  have hrefuses : Stmt.Ensures (refresh jose argon 0 d request r) s.world (fun _ _ => True)
      (fun e _ => e = .invalidRefreshToken ∨ e = .refreshTokenRevoked) :=
    refresh_refuses h.inv.closed h.inv.ids h.unique (h.inv.checks hargon) h.owners hstore
  refine ((refresh_ensures h.inv.closed h.inv.ids request r).and
    ((h.inv.refresh_outcome hargon request r d).and hrefuses)).mono ?_ ?_
  · intro _ _ hreturns
    obtain ⟨_, ⟨m, hm, hredeemable, _⟩, _⟩ := hreturns
    exact ⟨m, hm, hredeemable⟩
  · intro e _ hraises
    obtain ⟨hrollback, hrefused, herror⟩ := hraises
    have hinvalid := herror.resolve_right hrefused.notRevoked
    refine ⟨hinvalid, ?_, hrollback⟩
    rintro ⟨m, hm, hredeemable⟩
    cases hrefused.invalid hinvalid with
    | inl hnone => exact hnone m hm hredeemable
    | inr hgone =>
        obtain ⟨x, hx, _, hmissing⟩ := hgone
        obtain ⟨owner, howner, hid⟩ := h.owners x hx
        exact hmissing owner howner hid

theorem Tallied.exchange (hargon : argon.Exact) (h : Tallied jose argon s)
    {request : RefreshTokenRequest} {r : RefreshDraws} {d : TokenDraws}
    (hlives : s.Lives request.refreshToken r.now) (hstore : CanStore jose argon s.world d) :
    ∃ result w,
      withSession jose argon ⟨⟨.refresh request r, d⟩, true⟩ s.world = some (result, w) ∧
      if s.redeemed.count request.refreshToken < s.issued.count request.refreshToken then
        ∃ response, result = .ok response
      else result = .error .invalidRefreshToken ∧ w = s.world := by
  have hdecides := h.decides hargon hlives hstore
  simp only [withSession, Session.alone, execute, if_true]
  cases hx : refresh jose argon 0 d request r s.world with
  | waits =>
      have hsettles : Stmt.Settles (refresh jose argon 0 d request r) s.world fun _ _ => True :=
        refresh_settles h.inv.closed request r
      simp only [Stmt.Settles, hx] at hsettles
  | raises e w =>
      obtain ⟨rfl, hcount, hrollback⟩ := hdecides.of_raises hx
      refine ⟨_, _, rfl, ?_⟩
      rw [if_neg hcount]
      exact ⟨rfl, hrollback⟩
  | returns response w =>
      refine ⟨_, _, rfl, ?_⟩
      rw [if_pos (hdecides.of_returns hx)]
      exact ⟨response, rfl⟩

/-- One call after the other, at any times: no token is exchanged more often than it was
handed out, and as long as it lives it is exchanged as often as that. -/
theorem exchanged_as_issued (hargon : argon.Exact) (attempts : List Attempt)
    (hrun : Runs.run (sequenceStep jose argon) .init attempts = some s) :
    (∀ text, s.redeemed.count text ≤ s.issued.count text) ∧
    ∀ request r d, s.Lives request.refreshToken r.now → CanStore jose argon s.world d →
      ∃ result w,
        withSession jose argon ⟨⟨.refresh request r, d⟩, true⟩ s.world = some (result, w) ∧
        if s.redeemed.count request.refreshToken < s.issued.count request.refreshToken then
          ∃ response, result = .ok response
        else result = .error .invalidRefreshToken ∧ w = s.world := by
  have h := tallied_of_run hargon hrun
  exact ⟨fun text => (h.balanced text).symm ▸ Nat.le_add_right ..,
    fun _ _ _ hlives hstore => h.exchange hargon hlives hstore⟩

/-- A token that was handed out twice in one second and exchanged once is exchanged again. -/
theorem exchanged_as_issued_twice : ∃ s,
    Runs.run (sequenceStep .sample .sample) .init (sameSecondAttempts.take 3) = some s ∧
      (∀ text, s.redeemed.count text ≤ s.issued.count text) ∧
      ∃ response w, withSession .sample .sample (exchangeAt 2 4) s.world =
        some (.ok response, w) := by
  have hrun : ((Runs.run (sequenceStep .sample .sample) .init (sameSecondAttempts.take 3)).map
      fun s => decide (
        s.redeemed.count reusedRequest.refreshToken < s.issued.count reusedRequest.refreshToken ∧
        (∀ i ∈ s.log, i.response.refreshToken = reusedRequest.refreshToken →
          2 < JWTService.getRefreshTokenExpiry i.call.draws.expiryAt) ∧
        ∀ applicant ∈ s.world.applicants.committed,
          (refreshTokenEntity .sample .sample applicant.id (.at 2 4)).tokenHash.length ≤ 255 ∧
            ∀ m ∈ s.world.refreshTokens.committed, RefreshTokenModel.clash
              (RefreshTokenRepository.toModel
                (refreshTokenEntity .sample .sample applicant.id (.at 2 4))) m = false)) =
      some true := by decide +kernel
  obtain ⟨s, hs, hall⟩ := Option.map_eq_some_iff.mp hrun
  obtain ⟨hcount, hlives, hstore⟩ := of_decide_eq_true hall
  obtain ⟨hbounded, hexchanges⟩ := exchanged_as_issued Argon2.sample_exact _ hs
  obtain ⟨result, w, hserved, hresult⟩ :=
    hexchanges reusedRequest ⟨2, .stored, 2⟩ (.at 2 4) hlives hstore
  rw [if_pos hcount] at hresult
  obtain ⟨response, rfl⟩ := hresult
  exact ⟨s, hs, hbounded, response, w, hserved⟩

end Tally

end CrediGuard.Applicants
