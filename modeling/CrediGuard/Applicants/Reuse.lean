import CrediGuard.Applicants.RotationFrame

/-!
What an exchange that fails says of the token it was given.

The query an exchange searches leaves out the rows that are revoked and those that
have expired, so the check behind it never finds one, and a token that was exchanged
before is answered like one that was never issued.
-/

namespace CrediGuard.Applicants
open ReadCommitted Statement

section Model
variable (jose : Jose) (argon : Argon2)

def Sequence.issued (s : Sequence) : List String := s.log.map fun i => i.response.refreshToken

/-- A stored row of the token, with a property. -/
def Sequence.HasRow (s : Sequence) (text : String) (p : RefreshTokenModel → Prop) : Prop :=
  ∃ m ∈ s.world.refreshTokens.committed, RowOf argon m text ∧ p m

def RefreshRaises (s : Sequence) (request : RefreshTokenRequest) (r : RefreshDraws)
    (d : TokenDraws) (e : Error) : Prop :=
  ∃ w, refresh jose argon 0 d request r s.world = .raises e w

/-- The token was issued, and its row is revoked. -/
def Reused (s : Sequence) (text : String) : Prop :=
  text ∈ s.issued ∧ s.HasRow argon text fun m => m.revokedAt ≠ none

/-- The two errors of an exchange tell a reused token from a useless one. -/
structure ReportsReuse (s : Sequence) (request : RefreshTokenRequest) (r : RefreshDraws)
    (d : TokenDraws) : Prop where
  revoked : RefreshRaises jose argon s request r d .refreshTokenRevoked ↔
    Reused argon s request.refreshToken
  invalid : RefreshRaises jose argon s request r d .invalidRefreshToken ↔
    request.refreshToken ∉ s.issued ∨
      (s.HasRow argon request.refreshToken fun m => m.revokedAt = none ∧ m.expiresAt ≤ r.now) ∨
      s.HasRow argon request.refreshToken fun m =>
        ∀ applicant ∈ s.world.applicants.committed, applicant.id ≠ m.applicantId

end Model

section Outcome
variable {jose : Jose} {argon : Argon2} {w₀ w : World} {request : RefreshTokenRequest}
  {r : RefreshDraws} {d : TokenDraws} {t : Tx}

theorem firstVerified_eq_none {text : String} {tokens : List RefreshToken}
    (h : firstVerified argon text tokens = .ok none) :
    ∀ token ∈ tokens, Argon2Hasher.verify argon text token.tokenHash ≠ .ok true := by
  induction tokens with
  | nil => exact fun _ hmem => absurd hmem List.not_mem_nil
  | cons token tokens ih =>
      simp only [firstVerified] at h
      cases hverify : Argon2Hasher.verify argon text token.tokenHash with
      | error e => simp [hverify] at h
      | ok b =>
          cases b with
          | true => simp [hverify] at h
          | false =>
              simp only [hverify] at h
              intro other hother
              cases List.mem_cons.mp hother with
              | inl heq => simp [heq, hverify]
              | inr htail => exact ih h other htail

/-- Where every stored hash can be checked, the search raises nothing. -/
theorem firstVerified_exists {text : String} {tokens : List RefreshToken}
    (h : ∀ token ∈ tokens, ∃ b, Argon2Hasher.verify argon text token.tokenHash = .ok b) :
    ∃ found, firstVerified argon text tokens = .ok found := by
  induction tokens with
  | nil => exact ⟨none, rfl⟩
  | cons token tokens ih =>
      obtain ⟨b, hb⟩ := h token (List.mem_cons_self ..)
      cases b with
      | true => exact ⟨some token, by simp only [firstVerified, hb]⟩
      | false =>
          obtain ⟨found, hfound⟩ := ih fun other hother => h other (List.mem_cons_of_mem _ hother)
          exact ⟨found, by simp only [firstVerified, hb, hfound]⟩

theorem update_of_row (token : RefreshToken)
    (hrow : ∃ m ∈ w.refreshTokens.visible t, m.id = token.id) (hlocks : w.locks = []) :
    Stmt.Ensures (RefreshTokenRepository.update t token) w
      (fun _ w' => w'.applicants = w.applicants) (fun _ _ => False) := by
  have hfound : ((w.refreshTokens.visible t).any fun m => m.id = token.id) = true := by
    simpa using hrow
  simp only [Stmt.Ensures, RefreshTokenRepository.update, if_pos hfound, hlocks, List.any_nil,
    Bool.false_eq_true, if_false]

/-- Whether the applicant of a row is there decides what is made of it. -/
theorem getById_outcome (applicantId : Uuid) :
    Stmt.Ensures (ApplicantRepository.getById t applicantId) w
      (fun found w' => w' = w ∧
        (found = none → ∀ applicant ∈ w.applicants.visible t, applicant.id ≠ applicantId) ∧
        (found ≠ none → ∃ applicant ∈ w.applicants.visible t, applicant.id = applicantId))
      (fun e _ => e = .multipleResultsFound ∧
        ∃ applicant ∈ w.applicants.visible t, applicant.id = applicantId) := by
  have hsome {model : ApplicantModel} {rest : List ApplicantModel}
      (hrows : (w.applicants.visible t).filter (fun m => m.id = applicantId) = model :: rest) :
      ∃ applicant ∈ w.applicants.visible t, applicant.id = applicantId := by
    have hmem : model ∈ (w.applicants.visible t).filter fun m => m.id = applicantId := by
      rw [hrows]
      exact List.mem_cons_self ..
    exact ⟨model, (List.mem_filter.mp hmem).1, of_decide_eq_true (List.mem_filter.mp hmem).2⟩
  refine Stmt.Ensures.bind (x := Stmt.read _) ?_
  change Stmt.Ensures (scalarOneOrNone
    ((w.applicants.visible t).filter fun m => m.id = applicantId) >>= _) w _ _
  generalize hrows : (w.applicants.visible t).filter (fun m => m.id = applicantId) = rows
  match rows with
  | [] =>
      refine ⟨rfl, fun _ => ?_, fun h => absurd rfl h⟩
      intro applicant hmem
      simpa using List.filter_eq_nil_iff.mp hrows applicant hmem
  | [model] => exact ⟨rfl, fun h => by contradiction, fun _ => hsome hrows⟩
  | _ :: _ :: _ => exact ⟨rfl, hsome hrows⟩

/-- Storing the new token fails on a column or on an index only. -/
theorem issueTokens_raises (applicant : Applicant) :
    Stmt.Ensures (issueTokens jose argon t d applicant) w (fun _ _ => True)
      (fun e _ => e ≠ .refreshTokenRevoked ∧ e ≠ .invalidRefreshToken) := by
  have hsave : Stmt.Ensures
      (RefreshTokenRepository.save t (refreshTokenEntity jose argon applicant.id d)) w
      (fun _ _ => True) (fun e _ => e = .integrityError ∨ e = .dataError) := by
    simp only [Stmt.Ensures, RefreshTokenRepository.save]
    by_cases hfits : (refreshTokenEntity jose argon applicant.id d).tokenHash.length ≤ 255
    · simp only [if_pos hfits]
      cases w.refreshTokens.insert RefreshTokenModel.clash t
          (RefreshTokenRepository.toModel (refreshTokenEntity jose argon applicant.id d)) with
      | waits => trivial
      | violates => exact .inl rfl
      | done tokens => trivial
    · simp only [if_neg hfits]
      exact .inr trivial
  refine Stmt.Ensures.seq hsave (fun _ _ _ => trivial) ?_
  intro e _ he
  cases he with
  | inl he => simp [he]
  | inr he => simp [he]

/-- A row the exchange may redeem, whose applicant is there. -/
def Served (argon : Argon2) (w₀ : World) (request : RefreshTokenRequest) (r : RefreshDraws) :
    Prop :=
  ∃ m ∈ w₀.refreshTokens.committed, Redeemable argon request r m ∧
    ∃ applicant ∈ w₀.applicants.committed, applicant.id = m.applicantId

/-- What an exchange that raises has found. -/
structure Refused (argon : Argon2) (w₀ : World) (request : RefreshTokenRequest)
    (r : RefreshDraws) (e : Error) : Prop where
  notRevoked : e ≠ .refreshTokenRevoked
  invalid : e = .invalidRefreshToken →
    (∀ m ∈ w₀.refreshTokens.committed, ¬ Redeemable argon request r m) ∨
      ∃ m ∈ w₀.refreshTokens.committed, Redeemable argon request r m ∧
        ∀ applicant ∈ w₀.applicants.committed, applicant.id ≠ m.applicantId
  other : e ≠ .invalidRefreshToken → Served argon w₀ request r

theorem refresh_outcome (hclosed : w₀.Closed)
    (hchecks : ∀ m ∈ w₀.refreshTokens.committed, ∀ p, ∃ b,
      Argon2Hasher.verify argon p m.tokenHash = .ok b) :
    Stmt.Ensures (refresh jose argon 0 d request r) w₀
      (fun _ _ => Served argon w₀ request r) (fun e _ => Refused argon w₀ request r e) := by
  have hvisible := hclosed.visible_refreshTokens 0
  have hmem (token : RefreshToken) (htoken : token ∈ (r.order.arrange
      ((w₀.refreshTokens.visible 0).filter (RefreshTokenRepository.isValid r.now))).map
        RefreshTokenRepository.toEntity) :
      ∃ m ∈ w₀.refreshTokens.committed, RefreshTokenRepository.isValid r.now m = true ∧
        RefreshTokenRepository.toEntity m = token := by
    obtain ⟨m, hm, heq⟩ := List.mem_map.mp htoken
    obtain ⟨hrow, hvalid⟩ := List.mem_filter.mp ((r.order.perm _).subset hm)
    exact ⟨m, hvisible ▸ hrow, hvalid, heq⟩
  have hsearch : ∃ found, firstVerified argon request.refreshToken ((r.order.arrange
      ((w₀.refreshTokens.visible 0).filter (RefreshTokenRepository.isValid r.now))).map
        RefreshTokenRepository.toEntity) = .ok found := by
    apply firstVerified_exists
    intro token htoken
    obtain ⟨m, hm, _, rfl⟩ := hmem token htoken
    exact hchecks m hm request.refreshToken
  obtain ⟨found, hfound⟩ := hsearch
  refine Stmt.Ensures.bind (x := Stmt.read _) ?_
  refine Stmt.Ensures.seq (Stmt.ofExcept_ensures _) ?_ ?_
  · intro found' w h
    obtain ⟨hw, hfound'⟩ := h
    rw [hw]
    obtain rfl := Except.ok.inj (hfound.symm.trans hfound')
    cases found with
    | none =>
        refine ⟨by simp, fun _ => .inl ?_, fun h => absurd rfl h⟩
        intro m hm hredeemable
        refine firstVerified_eq_none hfound (RefreshTokenRepository.toEntity m) ?_ hredeemable.2
        refine List.mem_map_of_mem ((r.order.perm _).mem_iff.mpr (List.mem_filter.mpr ⟨?_, ?_⟩))
        · exact hvisible.symm ▸ hm
        · exact hredeemable.1
    | some token =>
        obtain ⟨htoken, hverify⟩ := firstVerified_eq_some hfound
        obtain ⟨m, hm, hvalid, rfl⟩ := hmem token htoken
        have hredeemable : Redeemable argon request r m := ⟨hvalid, hverify⟩
        -- the query has made the entity's own check before it
        have hentity : (RefreshTokenRepository.toEntity m).isValid r.now = true := by
          rw [RefreshToken.isValid, Bool.and_comm]
          exact hvalid
        dsimp only
        rw [if_pos hentity]
        refine Stmt.Ensures.seq (update_of_row _ ⟨m, hvisible.symm ▸ hm, rfl⟩ hclosed.locks) ?_
          fun _ _ h => h.elim
        intro _ w' hsame
        have happlicants : w'.applicants.visible 0 = w₀.applicants.committed := by
          rw [hsame]
          exact hclosed.visible_applicants 0
        refine Stmt.Ensures.seq (getById_outcome _) ?_ ?_
        · intro owner w'' h
          obtain ⟨rfl, hnone, hsome⟩ := h
          rw [happlicants] at hnone hsome
          cases owner with
          | none =>
              exact ⟨by simp, fun _ => .inr ⟨m, hm, hredeemable, hnone rfl⟩, fun h => absurd rfl h⟩
          | some applicant =>
              have hserved : Served argon w₀ request r := ⟨m, hm, hredeemable, hsome (by simp)⟩
              refine (issueTokens_raises applicant).mono (fun _ _ _ => hserved) ?_
              intro e _ he
              exact ⟨he.1, fun h => absurd h he.2, fun _ => hserved⟩
        · intro e _ h
          obtain ⟨rfl, howner⟩ := h
          rw [happlicants] at howner
          exact ⟨by simp, fun h => by simp at h, fun _ => ⟨m, hm, hredeemable, howner⟩⟩
  · intro e w h
    rw [hfound] at h
    exact absurd h.2 (by simp)

end Outcome

section Pairing
variable {α β : Type} {R : α → β → Prop} {as : List α} {bs : List β}

theorem exists_left_of_mem (h : List.Forall₂ R as bs) {b : β} (hb : b ∈ bs) :
    ∃ a ∈ as, R a b := by
  induction h with
  | nil => cases hb
  | cons hab _ ih =>
      cases List.mem_cons.mp hb with
      | inl heq => exact ⟨_, List.mem_cons_self .., heq ▸ hab⟩
      | inr htail =>
          obtain ⟨a, ha, hR⟩ := ih htail
          exact ⟨a, List.mem_cons_of_mem _ ha, hR⟩

theorem exists_right_of_mem (h : List.Forall₂ R as bs) {a : α} (ha : a ∈ as) :
    ∃ b ∈ bs, R a b :=
  exists_left_of_mem h.flip ha

/-- In a pairing with distinct partners, what has one partner is one element. -/
theorem eq_of_partner (hR : ∀ a b b', R a b → R a b' → b = b') (h : List.Forall₂ R as bs)
    (hbs : bs.Nodup) {a a' : α} {b : β} (ha : a ∈ as) (ha' : a' ∈ as) (hab : R a b)
    (hab' : R a' b) : a = a' := by
  induction h with
  | nil => cases ha
  | @cons x y as bs hxy htail ih =>
      obtain ⟨hy, hrest⟩ := List.nodup_cons.mp hbs
      -- the partner of the head is no partner of a later element
      have hlater {z : α} (hz : z ∈ as) (hzy : R z y) : False := by
        obtain ⟨b', hb', hzb⟩ := exists_right_of_mem htail hz
        exact hy (hR z y b' hzy hzb ▸ hb')
      cases List.mem_cons.mp ha with
      | inl heq =>
          cases List.mem_cons.mp ha' with
          | inl heq' => exact heq.trans heq'.symm
          | inr hmem' =>
              subst heq
              exact (hlater hmem' (hR a b y hab hxy ▸ hab')).elim
      | inr hmem =>
          cases List.mem_cons.mp ha' with
          | inl heq' =>
              subst heq'
              exact (hlater hmem (hR a' b y hab' hxy ▸ hab)).elim
          | inr hmem' => exact ih hrest hmem hmem'

end Pairing

section Runs
variable {jose : Jose} {argon : Argon2} {s s' : Sequence} {a : Attempt} {text : String}

/-- The rows are those of the issued tokens, in the order of their issue. -/
def Filed (argon : Argon2) (s : Sequence) : Prop :=
  List.Forall₂ (RowOf argon) s.world.refreshTokens.committed s.issued.reverse

theorem forall₂_rowOf_of_keys {rows rows' : List RefreshTokenModel} {texts : List String}
    (h : rows'.map rowKey = rows.map rowKey) (hrows : List.Forall₂ (RowOf argon) rows texts) :
    List.Forall₂ (RowOf argon) rows' texts := by
  have hkeyed (ms : List RefreshTokenModel) : List.Forall₂ (RowOf argon) ms texts ↔
      List.Forall₂ (fun key text => ∃ salt, key.2.2 = argon.hash salt text) (ms.map rowKey)
        texts := by
    rw [List.forall₂_map_left_iff]
    rfl
  rw [hkeyed, h, ← hkeyed]
  exact hrows

theorem Filed.step (hinv : SequenceInv jose argon s) (h : Filed argon s)
    (hstep : sequenceStep jose argon s a = some s') : Filed argon s' := by
  cases hinv.step_cases hstep with
  | inl hsame =>
      rw [hsame]
      exact h
  | inr hissued =>
      obtain ⟨applicant, response, rows, new, w, hissues, rfl⟩ := hissued
      have hcommitted : (w.commit 0).refreshTokens.committed = rows ++ [new] := hissues.visible
      simp only [Filed, Sequence.issued, List.map_cons, List.reverse_cons, hcommitted]
      exact List.rel_append (forall₂_rowOf_of_keys hissues.keys h)
        (.cons hissues.row.text .nil)

theorem filed_of_run {attempts : List Attempt}
    (hrun : Runs.run (sequenceStep jose argon) .init attempts = some s) :
    SequenceInv jose argon s ∧ Filed argon s :=
  Runs.invariant (I := fun s => SequenceInv jose argon s ∧ Filed argon s)
    (fun _ _ _ h hstep => ⟨h.1.step hstep, h.2.step h.1 hstep⟩) ⟨.init, .nil⟩ hrun

theorem Filed.exists_row (h : Filed argon s) (htext : text ∈ s.issued) :
    ∃ m ∈ s.world.refreshTokens.committed, RowOf argon m text :=
  exists_left_of_mem h (List.mem_reverse.mpr htext)

theorem Filed.mem_issued (hargon : argon.Exact) (h : Filed argon s) {m : RefreshTokenModel}
    (hm : m ∈ s.world.refreshTokens.committed) (hrow : RowOf argon m text) :
    text ∈ s.issued := by
  obtain ⟨text', htext', hrow'⟩ := exists_right_of_mem h hm
  exact hrow.unique hargon hrow' ▸ List.mem_reverse.mp htext'

theorem Filed.row_unique (hargon : argon.Exact) (h : Filed argon s) (hdistinct : s.issued.Nodup)
    {m m' : RefreshTokenModel} (hm : m ∈ s.world.refreshTokens.committed)
    (hm' : m' ∈ s.world.refreshTokens.committed) (hrow : RowOf argon m text)
    (hrow' : RowOf argon m' text) : m = m' :=
  eq_of_partner (R := RowOf argon) (fun _ _ _ => RowOf.unique hargon) h
    (List.nodup_reverse.mpr hdistinct) hm hm' hrow hrow'

/-- What the exchange may redeem is a row of the token it was given. -/
theorem SequenceInv.rowOf_of_redeemable (hargon : argon.Exact) (h : SequenceInv jose argon s)
    {request : RefreshTokenRequest} {r : RefreshDraws} {m : RefreshTokenModel}
    (hm : m ∈ s.world.refreshTokens.committed) (hredeemable : Redeemable argon request r m) :
    RowOf argon m request.refreshToken := by
  obtain ⟨i, _, _, hrow⟩ := h.owned m hm
  exact (hrow.verify_iff hargon).mp hredeemable.2 ▸ hrow

theorem SequenceInv.checks (hargon : argon.Exact) (h : SequenceInv jose argon s) :
    ∀ m ∈ s.world.refreshTokens.committed, ∀ p, ∃ b,
      Argon2Hasher.verify argon p m.tokenHash = .ok b := by
  intro m hm p
  obtain ⟨i, _, _, salt, hhash⟩ := h.owned m hm
  exact ⟨_, hhash ▸ hargon salt p i.response.refreshToken⟩

theorem SequenceInv.refresh_outcome (hargon : argon.Exact) (h : SequenceInv jose argon s)
    (request : RefreshTokenRequest) (r : RefreshDraws) (d : TokenDraws) :
    Stmt.Ensures (refresh jose argon 0 d request r) s.world
      (fun _ _ => Served argon s.world request r)
      (fun e _ => Refused argon s.world request r e) :=
  Applicants.refresh_outcome h.closed (h.checks hargon)

/-- No exchange ever says that its token was revoked. -/
theorem SequenceInv.not_raises_revoked (hargon : argon.Exact) (h : SequenceInv jose argon s)
    (request : RefreshTokenRequest) (r : RefreshDraws) (d : TokenDraws) :
    ¬ RefreshRaises jose argon s request r d .refreshTokenRevoked := by
  intro hraises
  obtain ⟨w, hraise⟩ := hraises
  exact ((h.refresh_outcome hargon request r d).of_raises hraise).notRevoked rfl

/-- In every run, an exchange tells reuse from the other refusals just if its token is
not a reused one. -/
theorem refresh_reportsReuse_iff (hargon : argon.Exact) (attempts : List Attempt)
    (hrun : Runs.run (sequenceStep jose argon) .init attempts = some s)
    (hdistinct : s.issued.Nodup) (request : RefreshTokenRequest) (r : RefreshDraws)
    (d : TokenDraws) :
    ReportsReuse jose argon s request r d ↔ ¬ Reused argon s request.refreshToken := by
  obtain ⟨hinv, hfiled⟩ := filed_of_run hrun
  have houtcome := hinv.refresh_outcome hargon request r d
  have hnever := hinv.not_raises_revoked hargon request r d
  constructor
  · intro h hreused
    exact hnever (h.revoked.mpr hreused)
  · intro hnot
    refine ⟨iff_of_false hnever hnot, ?_⟩
    constructor
    · intro h
      obtain ⟨w, hraise⟩ := h
      cases (houtcome.of_raises hraise).invalid rfl with
      | inl hnone =>
          by_cases hissued : request.refreshToken ∈ s.issued
          · obtain ⟨m, hm, hrow⟩ := hfiled.exists_row hissued
            have hrevoked : m.revokedAt = none :=
              by_contra fun hne => hnot ⟨hissued, m, hm, hrow, hne⟩
            refine .inr (.inl ⟨m, hm, hrow, hrevoked, le_of_not_gt fun hlt => ?_⟩)
            refine hnone m hm ⟨?_, (hrow.verify_iff hargon).mpr rfl⟩
            simp [RefreshTokenRepository.isValid, hrevoked, hlt]
          · exact .inl hissued
      | inr hgone =>
          obtain ⟨m, hm, hredeemable, hmissing⟩ := hgone
          exact .inr (.inr ⟨m, hm, hinv.rowOf_of_redeemable hargon hm hredeemable, hmissing⟩)
    · intro hwhy
      by_contra hother
      -- every other outcome has found a row of the token that it could serve
      have hserved : Served argon s.world request r := by
        cases hx : refresh jose argon 0 d request r s.world with
        | waits =>
            have hsettles :
                Stmt.Settles (refresh jose argon 0 d request r) s.world fun _ _ => True :=
              refresh_settles hinv.closed request r
            simp only [Stmt.Settles, hx] at hsettles
        | raises e w =>
            exact (houtcome.of_raises hx).other fun he => hother ⟨w, he ▸ hx⟩
        | returns response w => exact houtcome.of_returns hx
      obtain ⟨m, hm, hredeemable, applicant, happlicant, howner⟩ := hserved
      have hrow := hinv.rowOf_of_redeemable hargon hm hredeemable
      obtain hnotIssued | ⟨m', hm', hrow', _, hexpired⟩ | ⟨m', hm', hrow', hmissing⟩ := hwhy
      · exact hnotIssued (hfiled.mem_issued hargon hm hrow)
      · obtain rfl := hfiled.row_unique hargon hdistinct hm hm' hrow hrow'
        have hvalid := hredeemable.1
        simp only [RefreshTokenRepository.isValid, Bool.and_eq_true, decide_eq_true_eq] at hvalid
        exact absurd hvalid.1 (not_lt_of_ge hexpired)
      · obtain rfl := hfiled.row_unique hargon hdistinct hm hm' hrow hrow'
        exact hmissing applicant happlicant howner

/-- A registration, the exchange of its token, and the token once more. -/
def reuseAttempts : List Attempt :=
  [{ call := ⟨.register ada ⟨0, ⟨1⟩, 0, 0⟩, .at 0 1⟩ }, exchangeAt 1 2]

def reusedRequest : RefreshTokenRequest := ⟨JWTService.createRefreshToken .sample ⟨1⟩ 0⟩

theorem reuse_run : ∃ s, Runs.run (sequenceStep .sample .sample) .init reuseAttempts = some s ∧
    s.issued.Nodup ∧ Reused .sample s reusedRequest.refreshToken := by
  have hrun : ((Runs.run (sequenceStep .sample .sample) .init reuseAttempts).map fun s =>
      decide (s.issued.Nodup ∧ reusedRequest.refreshToken ∈ s.issued ∧
        ∃ m ∈ s.world.refreshTokens.committed,
          m.tokenHash = Argon2.sample.hash 1 reusedRequest.refreshToken ∧
            m.revokedAt ≠ none)) = some true := by decide +kernel
  obtain ⟨s, hs, hall⟩ := Option.map_eq_some_iff.mp hrun
  obtain ⟨hdistinct, hissued, m, hm, hhash, hrevoked⟩ := of_decide_eq_true hall
  exact ⟨s, hs, hdistinct, hissued, m, hm, ⟨1, hhash⟩, hrevoked⟩

theorem refresh_reportsReuse_iff_reused : ∃ s,
    Runs.run (sequenceStep .sample .sample) .init reuseAttempts = some s ∧
      (ReportsReuse .sample .sample s reusedRequest ⟨2, .stored, 2⟩ (.at 2 3) ↔
        ¬ Reused .sample s reusedRequest.refreshToken) := by
  obtain ⟨s, hs, hdistinct, _⟩ := reuse_run
  exact ⟨s, hs, refresh_reportsReuse_iff Argon2.sample_exact reuseAttempts hs hdistinct
    reusedRequest ⟨2, .stored, 2⟩ (.at 2 3)⟩

theorem reused_not_reported : ∃ s,
    Runs.run (sequenceStep .sample .sample) .init reuseAttempts = some s ∧ s.issued.Nodup ∧
      ¬ ReportsReuse .sample .sample s reusedRequest ⟨2, .stored, 2⟩ (.at 2 3) := by
  obtain ⟨s, hs, hdistinct, hreused⟩ := reuse_run
  refine ⟨s, hs, hdistinct, ?_⟩
  obtain ⟨hinv, _⟩ := filed_of_run hs
  intro h
  exact hinv.not_raises_revoked Argon2.sample_exact _ _ _ (h.revoked.mpr hreused)

end Runs

end CrediGuard.Applicants
