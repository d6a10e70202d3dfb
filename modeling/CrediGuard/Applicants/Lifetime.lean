import CrediGuard.Applicants.Mints
import CrediGuard.Applicants.RotationFrame

/-!
How long an access token lives, and how long its response says it does.

Three clock readings go into a response: one makes the `exp` claim, one the expiry
that `expires_in` is computed from, and one is subtracted from it. Both results lose
a fraction of a second to `int`.
-/

namespace CrediGuard.Applicants
open Statement

/-- The fractional part, with the sign of the value. -/
def fractional (q : ℚ) : ℚ := if 0 ≤ q then Int.fract q else -Int.fract (-q)

section Model
variable (jose : Jose)

/-- The token is a signature over a payload with this `exp` claim. -/
def ExpiresAt (token : String) (exp : Int) : Prop :=
  ∃ pairs, Json.Exact (.obj pairs) ∧ token = jose.encode (.obj pairs) ∧
    Json.get? pairs "exp" = some (.int exp)

/-- Used for `expires_in` seconds after the response was built, the token is valid. -/
def LivesAsAnnounced (d : TokenDraws) (response : TokenResponse) : Prop :=
  ∀ exp, ExpiresAt jose response.accessToken exp →
    d.respondedAt + response.expiresIn ≤ exp

/-- The fraction the `exp` claim loses, with the time up to the second reading, is
no more than the fraction the announced lifetime loses. -/
def TruncationCovers (d : TokenDraws) : Prop :=
  fractional (d.accessAt + JWTService.accessTokenLifetime) + (d.accessExpiryAt - d.accessAt) ≤
    fractional (d.accessExpiryAt + JWTService.accessTokenLifetime - d.respondedAt)

end Model

section Lemmas
variable {jose : Jose} {argon : Argon2} {d : TokenDraws}

theorem toInt_eq (q : ℚ) : (toInt q : ℚ) = q - fractional q := by
  unfold toInt fractional
  split
  · rw [Int.self_sub_fract]
  · have hfloor := Int.self_sub_fract (-q)
    rw [Int.floor_neg] at hfloor
    push_cast at hfloor
    linarith

theorem exact_accessPayload (applicantId : Uuid) (email : String) (now : Datetime) :
    Json.Exact (JWTService.accessPayload applicantId email now) := by
  simp [JWTService.accessPayload, Json.Exact, Json.ExactPairs]

theorem expiresAt_accessToken_iff (hjose : jose.Faithful) {applicantId : Uuid} {email : String}
    {now : Datetime} {exp : Int} :
    ExpiresAt jose (JWTService.createAccessToken jose applicantId email now) exp ↔
      exp = toInt (now + JWTService.accessTokenLifetime) := by
  have hget : Json.get? [("sub", .str applicantId.str), ("email", .str email),
      ("type", .str "access"), ("iat", .int (toInt now)),
      ("exp", .int (toInt (now + JWTService.accessTokenLifetime)))] "exp" =
        some (.int (toInt (now + JWTService.accessTokenLifetime))) := rfl
  constructor
  · intro h
    obtain ⟨pairs, hexact, htoken, hexp⟩ := h
    have hpairs := hjose _ _ (exact_accessPayload applicantId email now) hexact htoken
    obtain rfl := Json.obj.inj hpairs
    exact (Json.int.inj (Option.some.inj (hget.symm.trans hexp))).symm
  · intro h
    exact ⟨_, exact_accessPayload applicantId email now, rfl, h ▸ hget⟩

theorem tokenResponse_lives_iff (hjose : jose.Faithful) (applicant : Applicant)
    (d : TokenDraws) :
    LivesAsAnnounced jose d (tokenResponse jose applicant d) ↔ TruncationCovers d := by
  have hlives : LivesAsAnnounced jose d (tokenResponse jose applicant d) ↔
      d.respondedAt + (tokenResponse jose applicant d).expiresIn ≤
        (toInt (d.accessAt + JWTService.accessTokenLifetime) : ℚ) := by
    constructor
    · intro h
      exact h _ ((expiresAt_accessToken_iff hjose).mpr rfl)
    · intro h exp hexp
      rwa [(expiresAt_accessToken_iff hjose).mp hexp]
  rw [hlives]
  simp only [tokenResponse, JWTService.getAccessTokenExpiry, toInt_eq, TruncationCovers]
  constructor
  · intro h
    linarith
  · intro h
    linarith

/-- Every response is built of the call's own draws, whatever the use case. -/
theorem execute_response (t : Tx) (c : Call) (w : World) :
    Stmt.Ensures (execute jose argon t c) w
      (fun response _ => ∃ applicant, response = tokenResponse jose applicant c.draws)
      (fun _ _ => True) := by
  rw [← iterate_start jose argon t 0 c]
  refine Stmt.iterate_ensures (J := fun _ _ => True) ?_ 4 trivial
  intro p w' _
  refine (resume_ensures jose argon t c.draws w' p).mono ?_ fun _ _ _ => trivial
  intro next w'' hdoes
  cases hdoes.next with
  | inl hanswer =>
      obtain ⟨applicant, _, rfl⟩ := hanswer
      exact ⟨applicant, rfl⟩
  | inr hphase =>
      obtain ⟨_, q, rfl⟩ := hphase
      trivial

/-- After the epoch and with a hash that takes less than the lifetime: the part of a
second before the first reading, with the delay to the second one, fits into what the
delay to the third one lacks of whole seconds. -/
theorem truncationCovers_iff (hepoch : 0 ≤ d.accessAt)
    (hprompt : d.respondedAt ≤ d.accessExpiryAt + JWTService.accessTokenLifetime) :
    TruncationCovers d ↔
      Int.fract d.accessAt + (d.accessExpiryAt - d.accessAt) ≤
        Int.fract (d.accessExpiryAt - d.respondedAt) := by
  have hlife : JWTService.accessTokenLifetime = ((900 : ℤ) : ℚ) := by
    norm_num [JWTService.accessTokenLifetime, JWTService.accessTokenExpireMinutes]
  have hpos : 0 ≤ d.accessAt + JWTService.accessTokenLifetime := by
    rw [hlife]
    push_cast
    linarith
  have hleft : 0 ≤ d.accessExpiryAt + JWTService.accessTokenLifetime - d.respondedAt := by
    linarith
  rw [TruncationCovers, fractional, if_pos hpos, fractional, if_pos hleft, hlife,
    Int.fract_add_intCast, add_sub_right_comm, Int.fract_add_intCast]

end Lemmas

section Main
variable {jose : Jose} {argon : Argon2}

/-- A response announces no longer life than its token has just where the truncation
of the announcement makes up for that of the claim. -/
theorem expiresIn_lives_iff (hjose : jose.Faithful) (t : Tx) (c : Call) (w w' : World)
    (response : TokenResponse) (h : execute jose argon t c w = .returns response w') :
    LivesAsAnnounced jose c.draws response ↔ TruncationCovers c.draws := by
  obtain ⟨applicant, rfl⟩ := (execute_response t c w).of_returns h
  exact tokenResponse_lives_iff hjose applicant c.draws

/-- A registration all of whose readings are half a second past the epoch. -/
def halfSecond : Call := ⟨.register ada ⟨0, ⟨1⟩, 0, 0⟩, .at (1 / 2) 1⟩

theorem halfSecond_returns : ∃ response w',
    execute .sample .sample 0 halfSecond Sequence.init.world = .returns response w' := by
  have hok : (execute .sample .sample 0 halfSecond Sequence.init.world).result?.map
      Except.isOk = some true := by decide +kernel
  cases h : execute .sample .sample 0 halfSecond Sequence.init.world with
  | returns response w' => exact ⟨response, w', rfl⟩
  | raises e w' =>
      rw [h] at hok
      exact absurd (Option.some.inj hok) Bool.false_ne_true
  | waits =>
      rw [h] at hok
      contradiction

theorem expiresIn_lives_iff_halfSecond : ∃ response w',
    execute .sample .sample 0 halfSecond Sequence.init.world = .returns response w' ∧
      (LivesAsAnnounced .sample halfSecond.draws response ↔
        TruncationCovers halfSecond.draws) := by
  obtain ⟨response, w', h⟩ := halfSecond_returns
  exact ⟨response, w', h,
    expiresIn_lives_iff Jose.sample_faithful 0 halfSecond _ w' response h⟩

theorem halfSecond_overstated : ∃ response w',
    execute .sample .sample 0 halfSecond Sequence.init.world = .returns response w' ∧
      ¬ LivesAsAnnounced .sample halfSecond.draws response := by
  obtain ⟨response, w', h⟩ := halfSecond_returns
  refine ⟨response, w', h, ?_⟩
  obtain ⟨applicant, rfl⟩ := (execute_response 0 halfSecond _).of_returns h
  intro hlives
  have hcovers := (tokenResponse_lives_iff Jose.sample_faithful applicant _).mp hlives
  rw [truncationCovers_iff (by norm_num [halfSecond, TokenDraws.at])
    (by norm_num [halfSecond, TokenDraws.at, JWTService.accessTokenLifetime,
      JWTService.accessTokenExpireMinutes])] at hcovers
  norm_num [halfSecond, TokenDraws.at] at hcovers

end Main

end CrediGuard.Applicants
