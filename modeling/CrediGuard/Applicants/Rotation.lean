import CrediGuard.Applicants.Service
import CrediGuard.Applicants.TokenRows

/-!
A refresh token is redeemed at most once.

`RefreshTokenUseCase` reads the valid rows, verifies the presented text against
them and revokes the row it has found; the COMMIT that makes the revocation
visible comes later, and nothing looks at the row again. A run redeems each token
at most once just if the row of every exchange is still not revoked when the
exchange commits.
-/

namespace CrediGuard.Applicants
open ReadCommitted

section Statement
variable (argon : Argon2)

abbrev State.rows (s : State) : List RefreshTokenModel := s.world.refreshTokens.committed

/-- The refresh token a committed exchange was given. -/
def Execution.exchanged? (e : Execution) : Option String :=
  match e.call.operation, e.progress with
  | .refresh request _, .returned _ => some request.refreshToken
  | _, _ => none

/-- The committed execution `n` has exchanged the refresh token `text`. -/
def Exchanged (s : State) (n : Nat) (text : String) : Prop :=
  (s.executions n).bind Execution.exchanged? = some text

instance (s : State) (n : Nat) (text : String) : Decidable (Exchanged s n text) :=
  inferInstanceAs (Decidable (_ = _))

def RedeemedOnce (s : State) : Prop :=
  ∀ m n text, Exchanged s m text → Exchanged s n text → m = n

/-- A refresh token that is handed out has not been handed out before. -/
def IssuesNew (s : State) : Label → Prop
  | .await n => ∀ e a, s.executions n = some e → e.progress = .committing a →
      a.refreshToken ∉ s.issued
  | _ => True

/-- An exchange commits while the row of its token is not revoked. -/
def StillValid (s : State) : Label → Prop
  | .await n => ∀ e request r a, s.executions n = some e →
      e.call.operation = .refresh request r → e.progress = .committing a →
      ∀ m ∈ s.rows, Argon2Hasher.verify argon request.refreshToken m.tokenHash = .ok true →
        m.revokedAt = none
  | _ => True

end Statement

theorem exchanged_iff {s : State} {n : Nat} {text : String} :
    Exchanged s n text ↔ ∃ e request r a, s.executions n = some e ∧
      e.call.operation = .refresh request r ∧ e.progress = .returned a ∧
      request.refreshToken = text := by
  simp only [Exchanged, Option.bind_eq_some_iff]
  constructor
  · rintro ⟨e, he, htext⟩
    simp only [Execution.exchanged?] at htext
    split at htext
    · rename_i request r a hop hp
      exact ⟨e, request, r, a, he, hop, hp, Option.some.inj htext⟩
    · contradiction
  · rintro ⟨e, request, r, a, he, hop, hp, htext⟩
    exact ⟨e, he, by simp [Execution.exchanged?, hop, hp, htext]⟩

section Rows

/-- Every update an open transaction has made is one of the repository. -/
def Overwrites (pending : List (Tx × Write RefreshTokenModel)) : Prop :=
  ∀ p ∈ pending, ∀ f, p.2 = .update f → ∃ token, f = RefreshTokenRepository.overwrite token

theorem Overwrites.keeps {T : Table Tx RefreshTokenModel} (h : Overwrites T.pending) (t : Tx) :
    Keeps sameId (T.writes t) := by
  intro f hf a b
  obtain ⟨p, hp, hpf⟩ := List.mem_map.mp hf
  obtain ⟨token, rfl⟩ := h p (List.mem_filter.mp hp).1 f hpf
  simp [sameId]

theorem Overwrites.write {T : Table Tx RefreshTokenModel} (h : Overwrites T.pending) (t : Tx)
    {w : Write RefreshTokenModel}
    (hw : ∀ f, w = .update f → ∃ token, f = RefreshTokenRepository.overwrite token) :
    Overwrites (T.write t w).pending := by
  intro p hp
  cases List.mem_append.mp hp with
  | inl hold => exact h p hold
  | inr hnew =>
      obtain rfl := List.mem_singleton.mp hnew
      exact hw

theorem Overwrites.filter {pending : List (Tx × Write RefreshTokenModel)}
    (h : Overwrites pending) (q : Tx × Write RefreshTokenModel → Bool) :
    Overwrites (pending.filter q) :=
  fun p hp => h p (List.mem_filter.mp hp).1

end Rows

section Invariant
variable (argon : Argon2)

/-- An exchange of `text` has chosen its row. Only an execution that exchanges the
same text can have revoked it since. -/
structure Claims (s : State) (text : String) (token : RefreshToken) : Prop extends
    Chosen argon s.rows text token where
  others : ∀ m ∈ s.rows, m.id = token.id → m.revokedAt ≠ none → ∃ k, Exchanged s k text

/-- What a call has written before it stores its own token; its row is claimed. -/
def Claimed (s : State) (c : Call) (ws : List (Write RefreshTokenModel)) : Prop :=
  (NotRefresh c ∧ ws = []) ∨ ∃ request r token, c.operation = .refresh request r ∧
    Claims argon s request.refreshToken token ∧
    ws = [.update (RefreshTokenRepository.overwrite token)]

def PhaseInv (s : State) (c : Call) (ws : List (Write RefreshTokenModel)) : Phase → Prop
  | .getAllValid request r => c.operation = .refresh request r ∧ ws = []
  | .update token => ∃ request r, c.operation = .refresh request r ∧
      Claims argon s request.refreshToken token ∧ ws = []
  | .getById token => ∃ request r, c.operation = .refresh request r ∧
      Claims argon s request.refreshToken token ∧
      ws = [.update (RefreshTokenRepository.overwrite token)]
  | .saveToken _ => Claimed argon s c ws
  | _ => NotRefresh c ∧ ws = []

def ProgressInv (s : State) (c : Call) (ws : List (Write RefreshTokenModel)) : Progress → Prop
  | .running p => PhaseInv argon s c ws p
  | .committing a => ∃ ws' m, ws = ws' ++ [.insert m] ∧ Claimed argon s c ws' ∧
      RowOf argon m a.refreshToken ∧ m.revokedAt = none
  | .aborting _ => True
  | .returned _ => ws = [] ∧ ∀ request r, c.operation = .refresh request r →
      ∃ m ∈ s.rows, Argon2Hasher.verify argon request.refreshToken m.tokenHash = .ok true ∧
        m.revokedAt ≠ none
  | .raised _ => ws = []

structure RotationInv (s : State) : Prop where
  stored : Stored argon s.rows s.issued
  unique : s.world.refreshTokens.Unique sameId
  overwrites : Overwrites s.world.refreshTokens.pending
  absent : ∀ n, s.executions n = none → s.world.refreshTokens.writes n = []
  present : ∀ n e, s.executions n = some e →
    ProgressInv argon s e.call (s.world.refreshTokens.writes n) e.progress

/-- What a step does to the rows and to the exchanges, as the executions that do
not move see it. -/
structure Evolves (s s' : State) : Prop where
  keeps : ∀ m ∈ s.rows, ∃ m' ∈ s'.rows, m'.id = m.id ∧ m'.tokenHash = m.tokenHash ∧
    (m.revokedAt ≠ none → m'.revokedAt ≠ none)
  revoked : ∀ m' ∈ s'.rows, m'.revokedAt ≠ none →
    (∃ m ∈ s.rows, m.id = m'.id ∧ m.revokedAt ≠ none) ∨
      ∃ k text, Exchanged s' k text ∧
        Argon2Hasher.verify argon text m'.tokenHash = .ok true
  exchanged : ∀ k text, Exchanged s k text → Exchanged s' k text

variable {argon} {s s' : State} {n : Nat} {c : Call} {ws : List (Write RefreshTokenModel)}

theorem Evolves.of_rows_eq (hrows : s'.rows = s.rows)
    (hexchanged : ∀ k text, Exchanged s k text → Exchanged s' k text) : Evolves argon s s' := by
  refine ⟨?_, ?_, hexchanged⟩
  · intro m hm
    exact ⟨m, by rw [hrows]; exact hm, rfl, rfl, id⟩
  · intro m hm hrevoked
    rw [hrows] at hm
    exact .inl ⟨m, hm, rfl, hrevoked⟩

theorem Claims.mono (hargon : argon.Exact) {text : String} {token : RefreshToken}
    (h : Claims argon s text token) (hev : Evolves argon s s')
    (hstored : Stored argon s'.rows s'.issued)
    (hunique : s'.world.refreshTokens.Unique sameId) : Claims argon s' text token := by
  obtain ⟨m, hm, hid, hhash⟩ := h.row
  obtain ⟨m', hm', hid', hhash', _⟩ := hev.keeps m hm
  refine ⟨⟨⟨m', hm', hid'.trans hid, hhash'.trans hhash⟩, h.verifies, h.revoked⟩, ?_⟩
  intro x hx hxid hxrevoked
  cases hev.revoked x hx hxrevoked with
  | inl hold =>
      obtain ⟨y, hy, hyid, hyrevoked⟩ := hold
      obtain ⟨k, hk⟩ := h.others y hy (hyid.trans hxid) hyrevoked
      exact ⟨k, hev.exchanged k text hk⟩
  | inr hnew =>
      obtain ⟨k, text', hk, hverify⟩ := hnew
      -- the row is the chosen one, so what was exchanged for it is `text`
      obtain rfl : x = m' := eq_of_id hunique hx hm' (by rw [hxid, hid', hid])
      have hrow := (hstored.of_verify hargon hx hverify).2
      have htext : text = text' := by
        refine (hrow.verify_iff hargon).mp ?_
        rw [hhash', hhash]
        exact h.verifies
      exact ⟨k, by rw [htext]; exact hk⟩

theorem Claimed.mono (hargon : argon.Exact) (h : Claimed argon s c ws)
    (hev : Evolves argon s s') (hstored : Stored argon s'.rows s'.issued)
    (hunique : s'.world.refreshTokens.Unique sameId) : Claimed argon s' c ws := by
  refine h.imp_right ?_
  rintro ⟨request, r, token, hop, hclaims, hws⟩
  exact ⟨request, r, token, hop, hclaims.mono hargon hev hstored hunique, hws⟩

theorem ProgressInv.mono (hargon : argon.Exact) {p : Progress} (h : ProgressInv argon s c ws p)
    (hev : Evolves argon s s') (hstored : Stored argon s'.rows s'.issued)
    (hunique : s'.world.refreshTokens.Unique sameId) : ProgressInv argon s' c ws p := by
  cases p with
  | running p =>
      cases p with
      | existsByEmail request r => exact h
      | saveApplicant applicant => exact h
      | getByEmail request => exact h
      | getAllValid request r => exact h
      | update token =>
          obtain ⟨request, r, hop, hclaims, hws⟩ := h
          exact ⟨request, r, hop, hclaims.mono hargon hev hstored hunique, hws⟩
      | getById token =>
          obtain ⟨request, r, hop, hclaims, hws⟩ := h
          exact ⟨request, r, hop, hclaims.mono hargon hev hstored hunique, hws⟩
      | saveToken applicant => exact Claimed.mono hargon h hev hstored hunique
  | committing a =>
      obtain ⟨ws', m, hws, hclaimed, hrow, hrevoked⟩ := h
      exact ⟨ws', m, hws, hclaimed.mono hargon hev hstored hunique, hrow, hrevoked⟩
  | aborting e => exact h
  | returned a =>
      refine ⟨h.1, ?_⟩
      intro request r hop
      obtain ⟨m, hm, hverify, hrevoked⟩ := h.2 request r hop
      obtain ⟨m', hm', _, hhash, hkeeps⟩ := hev.keeps m hm
      exact ⟨m', hm', by rw [hhash]; exact hverify, hkeeps hrevoked⟩
  | raised e => exact h

end Invariant

section Steps
variable {jose : Jose} {argon : Argon2} {s s' : State} {n : Nat} {e e' : Execution}

theorem Exchanged.of_update (he : s.executions n = some e)
    (hopen : ∀ a, e.progress ≠ .returned a)
    (hs' : s'.executions = Function.update s.executions n (some e')) {k : Nat} {text : String}
    (h : Exchanged s k text) : Exchanged s' k text := by
  obtain ⟨ek, request, r, a, hek, hop, hp, htext⟩ := exchanged_iff.mp h
  have hk : k ≠ n := by
    intro hk
    subst hk
    obtain rfl := Option.some.inj (he.symm.trans hek)
    exact hopen a hp
  refine exchanged_iff.mpr ⟨ek, request, r, a, ?_, hop, hp, htext⟩
  rw [hs', Function.update_of_ne hk]
  exact hek

theorem exchanged_update_cases
    (hs' : s'.executions = Function.update s.executions n (some e')) {k : Nat} {text : String}
    (h : Exchanged s' k text) :
    (k = n ∧ ∃ request r a, e'.call.operation = .refresh request r ∧ e'.progress = .returned a ∧
      request.refreshToken = text) ∨ Exchanged s k text := by
  obtain ⟨ek, request, r, a, hek, hop, hp, htext⟩ := exchanged_iff.mp h
  rw [hs'] at hek
  by_cases hk : k = n
  · subst hk
    obtain rfl : e' = ek := by simpa using hek
    exact .inl ⟨rfl, request, r, a, hop, hp, htext⟩
  · rw [Function.update_of_ne hk] at hek
    exact .inr (exchanged_iff.mpr ⟨ek, request, r, a, hek, hop, hp, htext⟩)

theorem RotationInv.set (hargon : argon.Exact) (h : RotationInv argon s)
    (hs' : s'.executions = Function.update s.executions n (some e'))
    (hev : Evolves argon s s') (hstored : Stored argon s'.rows s'.issued)
    (hunique : s'.world.refreshTokens.Unique sameId)
    (hover : Overwrites s'.world.refreshTokens.pending)
    (hother : ∀ k, k ≠ n → s'.world.refreshTokens.writes k = s.world.refreshTokens.writes k)
    (hn : ProgressInv argon s' e'.call (s'.world.refreshTokens.writes n) e'.progress) :
    RotationInv argon s' := by
  refine ⟨hstored, hunique, hover, ?_, ?_⟩
  · intro k hk
    rw [hs'] at hk
    by_cases hkn : k = n
    · simp [hkn] at hk
    · rw [Function.update_of_ne hkn] at hk
      rw [hother k hkn]
      exact h.absent k hk
  · intro k ek hk
    rw [hs'] at hk
    by_cases hkn : k = n
    · subst hkn
      obtain rfl : e' = ek := by simpa using hk
      exact hn
    · rw [Function.update_of_ne hkn] at hk
      rw [hother k hkn]
      exact (h.present k ek hk).mono hargon hev hstored hunique

/-- A move that commits nothing. -/
theorem RotationInv.set_same (hargon : argon.Exact) (h : RotationInv argon s)
    (hs' : s'.executions = Function.update s.executions n (some e'))
    (hopen : ∀ k text, Exchanged s k text → Exchanged s' k text)
    (hrows : s'.rows = s.rows) (hissued : ∀ text ∈ s.issued, text ∈ s'.issued)
    (hunique : s'.world.refreshTokens.Unique sameId)
    (hover : Overwrites s'.world.refreshTokens.pending)
    (hother : ∀ k, k ≠ n → s'.world.refreshTokens.writes k = s.world.refreshTokens.writes k)
    (hn : ProgressInv argon s e'.call (s'.world.refreshTokens.writes n) e'.progress) :
    RotationInv argon s' := by
  have hev : Evolves argon s s' := .of_rows_eq hrows hopen
  have hstored : Stored argon s'.rows s'.issued := by
    rw [hrows]
    exact h.stored.mono hissued
  exact h.set hargon hs' hev hstored hunique hover hother
    (hn.mono hargon hev hstored hunique)

/-- A move that leaves the refresh tokens alone. -/
theorem RotationInv.set_frame (hargon : argon.Exact) (h : RotationInv argon s)
    (hs' : s'.executions = Function.update s.executions n (some e'))
    (hopen : ∀ k text, Exchanged s k text → Exchanged s' k text)
    (htokens : s'.world.refreshTokens = s.world.refreshTokens)
    (hissued : ∀ text ∈ s.issued, text ∈ s'.issued)
    (hn : ProgressInv argon s e'.call (s.world.refreshTokens.writes n) e'.progress) :
    RotationInv argon s' := by
  refine h.set_same hargon hs' hopen ?_ hissued ?_ ?_ ?_ ?_
  · rw [State.rows, htokens]
  · rw [htokens]
    exact h.unique
  · rw [htokens]
    exact h.overwrites
  · intro k _
    rw [htokens]
  · rw [htokens]
    exact hn

theorem notRefresh_start {c : Call} :
    PhaseInv argon s c [] c.operation.start := by
  obtain ⟨operation, draws⟩ := c
  cases operation with
  | register request r => exact ⟨fun _ _ h => by simp at h, rfl⟩
  | login request => exact ⟨fun _ _ h => by simp at h, rfl⟩
  | refresh request r => exact ⟨rfl, rfl⟩

/-- The row an exchange finds is not revoked: nobody has exchanged its token. -/
theorem RotationInv.claims (h : RotationInv argon s) {text : String} {now revokedAt : Datetime}
    {m : RefreshTokenModel} (hm : m ∈ s.rows)
    (hvalid : RefreshTokenRepository.isValid now m = true)
    (hverify : Argon2Hasher.verify argon text m.tokenHash = .ok true) :
    Claims argon s text ((RefreshTokenRepository.toEntity m).revoke revokedAt) := by
  refine ⟨⟨⟨m, hm, rfl, rfl⟩, hverify, by simp [RefreshToken.revoke]⟩, ?_⟩
  intro x hx hid hrevoked
  obtain rfl : x = m := eq_of_id h.unique hx hm hid
  simp only [RefreshTokenRepository.isValid, Bool.and_eq_true, Option.isNone_iff_eq_none]
    at hvalid
  exact absurd hvalid.2 hrevoked

theorem RotationInv.next (hargon : argon.Exact) (h : RotationInv argon s)
    (he : s.executions n = some e) {p : Phase} (hp : e.progress = .running p)
    {q : Phase ⊕ TokenResponse} {w : World}
    (hdoes : Does jose argon n e.call.draws s.world p q w) :
    RotationInv argon { s.setExecution n { e with progress := .after q } with
      world := w, issued := Progress.issues (.after q) ++ s.issued } := by
  have hcur := h.present n e he
  rw [hp] at hcur
  have hopen (k : Nat) (text : String) (hk : Exchanged s k text) :
      Exchanged { s.setExecution n { e with progress := .after q } with
        world := w, issued := Progress.issues (.after q) ++ s.issued } k text :=
    Exchanged.of_update he (fun a ha => by simp [hp] at ha) rfl hk
  have hissued (text : String) (ht : text ∈ s.issued) :
      text ∈ Progress.issues (.after q) ++ s.issued := List.mem_append_right _ ht
  cases p with
  | existsByEmail request r =>
      obtain ⟨rfl, rfl, _⟩ := hdoes
      exact h.set_frame hargon rfl hopen rfl hissued hcur
  | saveApplicant applicant =>
      obtain ⟨rfl, applicants, _, rfl⟩ := hdoes
      exact h.set_frame hargon rfl hopen rfl hissued (.inl hcur)
  | getByEmail request =>
      obtain ⟨rfl, model, _, _, rfl⟩ := hdoes
      exact h.set_frame hargon rfl hopen rfl hissued (.inl hcur)
  | getAllValid request r =>
      obtain ⟨rfl, m, hm, hvalid, hverify, rfl⟩ := hdoes
      rw [Table.visible_of_writes_nil hcur.2] at hm
      exact h.set_frame hargon rfl hopen rfl hissued
        ⟨request, r, hcur.1, h.claims hm hvalid hverify, hcur.2⟩
  | update token =>
      obtain ⟨rfl, _, _, rfl⟩ := hdoes
      obtain ⟨request, r, hop, hclaims, hws⟩ := hcur
      refine h.set_same hargon rfl hopen rfl hissued (h.unique.update n _)
        (h.overwrites.write n fun f hf => ⟨token, (Write.update.inj hf).symm⟩) ?_ ?_
      · intro k hk
        exact Table.writes_write_of_ne _ _ (Ne.symm hk)
      · refine ⟨request, r, hop, hclaims, ?_⟩
        rw [Table.writes_write_self, hws]
        rfl
  | getById token =>
      obtain ⟨rfl, model, _, rfl⟩ := hdoes
      obtain ⟨request, r, hop, hclaims, hws⟩ := hcur
      exact h.set_frame hargon rfl hopen rfl hissued (.inr ⟨request, r, token, hop, hclaims, hws⟩)
  | saveToken applicant =>
      obtain ⟨rfl, tokens, hinsert, rfl⟩ := hdoes
      have hunique := h.unique.insert_of_imp (fun _ _ => sameId_of_clash) sameId_comm
        (h.overwrites.keeps n) hinsert
      obtain ⟨rfl, _, _⟩ := Table.insert_eq_done hinsert
      refine h.set_same hargon rfl hopen rfl hissued hunique
        (h.overwrites.write n fun f hf => by simp at hf) ?_ ?_
      · intro k hk
        exact Table.writes_write_of_ne _ _ (Ne.symm hk)
      · refine ⟨_, _, Table.writes_write_self _ _ _, hcur, ⟨e.call.draws.salt, rfl⟩, rfl⟩

end Steps

section Commit
variable {jose : Jose} {argon : Argon2} {s s' : State} {n : Nat} {e : Execution}
  {a : TokenResponse}

theorem Claimed.written {c : Call} {ws : List (Write RefreshTokenModel)}
    (h : Claimed argon s c ws) : Written argon s.rows c ws := by
  refine h.imp_right ?_
  rintro ⟨request, r, token, hop, hclaims, hws⟩
  exact ⟨request, r, token, hop, hclaims.toChosen, hws⟩

def State.commits (s : State) (n : Nat) (e : Execution) (a : TokenResponse) : State :=
  { s.setExecution n { e with progress := .returned a } with
    world := s.world.commit n
    issued := Progress.issues (.returned a) ++ s.issued }

theorem RotationInv.rows_commits (h : RotationInv argon s) (he : s.executions n = some e)
    (hp : e.progress = .committing a) :
    ∃ f m, (s.commits n e a).rows = s.rows.map f ++ [m] ∧ Rotates argon s.rows e.call f ∧
      RowOf argon m a.refreshToken ∧ m.revokedAt = none := by
  have hcur := h.present n e he
  rw [hp] at hcur
  obtain ⟨ws, m, hws, hclaimed, hrow, hrevoked⟩ := hcur
  obtain ⟨f, hrows, hrotates⟩ := hclaimed.written.committed_commit h.unique hws
  exact ⟨f, m, hrows, hrotates, hrow, hrevoked⟩

theorem evolves_commits (he : s.executions n = some e) (hp : e.progress = .committing a)
    {f : RefreshTokenModel → RefreshTokenModel} {m : RefreshTokenModel}
    (hrows : (s.commits n e a).rows = s.rows.map f ++ [m])
    (hrotates : Rotates argon s.rows e.call f) (hm : m.revokedAt = none) :
    Evolves argon s (s.commits n e a) := by
  refine ⟨?_, ?_, ?_⟩
  · intro x hx
    refine ⟨f x, ?_, hrotates.id x, hrotates.hash x hx, hrotates.keeps x hx⟩
    rw [hrows]
    exact List.mem_append_left _ (List.mem_map_of_mem hx)
  · intro x hx hrevoked
    rw [hrows] at hx
    cases List.mem_append.mp hx with
    | inl hx =>
        obtain ⟨y, hy, rfl⟩ := List.mem_map.mp hx
        cases hrotates.revokes y hy hrevoked with
        | inl hold => exact .inl ⟨y, hy, (hrotates.id y).symm, hold⟩
        | inr hnew =>
            obtain ⟨request, r, hop, hverify⟩ := hnew
            refine .inr ⟨n, request.refreshToken, ?_, ?_⟩
            · exact exchanged_iff.mpr
                ⟨_, request, r, a, Function.update_self .., hop, rfl, rfl⟩
            · rw [hrotates.hash y hy]
              exact hverify
    | inr hx =>
        rw [List.mem_singleton.mp hx] at hrevoked
        exact absurd hm hrevoked
  · intro k text hk
    exact Exchanged.of_update he (fun a' ha => by simp [hp] at ha) rfl hk

theorem RotationInv.commits (hargon : argon.Exact) (h : RotationInv argon s)
    (he : s.executions n = some e) (hp : e.progress = .committing a)
    (hnew : a.refreshToken ∉ s.issued) : RotationInv argon (s.commits n e a) := by
  obtain ⟨f, m, hrows, hrotates, hrow, hrevoked⟩ := h.rows_commits he hp
  have hstored : Stored argon (s.commits n e a).rows (s.commits n e a).issued := by
    rw [hrows]
    exact h.stored.append hargon hrotates.id hrotates.hash hrow hnew
  refine h.set (n := n) hargon rfl (evolves_commits he hp hrows hrotates hrevoked) hstored
    (h.unique.commit n sameId_comm (h.overwrites.keeps n)) (h.overwrites.filter _) ?_ ?_
  · intro k hk
    exact (Table.writes_commit _ n k).trans (if_neg (Ne.symm hk))
  · refine ⟨Table.writes_commit_self _ _, ?_⟩
    intro request r hop
    obtain ⟨x, hx, hverify, hx'⟩ := hrotates.redeems request r hop
    refine ⟨f x, ?_, ?_, hx'⟩
    · rw [hrows]
      exact List.mem_append_left _ (List.mem_map_of_mem hx)
    · rw [hrotates.hash x hx]
      exact hverify

end Commit

section Exactness
variable {jose : Jose} {argon : Argon2} {s s' : State} {l : Label}

theorem RotationInv.step (hargon : argon.Exact) (h : RotationInv argon s) (hnew : IssuesNew s l)
    (hstep : step jose argon s l = some s') : RotationInv argon s' := by
  cases l with
  | arrive n c =>
      obtain ⟨hnone, rfl⟩ := step_arrive_cases hstep
      refine h.set_frame (n := n) hargon rfl ?_ rfl (fun _ h => h) ?_
      · intro k text hk
        obtain ⟨e, request, r, a, he, hrest⟩ := exchanged_iff.mp hk
        have hkn : k ≠ n := fun hkn => by simp [← hkn, he] at hnone
        refine exchanged_iff.mpr ⟨e, request, r, a, ?_, hrest⟩
        exact (Function.update_of_ne hkn _ _).trans he
      · rw [h.absent n hnone]
        exact notRefresh_start
  | awaitFails n =>
      obtain ⟨e, he, hopen, rfl⟩ := step_awaitFails_cases hstep
      refine h.set_frame (n := n) hargon rfl ?_ rfl (fun _ h => h) trivial
      intro k text hk
      refine Exchanged.of_update he ?_ rfl hk
      intro a ha
      simp [ha] at hopen
  | await n =>
      obtain ⟨e, progress, w, he, hadvance, rfl⟩ := step_await_cases hstep
      have hopen (hp : ∀ a, e.progress ≠ .returned a) (k : Nat) (text : String)
          (hk : Exchanged s k text) :
          Exchanged { s.setExecution n { e with progress := progress } with
            world := w, issued := Progress.issues progress ++ s.issued } k text :=
        Exchanged.of_update he hp rfl hk
      have hissued (text : String) (ht : text ∈ s.issued) :
          text ∈ Progress.issues progress ++ s.issued := List.mem_append_right _ ht
      generalize hp : e.progress = p at hadvance hopen
      cases hadvance with
      | next p q w' hresume =>
          have hdoes := (resume_ensures jose argon n e.call.draws s.world p).of_returns hresume
          exact h.next hargon he hp hdoes
      | raises p error w' hresume =>
          obtain rfl := (resume_ensures jose argon n e.call.draws s.world p).of_raises hresume
          exact h.set_frame hargon rfl (hopen fun a ha => by simp at ha) rfl hissued trivial
      | commits a => exact h.commits hargon he hp (hnew e a he hp)
      | rollsBack error =>
          refine h.set_same hargon rfl (hopen fun a ha => by simp at ha) rfl hissued
            (h.unique.rollback n) (h.overwrites.filter _) ?_ (Table.writes_rollback_self _ _)
          intro k hk
          exact (Table.writes_rollback _ n k).trans (if_neg (Ne.symm hk))

/-- A move that ends no exchange. -/
theorem redeemedOnce_update {n : Nat} {e' : Execution}
    (hs' : s'.executions = Function.update s.executions n (some e'))
    (hopen : ∀ a, e'.progress ≠ .returned a) (h : RedeemedOnce s) : RedeemedOnce s' := by
  have hback (k : Nat) (text : String) (hk : Exchanged s' k text) : Exchanged s k text := by
    cases exchanged_update_cases hs' hk with
    | inl hn =>
        obtain ⟨_, request, r, a, _, hp, _⟩ := hn
        exact absurd hp (hopen a)
    | inr hold => exact hold
  intro i j text hi hj
  exact h i j text (hback i text hi) (hback j text hj)

/-- The commit of an execution and the rows of the token it was given. -/
theorem redeemedOnce_commits (hargon : argon.Exact) (h : RotationInv argon s)
    (hone : RedeemedOnce s) {n : Nat} {e : Execution} (he : s.executions n = some e)
    {a : TokenResponse} (hp : e.progress = .committing a) :
    RedeemedOnce (s.commits n e a) ↔ StillValid argon s (.await n) := by
  have hcases {k : Nat} {text : String} (hk : Exchanged (s.commits n e a) k text) :=
    @exchanged_update_cases s _ n { e with progress := .returned a } rfl k text hk
  constructor
  · intro hone' e₁ request r a₁ he₁ hop hp₁ m hm hverify
    obtain rfl := Option.some.inj (he.symm.trans he₁)
    by_contra hrevoked
    have hcur := h.present n e he
    rw [hp] at hcur
    obtain ⟨ws, _, _, hclaimed, _, _⟩ := hcur
    cases hclaimed with
    | inl hnot => exact hnot.1 request r hop
    | inr hrefresh =>
        obtain ⟨request', r', token, hop', hclaims, _⟩ := hrefresh
        obtain ⟨rfl, rfl⟩ := Operation.refresh.inj (hop.symm.trans hop')
        -- `m` is the row the exchange has chosen, and another exchange has revoked it
        obtain ⟨m', hm', hid, hhash⟩ := hclaims.row
        have hverify' : Argon2Hasher.verify argon request.refreshToken m'.tokenHash = .ok true := by
          rw [hhash]
          exact hclaims.verifies
        have hsame : m.id = m'.id := h.stored.once_of_verify hargon hm hm' hverify hverify'
        obtain ⟨k, hk⟩ := hclaims.others m hm (hsame.trans hid) hrevoked
        have hkn : k = n := hone' k n request.refreshToken
          (Exchanged.of_update he (fun a' ha => by simp [hp] at ha) rfl hk)
          (exchanged_iff.mpr ⟨_, request, r, a, Function.update_self .., hop, rfl, rfl⟩)
        subst hkn
        obtain ⟨e₂, _, _, a₂, he₂, _, hp₂, _⟩ := exchanged_iff.mp hk
        obtain rfl := Option.some.inj (he.symm.trans he₂)
        simp [hp] at hp₂
  · intro hvalid
    -- an earlier exchange of the same token has revoked its row
    have hno {k : Nat} {request : RefreshTokenRequest} {r : RefreshDraws}
        (hop : e.call.operation = .refresh request r)
        (hk : Exchanged s k request.refreshToken) : False := by
      obtain ⟨ek, request', r', a', hek, hop', hp', htext⟩ := exchanged_iff.mp hk
      have hcur := h.present k ek hek
      rw [hp'] at hcur
      obtain ⟨m, hm, hverify, hrevoked⟩ := hcur.2 request' r' hop'
      rw [htext] at hverify
      exact hrevoked (hvalid e request r a he hop hp m hm hverify)
    intro i j text hi hj
    cases hcases hi with
    | inl hin =>
        obtain ⟨hin, request, r, a₁, hop, _, htext⟩ := hin
        cases hcases hj with
        | inl hjn => rw [hin, hjn.1]
        | inr hj => exact (hno hop (by rw [htext]; exact hj)).elim
    | inr hi =>
        cases hcases hj with
        | inl hjn =>
            obtain ⟨_, request, r, a₁, hop, _, htext⟩ := hjn
            exact (hno hop (by rw [htext]; exact hi)).elim
        | inr hj => exact hone i j text hi hj

theorem step_redeemedOnce (hargon : argon.Exact) (h : RotationInv argon s)
    (hone : RedeemedOnce s) (hstep : Applicants.step jose argon s l = some s') :
    RedeemedOnce s' ↔ StillValid argon s l := by
  cases l with
  | arrive n c =>
      obtain ⟨_, rfl⟩ := step_arrive_cases hstep
      exact ⟨fun _ => trivial, fun _ => redeemedOnce_update rfl (fun a ha => by simp at ha) hone⟩
  | awaitFails n =>
      obtain ⟨e, he, _, rfl⟩ := step_awaitFails_cases hstep
      exact ⟨fun _ => trivial, fun _ => redeemedOnce_update rfl (fun a ha => by simp at ha) hone⟩
  | await n =>
      obtain ⟨e, progress, w, he, hadvance, rfl⟩ := step_await_cases hstep
      -- only a commit ends an exchange, and only it is constrained
      have hfree (hp : ∀ a, e.progress ≠ .committing a) (hp' : ∀ a, progress ≠ .returned a) :
          RedeemedOnce { s.setExecution n { e with progress := progress } with
            world := w, issued := Progress.issues progress ++ s.issued } ↔
            StillValid argon s (.await n) := by
        refine ⟨fun _ => ?_, fun _ => redeemedOnce_update rfl hp' hone⟩
        intro e₁ request r a he₁ _ hp₁
        obtain rfl := Option.some.inj (he.symm.trans he₁)
        exact absurd hp₁ (hp a)
      generalize hp : e.progress = p at hadvance hfree
      cases hadvance with
      | next p q w' hresume =>
          refine hfree (fun a ha => by simp at ha) ?_
          intro a ha
          cases q <;> simp at ha
      | raises p error w' hresume =>
          exact hfree (fun a ha => by simp at ha) (fun a ha => by simp at ha)
      | commits a => exact redeemedOnce_commits hargon h hone he hp
      | rollsBack error => exact hfree (fun a ha => by simp at ha) (fun a ha => by simp at ha)

theorem RotationInv.of_quiet (hquiet : s.Quiet) (hstored : Stored argon s.rows s.issued)
    (hunique : s.world.refreshTokens.Unique RefreshTokenModel.clash) : RotationInv argon s := by
  refine ⟨hstored, ?_, ?_, ?_, ?_⟩
  · exact List.Pairwise.imp sameId_of_clash hunique
  · rw [hquiet.refreshTokens]
    exact fun p hp => absurd hp List.not_mem_nil
  · intro n _
    exact Table.writes_of_pending_nil n hquiet.refreshTokens
  · intro n e he
    simp [hquiet.executions n] at he

/-- The refresh tokens issued so far are pairwise distinct. -/
def DistinctTokens (s : State) : Prop := s.issued.Nodup

instance (s : State) : Decidable (DistinctTokens s) := inferInstanceAs (Decidable (List.Nodup _))

theorem issuesNew_of_distinct {ls : List Label}
    (h : Runs.Throughout (Applicants.step jose argon) DistinctTokens s ls) :
    Runs.EachStep (Applicants.step jose argon) IssuesNew s ls := by
  induction ls generalizing s with
  | nil => trivial
  | cons l ls ih =>
      intro t ht
      refine ⟨?_, ih (h.2 t ht)⟩
      cases l with
      | arrive n c => trivial
      | awaitFails n => trivial
      | await n =>
          intro e a he hp
          obtain ⟨e', progress, w, he', hadvance, rfl⟩ := step_await_cases ht
          obtain rfl := Option.some.inj (he.symm.trans he')
          rw [hp] at hadvance
          cases hadvance with
          | commits a => exact (List.nodup_cons.mp (h.2 _ ht).first).1

/-- With pairwise distinct refresh tokens, from any table that stores issued
tokens, a run redeems each of them at most once just if the row of every exchange
is still not revoked when the exchange commits. -/
theorem redeemedOnce_iff (hargon : argon.Exact) (hquiet : s.Quiet)
    (hstored : Stored argon s.rows s.issued)
    (hunique : s.world.refreshTokens.Unique RefreshTokenModel.clash) {ls : List Label}
    (hdistinct : Runs.Throughout (Applicants.step jose argon) DistinctTokens s ls) :
    Runs.Throughout (Applicants.step jose argon) RedeemedOnce s ls ↔
      Runs.EachStep (Applicants.step jose argon) (StillValid argon) s ls := by
  refine Runs.throughout_iff_eachStep_of (I := RotationInv argon) ?_ ?_
    (.of_quiet hquiet hstored hunique) ?_ (issuesNew_of_distinct hdistinct)
  · intro s l s' h _ hnew _ hstep
    exact h.step hargon hnew hstep
  · intro s l s' h hone _ hstep
    exact step_redeemedOnce hargon h hone hstep
  · intro i j text hi _
    obtain ⟨e, _, _, _, he, _⟩ := exchanged_iff.mp hi
    simp [hquiet.executions i] at he

end Exactness

section Race
variable {jose : Jose} {argon : Argon2}

theorem issued_suffix {s s' : State} {l : Label} (h : step jose argon s l = some s') :
    s.issued <:+ s'.issued := by
  cases l with
  | arrive n c =>
      obtain ⟨_, rfl⟩ := step_arrive_cases h
      exact List.suffix_rfl
  | awaitFails n =>
      obtain ⟨e, _, _, rfl⟩ := step_awaitFails_cases h
      exact List.suffix_rfl
  | await n =>
      obtain ⟨e, progress, w, _, _, rfl⟩ := step_await_cases h
      exact List.suffix_append _ _

/-- Distinct at the end is distinct all along. -/
theorem distinct_of_run {s s' : State} {ls : List Label}
    (hrun : Runs.run (step jose argon) s ls = some s') (h : DistinctTokens s') :
    Runs.Throughout (step jose argon) DistinctTokens s ls := by
  refine Runs.throughout_iff_prefix.mpr ?_
  rintro pre ⟨rest, rfl⟩ t ht
  rw [Runs.run_append, ht] at hrun
  have hsuffix : t.issued <:+ s'.issued :=
    Runs.invariant (I := fun x => t.issued <:+ x.issued)
      (fun _ _ _ hx hstep => hx.trans (issued_suffix hstep)) List.suffix_rfl hrun
  exact h.sublist hsuffix.sublist

/-- One applicant and the one refresh token it was given. -/
def oneToken : State where
  world := {
    applicants := ⟨[⟨⟨1⟩, "a@example.com", "$password", "Ada", "A", 0, 0⟩], []⟩
    refreshTokens := ⟨[RefreshTokenRepository.toModel
      (refreshTokenEntity .sample .sample ⟨1⟩ (.at 0 1))], []⟩
    locks := [] }
  executions := fun _ => none
  issued := [JWTService.createRefreshToken .sample ⟨1⟩ 0]

theorem oneToken_quiet : oneToken.Quiet := ⟨rfl, rfl, rfl, fun _ => rfl⟩

theorem oneToken_stored : Stored .sample oneToken.rows oneToken.issued := by
  refine ⟨?_, ?_⟩
  · intro m hm
    obtain rfl := List.mem_singleton.mp hm
    exact ⟨_, List.mem_singleton_self _, _, rfl⟩
  · intro a ha b hb _ _ _
    rw [List.mem_singleton.mp ha, List.mem_singleton.mp hb]

theorem oneToken_unique : oneToken.world.refreshTokens.Unique RefreshTokenModel.clash :=
  List.pairwise_singleton _ _

/-- An exchange of that token in second `now`. -/
def exchange (now : Datetime) (n : BitVec 128) : Call where
  operation := .refresh ⟨JWTService.createRefreshToken .sample ⟨1⟩ 0⟩ ⟨now, .stored, now⟩
  draws := .at now n

/-- Both exchanges read the row before either commits. -/
def exchangeLabels : List Label :=
  [.arrive 0 (exchange 1 2), .arrive 1 (exchange 2 3), .await 0, .await 1] ++
    List.replicate 4 (.await 0) ++ List.replicate 4 (.await 1)

theorem exchanges_run :
    ∃ s', Runs.run (step .sample .sample) oneToken exchangeLabels = some s' ∧
      DistinctTokens s' ∧
      Exchanged s' 0 (JWTService.createRefreshToken .sample ⟨1⟩ 0) ∧
      Exchanged s' 1 (JWTService.createRefreshToken .sample ⟨1⟩ 0) := by
  have hrun : ((Runs.run (step .sample .sample) oneToken exchangeLabels).map fun s =>
      decide (DistinctTokens s ∧
        Exchanged s 0 (JWTService.createRefreshToken .sample ⟨1⟩ 0) ∧
        Exchanged s 1 (JWTService.createRefreshToken .sample ⟨1⟩ 0))) = some true := by
    decide +kernel
  obtain ⟨s', hs', hall⟩ := Option.map_eq_some_iff.mp hrun
  exact ⟨s', hs', of_decide_eq_true hall⟩

theorem race_not_redeemedOnce :
    Stored .sample oneToken.rows oneToken.issued ∧
      Runs.Throughout (step .sample .sample) DistinctTokens oneToken exchangeLabels ∧
      ∃ s', Runs.run (step .sample .sample) oneToken exchangeLabels = some s' ∧
        ¬ RedeemedOnce s' := by
  obtain ⟨s', hrun, hdistinct, h₀, h₁⟩ := exchanges_run
  refine ⟨oneToken_stored, distinct_of_run hrun hdistinct, s', hrun, ?_⟩
  intro hone
  exact absurd (hone 0 1 _ h₀ h₁) (by decide)

theorem redeemedOnce_iff_race :
    Runs.Throughout (step .sample .sample) RedeemedOnce oneToken exchangeLabels ↔
      Runs.EachStep (step .sample .sample) (StillValid .sample) oneToken exchangeLabels :=
  redeemedOnce_iff Argon2.sample_exact oneToken_quiet oneToken_stored oneToken_unique
    (exchanges_run.elim fun _ h => distinct_of_run h.1 h.2.1)

end Race

end CrediGuard.Applicants
