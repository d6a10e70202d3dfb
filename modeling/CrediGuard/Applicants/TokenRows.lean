import CrediGuard.Applicants.UseCases

/-!
The rows of `refresh_tokens` as the tokens they store, and what the writes of one
use case make of them.
-/

namespace CrediGuard.Applicants
open ReadCommitted

section Stored
variable (argon : Argon2)

/-- The row stores the hash of `text`. -/
def RowOf (m : RefreshTokenModel) (text : String) : Prop :=
  ∃ salt, m.tokenHash = argon.hash salt text

/-- Every row stores an issued refresh token, and none is stored twice. -/
structure Stored (rows : List RefreshTokenModel) (issued : List String) : Prop where
  issued : ∀ m ∈ rows, ∃ text ∈ issued, RowOf argon m text
  once : ∀ a ∈ rows, ∀ b ∈ rows, ∀ text, RowOf argon a text → RowOf argon b text → a.id = b.id

variable {argon} {rows : List RefreshTokenModel} {issued : List String}

theorem RowOf.verify_iff (hargon : argon.Exact) {m : RefreshTokenModel} {text p : String}
    (h : RowOf argon m text) :
    Argon2Hasher.verify argon p m.tokenHash = .ok true ↔ p = text := by
  obtain ⟨salt, hsalt⟩ := h
  rw [hsalt, hargon salt p text]
  simp

theorem RowOf.unique (hargon : argon.Exact) {m : RefreshTokenModel} {p q : String}
    (hp : RowOf argon m p) (hq : RowOf argon m q) : p = q :=
  (hq.verify_iff hargon).mp ((hp.verify_iff hargon).mpr rfl)

theorem Stored.of_verify (hargon : argon.Exact) (h : Stored argon rows issued)
    {m : RefreshTokenModel} (hm : m ∈ rows) {text : String}
    (hverify : Argon2Hasher.verify argon text m.tokenHash = .ok true) :
    text ∈ issued ∧ RowOf argon m text := by
  obtain ⟨p, hp, hrow⟩ := h.issued m hm
  obtain rfl := (hrow.verify_iff hargon).mp hverify
  exact ⟨hp, hrow⟩

/-- Two rows that verify one text are one row. -/
theorem Stored.once_of_verify (hargon : argon.Exact) (h : Stored argon rows issued)
    {text : String} {a b : RefreshTokenModel} (ha : a ∈ rows) (hb : b ∈ rows)
    (hva : Argon2Hasher.verify argon text a.tokenHash = .ok true)
    (hvb : Argon2Hasher.verify argon text b.tokenHash = .ok true) : a.id = b.id :=
  h.once a ha b hb text (h.of_verify hargon ha hva).2 (h.of_verify hargon hb hvb).2

theorem Stored.mono (h : Stored argon rows issued) {issued' : List String}
    (hissued : ∀ text ∈ issued, text ∈ issued') : Stored argon rows issued' := by
  refine ⟨?_, h.once⟩
  intro m hm
  obtain ⟨text, htext, hrow⟩ := h.issued m hm
  exact ⟨text, hissued text htext, hrow⟩

/-- A change of the rows that keeps what they are rows of, and one new token. -/
theorem Stored.append (hargon : argon.Exact) (h : Stored argon rows issued)
    {f : RefreshTokenModel → RefreshTokenModel} (hid : ∀ x, (f x).id = x.id)
    (hhash : ∀ x ∈ rows, (f x).tokenHash = x.tokenHash) {m : RefreshTokenModel} {new : String}
    (hm : RowOf argon m new) (hnew : new ∉ issued) :
    Stored argon (rows.map f ++ [m]) (new :: issued) := by
  have hold (x : RefreshTokenModel) (hx : x ∈ rows) (text : String) :
      RowOf argon (f x) text ↔ RowOf argon x text := by
    simp only [RowOf, hhash x hx]
  -- a row of before does not store the new token
  have hother (x : RefreshTokenModel) (hx : x ∈ rows) (text : String)
      (hxt : RowOf argon (f x) text) (hmt : RowOf argon m text) : False := by
    obtain ⟨p, hp, hxp⟩ := h.issued x hx
    rw [hm.unique hargon hmt, ((hold x hx text).mp hxt).unique hargon hxp] at hnew
    exact hnew hp
  have hsplit (x : RefreshTokenModel) (hx : x ∈ rows.map f ++ [m]) :
      (∃ y ∈ rows, f y = x) ∨ x = m :=
    (List.mem_append.mp hx).imp List.mem_map.mp List.mem_singleton.mp
  refine ⟨?_, ?_⟩
  · intro x hx
    cases hsplit x hx with
    | inl hx =>
        obtain ⟨y, hy, rfl⟩ := hx
        obtain ⟨text, htext, hrow⟩ := h.issued y hy
        exact ⟨text, List.mem_cons_of_mem _ htext, (hold y hy text).mpr hrow⟩
    | inr hx =>
        subst hx
        exact ⟨new, List.mem_cons_self .., hm⟩
  · intro x hx y hy text hxt hyt
    cases hsplit x hx with
    | inl hx' =>
        obtain ⟨x, hx', rfl⟩ := hx'
        cases hsplit y hy with
        | inl hy' =>
            obtain ⟨y, hy', rfl⟩ := hy'
            rw [hid, hid]
            exact h.once x hx' y hy' text ((hold x hx' text).mp hxt) ((hold y hy' text).mp hyt)
        | inr hy' =>
            subst hy'
            exact (hother x hx' text hxt hyt).elim
    | inr hx' =>
        subst hx'
        cases hsplit y hy with
        | inl hy' =>
            obtain ⟨y, hy', rfl⟩ := hy'
            exact (hother y hy' text hyt hxt).elim
        | inr hy' => rw [hy']

end Stored

section Rotates
variable {argon : Argon2} {rows : List RefreshTokenModel}

def sameId (a b : RefreshTokenModel) : Bool := a.id = b.id

theorem sameId_comm (a b : RefreshTokenModel) : sameId a b = sameId b a := by
  simp only [sameId, eq_comm (a := a.id)]

theorem sameId_of_clash {a b : RefreshTokenModel} (h : a.clash b = false) :
    sameId a b = false := by
  simp only [RefreshTokenModel.clash, Bool.or_eq_false_iff] at h
  exact h.1

theorem eq_of_id {T : Table Tx RefreshTokenModel} (hunique : T.Unique sameId)
    {a b : RefreshTokenModel} (ha : a ∈ T.committed) (hb : b ∈ T.committed)
    (hid : a.id = b.id) : a = b :=
  hunique.eq_of_clash sameId_comm ha hb (by simpa [sameId] using hid)

/-- The row an exchange of `text` has chosen, and the revocation it will write. -/
structure Chosen (argon : Argon2) (rows : List RefreshTokenModel) (text : String)
    (token : RefreshToken) : Prop where
  row : ∃ m ∈ rows, m.id = token.id ∧ m.tokenHash = token.tokenHash
  verifies : Argon2Hasher.verify argon text token.tokenHash = .ok true
  revoked : token.revokedAt ≠ none

/-- What the writes of a call make of the rows, its new token left aside. -/
structure Rotates (argon : Argon2) (rows : List RefreshTokenModel) (c : Call)
    (f : RefreshTokenModel → RefreshTokenModel) : Prop where
  id : ∀ x, (f x).id = x.id
  hash : ∀ x ∈ rows, (f x).tokenHash = x.tokenHash
  keeps : ∀ x ∈ rows, x.revokedAt ≠ none → (f x).revokedAt ≠ none
  revokes : ∀ x ∈ rows, (f x).revokedAt ≠ none → x.revokedAt ≠ none ∨
    ∃ request r, c.operation = .refresh request r ∧
      Argon2Hasher.verify argon request.refreshToken x.tokenHash = .ok true
  redeems : ∀ request r, c.operation = .refresh request r → ∃ x ∈ rows,
    Argon2Hasher.verify argon request.refreshToken x.tokenHash = .ok true ∧
      (f x).revokedAt ≠ none

def NotRefresh (c : Call) : Prop := ∀ request r, c.operation ≠ .refresh request r

theorem NotRefresh.rotates {c : Call} (h : NotRefresh c) : Rotates argon rows c id := by
  refine ⟨fun _ => rfl, fun _ _ => rfl, fun _ _ h => h, fun _ _ h => .inl h, ?_⟩
  intro request r hop
  exact absurd hop (h request r)

theorem Chosen.rotates {T : Table Tx RefreshTokenModel} (hunique : T.Unique sameId) {c : Call}
    {request : RefreshTokenRequest} {r : RefreshDraws} {token : RefreshToken}
    (hop : c.operation = .refresh request r)
    (h : Chosen argon T.committed request.refreshToken token) :
    Rotates argon T.committed c (RefreshTokenRepository.overwrite token) := by
  obtain ⟨m, hm, hid, hhash⟩ := h.row
  have hrow (x : RefreshTokenModel) (hx : x ∈ T.committed) (hxid : x.id = token.id) :
      x.tokenHash = token.tokenHash := by
    rw [eq_of_id hunique hx hm (hxid.trans hid.symm), hhash]
  refine ⟨overwrite_id token, ?_, ?_, ?_, ?_⟩
  · intro x hx
    by_cases hxid : x.id = token.id
    · rw [(overwrite_of_eq hxid).1, hrow x hx hxid]
    · rw [overwrite_of_ne hxid]
  · intro x hx hrevoked
    by_cases hxid : x.id = token.id
    · rw [(overwrite_of_eq hxid).2]
      exact h.revoked
    · rw [overwrite_of_ne hxid]
      exact hrevoked
  · intro x hx hrevoked
    by_cases hxid : x.id = token.id
    · refine .inr ⟨request, r, hop, ?_⟩
      rw [hrow x hx hxid]
      exact h.verifies
    · rw [overwrite_of_ne hxid] at hrevoked
      exact .inl hrevoked
  · intro request' r' hop'
    obtain ⟨rfl, rfl⟩ := Operation.refresh.inj (hop.symm.trans hop')
    refine ⟨m, hm, ?_, ?_⟩
    · rw [hhash]
      exact h.verifies
    · rw [(overwrite_of_eq hid).2]
      exact h.revoked

/-- What a call has written to the refresh tokens before it stores its own. -/
def Written (argon : Argon2) (rows : List RefreshTokenModel) (c : Call)
    (ws : List (Write RefreshTokenModel)) : Prop :=
  (NotRefresh c ∧ ws = []) ∨ ∃ request r token, c.operation = .refresh request r ∧
    Chosen argon rows request.refreshToken token ∧
    ws = [.update (RefreshTokenRepository.overwrite token)]

theorem Written.keeps {c : Call} {ws : List (Write RefreshTokenModel)}
    (h : Written argon rows c ws) : Keeps sameId ws := by
  intro f hf a b
  cases h with
  | inl hnot => simp [hnot.2] at hf
  | inr hrefresh =>
      obtain ⟨request, r, token, _, _, rfl⟩ := hrefresh
      obtain rfl := Write.update.inj (List.mem_singleton.mp hf)
      simp [sameId]

/-- The rows once a call has stored its new token `m` and committed. -/
theorem Written.committed_commit {T : Table Tx RefreshTokenModel} (hunique : T.Unique sameId)
    {t : Tx} {c : Call} {ws : List (Write RefreshTokenModel)} {m : RefreshTokenModel}
    (h : Written argon T.committed c ws) (hws : T.writes t = ws ++ [.insert m]) :
    ∃ f, (T.commit t).committed = T.committed.map f ++ [m] ∧ Rotates argon T.committed c f := by
  have hcommit : (T.commit t).committed = applyAll ws T.committed ++ [m] := by
    rw [Table.committed_commit, hws]
    simp only [applyAll, List.foldl_append, List.foldl_cons, List.foldl_nil, apply_insert]
  rw [hcommit]
  cases h with
  | inl hother =>
      obtain ⟨hnot, rfl⟩ := hother
      exact ⟨id, by simp, hnot.rotates⟩
  | inr hrefresh =>
      obtain ⟨request, r, token, hop, hchosen, rfl⟩ := hrefresh
      exact ⟨RefreshTokenRepository.overwrite token, rfl, hchosen.rotates hunique hop⟩

end Rotates

end CrediGuard.Applicants
