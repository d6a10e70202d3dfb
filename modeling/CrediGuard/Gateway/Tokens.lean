import CrediGuard.Dependencies
import CrediGuard.Applicants.Mints
import CrediGuard.Applicants.Rotation
import CrediGuard.Gateway.Proxy

/-!
The two validators of access tokens, over the runs of the service that makes them.

RS256 is idealised: what the public key accepts is what the private key has
signed, as long as it has not expired.
-/

namespace CrediGuard.Gateway
open Applicants

section Model

/-- `exp` is not in the past, in whole seconds. -/
def unexpired (claims : List (String × Json)) (now : Datetime) : Bool :=
  match Json.get? claims "exp" with
  | some (.int expiry) => ⌊now⌋ ≤ expiry
  | some _ => false
  | none => true

/-- `jwt.decode` with the public key, where `signed` is all the private key has signed. -/
def decodeSigned (jose : Jose) (signed : List Json) (now : Datetime) (token : String) :
    Option (List (String × Json)) :=
  signed.findSome? fun payload =>
    match payload with
    | .obj claims =>
        if jose.encode (.obj claims) = token ∧ unexpired claims now = true then some claims
        else none
    | _ => none

/-- A signed token has a text. -/
def SomeText (jose : Jose) : Prop := ∀ claims, jose.encode (.obj claims) ≠ ""

variable (jose : Jose) (h : Ledger) (now : Datetime) (token : String) (applicantId : Uuid)

/-- The token was made as an access token for the applicant, and lives. -/
def MadeFor : Prop :=
  ∃ m ∈ h.minted, m.applicant.id = applicantId ∧ m.accessToken jose = token ∧ ⌊now⌋ ≤ m.expiry

/-- An execution has returned the token as an access token for the applicant, and it lives. -/
def ReturnedFor : Prop :=
  ∃ m ∈ h.minted, m.applicant.id = applicantId ∧ ⌊now⌋ ≤ m.expiry ∧
    ∃ e response, h.state.executions m.execution = some e ∧ e.progress = .returned response ∧
      response.accessToken = token

/-- Every execution that made tokens has returned. -/
def AllReturned : Prop :=
  ∀ m ∈ h.minted, ∃ e response,
    h.state.executions m.execution = some e ∧ e.progress = .returned response

/-- The validators accept what was made as an access token, and they agree. -/
structure Agreed (edge : Edge) (tokens : TokenDecoder) : Prop where
  accepted : ∀ applicantId,
    edge.validateToken token = some applicantId ↔ MadeFor jose h now token applicantId
  bearer : edge.validate (some ("Bearer " ++ token)) = edge.validateToken token
  cookie : edge.validateCookie (some token) = edge.validateToken token
  service : (decodeAccessToken tokens token).map Prod.fst = edge.validateToken token
  refresh : ∀ m ∈ h.minted, m.refreshToken jose = token → edge.validateToken token = none
  returned : ∀ applicantId, ReturnedFor h now token applicantId →
    edge.validateToken token = some applicantId
  issued : ∀ n e response, h.state.executions n = some e → e.progress = .returned response →
    response.accessToken = token → ∃ m ∈ h.minted, m.execution = n ∧
      (⌊now⌋ ≤ m.expiry → ReturnedFor h now token m.applicant.id)
  complete : AllReturned h → ∀ applicantId,
    edge.validateToken token = some applicantId ↔ ReturnedFor h now token applicantId

end Model

section Claims
variable {jose : Jose} {edge : Edge} {tokens : TokenDecoder} {token : String} {m : Mint}

def accessClaims (m : Mint) : List (String × Json) :=
  [("sub", .str m.applicant.id.str), ("email", .str m.applicant.email), ("type", .str "access"),
    ("iat", .int (toInt m.draws.accessAt)), ("exp", .int m.expiry)]

def refreshClaims (m : Mint) : List (String × Json) :=
  [("sub", .str m.applicant.id.str), ("type", .str "refresh"),
    ("iat", .int (toInt m.draws.refreshAt)),
    ("exp", .int (toInt (m.draws.refreshAt + JWTService.refreshTokenLifetime)))]

theorem accessPayload_eq (m : Mint) : m.accessPayload = .obj (accessClaims m) := rfl

theorem refreshPayload_eq (m : Mint) : m.refreshPayload = .obj (refreshClaims m) := rfl

theorem exact_accessPayload (m : Mint) : Json.Exact m.accessPayload := by
  simp [accessPayload_eq, accessClaims, Json.Exact, Json.ExactPairs]

theorem exact_refreshPayload (m : Mint) : Json.Exact m.refreshPayload :=
  JWTService.exact_refreshPayload m.applicant.id m.draws.refreshAt

section Members
variable (m)

theorem access_sub : Json.get? (accessClaims m) "sub" = some (.str m.applicant.id.str) := rfl

theorem access_email : Json.get? (accessClaims m) "email" = some (.str m.applicant.email) := rfl

theorem access_type : Json.get? (accessClaims m) "type" = some (.str "access") := rfl

theorem access_exp : Json.get? (accessClaims m) "exp" = some (.int m.expiry) := rfl

theorem refresh_type : Json.get? (refreshClaims m) "type" = some (.str "refresh") := rfl

end Members

theorem unexpired_access (m : Mint) (now : Datetime) :
    unexpired (accessClaims m) now = true ↔ ⌊now⌋ ≤ m.expiry := by
  rw [unexpired, access_exp]
  exact decide_eq_true_iff

theorem validateToken_access (htoken : token ≠ "")
    (hdecode : edge.decode token = some (accessClaims m)) :
    edge.validateToken token = some m.applicant.id := by
  simp only [Edge.validateToken, if_neg htoken, hdecode, access_type, access_sub,
    Option.bind_eq_bind, Option.bind_some, Uuid.parse_str]

theorem validateToken_refresh (hdecode : edge.decode token = some (refreshClaims m)) :
    edge.validateToken token = none := by
  simp only [Edge.validateToken, hdecode, refresh_type, Option.bind_eq_bind, Option.bind_some]
  exact ite_self _

theorem validateToken_none (hdecode : edge.decode token = none) :
    edge.validateToken token = none := by
  rw [Edge.validateToken, hdecode]
  exact ite_self _

theorem decodeAccessToken_access (hdecode : tokens.decode token = some (accessClaims m)) :
    decodeAccessToken tokens token = some (m.applicant.id, .str m.applicant.email) := by
  simp only [decodeAccessToken, hdecode, access_type, access_sub, access_email,
    Option.bind_eq_bind, Option.bind_some, Uuid.parse_str]

theorem decodeAccessToken_refresh (hdecode : tokens.decode token = some (refreshClaims m)) :
    decodeAccessToken tokens token = none := by
  simp only [decodeAccessToken, hdecode, refresh_type, Option.bind_eq_bind, Option.bind_some]
  rfl

theorem decodeAccessToken_none (hdecode : tokens.decode token = none) :
    decodeAccessToken tokens token = none := by
  rw [decodeAccessToken, hdecode]
  rfl

end Claims

section Decode
variable {jose : Jose} {signed : List Json} {now : Datetime} {token : String}

theorem decodeSigned_cases {claims : List (String × Json)}
    (hdecode : decodeSigned jose signed now token = some claims) :
    .obj claims ∈ signed ∧ jose.encode (.obj claims) = token ∧ unexpired claims now = true := by
  obtain ⟨payload, hpayload, hsome⟩ := List.exists_of_findSome?_eq_some hdecode
  split at hsome
  · split at hsome
    · rename_i hgood
      obtain rfl := Option.some.inj hsome
      exact ⟨hpayload, hgood⟩
    · contradiction
  · contradiction

/-- What has been signed is accepted while it lives: no other payload has its signature. -/
theorem decodeSigned_eq_some_iff (hfaithful : jose.Faithful)
    (hexact : ∀ payload ∈ signed, Json.Exact payload) {claims : List (String × Json)} :
    decodeSigned jose signed now token = some claims ↔
      .obj claims ∈ signed ∧ jose.encode (.obj claims) = token ∧ unexpired claims now = true := by
  constructor
  · exact decodeSigned_cases
  · intro hgood
    obtain ⟨hmem, htoken, hlive⟩ := hgood
    cases hdecode : decodeSigned jose signed now token with
    | none =>
        have hnone := List.findSome?_eq_none_iff.mp hdecode _ hmem
        exact absurd (hnone.symm.trans (if_pos ⟨htoken, hlive⟩)) (by simp)
    | some claims' =>
        obtain ⟨hmem', htoken', _⟩ := decodeSigned_cases hdecode
        have heq := hfaithful _ _ (hexact _ hmem') (hexact _ hmem) (htoken'.trans htoken.symm)
        rw [Json.obj.inj heq]

theorem mem_signed {h : Ledger} {payload : Json} :
    payload ∈ h.signed ↔
      ∃ m ∈ h.minted, payload = .obj (accessClaims m) ∨ payload = .obj (refreshClaims m) := by
  simp only [Ledger.signed, List.mem_flatMap, List.mem_cons, List.not_mem_nil, or_false,
    accessPayload_eq, refreshPayload_eq]

theorem exact_signed {h : Ledger} : ∀ payload ∈ h.signed, Json.Exact payload := by
  intro payload hpayload
  obtain ⟨m, _, heq⟩ := mem_signed.mp hpayload
  cases heq with
  | inl haccess => exact haccess ▸ exact_accessPayload m
  | inr hrefresh => exact hrefresh ▸ exact_refreshPayload m

end Decode

section Agreement
variable {jose : Jose} {h : Ledger} {now : Datetime} {token : String}

theorem decode_access (hfaithful : jose.Faithful) {m : Mint} (hm : m ∈ h.minted)
    (htoken : m.accessToken jose = token) (hlive : ⌊now⌋ ≤ m.expiry) :
    decodeSigned jose h.signed now token = some (accessClaims m) :=
  (decodeSigned_eq_some_iff hfaithful exact_signed).mpr
    ⟨mem_signed.mpr ⟨m, hm, .inl rfl⟩, htoken, (unexpired_access m now).mpr hlive⟩

/-- A text is an access token that lives, or a refresh token, or is refused. -/
theorem decode_cases :
    (∃ m ∈ h.minted, m.accessToken jose = token ∧ ⌊now⌋ ≤ m.expiry ∧
        decodeSigned jose h.signed now token = some (accessClaims m)) ∨
      (∃ m ∈ h.minted, m.refreshToken jose = token ∧
        decodeSigned jose h.signed now token = some (refreshClaims m)) ∨
      decodeSigned jose h.signed now token = none := by
  cases hdecode : decodeSigned jose h.signed now token with
  | none => exact .inr (.inr rfl)
  | some claims =>
      obtain ⟨hmem, htoken, hlive⟩ := decodeSigned_cases hdecode
      obtain ⟨m, hm, heq⟩ := mem_signed.mp hmem
      cases heq with
      | inl haccess =>
          obtain rfl := Json.obj.inj haccess
          exact .inl ⟨m, hm, htoken, (unexpired_access m now).mp hlive, rfl⟩
      | inr hrefresh =>
          obtain rfl := Json.obj.inj hrefresh
          exact .inr (.inl ⟨m, hm, htoken, rfl⟩)

variable {edge : Edge} {tokens : TokenDecoder}

theorem validateToken_iff (hfaithful : jose.Faithful) (htext : SomeText jose)
    (hedge : edge.decode = decodeSigned jose h.signed now) (applicantId : Uuid) :
    edge.validateToken token = some applicantId ↔ MadeFor jose h now token applicantId := by
  have hdecode := congrFun hedge token
  constructor
  · intro hvalid
    obtain ⟨m, hm, htoken, hlive, haccess⟩ | ⟨m, _, _, hrefresh⟩ | hnone :=
      @decode_cases jose h now token
    · have hsome : token ≠ "" := htoken ▸ htext (accessClaims m)
      rw [validateToken_access hsome (hdecode.trans haccess)] at hvalid
      exact ⟨m, hm, Option.some.inj hvalid, htoken, hlive⟩
    · rw [validateToken_refresh (hdecode.trans hrefresh)] at hvalid
      contradiction
    · rw [validateToken_none (hdecode.trans hnone)] at hvalid
      contradiction
  · intro hmade
    obtain ⟨m, hm, rfl, htoken, hlive⟩ := hmade
    have hsome : token ≠ "" := htoken ▸ htext (accessClaims m)
    exact validateToken_access hsome (hdecode.trans (decode_access hfaithful hm htoken hlive))

/-- The service that asks for an email and the one that does not accept the same texts. -/
theorem decodeAccessToken_eq (htext : SomeText jose)
    (hedge : edge.decode = decodeSigned jose h.signed now)
    (htokens : tokens.decode = decodeSigned jose h.signed now) :
    (decodeAccessToken tokens token).map Prod.fst = edge.validateToken token := by
  have hdecode := congrFun hedge token
  have hdecode' := congrFun htokens token
  obtain ⟨m, _, htoken, _, haccess⟩ | ⟨m, _, _, hrefresh⟩ | hnone :=
    @decode_cases jose h now token
  · have hsome : token ≠ "" := htoken ▸ htext (accessClaims m)
    rw [validateToken_access hsome (hdecode.trans haccess),
      decodeAccessToken_access (hdecode'.trans haccess)]
    rfl
  · rw [validateToken_refresh (hdecode.trans hrefresh),
      decodeAccessToken_refresh (hdecode'.trans hrefresh)]
    rfl
  · rw [validateToken_none (hdecode.trans hnone), decodeAccessToken_none (hdecode'.trans hnone)]
    rfl

theorem accessPayload_ne_refreshPayload (m m' : Mint) : m.accessPayload ≠ m'.refreshPayload := by
  simp [accessPayload_eq, refreshPayload_eq, accessClaims, refreshClaims]

theorem accessToken_ne_refreshToken (hfaithful : jose.Faithful) (m m' : Mint) :
    m.accessToken jose ≠ m'.refreshToken jose := fun heq =>
  accessPayload_ne_refreshPayload m m'
    (hfaithful _ _ (exact_accessPayload m) (exact_refreshPayload m') heq)

theorem validate_bearer : edge.validate (some ("Bearer " ++ token)) = edge.validateToken token := by
  have hlist : ("Bearer " ++ token).toList = "Bearer ".toList ++ token.toList :=
    String.toList_append
  have hstarts : startsWith ("Bearer " ++ token) "Bearer " = true := by
    rw [startsWith, hlist]
    exact List.isPrefixOf_iff_prefix.mpr (List.prefix_append ..)
  have hdrop : String.ofList (("Bearer " ++ token).toList.drop 7) = token := by
    rw [hlist]
    exact String.ofList_toList
  simp only [Edge.validate, if_pos hstarts, hdrop]

theorem returned_made (hinv : LedgerInv jose h) {applicantId : Uuid}
    (hreturned : ReturnedFor h now token applicantId) : MadeFor jose h now token applicantId := by
  obtain ⟨m, hm, hid, hlive, e, response, he, hprogress, htoken⟩ := hreturned
  rw [hinv.response_eq hm he hprogress] at htoken
  exact ⟨m, hm, hid, htoken, hlive⟩

theorem made_returned (hinv : LedgerInv jose h) (hall : AllReturned h) {applicantId : Uuid}
    (hmade : MadeFor jose h now token applicantId) : ReturnedFor h now token applicantId := by
  obtain ⟨m, hm, hid, htoken, hlive⟩ := hmade
  obtain ⟨e, response, he, hprogress⟩ := hall m hm
  refine ⟨m, hm, hid, hlive, e, response, he, hprogress, ?_⟩
  rw [hinv.response_eq hm he hprogress]
  exact htoken

end Agreement

section Runs
variable {jose : Jose} {argon : Argon2} {s : State} {labels : List Label} {h : Ledger}

theorem agreed_of_run (hfaithful : jose.Faithful) (htext : SomeText jose)
    (hquiet : s.Quiet) (hrun : Runs.run (Ledger.step jose argon) ⟨s, []⟩ labels = some h)
    (now : Datetime) {edge : Edge} {tokens : TokenDecoder}
    (hedge : edge.decode = decodeSigned jose h.signed now)
    (htokens : tokens.decode = decodeSigned jose h.signed now) (token : String) :
    Agreed jose h now token edge tokens := by
  have hinv := LedgerInv.of_run hquiet hrun
  have haccepted := @validateToken_iff jose h now token edge hfaithful htext hedge
  exact {
    accepted := haccepted
    bearer := validate_bearer
    cookie := rfl
    service := decodeAccessToken_eq htext hedge htokens
    refresh := by
      intro m hm htoken
      cases hvalid : edge.validateToken token with
      | none => rfl
      | some applicantId =>
          obtain ⟨m', _, _, haccess, _⟩ := (haccepted applicantId).mp hvalid
          exact absurd (haccess.trans htoken.symm) (accessToken_ne_refreshToken hfaithful m' m)
    returned := fun applicantId hreturned =>
      (haccepted applicantId).mpr (returned_made hinv hreturned)
    issued := by
      intro n e response he hprogress htoken
      obtain ⟨m, hm, rfl, _⟩ := hinv.exists_mint he hprogress
      exact ⟨m, hm, rfl, fun hlive => ⟨m, hm, rfl, hlive, e, response, he, hprogress, htoken⟩⟩
    complete := fun hall applicantId =>
      (haccepted applicantId).trans ⟨made_returned hinv hall, returned_made hinv⟩ }

end Runs

section Samples

def verifying (jose : Jose) (signed : List Json) (now : Datetime) : Edge where
  decode := decodeSigned jose signed now
  allowed _ _ _ := true
  send _ := some ⟨200, [], ByteArray.empty⟩
  uuid := ⟨9⟩

theorem sample_someText : SomeText .sample := by
  intro claims hempty
  have hlist : Json.text (.obj claims) = [] := String.ofList_eq_empty_iff.mp hempty
  cases claims with
  | nil => contradiction
  | cons p claims =>
      obtain ⟨k, v⟩ := p
      contradiction

def loginCall : Call := ⟨.login ⟨"a@example.com", "password"⟩, .at 1 2⟩

/-- A login whose connection fails at the insertion of its refresh token. -/
def abandonedLabels : List Label := [.arrive 0 loginCall, .await 0, .awaitFails 0, .await 0]

def loginLabels : List Label := [.arrive 0 loginCall, .await 0, .await 0, .await 0]

def accessTokenSample : String :=
  JWTService.createAccessToken .sample ⟨1⟩ "a@example.com" 1

theorem abandoned_run :
    ∃ h, Runs.run (Ledger.step .sample .sample) ⟨oneToken, []⟩ abandonedLabels = some h ∧
      h.minted = [⟨0, ⟨"a@example.com", "$password", "Ada", "A", ⟨1⟩, 0, 0⟩, .at 1 2⟩] ∧
      (h.state.executions 0).map Execution.progress = some (.raised .connectionError) :=
  ⟨_, rfl, rfl, rfl⟩

/-- The tokens of a login that has failed are as good as those of one that has not. -/
theorem abandoned_accepted :
    oneToken.Quiet ∧
      ∃ h, Runs.run (Ledger.step .sample .sample) ⟨oneToken, []⟩ abandonedLabels = some h ∧
        (verifying .sample h.signed 1).validateToken accessTokenSample = some ⟨1⟩ ∧
        ¬ ReturnedFor h 1 accessTokenSample ⟨1⟩ := by
  obtain ⟨h, hrun, hminted, hraised⟩ := abandoned_run
  refine ⟨oneToken_quiet, h, hrun, ?_, ?_⟩
  · refine (validateToken_iff Jose.sample_faithful sample_someText rfl ⟨1⟩).mpr ?_
    rw [MadeFor, hminted]
    exact ⟨_, List.mem_singleton_self _, rfl, rfl, by decide +kernel⟩
  · intro hreturned
    obtain ⟨m, hm, _, _, e, response, he, hprogress, _⟩ := hreturned
    rw [hminted] at hm
    obtain rfl := List.mem_singleton.mp hm
    rw [he, Option.map_some, hprogress] at hraised
    cases Option.some.inj hraised

theorem agreed_of_run_login :
    ∃ h, Runs.run (Ledger.step .sample .sample) ⟨oneToken, []⟩ loginLabels = some h ∧
      Agreed .sample h 1 accessTokenSample (verifying .sample h.signed 1)
        ⟨decodeSigned .sample h.signed 1, fun _ => ""⟩ := by
  have hsome :
      (Runs.run (Ledger.step .sample .sample) ⟨oneToken, []⟩ loginLabels).isSome = true := by
    decide +kernel
  obtain ⟨h, hrun⟩ := Option.isSome_iff_exists.mp hsome
  exact ⟨h, hrun, agreed_of_run Jose.sample_faithful sample_someText oneToken_quiet hrun 1 rfl rfl
    accessTokenSample⟩

end Samples

end CrediGuard.Gateway
