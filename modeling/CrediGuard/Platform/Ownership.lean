import CrediGuard.Applicants.Profile
import CrediGuard.Gateway.Identity
import CrediGuard.Gateway.PathPolicy
import CrediGuard.Loan.OutboxIds
import CrediGuard.Platform.Authentic

/-!
Who stands behind the loans: the applicant service, the gateway, and the platform
behind it.

The loan service has no table of applicants, and what ties a loan to an account is a
token in a request. Every loan is the loan of one account, was submitted with a token
that the applicant service has returned for this account, and is shown to no one who
has no such token.
-/

namespace CrediGuard.Platform.Ownership
open Applicants (Ledger ApplicantModel AccountInv LedgerInv)
open Gateway (Outgoing ReturnedFor MadeFor decodeSigned proxyEndpoint)
open Loan (LoanApplicationModel)

section Model

structure Environment where
  jose : Applicants.Jose
  argon : Applicants.Argon2
  platform : Platform.Environment
  /-- What FastAPI reads in a request to create a loan: the body and the key. -/
  readCreate : Outgoing → Option (Loan.CreateLoanApplicationRequest × Option String)

/-- A request to the gateway, and what it meets there. -/
structure Client where
  request : Gateway.Request
  names : Gateway.Latin1Names request
  now : Datetime
  allowed : String → Int → Int → Bool
  copyWith : String → Bool
  send : Outgoing → Option Gateway.Upstream
  uuid : Uuid

structure State where
  ledger : Ledger
  platform : Platform.State
  /-- Who has sent the create requests, and who has opened the streams. -/
  submitters : Nat → Option Client
  viewers : Nat → Option Client

inductive Label where
  | applicants (l : Applicants.Label)
  | submit (n : Nat) (c : Client) (path : String) (draws : Loan.Draws)
  | visit (n : Nat) (c : Client) (loanId : String)
  | platform (l : Platform.Label)

/-- The tokens a request presents, in the header or in the cookie. -/
def presented (settings : Gateway.Settings) (req : Gateway.Request) : List String :=
  ((Gateway.lookup req.headers "authorization").filter fun header =>
      Gateway.startsWith header "Bearer ").toList.map
    (fun header => String.ofList (header.toList.drop 7)) ++
    (Gateway.lookup req.cookies settings.accessCookieName).toList

variable (env : Environment)

/-- The gateway has the public key to what the applicant service has signed. -/
def edge (s : State) (c : Client) : Gateway.Edge where
  decode := decodeSigned env.jose s.ledger.signed c.now
  allowed := c.allowed
  copyWith := c.copyWith
  send := c.send
  uuid := c.uuid

def sent (s : State) (c : Client) (path : String) : Option Outgoing :=
  (proxyEndpoint (edge env s c) env.platform.settings path c.request).sent

/-- The identity a service behind the gateway reads in what the gateway sends. -/
def upstreamIdentity (outgoing : Outgoing) : Option String :=
  headerParam (Gateway.readHeaders outgoing.headers) "X-User-ID"

/-- The create request the loan service takes from what the gateway sends. -/
def createCall (outgoing : Outgoing) (draws : Loan.Draws) : Option Loan.CreateCall :=
  match env.readCreate outgoing,
      Loan.getCurrentApplicantId (upstreamIdentity outgoing) with
  | some (request, key), .ok applicantId => some ⟨applicantId, request, key, draws⟩
  | _, _ => none

/-- A step of the platform that no request from outside starts. -/
def isInner : Platform.Label → Bool
  | .loan (.arrive _ _) => false
  | .visit _ _ _ _ => false
  | _ => true

def step (s : State) : Label → Option State
  | .applicants l => (Ledger.step env.jose env.argon s.ledger l).map fun ledger =>
      { s with ledger := ledger }
  | .submit n c path draws =>
      ((sent env s c path).bind fun outgoing => createCall env outgoing draws).bind fun call =>
        (Platform.step env.platform s.platform (.loan (.arrive n call))).map fun platform =>
          { s with platform := platform, submitters := Function.update s.submitters n (some c) }
  | .visit n c loanId =>
      (Platform.step env.platform s.platform (.visit n loanId c.request (edge env s c))).map
        fun platform =>
          { s with platform := platform, viewers := Function.update s.viewers n (some c) }
  | .platform l =>
      if isInner l then
        (Platform.step env.platform s.platform l).map fun platform =>
          { s with platform := platform }
      else none

def State.init : State := ⟨⟨.init, []⟩, .init, fun _ => none, fun _ => none⟩

/-- Of the tokens that were made, the client presents those that were returned. -/
def Known (s : State) (c : Client) : Prop :=
  ∀ token ∈ presented env.platform.settings c.request, ∀ applicantId,
    MadeFor env.jose s.ledger c.now token applicantId →
      ReturnedFor s.ledger c.now token applicantId

def PresentsKnown (s : State) : Label → Prop
  | .submit _ c _ _ => Known env s c
  | .visit _ c _ => Known env s c
  | _ => True

/-- The client presents a live token that was returned for the applicant. -/
def ActsFor (s : State) (c : Client) (applicantId : Uuid) : Prop :=
  ∃ token ∈ presented env.platform.settings c.request,
    ReturnedFor s.ledger c.now token applicantId

def HasAccount (s : State) (applicantId : Uuid) : Prop :=
  ∃! account, account ∈ s.ledger.state.world.applicants.committed ∧ account.id = applicantId

structure Owned (s : State) : Prop where
  loans : ∀ m ∈ s.platform.loan.world.loans.committed, HasAccount s m.applicantId ∧
    ∃ n r c, s.platform.loan.requests n = some r ∧ Loan.RowOf m r.call ∧
      s.submitters n = some c ∧ ActsFor env s c m.applicantId
  announcements : ∀ p ∈ s.platform.loan.kafka, p.record.topic = loanStatusChangedV1 →
    ∃ e, p.record.value.payload = .loanStatusChanged e ∧ HasAccount s e.applicantId
  streams : ∀ n t loan draws, s.platform.streams n = some t → t.fetched = some (loan, draws) →
    ∃ m ∈ s.platform.loan.world.loans.committed,
      env.platform.service.readId t.args.loanId = some m.id ∧
      ∃ c, s.viewers n = some c ∧ ActsFor env s c m.applicantId
  shown : ∀ c path outgoing applicantId loanId correlationId loan, Known env s c →
    sent env s c path = some outgoing →
    upstreamIdentity outgoing = some applicantId →
    fetchLoan env.platform s.platform.loan loanId applicantId correlationId = some loan →
    ∃ m ∈ s.platform.loan.world.loans.committed,
      env.platform.service.readId loanId = some m.id ∧ ActsFor env s c m.applicantId

end Model

section Callers
variable {edge : Gateway.Edge} {settings : Gateway.Settings} {path : String}
  {req : Gateway.Request}

theorem presented_of_bearer {header : String}
    (hheader : Gateway.lookup req.headers "authorization" = some header)
    (hbearer : Gateway.startsWith header "Bearer " = true) :
    String.ofList (header.toList.drop 7) ∈ presented settings req := by
  rw [presented, hheader, Option.filter_some, if_pos hbearer]
  exact List.mem_append_left _ (List.mem_singleton_self _)

theorem presented_of_cookie {token : String}
    (hcookie : Gateway.lookup req.cookies settings.accessCookieName = some token) :
    token ∈ presented settings req := by
  rw [presented, hcookie]
  exact List.mem_append_right _ (List.mem_singleton_self _)

/-- A token of the request that the gateway accepts for the applicant. -/
def Accepted (edge : Gateway.Edge) (settings : Gateway.Settings) (req : Gateway.Request)
    (applicantId : Uuid) : Prop :=
  ∃ token ∈ presented settings req, edge.validateToken token = some applicantId

theorem accepted_of_header {applicantId : Uuid}
    (h : edge.validate (Gateway.lookup req.headers "authorization") = some applicantId) :
    Accepted edge settings req applicantId := by
  cases hheader : Gateway.lookup req.headers "authorization" with
  | none =>
      rw [hheader] at h
      contradiction
  | some header =>
      rw [hheader, Gateway.Edge.validate] at h
      split at h
      · rename_i hbearer
        exact ⟨_, presented_of_bearer hheader hbearer, h⟩
      · contradiction

theorem accepted_of_cookie {applicantId : Uuid}
    (h : edge.validateCookie (Gateway.lookup req.cookies settings.accessCookieName) =
      some applicantId) : Accepted edge settings req applicantId := by
  cases hcookie : Gateway.lookup req.cookies settings.accessCookieName with
  | none =>
      rw [hcookie] at h
      contradiction
  | some token =>
      rw [hcookie] at h
      exact ⟨token, presented_of_cookie hcookie, h⟩

theorem accepted_of_authenticate {route : Gateway.Route} {text : String}
    (h : Gateway.authenticate edge settings route req = .ok (some text)) :
    ∃ applicantId : Uuid, text = applicantId.str ∧ Accepted edge settings req applicantId := by
  rw [Gateway.authenticate] at h
  split at h
  · split at h
    · rename_i uid hheader
      obtain rfl := Option.some.inj (Except.ok.inj h)
      exact ⟨uid, rfl, accepted_of_header hheader⟩
    · split at h
      · rename_i uid hcookie
        obtain rfl := Option.some.inj (Except.ok.inj h)
        exact ⟨uid, rfl, accepted_of_cookie hcookie⟩
      · contradiction
  · exact absurd (Except.ok.inj h) (by simp)

theorem accepted_of_stream {applicantId : String}
    (h : Gateway.streamApplicant edge settings req = some applicantId) :
    ∃ uid : Uuid, applicantId = uid.str ∧ Accepted edge settings req uid := by
  rw [Gateway.streamApplicant] at h
  split at h
  · rename_i uid hcookie
    exact ⟨uid, (Option.some.inj h).symm, accepted_of_cookie hcookie⟩
  · obtain ⟨uid, hheader, huid⟩ := Option.map_eq_some_iff.mp h
    exact ⟨uid, huid.symm, accepted_of_header hheader⟩

/-- Without a caller, upstream sees no identity. -/
theorem headerParam_anonymous {clientHeaders : List (String × String)}
    (hnames : ∀ p ∈ clientHeaders, Latin1.IsText p.1) (correlationId : String) :
    headerParam (Gateway.readHeaders (Gateway.rewriteHeaders clientHeaders none correlationId))
      "X-User-ID" = none := by
  have huser : "X-User-ID".toLower = "x-user-id" := by decide +kernel
  have hcorrelation : "X-Correlation-ID".toLower ≠ "x-user-id" := by decide +kernel
  have hascii : Latin1.IsAscii "X-Correlation-ID" := Latin1.isAscii_of_all (by decide +kernel)
  simp only [Gateway.rewriteHeaders, Gateway.identityHeaders, List.append_nil, Gateway.readHeaders,
    List.map_append]
  rw [Gateway.headerParam_append_of_ne (huser ▸ Gateway.kept_ne_stripped hnames (by decide)),
    List.map_singleton, Latin1.decode_toUTF8 hascii]
  simp [headerParam, huser, hcorrelation]

/-- The identity upstream is that of an accepted token. -/
theorem accepted_of_sent {outgoing : Outgoing} {text : String} (hnames : Gateway.Latin1Names req)
    (hsent : (proxyEndpoint edge settings path req).sent = some outgoing)
    (htext : upstreamIdentity outgoing = some text) :
    ∃ applicantId : Uuid, text = applicantId.str ∧ Accepted edge settings req applicantId := by
  have hforwarded := (Gateway.forwarded_of_sent hsent).1
  obtain ⟨route, _, _, _, applicantId, _, hpolicy, _, hauth, _⟩ :=
    Gateway.proxyEndpoint_forwarded hforwarded
  obtain ⟨clientHeaders, hclient, hheaders⟩ :=
    Gateway.forwarded_headers hnames (Gateway.policy_forward hpolicy).1 hauth hforwarded
  rw [upstreamIdentity, hheaders] at htext
  cases applicantId with
  | none =>
      rw [headerParam_anonymous hclient] at htext
      contradiction
  | some applicantId =>
      obtain ⟨uid, rfl, haccepted⟩ := accepted_of_authenticate hauth
      rw [(Gateway.headerParam_rewriteHeaders hclient _ (Gateway.isAscii_str uid)).1] at htext
      exact ⟨uid, (Option.some.inj htext).symm, haccepted⟩

end Callers

section Parts
variable {env : Platform.Environment} {s s' : Platform.State}

/-- A step changes no call, and only an arrival brings one. -/
theorem loan_calls {v : Pydantic} {s s' : Loan.State} {l : Loan.Label}
    (hstep : Loan.step v s l = some s') {n : Nat} {r' : Loan.Request}
    (hr' : s'.requests n = some r') :
    (∃ r, s.requests n = some r ∧ r'.call = r.call) ∨ ∃ c, l = .arrive n c ∧ r'.call = c := by
  cases l with
  | arrive k c =>
      simp only [Loan.step, Loan.arriveStep] at hstep
      split at hstep
      · obtain rfl := Option.some.inj hstep
        simp only [Loan.State.setRequest, Function.update_apply] at hr'
        split at hr'
        · rename_i hk
          obtain rfl := Option.some.inj hr'
          exact .inr ⟨c, by rw [hk], rfl⟩
        · exact .inl ⟨r', hr', rfl⟩
      · contradiction
  | request k =>
      obtain ⟨r, hr, hcase⟩ := Loan.requestStep_cases hstep
      exact .inl ((hcase.calls hr).1 r' hr')
  | requestFails k =>
      obtain ⟨r, hr, hcase⟩ := Loan.requestFailStep_cases hstep
      exact .inl ((hcase.calls hr).1 r' hr')
  | expire key =>
      obtain rfl := Option.some.inj hstep
      exact .inl ⟨r', hr', rfl⟩
  | worker k l =>
      have hrequests := (Loan.workerStep_cases hstep).frame.2.2
      exact .inl ⟨r', by rw [← hrequests]; exact hr', rfl⟩

theorem platform_calls {l : Platform.Label} (hstep : Platform.step env s l = some s') {n : Nat}
    {r' : Loan.Request} (hr' : s'.loan.requests n = some r') :
    (∃ r, s.loan.requests n = some r ∧ r'.call = r.call) ∨
      ∃ c, l = .loan (.arrive n c) ∧ r'.call = c := by
  cases step_cases hstep with
  | loan k loan hloan hsent =>
      refine (loan_calls hloan hr').imp_right ?_
      rintro ⟨c, rfl, hcall⟩
      exact ⟨c, rfl, hcall⟩
  | sends k loan p hloan hkafka htopic =>
      refine (loan_calls hloan hr').imp_right ?_
      rintro ⟨c, rfl, hcall⟩
      exact ⟨c, rfl, hcall⟩
  | foreign partition value => exact .inl ⟨r', hr', rfl⟩
  | bridge l b hbridge hl => exact .inl ⟨r', hr', rfl⟩
  | publishes p b hp hbridge => exact .inl ⟨r', hr', rfl⟩
  | unanswered p b hp hbridge => exact .inl ⟨r', hr', rfl⟩
  | stream l k t hmove => exact .inl ⟨r', hr', rfl⟩

/-- A stream keeps its arguments, and only a visit opens one. -/
theorem platform_streams {l : Platform.Label} (hstep : Platform.step env s l = some s') {n : Nat}
    {t' : Stream} (ht' : s'.streams n = some t') :
    (∃ t, s.streams n = some t ∧ t'.args = t.args) ∨
      ∃ loanId req edge, l = .visit n loanId req edge ∧
        Gateway.streamApplicant edge env.settings req = some t'.args.applicantId := by
  have hheard {p : Notification.Publication} {streams : Nat → Option Stream}
      (h : (streams n).map (Stream.hear p) = some t') :
      ∃ t, streams n = some t ∧ t'.args = t.args := by
    obtain ⟨t, ht, rfl⟩ := Option.map_eq_some_iff.mp h
    refine ⟨t, ht, ?_⟩
    rw [Stream.hear]
    split <;> rfl
  cases step_cases hstep with
  | loan k loan hloan hsent => exact .inl ⟨t', ht', rfl⟩
  | sends k loan p hloan hkafka htopic => exact .inl ⟨t', ht', rfl⟩
  | foreign partition value => exact .inl ⟨t', ht', rfl⟩
  | bridge l b hbridge hl => exact .inl ⟨t', ht', rfl⟩
  | publishes p b hp hbridge => exact .inl (hheard ht')
  | unanswered p b hp hbridge => exact .inl (hheard ht')
  | stream l k u hmove =>
      simp only [State.setStream, Function.update_apply] at ht'
      split at ht'
      · rename_i hk
        rw [ht', ← hk] at hmove
        generalize hbefore : s.streams n = before at hmove
        cases hmove with
        | opens loanId req edge args hl hargs =>
            rw [hk] at hl ⊢
            exact .inr ⟨loanId, req, edge, hl, (loanEvents_eq_ok hargs).2⟩
        | fetches t loan uuid now hloan => exact .inl ⟨t, rfl, rfl⟩
        | subscribes t hfetched hsince => exact .inl ⟨t, rfl, rfl⟩
        | takes t data rest uuid now hinbox hlive => exact .inl ⟨t, rfl, rfl⟩
        | waits t hsince hlive => exact .inl ⟨t, rfl, rfl⟩
        | fails t hwaits => exact .inl ⟨t, rfl, rfl⟩
      · exact .inl ⟨t', ht', rfl⟩

theorem arrive_free {n : Nat} {call : Loan.CreateCall}
    (hstep : Platform.step env s (.loan (.arrive n call)) = some s') :
    s.loan.requests n = none := by
  obtain ⟨loan, hloan, _⟩ := Option.map_eq_some_iff.mp hstep
  simp only [Loan.step, Loan.arriveStep] at hloan
  split at hloan
  · rename_i hfree
    rw [Bool.and_eq_true, Option.isNone_iff_eq_none] at hfree
    exact hfree.1
  · contradiction

theorem visit_free {n : Nat} {loanId : String} {req : Gateway.Request} {edge : Gateway.Edge}
    (hstep : Platform.step env s (.visit n loanId req edge) = some s') : s.streams n = none := by
  simp only [Platform.step, openStep] at hstep
  split at hstep
  · assumption
  · contradiction

end Parts

section Invariant
variable (env : Environment)

structure Environment.Conforms : Prop where
  jose : env.jose.Faithful
  someText : Gateway.SomeText env.jose
  argon : env.argon.Exact
  pydantic : env.platform.pydantic.ReadsBack

structure Inv (s : State) : Prop where
  accounts : AccountInv env.jose env.argon s.ledger.state
  ledger : LedgerInv env.jose s.ledger
  platform : Platform.Inv env.platform s.platform
  submitters : ∀ n r, s.platform.loan.requests n = some r →
    ∃ c, s.submitters n = some c ∧ ActsFor env s c r.call.applicantId
  viewers : ∀ n t, s.platform.streams n = some t →
    ∃ c uid, s.viewers n = some c ∧ t.args.applicantId = Uuid.str uid ∧ ActsFor env s c uid

variable {env} {s s' : State} {c : Client} {applicantId : Uuid}

/-- The gateway accepts what was returned, where clients know nothing else. -/
theorem actsFor_of_accepted (hconf : env.Conforms) (hknown : Known env s c)
    (h : Accepted (edge env s c) env.platform.settings c.request applicantId) :
    ActsFor env s c applicantId := by
  obtain ⟨token, htoken, hvalid⟩ := h
  have hmade := (Gateway.validateToken_iff hconf.jose hconf.someText rfl applicantId).mp hvalid
  exact ⟨token, htoken, hknown token htoken applicantId hmade⟩

theorem ActsFor.ledger {ledger : Ledger} {l : Applicants.Label}
    (hstep : Ledger.step env.jose env.argon s.ledger l = some ledger)
    (h : ActsFor env s c applicantId) : ActsFor env { s with ledger := ledger } c applicantId := by
  obtain ⟨token, htoken, m, hm, hid, hlive, e, response, he, hreturned, haccess⟩ := h
  obtain ⟨state, hstate, rfl⟩ := Option.map_eq_some_iff.mp hstep
  refine ⟨token, htoken, m, List.mem_append_left _ hm, hid, hlive, e, response, ?_, hreturned,
    haccess⟩
  exact Applicants.returned_step hstate _ e response he hreturned

theorem Inv.hasAccount (hconf : env.Conforms) (h : Inv env s)
    (hacts : ActsFor env s c applicantId) : HasAccount s applicantId := by
  obtain ⟨token, _, m, hm, rfl, _, e, response, he, hreturned, _⟩ := hacts
  obtain ⟨account, haccount, hid⟩ :=
    h.accounts.account_of_mint h.ledger hconf.jose hm he hreturned
  refine ⟨account, ⟨haccount, hid⟩, ?_⟩
  rintro other ⟨hother, hid'⟩
  have hmem : other ∈ s.ledger.state.world.applicants.committed.filter
      (fun x => x.id = account.id) :=
    List.mem_filter.mpr ⟨hother, decide_eq_true (hid'.trans hid.symm)⟩
  rw [h.accounts.filter_id haccount] at hmem
  exact List.mem_singleton.mp hmem

theorem Inv.applicants (hconf : env.Conforms) (h : Inv env s) {ledger : Ledger}
    {l : Applicants.Label} (hstep : Ledger.step env.jose env.argon s.ledger l = some ledger) :
    Inv env { s with ledger := ledger } := by
  refine ⟨?_, h.ledger.step hstep, h.platform, ?_, ?_⟩
  · obtain ⟨state, hstate, rfl⟩ := Option.map_eq_some_iff.mp hstep
    exact (h.accounts.step hconf.argon hstate).1
  · intro n r hr
    obtain ⟨c, hc, hacts⟩ := h.submitters n r hr
    exact ⟨c, hc, hacts.ledger hstep⟩
  · intro n t ht
    obtain ⟨c, uid, hc, huid, hacts⟩ := h.viewers n t ht
    exact ⟨c, uid, hc, huid, hacts.ledger hstep⟩

/-- A step of the platform, where whoever sends a request or opens a stream is entered. -/
theorem Inv.enters (hconf : env.Conforms) (h : Inv env s) {platform : Platform.State}
    {l : Platform.Label} (hstep : Platform.step env.platform s.platform l = some platform)
    {submitters viewers : Nat → Option Client}
    (hsubmitters : ∀ n, (∀ call, l ≠ .loan (.arrive n call)) → submitters n = s.submitters n)
    (hviewers : ∀ n, (∀ loanId req edge, l ≠ .visit n loanId req edge) →
      viewers n = s.viewers n)
    (hsubmits : ∀ n call, l = .loan (.arrive n call) →
      ∃ c, submitters n = some c ∧ ActsFor env s c call.applicantId)
    (hvisits : ∀ n loanId req edge text, l = .visit n loanId req edge →
      Gateway.streamApplicant edge env.platform.settings req = some text →
      ∃ c uid, viewers n = some c ∧ text = Uuid.str uid ∧ ActsFor env s c uid) :
    Inv env ⟨s.ledger, platform, submitters, viewers⟩ := by
  refine ⟨h.accounts, h.ledger, h.platform.step hconf.pydantic hstep, ?_, ?_⟩
  · intro n r' hr'
    cases platform_calls hstep hr' with
    | inr harrives =>
        obtain ⟨call, hl, rfl⟩ := harrives
        exact hsubmits n _ hl
    | inl hold =>
        obtain ⟨r, hr, hcall⟩ := hold
        obtain ⟨c, hc, hacts⟩ := h.submitters n r hr
        refine ⟨c, (hsubmitters n ?_).trans hc, hcall ▸ hacts⟩
        rintro call rfl
        rw [arrive_free hstep] at hr
        contradiction
  · intro n t' ht'
    cases platform_streams hstep ht' with
    | inr hopens =>
        obtain ⟨loanId, req, edge, hl, htext⟩ := hopens
        exact hvisits n loanId req edge _ hl htext
    | inl hold =>
        obtain ⟨t, ht, hargs⟩ := hold
        obtain ⟨c, uid, hc, huid, hacts⟩ := h.viewers n t ht
        refine ⟨c, uid, (hviewers n ?_).trans hc, hargs ▸ huid, hacts⟩
        rintro loanId req edge rfl
        rw [visit_free hstep] at ht
        contradiction

theorem accepted_of_createCall {path : String} {outgoing : Outgoing} {draws : Loan.Draws}
    {call : Loan.CreateCall} (hsent : sent env s c path = some outgoing)
    (hcall : createCall env outgoing draws = some call) :
    Accepted (edge env s c) env.platform.settings c.request call.applicantId := by
  rw [createCall] at hcall
  split at hcall
  · rename_i request key applicantId _ hcaller
    obtain rfl := Option.some.inj hcall
    cases htext : upstreamIdentity outgoing with
    | none =>
        rw [htext] at hcaller
        contradiction
    | some text =>
        obtain ⟨uid, rfl, haccepted⟩ := accepted_of_sent c.names hsent htext
        rw [htext, Loan.getCurrentApplicantId_str] at hcaller
        rwa [← Except.ok.inj hcaller]
  · contradiction

theorem Inv.step (hconf : env.Conforms) (h : Inv env s) {l : Label}
    (hknown : PresentsKnown env s l) (hstep : step env s l = some s') : Inv env s' := by
  cases l with
  | applicants l =>
      obtain ⟨ledger, hledger, rfl⟩ := Option.map_eq_some_iff.mp hstep
      exact h.applicants hconf hledger
  | submit n c path draws =>
      obtain ⟨call, hcall, hrest⟩ := Option.bind_eq_some_iff.mp hstep
      obtain ⟨outgoing, hsent, hcall⟩ := Option.bind_eq_some_iff.mp hcall
      obtain ⟨platform, hplatform, rfl⟩ := Option.map_eq_some_iff.mp hrest
      refine h.enters hconf hplatform ?_ (fun _ _ => rfl) ?_ ?_
      · intro k hk
        exact Function.update_of_ne (fun hkn => hk call (by rw [hkn])) ..
      · intro k call' hl
        obtain ⟨rfl, rfl⟩ := Loan.Label.arrive.inj (Platform.Label.loan.inj hl)
        exact ⟨c, Function.update_self ..,
          actsFor_of_accepted hconf hknown (accepted_of_createCall hsent hcall)⟩
      · intro k loanId req edge text hl
        contradiction
  | visit n c loanId =>
      obtain ⟨platform, hplatform, rfl⟩ := Option.map_eq_some_iff.mp hstep
      refine h.enters hconf hplatform (fun _ _ => rfl) ?_ ?_ ?_
      · intro k hk
        exact Function.update_of_ne (fun hkn => hk loanId c.request (edge env s c) (by rw [hkn])) ..
      · intro k call hl
        contradiction
      · intro k loanId' req edge' text hl htext
        obtain ⟨rfl, rfl, rfl, rfl⟩ := Platform.Label.visit.inj hl
        obtain ⟨uid, rfl, haccepted⟩ := accepted_of_stream htext
        exact ⟨c, uid, Function.update_self .., rfl, actsFor_of_accepted hconf hknown haccepted⟩
  | platform l =>
      simp only [Ownership.step] at hstep
      split at hstep
      · rename_i hinner
        obtain ⟨platform, hplatform, rfl⟩ := Option.map_eq_some_iff.mp hstep
        refine h.enters hconf hplatform (fun _ _ => rfl) (fun _ _ => rfl) ?_ ?_
        · rintro k call rfl
          contradiction
        · rintro k loanId req edge text rfl
          contradiction
      · contradiction

theorem Inv.init : Inv env .init :=
  ⟨.init, .init ⟨rfl, rfl, rfl, fun _ => rfl⟩, .init, fun _ _ hr => absurd hr nofun,
    fun _ _ ht => absurd ht nofun⟩

theorem Inv.owned (hconf : env.Conforms) (h : Inv env s) : Owned env s := by
  have hloan {m : LoanApplicationModel} (hm : m ∈ s.platform.loan.world.loans.committed) :
      ∃ n r c, s.platform.loan.requests n = some r ∧ Loan.RowOf m r.call ∧
        s.submitters n = some c ∧ ActsFor env s c m.applicantId := by
    obtain ⟨n, r, hr, hrow⟩ := h.platform.loan.partition.session.rows m hm
    obtain ⟨c, hc, hacts⟩ := h.submitters n r hr
    exact ⟨n, r, c, hr, hrow, hc, hrow.applicantId ▸ hacts⟩
  refine ⟨?_, ?_, ?_, ?_⟩
  · intro m hm
    obtain ⟨n, r, c, hr, hrow, hc, hacts⟩ := hloan hm
    exact ⟨h.hasAccount hconf hacts, n, r, c, hr, hrow, hc, hacts⟩
  · intro p hp htopic
    obtain ⟨m, hrecord⟩ := h.platform.loan.records p hp htopic
    obtain ⟨_, _, _, _, _, _, hacts⟩ := hloan hrecord.loan
    exact ⟨_, hrecord.payload, h.hasAccount hconf hacts⟩
  · intro n t loan draws ht hfetched
    obtain ⟨m, hm, hread, happlicant, _⟩ := (h.platform.streams n t ht).fetched loan draws hfetched
    obtain ⟨c, uid, hc, huid, hacts⟩ := h.viewers n t ht
    rw [huid] at happlicant
    exact ⟨m, hm, hread, c, hc, Uuid.str_injective happlicant ▸ hacts⟩
  · intro c path outgoing text loanId correlationId loan hknown hsent htext hfetch
    obtain ⟨uid, rfl, haccepted⟩ := accepted_of_sent c.names hsent htext
    obtain ⟨m, hm, hread, rfl, _⟩ := fetchLoan_eq_some hfetch
    exact ⟨m, hm, hread, actsFor_of_accepted hconf hknown haccepted⟩

/-- Whatever the services do and fail at, as long as clients present no token that was
not returned. -/
theorem owned_of_run (hconf : env.Conforms) {labels : List Label}
    (hknown : Runs.EachStep (step env) (PresentsKnown env) .init labels)
    (hrun : Runs.run (step env) .init labels = some s) : Owned env s :=
  (Runs.invariant_of_eachStep (fun _ _ _ h hknown hstep => Inv.step hconf h hknown hstep) .init
    hknown hrun : Inv env s).owned hconf

/-- While everything that was made has been returned, clients know what they present. -/
theorem known_of_allReturned (hledger : LedgerInv env.jose s.ledger)
    (hall : Gateway.AllReturned s.ledger) : Known env s c :=
  fun _ _ _ hmade => Gateway.made_returned hledger hall hmade

theorem ledger_of_step {l : Label} (hl : ∀ k, l ≠ .applicants k)
    (hstep : step env s l = some s') : s'.ledger = s.ledger := by
  cases l with
  | applicants k => exact absurd rfl (hl k)
  | submit n c path draws =>
      obtain ⟨_, _, hrest⟩ := Option.bind_eq_some_iff.mp hstep
      obtain ⟨_, _, rfl⟩ := Option.map_eq_some_iff.mp hrest
      rfl
  | visit n c loanId =>
      obtain ⟨_, _, rfl⟩ := Option.map_eq_some_iff.mp hstep
      rfl
  | platform l =>
      simp only [Ownership.step] at hstep
      split at hstep
      · obtain ⟨_, _, rfl⟩ := Option.map_eq_some_iff.mp hstep
        rfl
      · contradiction

theorem known_after (hledger : LedgerInv env.jose s.ledger)
    (hall : Gateway.AllReturned s.ledger) {labels : List Label}
    (hquiet : ∀ l ∈ labels, ∀ k, l ≠ .applicants k) :
    Runs.EachStep (step env) (PresentsKnown env) s labels := by
  induction labels generalizing s with
  | nil => trivial
  | cons l labels ih =>
      intro s' hstep
      refine ⟨?_, ?_⟩
      · cases l with
        | submit n c path draws => exact known_of_allReturned hledger hall
        | visit n c loanId => exact known_of_allReturned hledger hall
        | applicants l => trivial
        | platform l => trivial
      · have hsame := ledger_of_step (hquiet l (List.mem_cons_self ..)) hstep
        rw [← hsame] at hledger hall
        exact ih hledger hall fun k hk => hquiet k (List.mem_cons_of_mem _ hk)

end Invariant

section Sample

def Environment.sample : Environment where
  jose := .sample
  argon := .sample
  platform := .sample
  readCreate _ := some ((Loan.CreateCall.sample ⟨1⟩ none 1).request, none)

def bearer : List (String × String) :=
  [("authorization", "Bearer " ++
    Applicants.JWTService.createAccessToken .sample ⟨1⟩ "ada@example.com" 0)]

/-- Ada, with the token her registration has returned. -/
def adaClient : Client where
  request := ⟨"POST", bearer, [], some "10.0.0.1", ByteArray.empty, ByteArray.empty⟩
  names := by
    intro p hp
    rw [List.mem_singleton.mp hp]
    exact Latin1.isText_of_all (by decide +kernel)
  now := 1
  allowed _ _ _ := true
  copyWith _ := true
  send _ := some ⟨200, [], ByteArray.empty⟩
  uuid := ⟨9⟩

def registers : List Label :=
  (.arrive 0 ⟨.register Applicants.ada ⟨0, ⟨1⟩, 0, 0⟩, .at 0 1⟩ ::
    List.replicate 4 (.await 0)).map .applicants

def submits : List Label :=
  [.submit 0 adaClient "api/v1/loans" (Loan.CreateCall.sample ⟨1⟩ none 1).draws] ++
    List.replicate 5 (.platform (.loan (.request 0))) ++
    [.visit 0 adaClient (Uuid.str ⟨1⟩), .platform (.fetch 0 ⟨31⟩ 0)]

theorem owned_submission : ∃ s,
    Runs.run (step .sample) .init (registers ++ submits) = some s ∧
      s.platform.loan.world.loans.committed.length = 1 ∧ Owned .sample s := by
  have hconf : Environment.sample.Conforms :=
    ⟨Applicants.Jose.sample_faithful, Gateway.sample_someText, Applicants.Argon2.sample_exact,
      readsBack_noon⟩
  have heval : ((Runs.run (step .sample) .init (registers ++ submits)).map fun s =>
      s.platform.loan.world.loans.committed.length) = some 1 := by decide +kernel
  obtain ⟨s, hrun, hone⟩ := Option.map_eq_some_iff.mp heval
  have hregisters : Runs.EachStep (step .sample) (PresentsKnown .sample) .init registers :=
    fun _ _ => ⟨trivial, fun _ _ => ⟨trivial, fun _ _ => ⟨trivial, fun _ _ => ⟨trivial,
      fun _ _ => ⟨trivial, trivial⟩⟩⟩⟩⟩
  have hreturns : ((Runs.run (step .sample) .init registers).map fun s =>
      s.ledger.minted.all fun m => ((s.ledger.state.executions m.execution).bind fun e =>
        Applicants.Progress.response? e.progress).isSome) = some true := by decide +kernel
  refine ⟨s, hrun, hone, owned_of_run hconf (Runs.eachStep_append hregisters ?_) hrun⟩
  intro t ht
  have hinv : Inv .sample t := Runs.invariant_of_eachStep
    (fun _ _ _ h hknown hstep => Inv.step hconf h hknown hstep) .init hregisters ht
  rw [ht] at hreturns
  have hall : Gateway.AllReturned t.ledger := by
    intro m hm
    have hsome := List.all_eq_true.mp (Option.some.inj hreturns) m hm
    obtain ⟨response, hresponse⟩ := Option.isSome_iff_exists.mp hsome
    obtain ⟨e, he, hresponse⟩ := Option.bind_eq_some_iff.mp hresponse
    obtain ⟨a, ha⟩ := Applicants.Progress.returned_of_isSome (Option.isSome_of_mem hresponse)
    exact ⟨e, a, he, ha⟩
  refine known_after hinv.ledger hall ?_
  simp [submits]

end Sample

end CrediGuard.Platform.Ownership
