import CrediGuard.Lib.DecimalRounding
import CrediGuard.Lib.DecimalText
import CrediGuard.Loan.GetLoan
import CrediGuard.Loan.OutboxLinks

/-!
The amounts of a loan in the places they are copied to.

The response and the event carry the amounts of the request, the row carries what
the columns round them to, and what is read later, for a replay or by its owner,
is the row. So they agree just for amounts in whole cents.
-/

namespace CrediGuard.Loan
open ReadCommitted

section Origins

/-- A row comes from a call that has returned its own loan, with its event beside it. -/
structure Origin (s : State) (m : LoanApplicationModel) (c : CreateCall) : Prop where
  model : LoanRepository.toModel c.loan = some m
  returned : ∃ n r, s.requests n = some r ∧ r.call = c ∧
    r.progress = .returned (.modelValidate c.loan)
  event : ∃ row ∈ s.world.outbox.committed,
    OnlySent (OutboxRepository.toModel (outboxEvent c.loan c.draws)) row

/-- The response is the loan of the call, or what a stored row is read as. -/
def Shows (s : State) (c : CreateCall) (a : LoanApplicationResponse) : Prop :=
  a = .modelValidate c.loan ∨ ∃ m ∈ s.world.loans.committed, ∃ loan,
    LoanRepository.toEntity m = .ok loan ∧ a = .modelValidate loan

structure OriginInv (s : State) : Prop where
  rows : ∀ m ∈ s.world.loans.committed, ∃ c, Origin s m c
  answers : ∀ n r a, s.requests n = some r →
    r.progress = .committing a ∨ r.progress = .returned a → Shows s r.call a

/-- Answers, rows and events stay. -/
structure Keeps (s s' : State) : Prop where
  returned : ∀ n r a, s.requests n = some r → r.progress = .returned a → s'.requests n = some r
  loans : ∀ m ∈ s.world.loans.committed, m ∈ s'.world.loans.committed
  outbox : ∀ row ∈ s.world.outbox.committed, ∃ row' ∈ s'.world.outbox.committed, OnlySent row row'

section Step
variable {v : Pydantic} {s s' : State} {n : Nat} {r : Request} {fails : Bool}

theorem Origin.mono {m : LoanApplicationModel} {c : CreateCall} (h : Origin s m c)
    (hkeeps : Keeps s s') : Origin s' m c := by
  obtain ⟨n, r, hr, hcall, hp⟩ := h.returned
  obtain ⟨row, hrow, hsent⟩ := h.event
  obtain ⟨row', hrow', hsent'⟩ := hkeeps.outbox row hrow
  exact ⟨h.model, ⟨n, r, hkeeps.returned n r _ hr hp, hcall, hp⟩, row', hrow', hsent.trans hsent'⟩

theorem Shows.mono {c : CreateCall} {a : LoanApplicationResponse} (h : Shows s c a)
    (hkeeps : Keeps s s') : Shows s' c a := by
  cases h with
  | inl hown => exact .inl hown
  | inr hrow =>
      obtain ⟨m, hm, hloan⟩ := hrow
      exact .inr ⟨m, hkeeps.loans m hm, hloan⟩

theorem CommittedChange.keeps (h : CommittedChange s s')
    (hreturned : ∀ n r a, s.requests n = some r → r.progress = .returned a →
      s'.requests n = some r) : Keeps s s' := by
  cases h with
  | none hloans houtbox =>
      refine ⟨hreturned, ?_, ?_⟩
      · rw [hloans]
        exact fun _ h => h
      · rw [houtbox]
        exact fun row hrow => ⟨row, hrow, .refl row⟩
  | stores c m hm hloans houtbox =>
      refine ⟨hreturned, ?_, ?_⟩
      · rw [hloans]
        exact fun _ h => List.mem_append_left _ h
      · rw [houtbox]
        exact fun row hrow => ⟨row, List.mem_append_left _ hrow, .refl row⟩
  | marks f hf hloans houtbox =>
      refine ⟨hreturned, ?_, ?_⟩
      · rw [hloans]
        exact fun _ h => h
      · rw [houtbox]
        exact fun row hrow => ⟨f row, List.mem_map_of_mem hrow, hf row⟩

theorem setRequest_of_ne {k : Nat} (hk : k ≠ n) : (s.setRequest n r).requests k = s.requests k :=
  Function.update_of_ne hk ..

theorem eq_of_setRequest {r' : Request} (h : (s.setRequest n r).requests n = some r') :
    r = r' := by
  simpa only [State.setRequest, Function.update_self, Option.some.injEq] using h

/-- A request that moves has not returned, and no other request changes. -/
theorem RequestStep.requests (h : RequestStep s n r fails s') :
    (∀ a, r.progress ≠ .returned a) ∧ ∀ k, k ≠ n → s'.requests k = s.requests k := by
  cases h with
  | next p q w hp hdoes =>
      exact ⟨fun a ha => Progress.noConfusion (hp.symm.trans ha), fun k hk => setRequest_of_ne hk⟩
  | raises p e fails hp =>
      exact ⟨fun a ha => Progress.noConfusion (hp.symm.trans ha), fun k hk => setRequest_of_ne hk⟩
  | commitFails a e hp =>
      exact ⟨fun a ha => Progress.noConfusion (hp.symm.trans ha), fun k hk => setRequest_of_ne hk⟩
  | commits a hp =>
      exact ⟨fun a ha => Progress.noConfusion (hp.symm.trans ha), fun k hk => setRequest_of_ne hk⟩
  | rollsBack e hp =>
      exact ⟨fun a ha => Progress.noConfusion (hp.symm.trans ha), fun k hk => setRequest_of_ne hk⟩

theorem RequestStep.keeps (hsession : SessionInv s) (hr : s.requests n = some r)
    (h : RequestStep s n r fails s') : Keeps s s' := by
  obtain ⟨hopen, hother⟩ := h.requests
  refine (h.committed hsession hr).keeps ?_
  intro k q a hq hp
  by_cases hk : k = n
  · subst hk
    obtain rfl := Option.some.inj (hq.symm.trans hr)
    exact absurd hp (hopen a)
  · rw [hother k hk]
    exact hq

/-- The rows after a move of a request: those of before, and its own once it returns. -/
theorem RequestStep.rows (hsession : SessionInv s) (hr : s.requests n = some r)
    (h : RequestStep s n r fails s') {m : LoanApplicationModel}
    (hm : m ∈ s'.world.loans.committed) :
    m ∈ s.world.loans.committed ∨ Origin s' m r.call := by
  cases h with
  | raises p e fails hp => exact .inl hm
  | commitFails a e hp => exact .inl hm
  | rollsBack e hp => exact .inl hm
  | commits a hp =>
      cases hsession.committed_commit hr hp with
      | inl hnothing => exact .inl (hnothing.1 ▸ hm)
      | inr hstored =>
          obtain ⟨m', hm', hloans, houtbox, rfl⟩ := hstored
          change m ∈ (s.world.commit (.request n)).loans.committed at hm
          rw [hloans] at hm
          refine (List.mem_append.mp hm).imp_right fun hnew => ?_
          obtain rfl := List.mem_singleton.mp hnew
          refine ⟨hm', ⟨n, _, Function.update_self .., rfl, rfl⟩, _, ?_, .refl _⟩
          change _ ∈ (s.world.commit (.request n)).outbox.committed
          rw [houtbox]
          exact List.mem_append_right _ List.mem_cons_self
  | next p q w hp hdoes =>
      left
      cases p with
      | redisGet key =>
          obtain ⟨rfl, _⟩ := hdoes
          exact hm
      | getById existingId =>
          obtain ⟨rfl, _⟩ := hdoes
          exact hm
      | existsActive =>
          obtain ⟨rfl, _⟩ := hdoes
          exact hm
      | saveLoan =>
          obtain ⟨_, m', loans, _, hinsert, rfl⟩ := hdoes
          change m ∈ loans.committed at hm
          rw [(Table.insert_eq_done hinsert).1] at hm
          exact hm
      | saveEvent =>
          obtain ⟨_, outbox, _, rfl⟩ := hdoes
          exact hm
      | saveStatusEvent =>
          obtain ⟨_, outbox, _, rfl⟩ := hdoes
          exact hm
      | acquire key =>
          obtain ⟨_, hloans, _, _⟩ := hdoes
          change m ∈ w.loans.committed at hm
          rwa [hloans] at hm

/-- A statement that ends the body answers with the loan of the call or a stored row. -/
theorem Does.shows {w : World} {p : Phase} {a : LoanApplicationResponse}
    (hsession : SessionInv s) (hr : s.requests n = some r) (hp : r.progress = .running p)
    (h : Does (.request n) r.call s.world p (.inr a) w) : Shows s r.call a := by
  have hcur := hsession.present n r hr
  rw [hp] at hcur
  cases p with
  | redisGet key =>
      obtain ⟨_, hnext⟩ := h
      cases hvalue : s.world.redis (IdempotencyStore.redisKey key) with
      | none =>
          rw [hvalue] at hnext
          contradiction
      | some existingId =>
          rw [hvalue] at hnext
          contradiction
  | getById existingId =>
      obtain ⟨_, loanId, found, _, hfound, hnext⟩ := h
      cases found with
      | none => contradiction
      | some loan =>
          obtain ⟨m, hrows, hentity⟩ := hfound
          rw [Table.visible_of_writes_nil hcur.1.loans] at hrows
          have hmem : m ∈ s.world.loans.committed.filter fun x => x.id = loanId := by
            rw [hrows]
            exact List.mem_singleton.mpr rfl
          exact .inr ⟨m, (List.mem_filter.mp hmem).1, loan, hentity, Sum.inr.inj hnext⟩
  | existsActive =>
      obtain ⟨_, hnext, _⟩ := h
      contradiction
  | saveLoan =>
      obtain ⟨hnext, _⟩ := h
      contradiction
  | saveEvent =>
      obtain ⟨hnext, _⟩ := h
      contradiction
  | saveStatusEvent =>
      obtain ⟨hnext, _⟩ := h
      cases hkey : r.call.key? with
      | none =>
          rw [hkey] at hnext
          exact .inl (Sum.inr.inj hnext)
      | some key =>
          rw [hkey] at hnext
          contradiction
  | acquire key =>
      obtain ⟨hnext, _⟩ := h
      exact .inl (Sum.inr.inj hnext)

theorem RequestStep.answer (hsession : SessionInv s) (hinv : OriginInv s)
    (hr : s.requests n = some r) (h : RequestStep s n r fails s') {r' : Request}
    {a : LoanApplicationResponse} (hr' : s'.requests n = some r')
    (hp' : r'.progress = .committing a ∨ r'.progress = .returned a) :
    r'.call = r.call ∧ Shows s r.call a := by
  cases h with
  | next p q w hp hdoes =>
      obtain rfl := eq_of_setRequest hr'
      refine ⟨rfl, ?_⟩
      cases q with
      | inl q =>
          cases hp' with
          | inl hp' => contradiction
          | inr hp' => contradiction
      | inr b =>
          cases hp' with
          | inl hp' =>
              obtain rfl : b = a := Progress.committing.inj hp'
              exact hdoes.shows hsession hr hp
          | inr hp' => contradiction
  | raises p e fails hp =>
      obtain rfl := eq_of_setRequest hr'
      cases hp' with
      | inl hp' => contradiction
      | inr hp' => contradiction
  | commitFails b e hp =>
      obtain rfl := eq_of_setRequest hr'
      cases hp' with
      | inl hp' => contradiction
      | inr hp' => contradiction
  | rollsBack e hp =>
      obtain rfl := eq_of_setRequest hr'
      cases hp' with
      | inl hp' => contradiction
      | inr hp' => contradiction
  | commits b hp =>
      obtain rfl := eq_of_setRequest hr'
      refine ⟨rfl, ?_⟩
      cases hp' with
      | inl hp' => contradiction
      | inr hp' =>
          obtain rfl : b = a := Progress.returned.inj hp'
          exact hinv.answers n r b hr (.inl hp)

theorem OriginInv.request (h : OriginInv s) (hsession : SessionInv s)
    (hr : s.requests n = some r) (hstep : RequestStep s n r fails s') : OriginInv s' := by
  have hkeeps := hstep.keeps hsession hr
  refine ⟨?_, ?_⟩
  · intro m hm
    cases hstep.rows hsession hr hm with
    | inl hold =>
        obtain ⟨c, horigin⟩ := h.rows m hold
        exact ⟨c, horigin.mono hkeeps⟩
    | inr hnew => exact ⟨r.call, hnew⟩
  · intro k q a hq hp
    by_cases hk : k = n
    · subst hk
      obtain ⟨hcall, hshows⟩ := hstep.answer hsession h hr hq hp
      rw [hcall]
      exact hshows.mono hkeeps
    · rw [hstep.requests.2 k hk] at hq
      exact (h.answers k q a hq hp).mono hkeeps

/-- A step that moves no request keeps the invariant. -/
theorem OriginInv.frame (h : OriginInv s) (hkeeps : Keeps s s')
    (hloans : s'.world.loans.committed = s.world.loans.committed)
    (hrequests : ∀ n r a, s'.requests n = some r →
      r.progress = .committing a ∨ r.progress = .returned a → s.requests n = some r) :
    OriginInv s' := by
  refine ⟨?_, ?_⟩
  · intro m hm
    rw [hloans] at hm
    obtain ⟨c, horigin⟩ := h.rows m hm
    exact ⟨c, horigin.mono hkeeps⟩
  · intro n r a hr hp
    exact (h.answers n r a (hrequests n r a hr hp) hp).mono hkeeps

end Step

section Reachable
variable {v : Pydantic} {s s' : State}

theorem OriginInv.step (h : OriginInv s) (hlink : LinkInv v s) {l : Label}
    (hstep : Loan.step v s l = some s') : OriginInv s' := by
  have hchange := step_committed hlink.session hlink.outbox hstep
  cases l with
  | arrive n c =>
      simp only [Loan.step, arriveStep] at hstep
      split at hstep
      · rename_i hfree
        obtain rfl := Option.some.inj hstep
        rw [Bool.and_eq_true, Option.isNone_iff_eq_none] at hfree
        refine h.frame (hchange.keeps ?_) rfl ?_
        · intro k q a hq hp
          have hk : k ≠ n := by
            intro heq
            rw [heq, hfree.1] at hq
            contradiction
          exact (setRequest_of_ne hk).trans hq
        · intro k q a hq hp
          by_cases hk : k = n
          · subst hk
            obtain rfl := eq_of_setRequest hq
            cases hp with
            | inl hp => contradiction
            | inr hp => contradiction
          · exact (setRequest_of_ne hk).symm.trans hq
      · contradiction
  | request n =>
      obtain ⟨r, hr, hcase⟩ := requestStep_cases hstep
      exact h.request hlink.session hr hcase
  | requestFails n =>
      obtain ⟨r, hr, hcase⟩ := requestFailStep_cases hstep
      exact h.request hlink.session hr hcase
  | expire key =>
      obtain rfl := Option.some.inj hstep
      exact h.frame (hchange.keeps fun _ _ _ hr _ => hr) rfl fun _ _ _ hr _ => hr
  | worker n k =>
      obtain ⟨hloans, _, hrequests⟩ := (workerStep_cases hstep).frame
      refine h.frame (hchange.keeps ?_) (congrArg Table.committed hloans) ?_
      · rw [hrequests]
        exact fun _ _ _ hr _ => hr
      · rw [hrequests]
        exact fun _ _ _ hr _ => hr

theorem OriginInv.init : OriginInv State.init := by
  refine ⟨fun m hm => absurd hm List.not_mem_nil, ?_⟩
  intro n r a hr
  contradiction

theorem origin_of_run {ls : List Label} (hrun : Runs.run (Loan.step v) .init ls = some s) :
    LinkInv v s ∧ OriginInv s := by
  refine Runs.invariant (I := fun s => LinkInv v s ∧ OriginInv s) ?_ ⟨.init, .init⟩ hrun
  intro s l s' h hstep
  exact ⟨h.1.step hstep, h.2.step h.1 hstep⟩

/-- The loans that are committed form a table the service can read. -/
theorem OriginInv.loanTable (h : OriginInv s) (hsession : SessionInv s) :
    ∃ T : LoanTable, T.rows = s.world.loans.committed := by
  refine ⟨⟨s.world.loans.committed, ?_, ?_⟩, rfl⟩
  · refine hsession.unique.committed.imp ?_
    intro a b hclash hid
    simp [LoanApplicationModel.clash, hid] at hclash
  · intro m hm
    obtain ⟨c, horigin⟩ := h.rows m hm
    rw [(toModel_eq_some horigin.model).2.2.1]
    exact ⟨_, LoanStatus.ofValue?_value _⟩

end Reachable

end Origins

section Amounts

/-- The two amounts of a loan as numbers. -/
structure Amounts where
  amount : ℚ
  monthlyIncome : ℚ
  deriving DecidableEq

def LoanApplication.amounts (loan : LoanApplication) : Amounts :=
  ⟨loan.amount.toRat, loan.monthlyIncome.toRat⟩

def LoanApplicationResponse.amounts (a : LoanApplicationResponse) : Amounts :=
  ⟨a.amount.toRat, a.monthlyIncome.toRat⟩

/-- `Decimal(payload[key])`. -/
def OutboxEventModel.decimalField (e : OutboxEventModel) (key : String) : Option Decimal :=
  match e.payloadField key with
  | some (.str text) => Decimal.ofStr text
  | _ => none

def OutboxEventModel.amounts? (e : OutboxEventModel) : Option Amounts := do
  let amount ← e.decimalField "amount"
  let monthlyIncome ← e.decimalField "monthly_income"
  pure ⟨amount.toRat, monthlyIncome.toRat⟩

/-- Event, reads and answers about a stored loan have the amounts of the response. -/
structure OneAmount (s : State) (m : LoanApplicationModel) (response : LoanApplicationResponse) :
    Prop where
  event : (eventsOf s.world.outbox.committed m.id "loan.application.submitted.v1").map
    OutboxEventModel.amounts? = [some response.amounts]
  read : ∀ t, s.world.loans.writes t = [] → ∃ loan,
    LoanRepository.getById t m.id s.world = .returns (some loan) s.world ∧
      loan.amounts = response.amounts
  get : ∀ t, s.world.loans.writes t = [] → ∃ a,
    GetLoanApplicationUseCase.execute t m.id m.applicantId s.world = .returns a s.world ∧
      a.amounts = response.amounts
  replays : ∀ n r a, s.requests n = some r → r.progress = .returned a → a.id = m.id →
    a.amounts = response.amounts

/-- A number of whole cents. -/
def InCents (d : Decimal) : Prop := ∃ n : Int, d.toRat * 100 = n

section Lemmas
variable {v : Pydantic} {s : State} {c : CreateCall} {m : LoanApplicationModel}

/-- The row holds the amounts rounded to cents. -/
theorem toModel_amounts {loan : LoanApplication} (h : LoanRepository.toModel loan = some m) :
    m.amount = ⟨loan.amount.roundedCoeff 2, -2⟩ ∧
      m.monthlyIncome = ⟨loan.monthlyIncome.roundedCoeff 2, -2⟩ := by
  simp only [LoanRepository.toModel, Option.bind_eq_bind, Option.bind_eq_some_iff] at h
  obtain ⟨amount, hamount, income, hincome, h⟩ := h
  split at h
  · obtain rfl := Option.some.inj h
    exact ⟨(Decimal.toNumeric_eq_some_iff.mp hamount).1,
      (Decimal.toNumeric_eq_some_iff.mp hincome).1⟩
  · contradiction

theorem toEntity_amounts {loan : LoanApplication} (h : LoanRepository.toEntity m = .ok loan) :
    loan.amounts = ⟨m.amount.toRat, m.monthlyIncome.toRat⟩ := by
  simp only [LoanRepository.toEntity] at h
  split at h
  · contradiction
  · obtain rfl := Except.ok.inj h
    rfl

theorem rounded_eq_iff_inCents {d : Decimal} (h : 0 < d.toRat) :
    (⟨d.roundedCoeff 2, -2⟩ : Decimal).toRat = d.toRat ↔ InCents d := by
  have hiff := Decimal.rounded_eq_iff 2 h
  norm_num at hiff
  exact hiff

/-- A stored loan is read with the amounts of its request just if they are whole cents. -/
theorem amounts_of_toEntity_iff (hm : LoanRepository.toModel c.loan = some m)
    {loan : LoanApplication} (hloan : LoanRepository.toEntity m = .ok loan) :
    loan.amounts = c.loan.amounts ↔
      InCents c.request.amount ∧ InCents c.request.monthlyIncome := by
  obtain ⟨hamount, hincome⟩ := toModel_amounts hm
  rw [toEntity_amounts hloan, hamount, hincome, LoanApplication.amounts, Amounts.mk.injEq]
  exact and_congr (rounded_eq_iff_inCents c.request.amount_gt)
    (rounded_eq_iff_inCents c.request.monthlyIncome_gt)

theorem amounts?_eventPayload (loan : LoanApplication) {e : OutboxEventModel}
    (he : e.payload = eventPayload loan) : e.amounts? = some loan.amounts := by
  have hamount : e.payloadField "amount" = some (.str loan.amount.str) := by
    rw [OutboxEventModel.payloadField, he]
    rfl
  have hincome : e.payloadField "monthly_income" = some (.str loan.monthlyIncome.str) := by
    rw [OutboxEventModel.payloadField, he]
    rfl
  simp only [OutboxEventModel.amounts?, OutboxEventModel.decimalField, hamount, hincome,
    Decimal.ofStr_str]
  rfl

/-- The one submitted event of a stored loan has the amounts of its request. -/
theorem Origin.event_amounts (h : Origin s m c)
    (hlinked : Linked s.world.loans.committed s.world.outbox.committed)
    (hm : m ∈ s.world.loans.committed) :
    (eventsOf s.world.outbox.committed m.id "loan.application.submitted.v1").map
      OutboxEventModel.amounts? = [some c.loan.amounts] := by
  obtain ⟨row, hrow, hsent⟩ := h.event
  obtain ⟨e, he⟩ := List.length_eq_one_iff.mp
    (hlinked.once m hm loanApplicationSubmittedV1 (by decide))
  have hmem : row ∈ eventsOf s.world.outbox.committed m.id loanApplicationSubmittedV1 := by
    have hid : row.aggregateId = m.id := hsent.aggregateId.trans (toModel_eq_some h.model).1.symm
    have htype : row.eventType = loanApplicationSubmittedV1 := hsent.eventType
    simp [eventsOf, List.mem_filter, hrow, hid, htype]
  rw [he] at hmem
  obtain rfl := List.mem_singleton.mp hmem
  change (eventsOf s.world.outbox.committed m.id loanApplicationSubmittedV1).map
    OutboxEventModel.amounts? = _
  rw [he, List.map_singleton, amounts?_eventPayload c.loan hsent.payload]

theorem oneLoan_of_id (hsession : SessionInv s) {m' : LoanApplicationModel}
    (hm : m ∈ s.world.loans.committed) (hm' : m' ∈ s.world.loans.committed)
    (hid : m'.id = m.id) : m' = m := by
  refine Table.eq_of_clash hsession.unique.committed LoanApplicationModel.clash_comm hm' hm ?_
  simp [LoanApplicationModel.clash, hid]

end Lemmas

section Main
variable {v : Pydantic} {s : State} {ls : List Label} {n : Nat} {r : Request}
  {m : LoanApplicationModel}

/-- The request whose loan is stored is the one the row comes from. -/
theorem OriginInv.of_id (h : OriginInv s) (hsession : SessionInv s)
    (hr : s.requests n = some r) (hm : m ∈ s.world.loans.committed)
    (hid : m.id = r.call.loan.id) :
    Origin s m r.call ∧ r.progress = .returned (.modelValidate r.call.loan) := by
  obtain ⟨c, horigin⟩ := h.rows m hm
  obtain ⟨k, q, hq, rfl, hp⟩ := horigin.returned
  have hsame : r.call.draws.loanId = q.call.draws.loanId :=
    hid.symm.trans (toModel_eq_some horigin.model).1
  obtain rfl := hsession.distinct n k r q hr hq hsame
  obtain rfl := Option.some.inj (hr.symm.trans hq)
  exact ⟨horigin, hp⟩

/-- In every state the service reaches, a stored loan has one amount and one income
everywhere just if the request gave both in whole cents. -/
theorem oneAmount_iff (hrun : Runs.run (step v) .init ls = some s)
    (hr : s.requests n = some r) (hm : m ∈ s.world.loans.committed)
    (hid : m.id = r.call.loan.id) :
    ∃ response, r.progress = .returned response ∧
      (OneAmount s m response ↔
        InCents r.call.request.amount ∧ InCents r.call.request.monthlyIncome) := by
  obtain ⟨hlink, hinv⟩ := origin_of_run hrun
  obtain ⟨horigin, hp⟩ := hinv.of_id hlink.session hr hm hid
  obtain ⟨T, hT⟩ := hinv.loanTable hlink.session
  have hrows {t : Tx} (ht : s.world.loans.writes t = []) : s.world.loans.visible t = T.rows :=
    (Table.visible_of_writes_nil ht).trans hT.symm
  have hmT : m ∈ T.rows := hT ▸ hm
  refine ⟨_, hp, ?_⟩
  constructor
  · intro h
    have hnowrites : s.world.loans.writes (.request n) = [] := by
      have hcur := hlink.session.present n r hr
      rw [hp] at hcur
      exact hcur.1.loans
    obtain ⟨loan, hloan, hget⟩ := getById_of_mem (hrows hnowrites) hmT
    obtain ⟨found, hfound, hamounts⟩ := h.read _ hnowrites
    rw [hget] at hfound
    obtain ⟨rfl⟩ := hfound
    exact (amounts_of_toEntity_iff horigin.model hloan).mp hamounts
  · intro h
    have hread {loan : LoanApplication} (hloan : LoanRepository.toEntity m = .ok loan) :
        loan.amounts = r.call.loan.amounts :=
      (amounts_of_toEntity_iff horigin.model hloan).mpr h
    refine ⟨horigin.event_amounts hlink.linked hm, ?_, ?_, ?_⟩
    · intro t ht
      obtain ⟨loan, hloan, hget⟩ := getById_of_mem (hrows ht) hmT
      exact ⟨loan, hget, hread hloan⟩
    · intro t ht
      obtain ⟨loan, hloan, hget⟩ := execute_of_mem (hrows ht) hmT
      exact ⟨_, hget, hread hloan⟩
    · intro k q a hq hpq ha
      cases hinv.answers k q a hq (.inr hpq) with
      | inl hown =>
          subst hown
          obtain rfl := hlink.session.distinct k n q r hq hr (ha.trans hid)
          obtain rfl := Option.some.inj (hq.symm.trans hr)
          rfl
      | inr hrow =>
          obtain ⟨m', hm', loan, hloan, rfl⟩ := hrow
          have hsame : m'.id = m.id := (toEntity_eq_ok hloan).1.symm.trans ha
          obtain rfl := oneLoan_of_id hlink.session hm hm' hsame
          exact hread hloan

/-- A request arrives and runs to its end alone. -/
def submits (c : CreateCall) : List Label := .arrive 0 c :: List.replicate 5 (.request 0)

/-- The loan a reader finds after the run, by its amount. -/
def readAmount (s : State) (loanId : Uuid) : Option ℚ :=
  match LoanRepository.getById (.request 1) loanId s.world with
  | .returns (some loan) _ => some loan.amount.toRat
  | _ => none

theorem exists_submitted (c : CreateCall) (amount : ℚ)
    (heval : (Runs.run (step Pydantic.strict) .init (submits c)).map (fun s =>
        ((s.requests 0).map (fun r => (r.call.loan.id, r.progress)),
          s.world.loans.committed.map (fun m => m.id),
          (s.world.loans.writes (.request 1)).length, readAmount s c.loan.id)) =
      some (some (c.loan.id, .returned (.modelValidate c.loan)), [c.loan.id], 0, some amount)) :
    ∃ s r m, Runs.run (step Pydantic.strict) .init (submits c) = some s ∧
      s.requests 0 = some r ∧ m ∈ s.world.loans.committed ∧ m.id = r.call.loan.id ∧
      r.progress = .returned (.modelValidate c.loan) ∧
      (OneAmount s m (.modelValidate c.loan) → amount = c.request.amount.toRat) := by
  obtain ⟨s, hrun, hs⟩ := Option.map_eq_some_iff.mp heval
  simp only [Prod.mk.injEq] at hs
  obtain ⟨hrequest, hids, hwrites, hamount⟩ := hs
  obtain ⟨r, hr, hcall⟩ := Option.map_eq_some_iff.mp hrequest
  obtain ⟨hid, hp⟩ := Prod.mk.inj hcall
  obtain ⟨m, hm, hmid⟩ := List.mem_map.mp
    (hids ▸ List.mem_singleton.mpr rfl : c.loan.id ∈ s.world.loans.committed.map fun m => m.id)
  refine ⟨s, r, m, hrun, hr, hm, hmid.trans hid.symm, hp, ?_⟩
  intro hone
  obtain ⟨loan, hread, hamounts⟩ := hone.read (.request 1) (List.length_eq_zero_iff.mp hwrites)
  rw [← hmid, readAmount, hread] at hamount
  exact (Option.some.inj hamount).symm.trans (congrArg Amounts.amount hamounts)

theorem oneAmount_iff_wholeCents :
    ∃ s r m response, Runs.run (step Pydantic.strict) .init
        (submits (.sample ⟨100⟩ none 1)) = some s ∧ s.requests 0 = some r ∧
      m ∈ s.world.loans.committed ∧ r.progress = .returned response ∧
      (OneAmount s m response ↔
        InCents r.call.request.amount ∧ InCents r.call.request.monthlyIncome) := by
  obtain ⟨s, r, m, hrun, hr, hm, hid, _⟩ :=
    exists_submitted (.sample ⟨100⟩ none 1) 1000 (by decide +kernel)
  obtain ⟨response, hp, hiff⟩ := oneAmount_iff hrun hr hm hid
  exact ⟨s, r, m, response, hrun, hr, hm, hp, hiff⟩

/-- A call for 1000.005. -/
def halfCent : CreateCall :=
  { CreateCall.sample ⟨100⟩ none 1 with
    request := {
      (CreateCall.sample ⟨100⟩ none 1).request with
      amount := ⟨1000005, -3⟩
      amount_gt := by decide +kernel
      amount_le := by decide +kernel } }

/-- The response says 1000.005 and the loan is read as 1000.01. -/
theorem halfCent_not_oneAmount :
    ∃ s r m response, Runs.run (step Pydantic.strict) .init (submits halfCent) = some s ∧
      s.requests 0 = some r ∧ m ∈ s.world.loans.committed ∧ m.id = r.call.loan.id ∧
      r.progress = .returned response ∧ ¬ OneAmount s m response := by
  obtain ⟨s, r, m, hrun, hr, hm, hid, hp, hone⟩ :=
    exists_submitted halfCent (100001 / 100) (by decide +kernel)
  refine ⟨s, r, m, _, hrun, hr, hm, hid, hp, ?_⟩
  intro h
  exact absurd (hone h) (by decide +kernel)

end Main

end Amounts

end CrediGuard.Loan
