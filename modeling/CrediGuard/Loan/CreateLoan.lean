import CrediGuard.Events
import CrediGuard.Loan.Persistence

/-!
`CreateLoanApplicationUseCase.execute`, in direct style and cut at its awaits,
and the transaction `get_session` wraps around it.

The values the body draws (fresh uuids, clock readings) are part of the request:
they are arbitrary, and no statement depends on when they are drawn.
-/

namespace CrediGuard.Loan
open ReadCommitted

structure CreateLoanApplicationRequest where
  amount : Decimal
  termMonths : Int
  monthlyIncome : Decimal
  applicantAge : Int
  amount_gt : 0 < amount.toRat
  amount_le : amount.toRat ≤ 200000
  termMonths_bounds : 3 ≤ termMonths ∧ termMonths ≤ 60
  monthlyIncome_gt : 0 < monthlyIncome.toRat
  applicantAge_bounds : 18 ≤ applicantAge ∧ applicantAge ≤ 75

structure LoanApplicationResponse where
  id : Uuid
  applicantId : Uuid
  amount : Decimal
  termMonths : Int
  monthlyIncome : Decimal
  applicantAge : Int
  status : LoanStatus
  decisionReasons : List String
  createdAt : Datetime
  updatedAt : Datetime
  deriving DecidableEq

def LoanApplicationResponse.modelValidate (loan : LoanApplication) : LoanApplicationResponse :=
  { id := loan.id
    applicantId := loan.applicantId
    amount := loan.amount
    termMonths := loan.termMonths
    monthlyIncome := loan.monthlyIncome
    applicantAge := loan.applicantAge
    status := loan.status
    decisionReasons := loan.decisionReasons
    createdAt := loan.createdAt
    updatedAt := loan.updatedAt }

/-- The results of the `uuid4()` and `datetime.now(UTC)` calls of one execution. -/
structure Draws where
  loanId : Uuid
  createdAt : Datetime
  updatedAt : Datetime
  submittedAt : Datetime
  submittedEventId : Uuid
  submittedEventAt : Datetime
  statusEventId : Uuid
  statusEventAt : Datetime

structure CreateCall where
  applicantId : Uuid
  request : CreateLoanApplicationRequest
  idempotencyKey : Option String
  draws : Draws

namespace CreateCall
variable (c : CreateCall)

/-- `if idempotency_key`: neither `None` nor the empty string. -/
def key? : Option String := c.idempotencyKey.filter fun key => key ≠ ""

def draft : LoanApplication :=
  { applicantId := c.applicantId
    amount := c.request.amount
    termMonths := c.request.termMonths
    monthlyIncome := c.request.monthlyIncome
    applicantAge := c.request.applicantAge
    id := c.draws.loanId
    idempotencyKey := c.idempotencyKey
    createdAt := c.draws.createdAt
    updatedAt := c.draws.updatedAt }

/-- The loan after `loan.submit()`. -/
def loan : LoanApplication :=
  { c.draft with status := .submitted, updatedAt := c.draws.submittedAt }

theorem submit_draft :
    LoanApplication.submit c.draws.submittedAt c.draft = .returns () c.loan :=
  LoanApplication.transition_of_mem (List.mem_singleton_self _) _

/-- A call that draws the three uuids from `base` on. -/
def sample (applicantId : Uuid) (key : Option String) (base : BitVec 128) : CreateCall where
  applicantId := applicantId
  request := {
    amount := ⟨1000, 0⟩
    termMonths := 12
    monthlyIncome := ⟨5000, 0⟩
    applicantAge := 30
    amount_gt := by decide +kernel
    amount_le := by decide +kernel
    termMonths_bounds := by decide
    monthlyIncome_gt := by decide +kernel
    applicantAge_bounds := by decide }
  idempotencyKey := key
  draws := ⟨⟨base⟩, 0, 0, 0, ⟨base + 1⟩, 0, ⟨base + 2⟩, 0⟩

end CreateCall

theorem idempotencyKey_of_key? {c : CreateCall} {key : String} (h : c.key? = some key) :
    c.idempotencyKey = some key := by
  simp only [CreateCall.key?, Option.filter_eq_some_iff] at h
  exact h.1

def eventPayload (loan : LoanApplication) : Json :=
  .obj [("loan_id", .str loan.id.str), ("applicant_id", .str loan.applicantId.str),
    ("amount", .str loan.amount.str), ("term_months", .int loan.termMonths),
    ("monthly_income", .str loan.monthlyIncome.str), ("applicant_age", .int loan.applicantAge)]

def statusEventPayload (loan : LoanApplication) : Json :=
  .obj [("loan_id", .str loan.id.str), ("applicant_id", .str loan.applicantId.str),
    ("old_status", .str LoanStatus.draft.value), ("new_status", .str loan.status.value),
    ("decision_reasons", .null)]

def outboxEvent (loan : LoanApplication) (d : Draws) : OutboxEvent :=
  { aggregateId := loan.id
    eventType := "loan.application.submitted.v1"
    payload := eventPayload loan
    id := d.submittedEventId
    createdAt := d.submittedEventAt }

def statusOutboxEvent (loan : LoanApplication) (d : Draws) : OutboxEvent :=
  { aggregateId := loan.id
    eventType := "loan.status.changed.v1"
    payload := statusEventPayload loan
    id := d.statusEventId
    createdAt := d.statusEventAt }

section DirectStyle

/-- The response of an earlier request, where the idempotency key leads to one. -/
def replay (t : Tx) (c : CreateCall) : Statement (Option LoanApplicationResponse) :=
  match c.key? with
  | none => pure none
  | some key => do
      match ← IdempotencyStore.get key with
      | none => pure none
      | some existingId =>
          match Uuid.parse existingId with
          | none => Stmt.raise .valueError
          | some loanId => do
              let existingLoan ← LoanRepository.getById t loanId
              pure (existingLoan.map LoanApplicationResponse.modelValidate)

def acquireKey (c : CreateCall) (loan : LoanApplication) : Statement Unit :=
  match c.key? with
  | none => pure ()
  | some key => do
      let _ ← IdempotencyStore.acquire key loan.id.str
      pure ()

def create (t : Tx) (c : CreateCall) : Statement LoanApplicationResponse := do
  if ← LoanRepository.existsActiveForApplicant t c.applicantId then
    Stmt.raise (.duplicateActiveApplication c.applicantId)
  else do
    let loan ← Stmt.on (LoanApplication.submit c.draws.submittedAt) c.draft
    LoanRepository.save t loan
    OutboxRepository.save t (outboxEvent loan c.draws)
    OutboxRepository.save t (statusOutboxEvent loan c.draws)
    acquireKey c loan
    pure (LoanApplicationResponse.modelValidate loan)

def execute (t : Tx) (c : CreateCall) : Statement LoanApplicationResponse := do
  match ← replay t c with
  | some response => pure response
  | none => create t c

end DirectStyle

section Phases

/-- The awaits of `execute`, each named by the statement that runs next. -/
inductive Phase where
  | redisGet (key : String)
  | getById (existingId : String)
  | existsActive
  | saveLoan
  | saveEvent
  | saveStatusEvent
  | acquire (key : String)
  deriving DecidableEq

def CreateCall.start (c : CreateCall) : Phase :=
  match c.key? with
  | none => .existsActive
  | some key => .redisGet key

open LoanApplicationResponse in
def resume (t : Tx) (c : CreateCall) : Phase → Statement (Phase ⊕ LoanApplicationResponse)
  | .redisGet key => do
      match ← IdempotencyStore.get key with
      | none => pure (.inl .existsActive)
      | some existingId => pure (.inl (.getById existingId))
  | .getById existingId =>
      match Uuid.parse existingId with
      | none => Stmt.raise .valueError
      | some loanId => do
          match ← LoanRepository.getById t loanId with
          | none => pure (.inl .existsActive)
          | some existingLoan => pure (.inr (modelValidate existingLoan))
  | .existsActive => do
      if ← LoanRepository.existsActiveForApplicant t c.applicantId then
        Stmt.raise (.duplicateActiveApplication c.applicantId)
      else pure (.inl .saveLoan)
  | .saveLoan => do
      LoanRepository.save t c.loan
      pure (.inl .saveEvent)
  | .saveEvent => do
      OutboxRepository.save t (outboxEvent c.loan c.draws)
      pure (.inl .saveStatusEvent)
  | .saveStatusEvent => do
      OutboxRepository.save t (statusOutboxEvent c.loan c.draws)
      match c.key? with
      | none => pure (.inr (modelValidate c.loan))
      | some key => pure (.inl (.acquire key))
  | .acquire key => do
      let _ ← IdempotencyStore.acquire key c.loan.id.str
      pure (.inr (modelValidate c.loan))

/-- What a statement of the body that does not raise has done. -/
def Does (t : Tx) (c : CreateCall) (w : World) :
    Phase → Phase ⊕ LoanApplicationResponse → World → Prop
  | .redisGet key, next, w' =>
      w' = w ∧ next = match w.redis (IdempotencyStore.redisKey key) with
        | none => .inl .existsActive
        | some existingId => .inl (.getById existingId)
  | .getById existingId, next, w' =>
      w' = w ∧ ∃ loanId found, Uuid.parse existingId = some loanId ∧ Found t w loanId found ∧
        next = match found with
          | none => .inl .existsActive
          | some loan => .inr (LoanApplicationResponse.modelValidate loan)
  | .existsActive, next, w' =>
      w' = w ∧ next = .inl .saveLoan ∧ activeRows (w.loans.visible t) c.applicantId = []
  | .saveLoan, next, w' =>
      next = .inl .saveEvent ∧ ∃ model loans, LoanRepository.toModel c.loan = some model ∧
        w.loans.insert LoanApplicationModel.clash t model = .done loans ∧
        w' = { w with loans := loans }
  | .saveEvent, next, w' =>
      next = .inl .saveStatusEvent ∧ ∃ outbox, w.outbox.insert OutboxEventModel.clash t
        (OutboxRepository.toModel (outboxEvent c.loan c.draws)) = .done outbox ∧
        w' = { w with outbox := outbox }
  | .saveStatusEvent, next, w' =>
      (next = match c.key? with
        | none => .inr (LoanApplicationResponse.modelValidate c.loan)
        | some key => .inl (.acquire key)) ∧
      ∃ outbox, w.outbox.insert OutboxEventModel.clash t
        (OutboxRepository.toModel (statusOutboxEvent c.loan c.draws)) = .done outbox ∧
        w' = { w with outbox := outbox }
  | .acquire key, next, w' =>
      next = .inr (LoanApplicationResponse.modelValidate c.loan) ∧ w'.loans = w.loans ∧
        w'.outbox = w.outbox ∧
        w'.redis = Function.update w.redis (IdempotencyStore.redisKey key)
          ((w.redis (IdempotencyStore.redisKey key)).or (some c.loan.id.str))

theorem resume_ensures (t : Tx) (c : CreateCall) (w : World) (p : Phase) :
    Stmt.Ensures (resume t c p) w (Does t c w p) (fun _ w' => w' = w) := by
  cases p with
  | redisGet key =>
      refine Stmt.Ensures.bind (x := Stmt.read _) ?_
      simp only [Stmt.Ensures, Stmt.read_apply]
      cases h : w.redis (IdempotencyStore.redisKey key) with
      | none => exact ⟨rfl, by rw [h]⟩
      | some existingId => exact ⟨rfl, by rw [h]⟩
  | getById existingId =>
      simp only [resume]
      cases h : Uuid.parse existingId with
      | none => exact rfl
      | some loanId =>
          refine Stmt.Ensures.seq (getById_ensures loanId) ?_ fun _ _ h => h
          rintro found w' ⟨rfl, hfound⟩
          cases found with
          | none => exact ⟨rfl, loanId, none, h, hfound, rfl⟩
          | some loan => exact ⟨rfl, loanId, some loan, h, hfound, rfl⟩
  | existsActive =>
      refine Stmt.Ensures.seq (existsActive_ensures c.applicantId) ?_ fun _ _ h => h
      rintro active w' ⟨rfl, hactive⟩
      cases active with
      | true => exact rfl
      | false => exact ⟨rfl, rfl, hactive.mp rfl⟩
  | saveLoan =>
      refine Stmt.Ensures.seq (save_ensures c.loan) ?_ fun _ _ h => h
      rintro _ w' ⟨model, loans, hmodel, hinsert, rfl⟩
      exact ⟨rfl, model, loans, hmodel, hinsert, rfl⟩
  | saveEvent =>
      refine Stmt.Ensures.seq (saveEvent_ensures _) ?_ fun _ _ h => h
      rintro _ w' ⟨outbox, hinsert, rfl⟩
      exact ⟨rfl, outbox, hinsert, rfl⟩
  | saveStatusEvent =>
      refine Stmt.Ensures.seq (saveEvent_ensures _) ?_ fun _ _ h => h
      rintro _ w' ⟨outbox, hinsert, rfl⟩
      cases h : c.key? with
      | none => exact ⟨by rw [h], outbox, hinsert, rfl⟩
      | some key => exact ⟨by rw [h], outbox, hinsert, rfl⟩
  | acquire key =>
      refine Stmt.Ensures.seq (acquire_ensures key _) ?_ fun _ _ h => h.elim
      rintro _ w' ⟨hloans, houtbox, hredis⟩
      exact ⟨rfl, hloans, houtbox, hredis⟩

section Iterate
variable (t : Tx) (c : CreateCall) (fuel : Nat)

private theorem iterate_saveStatusEvent :
    Stmt.iterate (resume t c) (fuel + 2) .saveStatusEvent = (do
      OutboxRepository.save t (statusOutboxEvent c.loan c.draws)
      acquireKey c c.loan
      pure (LoanApplicationResponse.modelValidate c.loan)) := by
  simp only [Stmt.iterate_succ (fuel + 1), resume, acquireKey, bind_assoc]
  cases c.key? with
  | none => rfl
  | some key =>
      simp only [pure_bind, Sum.elim_inl, Stmt.iterate_succ fuel, resume, bind_assoc,
        Sum.elim_inr]

private theorem iterate_saveLoan :
    Stmt.iterate (resume t c) (fuel + 4) .saveLoan = (do
      LoanRepository.save t c.loan
      OutboxRepository.save t (outboxEvent c.loan c.draws)
      OutboxRepository.save t (statusOutboxEvent c.loan c.draws)
      acquireKey c c.loan
      pure (LoanApplicationResponse.modelValidate c.loan)) := by
  rw [← iterate_saveStatusEvent t c fuel]
  simp only [Stmt.iterate_succ (fuel + 3), Stmt.iterate_succ (fuel + 2), resume, bind_assoc,
    pure_bind, Sum.elim_inl]

private theorem iterate_existsActive :
    Stmt.iterate (resume t c) (fuel + 5) .existsActive = create t c := by
  simp only [create, Stmt.on_of_returns c.submit_draft, pure_bind]
  rw [← iterate_saveLoan t c fuel, Stmt.iterate_succ (fuel + 4)]
  simp only [resume, bind_assoc]
  congr 1
  funext active
  cases active <;> simp

/-- Run without interference, the phases are `execute`. -/
theorem iterate_start :
    Stmt.iterate (resume t c) (fuel + 7) c.start = execute t c := by
  simp only [CreateCall.start, execute, replay]
  cases c.key? with
  | none => exact iterate_existsActive t c (fuel + 2)
  | some key =>
      simp only [Stmt.iterate_succ (fuel + 6), resume, bind_assoc]
      congr 1
      funext existing
      cases existing with
      | none => exact iterate_existsActive t c (fuel + 1)
      | some existingId =>
          simp only [pure_bind, Sum.elim_inl, Stmt.iterate_succ (fuel + 5), resume]
          cases Uuid.parse existingId with
          | none => rfl
          | some loanId =>
              simp only [bind_assoc]
              congr 1
              funext loan
              cases loan with
              | none => exact iterate_existsActive t c fuel
              | some existingLoan => rfl

end Iterate
end Phases

end CrediGuard.Loan
