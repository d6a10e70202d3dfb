import CrediGuard.Lib.ReadCommitted
import CrediGuard.Lib.Statement
import CrediGuard.Loan.Domain

/-!
The tables of the loan service, its Redis keys, and the repositories.

Every repository method is one statement of an open transaction. The unique
indexes are those of the models: the primary keys, and `idempotency_key`, which
NULLs never violate.
-/

namespace CrediGuard.Loan
open ReadCommitted Statement

structure LoanApplicationModel where
  id : Uuid
  applicantId : Uuid
  amount : Decimal
  termMonths : Int
  monthlyIncome : Decimal
  applicantAge : Int
  status : String
  decisionReasons : Option (List String)
  idempotencyKey : Option String
  createdAt : Datetime
  updatedAt : Datetime
  deriving DecidableEq

structure OutboxEventModel where
  id : Uuid
  aggregateId : Uuid
  eventType : String
  payload : Json
  status : String
  createdAt : Datetime
  sentAt : Option Datetime

def LoanApplicationModel.clash (a b : LoanApplicationModel) : Bool :=
  a.id = b.id || (a.idempotencyKey.isSome && a.idempotencyKey = b.idempotencyKey)

def OutboxEventModel.clash (a b : OutboxEventModel) : Bool := a.id = b.id

theorem LoanApplicationModel.clash_comm (a b : LoanApplicationModel) :
    a.clash b = b.clash a := by
  simp only [clash, eq_comm (a := a.id)]
  cases ha : a.idempotencyKey <;> cases hb : b.idempotencyKey <;> simp [eq_comm]

theorem OutboxEventModel.clash_comm (a b : OutboxEventModel) : a.clash b = b.clash a := by
  simp only [clash, eq_comm (a := a.id)]

theorem OutboxEventModel.eq_of_id {rows : List OutboxEventModel}
    (hunique : rows.Pairwise fun a b => a.clash b = false) {a b : OutboxEventModel}
    (ha : a ∈ rows) (hb : b ∈ rows) (hid : a.id = b.id) : a = b :=
  Table.eq_of_clash hunique clash_comm ha hb (decide_eq_true hid)

/-- A transaction of a create request or of an outbox worker. -/
inductive Tx where
  | request (n : Nat)
  | worker (n : Nat)
  deriving DecidableEq

structure World where
  loans : Table Tx LoanApplicationModel
  outbox : Table Tx OutboxEventModel
  redis : String → Option String

namespace World

def commit (w : World) (t : Tx) : World :=
  { w with loans := w.loans.commit t, outbox := w.outbox.commit t }

def rollback (w : World) (t : Tx) : World :=
  { w with loans := w.loans.rollback t, outbox := w.outbox.rollback t }

end World

abbrev Statement := Stmt World Error

/-- SQLAlchemy's `scalar_one_or_none`. -/
def scalarOneOrNone {α : Type} : List α → Statement (Option α) :=
  Stmt.oneOrNone .multipleResultsFound

namespace LoanRepository

def fitsInteger (n : Int) : Bool := -2147483648 ≤ n ∧ n ≤ 2147483647

/-- The row an entity is stored as; `none` where a column cannot hold a value. -/
def toModel (loan : LoanApplication) : Option LoanApplicationModel := do
  let amount ← loan.amount.toNumeric 12 2
  let monthlyIncome ← loan.monthlyIncome.toNumeric 12 2
  if fitsInteger loan.termMonths && fitsInteger loan.applicantAge &&
      loan.idempotencyKey.all (fun key => key.length ≤ 255) then
    some {
      id := loan.id
      applicantId := loan.applicantId
      amount := amount
      termMonths := loan.termMonths
      monthlyIncome := monthlyIncome
      applicantAge := loan.applicantAge
      status := loan.status.value
      decisionReasons := some loan.decisionReasons
      idempotencyKey := loan.idempotencyKey
      createdAt := loan.createdAt
      updatedAt := loan.updatedAt }
  else none

def toEntity (model : LoanApplicationModel) : Except Error LoanApplication :=
  match LoanStatus.ofValue? model.status with
  | none => .error .valueError
  | some status => .ok {
      id := model.id
      applicantId := model.applicantId
      amount := model.amount
      termMonths := model.termMonths
      monthlyIncome := model.monthlyIncome
      applicantAge := model.applicantAge
      status := status
      decisionReasons := model.decisionReasons.getD []
      idempotencyKey := model.idempotencyKey
      createdAt := model.createdAt
      updatedAt := model.updatedAt }

def save (t : Tx) (loan : LoanApplication) : Statement Unit := fun w =>
  match toModel loan with
  | none => .raises .dataError w
  | some model =>
      match w.loans.insert LoanApplicationModel.clash t model with
      | .waits => .waits
      | .violates => .raises .integrityError w
      | .done loans => .returns () { w with loans := loans }

def getById (t : Tx) (loanId : Uuid) : Statement (Option LoanApplication) := do
  let rows ← Stmt.read fun w => (w.loans.visible t).filter fun m => m.id = loanId
  match ← scalarOneOrNone rows with
  | none => pure none
  | some model => do
      let loan ← Stmt.ofExcept (toEntity model)
      pure (some loan)

def activeStatuses : List String :=
  (LoanStatus.members.filter fun s => s ∉ LoanStatus.closed).map LoanStatus.value

def existsActiveForApplicant (t : Tx) (applicantId : Uuid) : Statement Bool := do
  let ids ← Stmt.read fun w => ((w.loans.visible t).filter fun m =>
    m.applicantId = applicantId && m.status ∈ activeStatuses).map fun m => m.id
  let result ← scalarOneOrNone ids
  pure result.isSome

end LoanRepository

namespace OutboxRepository

def toModel (event : OutboxEvent) : OutboxEventModel :=
  { id := event.id
    aggregateId := event.aggregateId
    eventType := event.eventType
    payload := event.payload
    status := event.status
    createdAt := event.createdAt
    sentAt := event.sentAt }

def save (t : Tx) (event : OutboxEvent) : Statement Unit := fun w =>
  match w.outbox.insert OutboxEventModel.clash t (toModel event) with
  | .waits => .waits
  | .violates => .raises .integrityError w
  | .done outbox => .returns () { w with outbox := outbox }

end OutboxRepository

namespace IdempotencyStore

def redisKey (key : String) : String := "idempotency:" ++ key

def get (key : String) : Statement (Option String) :=
  Stmt.read fun w => w.redis (redisKey key)

/-- `SET key value NX EX ttl`; the expiry itself is a step of the environment. -/
def acquire (key value : String) : Statement Bool := fun w =>
  match w.redis (redisKey key) with
  | some _ => .returns false w
  | none => .returns true { w with redis := Function.update w.redis (redisKey key) (some value) }

end IdempotencyStore

section Lemmas
open LoanRepository

theorem toModel_eq_some {loan : LoanApplication} {model : LoanApplicationModel}
    (h : toModel loan = some model) :
    model.id = loan.id ∧ model.applicantId = loan.applicantId ∧
      model.status = loan.status.value ∧ model.idempotencyKey = loan.idempotencyKey ∧
      model.termMonths = loan.termMonths ∧ model.applicantAge = loan.applicantAge := by
  simp only [toModel, Option.bind_eq_bind, Option.bind_eq_some_iff] at h
  obtain ⟨amount, _, income, _, h⟩ := h
  split at h
  · obtain rfl := Option.some.inj h
    exact ⟨rfl, rfl, rfl, rfl, rfl, rfl⟩
  · contradiction

theorem toEntity_eq_ok {model : LoanApplicationModel} {loan : LoanApplication}
    (h : toEntity model = .ok loan) :
    loan.id = model.id ∧ loan.applicantId = model.applicantId := by
  simp only [toEntity] at h
  split at h
  · contradiction
  · obtain rfl := Except.ok.inj h
    exact ⟨rfl, rfl⟩

theorem redisKey_injective {a b : String}
    (h : IdempotencyStore.redisKey a = IdempotencyStore.redisKey b) : a = b := by
  have h' := congrArg String.toList h
  simp only [IdempotencyStore.redisKey, String.toList_append] at h'
  exact String.toList_inj.mp (List.append_cancel_left h')

theorem mem_activeStatuses {s : LoanStatus} :
    s.value ∈ activeStatuses ↔ s ∉ LoanStatus.closed := by
  cases s <;> decide

variable {t : Tx} {w : World}

theorem save_ensures (loan : LoanApplication) :
    Stmt.Ensures (LoanRepository.save t loan) w
      (fun _ w' => ∃ model loans, toModel loan = some model ∧
        w.loans.insert LoanApplicationModel.clash t model = .done loans ∧
        w' = { w with loans := loans })
      (fun _ w' => w' = w) := by
  simp only [Stmt.Ensures, LoanRepository.save]
  cases toModel loan with
  | none => rfl
  | some model =>
      dsimp only
      cases hi : w.loans.insert LoanApplicationModel.clash t model with
      | waits => exact True.intro
      | violates => rfl
      | done loans => exact ⟨model, loans, rfl, hi, rfl⟩

theorem saveEvent_ensures (event : OutboxEvent) :
    Stmt.Ensures (OutboxRepository.save t event) w
      (fun _ w' => ∃ outbox, w.outbox.insert OutboxEventModel.clash t
          (OutboxRepository.toModel event) = .done outbox ∧ w' = { w with outbox := outbox })
      (fun _ w' => w' = w) := by
  simp only [Stmt.Ensures, OutboxRepository.save]
  cases w.outbox.insert OutboxEventModel.clash t (OutboxRepository.toModel event) with
  | waits => exact True.intro
  | violates => rfl
  | done outbox => exact ⟨outbox, rfl, rfl⟩

/-- The row a read of one loan by its id finds, and the entity made of it. -/
def Found (t : Tx) (w : World) (loanId : Uuid) : Option LoanApplication → Prop
  | none => (w.loans.visible t).filter (fun m => m.id = loanId) = []
  | some loan => ∃ model, (w.loans.visible t).filter (fun m => m.id = loanId) = [model] ∧
      toEntity model = .ok loan

theorem getById_ensures (loanId : Uuid) :
    Stmt.Ensures (LoanRepository.getById t loanId) w
      (fun found w' => w' = w ∧ Found t w loanId found) (fun _ w' => w' = w) := by
  refine Stmt.Ensures.bind (x := Stmt.read _) ?_
  refine Stmt.Ensures.seq (Stmt.oneOrNone_ensures _ _) ?_ fun _ _ h => h
  rintro rows w' ⟨rfl, hrows⟩
  cases rows with
  | none => exact ⟨rfl, hrows⟩
  | some model =>
      refine Stmt.Ensures.seq (Stmt.ofExcept_ensures _) ?_ fun _ _ h => h.1
      rintro loan w'' ⟨rfl, hloan⟩
      exact ⟨rfl, model, hrows, hloan⟩

theorem getById_of_found {loanId : Uuid} {found : Option LoanApplication}
    (h : Found t w loanId found) : LoanRepository.getById t loanId w = .returns found w := by
  have hread : (Stmt.read fun w : World => (w.loans.visible t).filter fun m => m.id = loanId :
      Statement _) w = .returns ((w.loans.visible t).filter fun m => m.id = loanId) w :=
    Stmt.read_apply ..
  rw [LoanRepository.getById, Stmt.bind_of_returns hread]
  cases found with
  | none =>
      rw [show (w.loans.visible t).filter (fun m => m.id = loanId) = [] from h]
      rfl
  | some loan =>
      obtain ⟨model, hrows, hloan⟩ := h
      rw [hrows]
      simp only [scalarOneOrNone, Stmt.oneOrNone, pure_bind, hloan, Stmt.ofExcept_ok,
        Stmt.pure_apply]

/-- The rows the guard query selects. -/
def activeRows (rows : List LoanApplicationModel) (applicantId : Uuid) :
    List LoanApplicationModel :=
  rows.filter fun m => m.applicantId = applicantId && m.status ∈ activeStatuses

theorem existsActive_ensures (applicantId : Uuid) :
    Stmt.Ensures (LoanRepository.existsActiveForApplicant t applicantId) w
      (fun active w' => w' = w ∧
        (active = false ↔ activeRows (w.loans.visible t) applicantId = []))
      (fun _ w' => w' = w) := by
  refine Stmt.Ensures.bind (x := Stmt.read _) ?_
  refine Stmt.Ensures.seq (Stmt.oneOrNone_ensures _ _) ?_ fun _ _ h => h
  rintro ids w' ⟨rfl, hids⟩
  have hmap : (activeRows (w'.loans.visible t) applicantId).map (fun m => m.id) = ids.toList :=
    hids
  refine ⟨rfl, ?_⟩
  cases ids with
  | none => simpa using hmap
  | some id =>
      have hne : activeRows (w'.loans.visible t) applicantId ≠ [] := by
        intro hnil
        simp [hnil] at hmap
      simp [hne]

theorem acquire_ensures (key value : String) :
    Stmt.Ensures (IdempotencyStore.acquire key value) w
      (fun _ w' => w'.loans = w.loans ∧ w'.outbox = w.outbox ∧
        w'.redis = Function.update w.redis (IdempotencyStore.redisKey key)
          ((w.redis (IdempotencyStore.redisKey key)).or (some value)))
      (fun _ _ => False) := by
  simp only [Stmt.Ensures, IdempotencyStore.acquire]
  cases h : w.redis (IdempotencyStore.redisKey key) with
  | none => exact ⟨rfl, rfl, rfl⟩
  | some held =>
      refine ⟨rfl, rfl, ?_⟩
      rw [Option.some_or, ← h, Function.update_eq_self]

end Lemmas
end CrediGuard.Loan
