import CrediGuard.Lib.Uuid
import CrediGuard.Lib.Decimal
import CrediGuard.Lib.Calendar
import CrediGuard.Lib.Json
import CrediGuard.Lib.Statement

/-!
The loan domain: the status machine, the loan entity and the outbox event.
A method that mutates a loan is a statement on it, so that what a raise leaves
behind is part of its meaning.
-/

namespace CrediGuard.Loan

inductive LoanStatus where
  | draft | submitted | docVerification | underwriting | approved | disbursing | disbursed
  | docRejected | rejected | disbursementFailed
  deriving DecidableEq, Repr

namespace LoanStatus

def value : LoanStatus → String
  | draft => "DRAFT"
  | submitted => "SUBMITTED"
  | docVerification => "DOC_VERIFICATION"
  | underwriting => "UNDERWRITING"
  | approved => "APPROVED"
  | disbursing => "DISBURSING"
  | disbursed => "DISBURSED"
  | docRejected => "DOC_REJECTED"
  | rejected => "REJECTED"
  | disbursementFailed => "DISBURSEMENT_FAILED"

/-- The members in the order the enumeration iterates them. -/
def members : List LoanStatus :=
  [draft, submitted, docVerification, underwriting, approved, disbursing, disbursed,
    docRejected, rejected, disbursementFailed]

/-- `LoanStatus(value)`; a text that is no member's value is a `ValueError`. -/
def ofValue? (s : String) : Option LoanStatus := members.find? fun st => st.value = s

theorem value_injective {a b : LoanStatus} (h : a.value = b.value) : a = b := by
  cases a <;> cases b <;> first | rfl | exact absurd h (by decide)

theorem mem_members (a : LoanStatus) : a ∈ members := by
  cases a <;> decide

theorem ofValue?_value (a : LoanStatus) : ofValue? a.value = some a := by
  cases a <;> decide

theorem value_of_ofValue? {s : String} {a : LoanStatus} (h : ofValue? s = some a) :
    a.value = s := by
  simpa using List.find?_some h

/-- The statuses a closed loan is in. -/
def closed : List LoanStatus := [rejected, disbursed, docRejected, disbursementFailed]

def validTransitions : LoanStatus → List LoanStatus
  | draft => [submitted]
  | submitted => [docVerification, rejected]
  | docVerification => [underwriting, docRejected]
  | underwriting => [approved, rejected]
  | approved => [disbursing]
  | disbursing => [disbursed, disbursementFailed]
  | disbursed => []
  | docRejected => []
  | rejected => []
  | disbursementFailed => []

end LoanStatus

/-- The exceptions the service raises, its own and those of what it calls. -/
inductive Error where
  | loanApplicationNotFound (loanId : Uuid)
  | invalidStatusTransition (fromStatus toStatus : String)
  | duplicateActiveApplication (applicantId : Uuid)
  | valueError
  | multipleResultsFound
  | integrityError
  | dataError
  | connectionError
  deriving DecidableEq

structure LoanApplication where
  applicantId : Uuid
  amount : Decimal
  termMonths : Int
  monthlyIncome : Decimal
  applicantAge : Int
  id : Uuid
  status : LoanStatus := .draft
  decisionReasons : List String := []
  idempotencyKey : Option String := none
  createdAt : Datetime
  updatedAt : Datetime
  deriving DecidableEq

namespace LoanApplication

abbrev Method := Stmt LoanApplication Error Unit

def transition (newStatus : LoanStatus) (now : Datetime) : Method := do
  let loan ← Stmt.read fun loan => loan
  if newStatus ∈ loan.status.validTransitions then
    Stmt.modify fun loan => { loan with status := newStatus }
    Stmt.modify fun loan => { loan with updatedAt := now }
  else Stmt.raise (.invalidStatusTransition loan.status.value newStatus.value)

def submit (now : Datetime) : Method := transition .submitted now

def isActive (loan : LoanApplication) : Bool :=
  loan.status ∉ [LoanStatus.rejected, .disbursed, .docRejected, .disbursementFailed]

/-- `monthly_payment` of an amount and a term, in exact arithmetic: the rounding
of the decimal context is left out. -/
def monthlyPaymentOf (amount : ℚ) (termMonths : Int) : ℚ :=
  if termMonths = 0 then 0
  else
    let monthlyRate : ℚ := 1 / 100
    if monthlyRate = 0 then amount / termMonths
    else
      let factor := (1 + monthlyRate) ^ termMonths
      amount * (monthlyRate * factor) / (factor - 1)

def monthlyPayment (loan : LoanApplication) : ℚ :=
  monthlyPaymentOf loan.amount.toRat loan.termMonths

section Transition
variable {newStatus : LoanStatus} {loan : LoanApplication}

theorem transition_of_mem (h : newStatus ∈ loan.status.validTransitions) (now : Datetime) :
    transition newStatus now loan =
      .returns () { loan with status := newStatus, updatedAt := now } := by
  simp only [transition, Stmt.bind_of_returns (Stmt.read_apply _ loan), if_pos h]
  rfl

theorem transition_of_not_mem (h : newStatus ∉ loan.status.validTransitions) (now : Datetime) :
    transition newStatus now loan =
      .raises (.invalidStatusTransition loan.status.value newStatus.value) loan := by
  simp only [transition, Stmt.bind_of_returns (Stmt.read_apply _ loan), if_neg h]
  rfl

end Transition

end LoanApplication

structure OutboxEvent where
  aggregateId : Uuid
  eventType : String
  payload : Json
  id : Uuid
  status : String := "PENDING"
  createdAt : Datetime
  sentAt : Option Datetime := none

end CrediGuard.Loan
