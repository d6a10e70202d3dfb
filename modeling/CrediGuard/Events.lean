import CrediGuard.Lib.Uuid
import CrediGuard.Lib.Json
import CrediGuard.Lib.Calendar

/-!
The shared event contracts: the envelope and the two payload schemas.

pydantic's scalar validators are a parameter: what they accept is not decided by
the repository. The schemas' own part (which fields, which are required, which
validator each has) is modelled.
-/

namespace CrediGuard

structure Pydantic where
  uuid : Json → Option Uuid
  str : Json → Option String
  int : Json → Option Int
  datetime : Json → Option Stamp

/-- The validators that take a value in its own JSON type and nothing else. -/
def Pydantic.strict : Pydantic where
  uuid
    | .str s => Uuid.parse s
    | _ => none
  str
    | .str s => some s
    | _ => none
  int
    | .int n => some n
    | _ => none
  datetime
    | .int n => some (Stamp.utc n)
    | _ => none

structure EventEnvelope (P : Type) where
  eventId : Uuid
  eventType : String
  occurredAt : Stamp
  correlationId : Uuid
  producer : String
  payload : P
  deriving DecidableEq

def loanApplicationSubmittedV1 := "loan.application.submitted.v1"
def loanStatusChangedV1 := "loan.status.changed.v1"

structure LoanApplicationSubmittedV1 where
  loanId : Uuid
  applicantId : Uuid
  amount : String
  termMonths : Int
  monthlyIncome : String
  applicantAge : Int
  deriving DecidableEq

structure LoanStatusChangedV1 where
  loanId : Uuid
  applicantId : Uuid
  oldStatus : String
  newStatus : String
  decisionReasons : Option (List String)
  deriving DecidableEq

namespace Pydantic
variable (v : Pydantic)

/-- A required field: a missing key is an error. -/
def field {α : Type} (validator : Json → Option α) (pairs : List (String × Json))
    (key : String) : Option α :=
  (Json.get? pairs key).bind validator

/-- `list[str] | None`. -/
def strings? : Json → Option (Option (List String))
  | .null => some none
  | .arr items => (items.mapM v.str).map some
  | _ => none

end Pydantic

def LoanApplicationSubmittedV1.modelValidate (v : Pydantic) :
    Json → Option LoanApplicationSubmittedV1
  | .obj pairs => do
      some {
        loanId := ← Pydantic.field v.uuid pairs "loan_id"
        applicantId := ← Pydantic.field v.uuid pairs "applicant_id"
        amount := ← Pydantic.field v.str pairs "amount"
        termMonths := ← Pydantic.field v.int pairs "term_months"
        monthlyIncome := ← Pydantic.field v.str pairs "monthly_income"
        applicantAge := ← Pydantic.field v.int pairs "applicant_age" }
  | _ => none

def LoanStatusChangedV1.modelValidate (v : Pydantic) : Json → Option LoanStatusChangedV1
  | .obj pairs => do
      some {
        loanId := ← Pydantic.field v.uuid pairs "loan_id"
        applicantId := ← Pydantic.field v.uuid pairs "applicant_id"
        oldStatus := ← Pydantic.field v.str pairs "old_status"
        newStatus := ← Pydantic.field v.str pairs "new_status"
        decisionReasons :=
          ← match Json.get? pairs "decision_reasons" with
            | none => some none
            | some reasons => v.strings? reasons }
  | _ => none

end CrediGuard
