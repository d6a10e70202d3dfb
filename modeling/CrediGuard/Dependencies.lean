import CrediGuard.Lib.Json
import CrediGuard.Lib.Uuid

/-!
`get_current_applicant_id` of the applicant and of the loan service: whom a
service takes the caller for, from the headers of a request.
-/

namespace CrediGuard

structure HTTPException where
  statusCode : Nat
  detail : String
  deriving DecidableEq

/-- A parameter `Header(None, alias=..)`: the first header of the name, in any case. -/
def headerParam (headers : List (String × String)) (name : String) : Option String :=
  (headers.find? fun p => p.1.toLower = name.toLower).map Prod.snd

namespace Applicants

/-- The claims of a token whose signature and times are in order, and the text of
the exception for one that is refused. -/
structure TokenDecoder where
  decode : String → Option (List (String × Json))
  reason : String → String

def decodeAccessToken (tokens : TokenDecoder) (token : String) : Option (Uuid × Json) := do
  let payload ← tokens.decode token
  match Json.get? payload "type" with
  | some (.str "access") =>
      match ← Json.get? payload "sub" with
      | .str sub => some (← Uuid.parse sub, ← Json.get? payload "email")
      | _ => none
  | _ => none

def getCurrentApplicantId (tokens : TokenDecoder) (authorization : Option String) :
    Except HTTPException Uuid :=
  let missing := ⟨401, "Missing or invalid Authorization header"⟩
  match authorization with
  | none => .error missing
  | some header =>
      if "Bearer ".toList.isPrefixOf header.toList then
        let token := String.ofList (header.toList.drop 7)
        match decodeAccessToken tokens token with
        | none => .error ⟨401, "Invalid token: " ++ tokens.reason token⟩
        | some (applicantId, _) => .ok applicantId
      else .error missing

end Applicants

namespace Loan

def getCurrentApplicantId (xUserId : Option String) : Except HTTPException Uuid :=
  match xUserId with
  | none => .error ⟨401, "Missing X-User-ID header"⟩
  | some text =>
      match Uuid.parse text with
      | none => .error ⟨401, "Invalid X-User-ID header"⟩
      | some applicantId => .ok applicantId

/-- The text form of an id names it. -/
theorem getCurrentApplicantId_str (applicantId : Uuid) :
    getCurrentApplicantId (some applicantId.str) = .ok applicantId := by
  simp only [getCurrentApplicantId, Uuid.parse_str]

end Loan

end CrediGuard
