import CrediGuard.Lib.ReadCommitted
import CrediGuard.Lib.Statement
import CrediGuard.Applicants.Domain

/-!
The tables of the applicant service and the repositories over them.

Every repository method is one statement of an open transaction. An UPDATE takes
the lock of its row and waits while another open transaction holds it. A query
without ORDER BY returns its rows in any order.
-/

namespace CrediGuard.Applicants
open ReadCommitted Statement

structure ApplicantModel where
  id : Uuid
  email : String
  passwordHash : String
  firstName : String
  lastName : String
  createdAt : Datetime
  updatedAt : Datetime
  deriving DecidableEq

structure RefreshTokenModel where
  id : Uuid
  applicantId : Uuid
  tokenHash : String
  expiresAt : Datetime
  createdAt : Datetime
  revokedAt : Option Datetime
  deriving DecidableEq

def ApplicantModel.clash (a b : ApplicantModel) : Bool := a.id = b.id || a.email = b.email

def RefreshTokenModel.clash (a b : RefreshTokenModel) : Bool :=
  a.id = b.id || a.tokenHash = b.tokenHash

abbrev Tx := Nat

structure World where
  applicants : Table Tx ApplicantModel
  refreshTokens : Table Tx RefreshTokenModel
  locks : List (Uuid × Tx)

namespace World

def commit (w : World) (t : Tx) : World where
  applicants := w.applicants.commit t
  refreshTokens := w.refreshTokens.commit t
  locks := w.locks.filter fun l => l.2 ≠ t

def rollback (w : World) (t : Tx) : World where
  applicants := w.applicants.rollback t
  refreshTokens := w.refreshTokens.rollback t
  locks := w.locks.filter fun l => l.2 ≠ t

end World

abbrev Statement := Stmt World Error

/-- SQLAlchemy's `scalar_one_or_none`. -/
def scalarOneOrNone {α : Type} : List α → Statement (Option α) :=
  Stmt.oneOrNone .multipleResultsFound

/-- The order a query returns its rows in. -/
structure RowOrder where
  arrange : List RefreshTokenModel → List RefreshTokenModel
  perm : ∀ rows, (arrange rows).Perm rows

def RowOrder.stored : RowOrder := ⟨id, fun _ => .refl _⟩

namespace ApplicantRepository

def toModel (applicant : Applicant) : ApplicantModel :=
  { id := applicant.id
    email := applicant.email
    passwordHash := applicant.passwordHash
    firstName := applicant.firstName
    lastName := applicant.lastName
    createdAt := applicant.createdAt
    updatedAt := applicant.updatedAt }

def toEntity (model : ApplicantModel) : Applicant :=
  { id := model.id
    email := model.email
    passwordHash := model.passwordHash
    firstName := model.firstName
    lastName := model.lastName
    createdAt := model.createdAt
    updatedAt := model.updatedAt }

/-- Every text fits its column. -/
def fits (model : ApplicantModel) : Bool :=
  model.email.length ≤ 255 && model.passwordHash.length ≤ 255 &&
    model.firstName.length ≤ 100 && model.lastName.length ≤ 100

def save (t : Tx) (applicant : Applicant) : Statement Unit := fun w =>
  if fits (toModel applicant) then
    match w.applicants.insert ApplicantModel.clash t (toModel applicant) with
    | .waits => .waits
    | .violates => .raises .integrityError w
    | .done applicants => .returns () { w with applicants := applicants }
  else .raises .dataError w

def getById (t : Tx) (applicantId : Uuid) : Statement (Option Applicant) := do
  let rows ← Stmt.read fun w => (w.applicants.visible t).filter fun m => m.id = applicantId
  let model ← scalarOneOrNone rows
  pure (model.map toEntity)

def getByEmail (t : Tx) (email : String) : Statement (Option Applicant) := do
  let rows ← Stmt.read fun w => (w.applicants.visible t).filter fun m => m.email = email
  let model ← scalarOneOrNone rows
  pure (model.map toEntity)

def existsByEmail (t : Tx) (email : String) : Statement Bool := do
  let rows ← Stmt.read fun w => (w.applicants.visible t).filter fun m => m.email = email
  let id ← scalarOneOrNone (rows.map fun m => m.id)
  pure id.isSome

end ApplicantRepository

namespace RefreshTokenRepository

def toModel (token : RefreshToken) : RefreshTokenModel :=
  { id := token.id
    applicantId := token.applicantId
    tokenHash := token.tokenHash
    expiresAt := token.expiresAt
    createdAt := token.createdAt
    revokedAt := token.revokedAt }

def toEntity (model : RefreshTokenModel) : RefreshToken :=
  { id := model.id
    applicantId := model.applicantId
    tokenHash := model.tokenHash
    expiresAt := model.expiresAt
    createdAt := model.createdAt
    revokedAt := model.revokedAt }

def save (t : Tx) (token : RefreshToken) : Statement Unit := fun w =>
  if token.tokenHash.length ≤ 255 then
    match w.refreshTokens.insert RefreshTokenModel.clash t (toModel token) with
    | .waits => .waits
    | .violates => .raises .integrityError w
    | .done tokens => .returns () { w with refreshTokens := tokens }
  else .raises .dataError w

def overwrite (token : RefreshToken) (m : RefreshTokenModel) : RefreshTokenModel :=
  if m.id = token.id then
    { m with
      tokenHash := token.tokenHash
      expiresAt := token.expiresAt
      revokedAt := token.revokedAt }
  else m

def update (t : Tx) (token : RefreshToken) : Statement Unit := fun w =>
  if (w.refreshTokens.visible t).any fun m => m.id = token.id then
    if w.locks.any fun l => l.1 = token.id && l.2 ≠ t then .waits
    else .returns () { w with
      refreshTokens := w.refreshTokens.write t (.update (overwrite token))
      locks := (token.id, t) :: w.locks }
  else .raises (.valueError ("Refresh token with id " ++ token.id.str ++ " not found")) w

def isValid (now : Datetime) (m : RefreshTokenModel) : Bool :=
  now < m.expiresAt && m.revokedAt.isNone

def getAllValid (t : Tx) (order : RowOrder) (now : Datetime) : Statement (List RefreshToken) :=
  Stmt.read fun w =>
    (order.arrange ((w.refreshTokens.visible t).filter (isValid now))).map toEntity

end RefreshTokenRepository

section Lemmas
variable {t : Tx} {w : World}

theorem RefreshTokenModel.clash_comm (a b : RefreshTokenModel) : a.clash b = b.clash a := by
  simp only [clash, eq_comm (a := a.id), eq_comm (a := a.tokenHash)]

theorem ApplicantModel.clash_comm (a b : ApplicantModel) : a.clash b = b.clash a := by
  simp only [clash, eq_comm (a := a.id), eq_comm (a := a.email)]

open RefreshTokenRepository in
@[simp] theorem overwrite_id (token : RefreshToken) (m : RefreshTokenModel) :
    (overwrite token m).id = m.id := by
  by_cases h : m.id = token.id <;> simp [overwrite, h]

open RefreshTokenRepository in
theorem overwrite_of_ne {token : RefreshToken} {m : RefreshTokenModel} (h : m.id ≠ token.id) :
    overwrite token m = m := by
  simp [overwrite, h]

open RefreshTokenRepository in
theorem overwrite_of_eq {token : RefreshToken} {m : RefreshTokenModel} (h : m.id = token.id) :
    (overwrite token m).tokenHash = token.tokenHash ∧
      (overwrite token m).revokedAt = token.revokedAt := by
  simp [overwrite, h]

/-- A query of one applicant by a column finds the only visible row it selects. -/
theorem getOne_ensures (p : ApplicantModel → Bool) :
    Stmt.Ensures (ε := Error) (do
        let rows ← Stmt.read fun w => (w.applicants.visible t).filter p
        let model ← scalarOneOrNone rows
        pure (model.map ApplicantRepository.toEntity)) w
      (fun found w' => w' = w ∧ ∃ model : Option ApplicantModel,
        (w.applicants.visible t).filter p = model.toList ∧
          found = model.map ApplicantRepository.toEntity)
      (fun _ w' => w' = w) := by
  refine Stmt.Ensures.bind (x := Stmt.read _) ?_
  refine Stmt.Ensures.seq (Stmt.oneOrNone_ensures _ _) ?_ fun _ _ h => h
  rintro model w' ⟨rfl, hrows⟩
  exact ⟨rfl, model, hrows, rfl⟩

/-- A query of one row at most, where what it selects is known. -/
theorem query_of_rows {α β : Type} (rows : World → List β) (f : Option β → α) {found : Option β}
    (h : rows w = found.toList) :
    (do
      let rows ← Stmt.read rows
      let found ← scalarOneOrNone rows
      pure (f found) : Statement α) w = .returns (f found) w := by
  have hread : (Stmt.read rows : Statement _) w = .returns found.toList w := by
    rw [← h]
    rfl
  rw [Stmt.bind_of_returns hread]
  cases found with
  | none => rfl
  | some m => rfl

theorem getById_of_filter {applicantId : Uuid} (model : Option ApplicantModel)
    (h : (w.applicants.visible t).filter (fun m => m.id = applicantId) = model.toList) :
    ApplicantRepository.getById t applicantId w =
      .returns (model.map ApplicantRepository.toEntity) w :=
  query_of_rows _ (fun model => model.map ApplicantRepository.toEntity) h

theorem getByEmail_of_filter {email : String} (model : Option ApplicantModel)
    (h : (w.applicants.visible t).filter (fun m => m.email = email) = model.toList) :
    ApplicantRepository.getByEmail t email w =
      .returns (model.map ApplicantRepository.toEntity) w :=
  query_of_rows _ (fun model => model.map ApplicantRepository.toEntity) h

theorem existsByEmail_of_filter {email : String} (model : Option ApplicantModel)
    (h : (w.applicants.visible t).filter (fun m => m.email = email) = model.toList) :
    ApplicantRepository.existsByEmail t email w = .returns model.isSome w := by
  have hids : (((w.applicants.visible t).filter fun m => m.email = email).map fun m => m.id) =
      (model.map fun m => m.id).toList := by
    rw [h]
    cases model <;> rfl
  rw [← Option.isSome_map (f := fun m : ApplicantModel => m.id)]
  exact query_of_rows (fun w => ((w.applicants.visible t).filter fun m => m.email = email).map
    fun m => m.id) Option.isSome hids

theorem existsByEmail_ensures (email : String) :
    Stmt.Ensures (ApplicantRepository.existsByEmail t email) w
      (fun found w' => w' = w ∧
        (found = false ↔ (w.applicants.visible t).filter (fun m => m.email = email) = []))
      (fun _ w' => w' = w) := by
  refine Stmt.Ensures.bind (x := Stmt.read _) ?_
  refine Stmt.Ensures.seq (Stmt.oneOrNone_ensures _ _) ?_ fun _ _ h => h
  rintro id w' ⟨rfl, hrows⟩
  refine ⟨rfl, ?_⟩
  cases id with
  | none => simpa using hrows
  | some id =>
      refine ⟨fun h => by simp at h, fun h => ?_⟩
      simp [h] at hrows

theorem saveApplicant_ensures (applicant : Applicant) :
    Stmt.Ensures (ApplicantRepository.save t applicant) w
      (fun _ w' => ∃ applicants, w.applicants.insert ApplicantModel.clash t
          (ApplicantRepository.toModel applicant) = .done applicants ∧
        w' = { w with applicants := applicants })
      (fun _ w' => w' = w) := by
  simp only [Stmt.Ensures, ApplicantRepository.save]
  by_cases hfits : ApplicantRepository.fits (ApplicantRepository.toModel applicant)
  · simp only [if_pos hfits]
    cases w.applicants.insert ApplicantModel.clash t (ApplicantRepository.toModel applicant) with
    | waits => exact True.intro
    | violates => rfl
    | done applicants => exact ⟨applicants, rfl, rfl⟩
  · simp only [if_neg hfits]

theorem saveToken_ensures (token : RefreshToken) :
    Stmt.Ensures (RefreshTokenRepository.save t token) w
      (fun _ w' => ∃ tokens, w.refreshTokens.insert RefreshTokenModel.clash t
          (RefreshTokenRepository.toModel token) = .done tokens ∧
        w' = { w with refreshTokens := tokens })
      (fun _ w' => w' = w) := by
  simp only [Stmt.Ensures, RefreshTokenRepository.save]
  by_cases hfits : token.tokenHash.length ≤ 255
  · simp only [if_pos hfits]
    cases w.refreshTokens.insert RefreshTokenModel.clash t
        (RefreshTokenRepository.toModel token) with
    | waits => exact True.intro
    | violates => rfl
    | done tokens => exact ⟨tokens, rfl, rfl⟩
  · simp only [if_neg hfits]

theorem update_ensures (token : RefreshToken) :
    Stmt.Ensures (RefreshTokenRepository.update t token) w
      (fun _ w' => (∃ m ∈ w.refreshTokens.visible t, m.id = token.id) ∧
        (∀ l ∈ w.locks, l.1 = token.id → l.2 = t) ∧
        w' = { w with
          refreshTokens := w.refreshTokens.write t
            (.update (RefreshTokenRepository.overwrite token))
          locks := (token.id, t) :: w.locks })
      (fun _ w' => w' = w) := by
  simp only [Stmt.Ensures, RefreshTokenRepository.update]
  by_cases hfound : (w.refreshTokens.visible t).any fun m => m.id = token.id
  · simp only [if_pos hfound]
    by_cases hlocked : w.locks.any fun l => l.1 = token.id && l.2 ≠ t
    · simp only [if_pos hlocked]
    · simp only [if_neg hlocked]
      refine ⟨by simpa using hfound, ?_, True.intro⟩
      intro l hl heq
      by_contra hne
      exact hlocked (List.any_eq_true.mpr ⟨l, hl, by simp [heq, hne]⟩)
  · simp only [if_neg hfound]

end Lemmas
end CrediGuard.Applicants
