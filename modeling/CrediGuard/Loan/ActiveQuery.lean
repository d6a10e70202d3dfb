import CrediGuard.Loan.Persistence

/-!
The guard query against the entity it guards.

`exists_active_for_applicant` and `is_active` each have their own list of closed
statuses. The lists agree; the query's result accessor asks for more than they do,
for it takes one row at most.
-/

namespace CrediGuard.Loan
open Statement LoanRepository

/-- The row's entity can be built and is active. -/
def LoanApplicationModel.HasActiveEntity (m : LoanApplicationModel) : Prop :=
  ∃ loan, toEntity m = .ok loan ∧ loan.isActive = true

/-- The query returns, and returns what the entities of the applicant's rows say. -/
def AgreesOnActive (t : Tx) (w : World) (applicantId : Uuid) : Prop :=
  ∃ active, existsActiveForApplicant t applicantId w = .returns active w ∧
    (active = true ↔ ∃ m ∈ w.loans.visible t,
      m.applicantId = applicantId ∧ m.HasActiveEntity)

section Lemmas
variable {t : Tx} {w : World} {applicantId : Uuid} {m : LoanApplicationModel}

theorem isActive_iff (loan : LoanApplication) :
    loan.isActive = true ↔ loan.status ∉ LoanStatus.closed := by
  unfold LoanApplication.isActive
  cases loan.status <;> decide

theorem hasActiveEntity_iff : m.HasActiveEntity ↔ m.status ∈ activeStatuses := by
  unfold LoanApplicationModel.HasActiveEntity toEntity
  cases hstatus : LoanStatus.ofValue? m.status with
  | none =>
      refine iff_of_false ?_ ?_
      · intro h
        obtain ⟨_, hloan, _⟩ := h
        contradiction
      · intro hmem
        -- an active status is the value of a member
        obtain ⟨status, _, hvalue⟩ := List.mem_map.mp hmem
        rw [← hvalue, LoanStatus.ofValue?_value] at hstatus
        contradiction
  | some status =>
      rw [← LoanStatus.value_of_ofValue? hstatus, mem_activeStatuses]
      constructor
      · intro h
        obtain ⟨loan, hloan, hactive⟩ := h
        obtain rfl := Except.ok.inj hloan
        exact (isActive_iff _).mp hactive
      · intro hopen
        exact ⟨_, rfl, (isActive_iff _).mpr hopen⟩

theorem mem_activeRows {rows : List LoanApplicationModel} :
    m ∈ activeRows rows applicantId ↔
      m ∈ rows ∧ m.applicantId = applicantId ∧ m.HasActiveEntity := by
  rw [hasActiveEntity_iff]
  simp only [activeRows, List.mem_filter, Bool.and_eq_true, decide_eq_true_eq]

theorem existsActive_eq (applicantId : Uuid) :
    existsActiveForApplicant t applicantId w =
      (scalarOneOrNone ((activeRows (w.loans.visible t) applicantId).map fun m => m.id) >>=
        fun result => pure result.isSome) w :=
  Stmt.bind_of_returns (Stmt.read_apply _ w)

theorem existsActive_of_none (h : activeRows (w.loans.visible t) applicantId = []) :
    existsActiveForApplicant t applicantId w = .returns false w := by
  rw [existsActive_eq, h]
  rfl

theorem existsActive_of_one (h : activeRows (w.loans.visible t) applicantId = [m]) :
    existsActiveForApplicant t applicantId w = .returns true w := by
  rw [existsActive_eq, h]
  rfl

theorem existsActive_of_several {m' : LoanApplicationModel} {rest : List LoanApplicationModel}
    (h : activeRows (w.loans.visible t) applicantId = m :: m' :: rest) :
    existsActiveForApplicant t applicantId w = .raises .multipleResultsFound w := by
  rw [existsActive_eq, h]
  rfl

end Lemmas

section Main

/-- Query and entity agree just where the applicant has one active row at most. -/
theorem agreesOnActive_iff (t : Tx) (w : World) (applicantId : Uuid) :
    AgreesOnActive t w applicantId ↔
      (activeRows (w.loans.visible t) applicantId).length ≤ 1 := by
  cases hrows : activeRows (w.loans.visible t) applicantId with
  | nil =>
      refine iff_of_true ⟨false, existsActive_of_none hrows, ?_⟩ (Nat.zero_le _)
      refine iff_of_false Bool.false_ne_true ?_
      intro h
      obtain ⟨m, hm, hactive⟩ := h
      have hmem := mem_activeRows.mpr ⟨hm, hactive⟩
      rw [hrows] at hmem
      cases hmem
  | cons m rest =>
      cases rest with
      | nil =>
          have hmem : m ∈ activeRows (w.loans.visible t) applicantId := by
            rw [hrows]
            exact List.mem_singleton_self m
          refine iff_of_true ⟨true, existsActive_of_one hrows, ?_⟩ le_rfl
          exact iff_of_true rfl ⟨m, mem_activeRows.mp hmem⟩
      | cons m' rest =>
          refine iff_of_false ?_ ?_
          · intro h
            obtain ⟨_, hreturns, _⟩ := h
            rw [existsActive_of_several hrows] at hreturns
            contradiction
          · simp only [List.length_cons]
            omega

/-- Two submitted loans of one applicant, as a lost race leaves them. -/
def twoActive : World :=
  { loans := ⟨[submittedRow ⟨1⟩, submittedRow ⟨2⟩], []⟩
    outbox := ⟨[], []⟩
    redis := fun _ => none }
where
  submittedRow (id : Uuid) : LoanApplicationModel :=
    { id := id
      applicantId := ⟨100⟩
      amount := ⟨1000000, -2⟩
      termMonths := 12
      monthlyIncome := ⟨500000, -2⟩
      applicantAge := 30
      status := "SUBMITTED"
      decisionReasons := some []
      idempotencyKey := none
      createdAt := 0
      updatedAt := 0 }

theorem agreesOnActive_fails_twice : ¬ AgreesOnActive (.request 0) twoActive ⟨100⟩ := by
  intro h
  obtain ⟨_, hreturns, _⟩ := h
  have hraises : existsActiveForApplicant (.request 0) ⟨100⟩ twoActive =
      .raises .multipleResultsFound twoActive :=
    existsActive_of_several (by rfl : activeRows (twoActive.loans.visible (.request 0)) ⟨100⟩ =
      [twoActive.submittedRow ⟨1⟩, twoActive.submittedRow ⟨2⟩])
  rw [hraises] at hreturns
  contradiction

end Main

end CrediGuard.Loan
