import CrediGuard.Loan.ActiveLoans
import CrediGuard.Loan.Partitioning

/-!
`GetLoanApplicationUseCase.execute`, and what it tells an applicant of a table.

The entity is built before the owner is compared, and building it fails on a
status the service does not know. That a foreign loan looks like a missing one
therefore rests on the stored statuses.
-/

namespace CrediGuard.Loan
open ReadCommitted Statement

namespace GetLoanApplicationUseCase

def execute (t : Tx) (loanId applicantId : Uuid) : Statement LoanApplicationResponse := do
  match ← LoanRepository.getById t loanId with
  | none => Stmt.raise (.loanApplicationNotFound loanId)
  | some loan =>
      if loan.applicantId ≠ applicantId then Stmt.raise (.loanApplicationNotFound loanId)
      else pure (.modelValidate loan)

end GetLoanApplicationUseCase

/-- The committed loans of the service at some moment. -/
structure LoanTable where
  rows : List LoanApplicationModel
  ids : rows.Pairwise fun a b => a.id ≠ b.id
  known : KnownStatuses rows

namespace LoanTable

def world (T : LoanTable) : World := ⟨⟨T.rows, []⟩, ⟨[], []⟩, fun _ => none⟩

/-- What a request of the applicant for the loan returns or raises. -/
def outcome (T : LoanTable) (loanId applicantId : Uuid) :
    Option (Except Error LoanApplicationResponse) :=
  (GetLoanApplicationUseCase.execute (.request 0) loanId applicantId T.world).result?

/-- No loan of this id belongs to the applicant. -/
def Foreign (T : LoanTable) (loanId applicantId : Uuid) : Prop :=
  ∀ m ∈ T.rows, m.id = loanId → m.applicantId ≠ applicantId

/-- The tables have the same loans of the applicant. -/
def Agree (applicantId : Uuid) (T T' : LoanTable) : Prop :=
  ∀ m : LoanApplicationModel, m.applicantId = applicantId → (m ∈ T.rows ↔ m ∈ T'.rows)

end LoanTable

section Read
variable {T T' : LoanTable} {w : World} {t : Tx} {loanId applicantId : Uuid}

theorem filter_id_eq_singleton {rows : List LoanApplicationModel} {m : LoanApplicationModel}
    (hids : rows.Pairwise fun a b => a.id ≠ b.id) (hm : m ∈ rows) :
    rows.filter (fun a => a.id = m.id) = [m] := by
  induction rows with
  | nil => exact absurd hm List.not_mem_nil
  | cons a rows ih =>
      obtain ⟨hhead, htail⟩ := List.pairwise_cons.mp hids
      cases List.mem_cons.mp hm with
      | inl heq =>
          subst heq
          rw [List.filter_cons_of_pos (by simp), List.filter_eq_nil_iff.mpr]
          intro b hb hid
          exact hhead b hb (of_decide_eq_true hid).symm
      | inr hmem =>
          rw [List.filter_cons_of_neg (by simpa using hhead m hmem)]
          exact ih htail hmem

theorem getById_of_mem (hrows : w.loans.visible t = T.rows) {m : LoanApplicationModel}
    (hm : m ∈ T.rows) : ∃ loan, LoanRepository.toEntity m = .ok loan ∧
      LoanRepository.getById t m.id w = .returns (some loan) w := by
  obtain ⟨status, hstatus⟩ := T.known m hm
  have hloan : ∃ loan, LoanRepository.toEntity m = .ok loan := by
    simp only [LoanRepository.toEntity, hstatus]
    exact ⟨_, rfl⟩
  obtain ⟨loan, hloan⟩ := hloan
  refine ⟨loan, hloan, getById_of_found ⟨m, ?_, hloan⟩⟩
  rw [hrows, filter_id_eq_singleton T.ids hm]

theorem getById_of_forall_ne (hrows : w.loans.visible t = T.rows)
    (h : ∀ m ∈ T.rows, m.id ≠ loanId) :
    LoanRepository.getById t loanId w = .returns none w := by
  have hnone : (w.loans.visible t).filter (fun a => a.id = loanId) = [] := by
    rw [hrows, List.filter_eq_nil_iff]
    intro m hm hid
    exact h m hm (of_decide_eq_true hid)
  exact getById_of_found hnone

/-- An applicant gets their own loan. -/
theorem execute_of_mem (hrows : w.loans.visible t = T.rows) {m : LoanApplicationModel}
    (hm : m ∈ T.rows) : ∃ loan, LoanRepository.toEntity m = .ok loan ∧
      GetLoanApplicationUseCase.execute t m.id m.applicantId w =
        .returns (.modelValidate loan) w := by
  obtain ⟨loan, hloan, hget⟩ := getById_of_mem hrows hm
  refine ⟨loan, hloan, ?_⟩
  rw [GetLoanApplicationUseCase.execute, Stmt.bind_of_returns hget]
  simp only [(toEntity_eq_ok hloan).2, ne_eq, not_true, if_false, Stmt.pure_apply]

/-- A loan of somebody else is not found, and neither is one that does not exist. -/
theorem execute_of_foreign (hrows : w.loans.visible t = T.rows)
    (h : T.Foreign loanId applicantId) :
    GetLoanApplicationUseCase.execute t loanId applicantId w =
      .raises (.loanApplicationNotFound loanId) w := by
  by_cases hmem : ∃ m ∈ T.rows, m.id = loanId
  · obtain ⟨m, hm, rfl⟩ := hmem
    obtain ⟨loan, hloan, hget⟩ := getById_of_mem hrows hm
    have hother : loan.applicantId ≠ applicantId := by
      rw [(toEntity_eq_ok hloan).2]
      exact h m hm rfl
    rw [GetLoanApplicationUseCase.execute, Stmt.bind_of_returns hget]
    simp only [ne_eq, hother, not_false_eq_true, if_true, Stmt.raise_apply]
  · have hnone : ∀ m ∈ T.rows, m.id ≠ loanId := by
      intro m hm hid
      exact hmem ⟨m, hm, hid⟩
    rw [GetLoanApplicationUseCase.execute, Stmt.bind_of_returns (getById_of_forall_ne hrows hnone)]
    rfl

theorem visible_world (T : LoanTable) (t : Tx) : T.world.loans.visible t = T.rows :=
  Table.visible_of_writes_nil (Table.writes_of_pending_nil t rfl)

theorem outcome_of_mem {m : LoanApplicationModel} (hm : m ∈ T.rows) :
    ∃ loan, LoanRepository.toEntity m = .ok loan ∧
      T.outcome m.id m.applicantId = some (.ok (.modelValidate loan)) := by
  obtain ⟨loan, hloan, hexecute⟩ := execute_of_mem (visible_world T (.request 0)) hm
  refine ⟨loan, hloan, ?_⟩
  rw [LoanTable.outcome, hexecute]
  rfl

theorem outcome_of_foreign (h : T.Foreign loanId applicantId) :
    T.outcome loanId applicantId = some (.error (.loanApplicationNotFound loanId)) := by
  rw [LoanTable.outcome, execute_of_foreign (visible_world T (.request 0)) h]
  rfl

theorem LoanTable.Agree.symm (h : T.Agree applicantId T') : T'.Agree applicantId T :=
  fun m hm => (h m hm).symm

/-- What an applicant reads is decided by their own loans. -/
theorem LoanTable.Agree.outcome_eq (h : T.Agree applicantId T') (loanId : Uuid) :
    T.outcome loanId applicantId = T'.outcome loanId applicantId := by
  by_cases hown : ∃ m ∈ T.rows, m.id = loanId ∧ m.applicantId = applicantId
  · obtain ⟨m, hm, rfl, rfl⟩ := hown
    obtain ⟨loan, hloan, hleft⟩ := outcome_of_mem hm
    obtain ⟨loan', hloan', hright⟩ := outcome_of_mem ((h m rfl).mp hm)
    obtain rfl := Except.ok.inj (hloan.symm.trans hloan')
    rw [hleft, hright]
  · have hforeign : T.Foreign loanId applicantId :=
      fun m hm hid happlicant => hown ⟨m, hm, hid, happlicant⟩
    have hforeign' : T'.Foreign loanId applicantId :=
      fun m hm hid happlicant => hown ⟨m, (h m happlicant).mpr hm, hid, happlicant⟩
    rw [outcome_of_foreign hforeign, outcome_of_foreign hforeign']

/-- A transaction that has written nothing reads the committed table. -/
theorem execute_eq_outcome (hrows : w.loans.committed = T.rows) (ht : w.loans.writes t = [])
    (loanId applicantId : Uuid) :
    (GetLoanApplicationUseCase.execute t loanId applicantId w).result? =
      T.outcome loanId applicantId := by
  have hvisible : w.loans.visible t = T.rows := (Table.visible_of_writes_nil ht).trans hrows
  by_cases hown : ∃ m ∈ T.rows, m.id = loanId ∧ m.applicantId = applicantId
  · obtain ⟨m, hm, rfl, rfl⟩ := hown
    obtain ⟨loan, hloan, hexecute⟩ := execute_of_mem hvisible hm
    obtain ⟨loan', hloan', houtcome⟩ := outcome_of_mem hm
    obtain rfl := Except.ok.inj (hloan.symm.trans hloan')
    rw [hexecute, houtcome]
    rfl
  · have hforeign : T.Foreign loanId applicantId :=
      fun m hm hid happlicant => hown ⟨m, hm, hid, happlicant⟩
    rw [execute_of_foreign hvisible hforeign, outcome_of_foreign hforeign]
    rfl

end Read

section Reachable
variable {v : Pydantic} {s s' : State}

theorem KnownStatuses.step (h : KnownStatuses s.world.loans.committed) (hinv : PartitionInv v s)
    {l : LifecycleLabel} (hstep : lifecycleStep v s l = some s') :
    KnownStatuses s'.world.loans.committed := by
  cases l with
  | service l =>
      cases step_committed hinv.session hinv.outbox hstep with
      | none hloans houtbox => exact hloans ▸ h
      | marks f hf hloans houtbox => exact hloans ▸ h
      | stores c m hm hloans houtbox =>
          rw [hloans]
          intro a ha
          cases List.mem_append.mp ha with
          | inl ha => exact h a ha
          | inr ha =>
              rw [List.mem_singleton.mp ha, (toModel_eq_some hm).2.2.1]
              exact ⟨_, LoanStatus.ofValue?_value _⟩
  | close loanId status =>
      simp only [lifecycleStep] at hstep
      split at hstep
      · obtain rfl := Option.some.inj hstep
        intro a ha
        obtain ⟨m, hm, rfl⟩ := List.mem_map.mp ha
        simp only [setStatus]
        split
        · exact ⟨status, LoanStatus.ofValue?_value status⟩
        · exact h m hm
      · contradiction

/-- What the service has committed, in any run from empty tables, is a loan table. -/
theorem exists_loanTable (huuid : ∀ u : Uuid, v.uuid (.str u.str) = some u)
    {ls : List LifecycleLabel} (hrun : Runs.run (lifecycleStep v) .init ls = some s) :
    ∃ T : LoanTable, T.rows = s.world.loans.committed := by
  have hinv : PartitionInv v s ∧ KnownStatuses s.world.loans.committed := by
    refine Runs.invariant (I := fun s => PartitionInv v s ∧ KnownStatuses s.world.loans.committed)
      ?_ ⟨.init, fun m hm => absurd hm List.not_mem_nil⟩ hrun
    intro s l s' h hstep
    exact ⟨h.1.step huuid hstep, h.2.step h.1 hstep⟩
  refine ⟨⟨s.world.loans.committed, ?_, hinv.2⟩, rfl⟩
  refine hinv.1.session.unique.committed.imp ?_
  intro a b hclash hid
  simp [LoanApplicationModel.clash, hid] at hclash

end Reachable

end CrediGuard.Loan
