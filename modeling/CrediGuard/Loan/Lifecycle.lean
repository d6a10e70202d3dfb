import CrediGuard.Lib.Runs
import CrediGuard.Loan.Domain

/-!
The life of a loan: its nine transition methods, called in any order.

The statuses a loan enters are the ones on a way through the transition table;
every transition raises `rank`, so no way comes back to a status it has left.
-/

namespace CrediGuard.Loan
open Statement

namespace LoanApplication

def startDocVerification (now : Datetime) : Method := transition .docVerification now

def rejectDoc (now : Datetime) : Method := transition .docRejected now

def startUnderwriting (now : Datetime) : Method := transition .underwriting now

def approve (now : Datetime) : Method := transition .approved now

def reject (reasons : Option (List String)) (now : Datetime) : Method := do
  transition .rejected now
  match reasons with
  | some (r :: rs) => Stmt.modify fun loan => { loan with decisionReasons := r :: rs }
  | _ => pure ()

def startDisbursing (now : Datetime) : Method := transition .disbursing now

def completeDisbursement (now : Datetime) : Method := transition .disbursed now

def failDisbursement (now : Datetime) : Method := transition .disbursementFailed now

end LoanApplication

/-- A call of a transition method, with the clock reading it makes. -/
inductive TransitionCall where
  | submit (now : Datetime)
  | startDocVerification (now : Datetime)
  | rejectDoc (now : Datetime)
  | startUnderwriting (now : Datetime)
  | approve (now : Datetime)
  | reject (reasons : Option (List String)) (now : Datetime)
  | startDisbursing (now : Datetime)
  | completeDisbursement (now : Datetime)
  | failDisbursement (now : Datetime)

namespace TransitionCall

def method : TransitionCall → LoanApplication.Method
  | submit now => LoanApplication.submit now
  | startDocVerification now => LoanApplication.startDocVerification now
  | rejectDoc now => LoanApplication.rejectDoc now
  | startUnderwriting now => LoanApplication.startUnderwriting now
  | approve now => LoanApplication.approve now
  | reject reasons now => LoanApplication.reject reasons now
  | startDisbursing now => LoanApplication.startDisbursing now
  | completeDisbursement now => LoanApplication.completeDisbursement now
  | failDisbursement now => LoanApplication.failDisbursement now

def target : TransitionCall → LoanStatus
  | submit _ => .submitted
  | startDocVerification _ => .docVerification
  | rejectDoc _ => .docRejected
  | startUnderwriting _ => .underwriting
  | approve _ => .approved
  | reject _ _ => .rejected
  | startDisbursing _ => .disbursing
  | completeDisbursement _ => .disbursed
  | failDisbursement _ => .disbursementFailed

/-- The reasons a call gives; none is the empty list. -/
def reasons : TransitionCall → List String
  | reject (some reasons) _ => reasons
  | _ => []

end TransitionCall

/-- A loan and the calls that have succeeded on it, each with the status entered. -/
structure Lifecycle where
  loan : LoanApplication
  successes : List (TransitionCall × LoanStatus)

namespace Lifecycle

/-- One call; the caller catches what it raises. -/
def step (s : Lifecycle) (c : TransitionCall) : Option Lifecycle :=
  match c.method s.loan with
  | .waits => none
  | .raises _ loan => some { s with loan := loan }
  | .returns _ loan => some ⟨loan, s.successes ++ [(c, loan.status)]⟩

def entered (s : Lifecycle) : List LoanStatus := s.successes.map Prod.snd

end Lifecycle

/-- A loan as the constructor makes it where no status and no reasons are given. -/
def LoanApplication.init (applicantId : Uuid) (amount : Decimal) (termMonths : Int)
    (monthlyIncome : Decimal) (applicantAge : Int) (id : Uuid)
    (idempotencyKey : Option String) (createdAt updatedAt : Datetime) : LoanApplication :=
  { applicantId, amount, termMonths, monthlyIncome, applicantAge, id, idempotencyKey, createdAt,
    updatedAt }

namespace LoanStatus

def rank : LoanStatus → Nat
  | draft => 0
  | submitted => 1
  | docVerification => 2
  | underwriting => 3
  | approved => 4
  | disbursing => 5
  | disbursed | docRejected | rejected | disbursementFailed => 6

theorem rank_lt_of_transition {a b : LoanStatus} (h : b ∈ a.validTransitions) :
    a.rank < b.rank := by
  cases a <;> cases b <;> first | decide | exact absurd h (by decide)

theorem rank_le (a : LoanStatus) : a.rank ≤ 6 := by
  cases a <;> decide

/-- The statuses entered on a way from `DRAFT` to a status. -/
inductive Path : LoanStatus → List LoanStatus → Prop
  | draft : Path draft []
  | enter {a b : LoanStatus} {xs : List LoanStatus} :
      Path a xs → b ∈ a.validTransitions → Path b (xs ++ [b])

namespace Path
variable {a b : LoanStatus} {xs : List LoanStatus}

theorem rank_le_of_mem (h : Path a xs) : ∀ x ∈ LoanStatus.draft :: xs, x.rank ≤ a.rank := by
  induction h with
  | draft =>
      intro x hx
      rw [List.mem_singleton.mp hx]
  | enter _ hb ih =>
      intro x hx
      cases List.mem_append.mp (List.cons_append .. ▸ hx) with
      | inl hx => exact (ih x hx).trans (rank_lt_of_transition hb).le
      | inr hx => rw [List.mem_singleton.mp hx]

theorem nodup (h : Path a xs) : (LoanStatus.draft :: xs).Nodup := by
  induction h with
  | draft => exact List.nodup_singleton _
  | enter h hb ih =>
      rw [← List.cons_append]
      refine List.nodup_append.mpr ⟨ih, List.nodup_singleton _, ?_⟩
      intro x hx y hy hxy
      have hle := h.rank_le_of_mem x hx
      have hlt := rank_lt_of_transition hb
      rw [hxy, List.mem_singleton.mp hy] at hle
      omega

theorem length_le (h : Path a xs) : xs.length ≤ a.rank := by
  induction h with
  | draft => exact le_rfl
  | enter _ hb ih =>
      have hlt := rank_lt_of_transition hb
      rw [List.length_append, List.length_singleton]
      omega

theorem eq_nil_of_draft (h : Path LoanStatus.draft xs) : xs = [] := by
  generalize hd : LoanStatus.draft = d at h
  cases h with
  | draft => rfl
  | enter _ hb =>
      have hlt := rank_lt_of_transition hb
      rw [← hd] at hlt
      exact absurd hlt (Nat.not_lt_zero _)

/-- A status that only `a` leads to is entered from `a`. -/
theorem eq_snoc_of_only (h : Path b xs)
    (honly : (members.filter fun c => b ∈ c.validTransitions) = [a]) :
    ∃ ys, Path a ys ∧ xs = ys ++ [b] := by
  cases h with
  | draft => exact absurd honly (List.cons_ne_nil _ _).symm
  | @enter c _ ys hys hmem =>
      have hc : c ∈ [a] := by
        rw [← honly]
        exact List.mem_filter.mpr ⟨mem_members c, decide_eq_true hmem⟩
      exact ⟨ys, List.mem_singleton.mp hc ▸ hys, rfl⟩

theorem eq_of_disbursed (h : Path LoanStatus.disbursed xs) :
    xs = [.submitted, .docVerification, .underwriting, .approved, .disbursing, .disbursed] := by
  obtain ⟨_, h₅, hxs⟩ := h.eq_snoc_of_only (a := .disbursing) rfl
  obtain ⟨_, h₄, rfl⟩ := h₅.eq_snoc_of_only (a := .approved) rfl
  obtain ⟨_, h₃, rfl⟩ := h₄.eq_snoc_of_only (a := .underwriting) rfl
  obtain ⟨_, h₂, rfl⟩ := h₃.eq_snoc_of_only (a := .docVerification) rfl
  obtain ⟨_, h₁, rfl⟩ := h₂.eq_snoc_of_only (a := .submitted) rfl
  obtain ⟨_, h₀, rfl⟩ := h₁.eq_snoc_of_only (a := .draft) rfl
  rw [hxs, h₀.eq_nil_of_draft]
  rfl

end Path
end LoanStatus

namespace TransitionCall
variable {c : TransitionCall} {loan loan' : LoanApplication}

theorem method_of_not_mem (h : c.target ∉ loan.status.validTransitions) :
    c.method loan = .raises (.invalidStatusTransition loan.status.value c.target.value) loan := by
  cases c with
  | reject reasons now => exact Stmt.bind_of_raises (LoanApplication.transition_of_not_mem h now)
  | _ now => exact LoanApplication.transition_of_not_mem h now

/-- What a call that is let through does, field by field. -/
structure Enters (c : TransitionCall) (loan loan' : LoanApplication) : Prop where
  status : loan'.status = c.target
  reasons : loan'.decisionReasons = if c.reasons = [] then loan.decisionReasons else c.reasons

/-- Only `reject` leads to `REJECTED`. -/
theorem eq_reject_of_target (h : c.target = .rejected) : ∃ reasons now,
    c = .reject reasons now ∧ c.reasons = reasons.getD [] := by
  cases c with
  | reject reasons now => cases reasons <;> exact ⟨_, now, rfl, rfl⟩
  | _ now => exact absurd h (by simp [target])

theorem reasons_of_target_ne (h : c.target ≠ .rejected) : c.reasons = [] := by
  cases c with
  | reject reasons now => exact absurd rfl h
  | _ => rfl

theorem method_of_mem (h : c.target ∈ loan.status.validTransitions) :
    ∃ loan', c.method loan = .returns () loan' ∧ c.Enters loan loan' := by
  cases c with
  | reject reasons now =>
      have hret := LoanApplication.transition_of_mem h now
      match reasons with
      | none => exact ⟨_, Stmt.bind_of_returns hret, rfl, rfl⟩
      | some [] => exact ⟨_, Stmt.bind_of_returns hret, rfl, rfl⟩
      | some (r :: rs) => exact ⟨_, Stmt.bind_of_returns hret, rfl, rfl⟩
  | _ now => exact ⟨_, LoanApplication.transition_of_mem h now, rfl, rfl⟩

end TransitionCall

namespace Lifecycle
variable {s s' : Lifecycle} {c : TransitionCall}

theorem step_of_not_mem (h : c.target ∉ s.loan.status.validTransitions) : s.step c = some s := by
  simp only [step, TransitionCall.method_of_not_mem h]

theorem step_of_mem (h : c.target ∈ s.loan.status.validTransitions) :
    ∃ loan, s.step c = some ⟨loan, s.successes ++ [(c, c.target)]⟩ ∧ c.Enters s.loan loan := by
  obtain ⟨loan, hret, henters⟩ := TransitionCall.method_of_mem h
  refine ⟨loan, ?_, henters⟩
  simp only [step, hret, henters.status]

theorem step_cases (h : s.step c = some s') :
    (c.target ∉ s.loan.status.validTransitions ∧ s' = s) ∨
      (c.target ∈ s.loan.status.validTransitions ∧ c.Enters s.loan s'.loan ∧
        s'.successes = s.successes ++ [(c, c.target)]) := by
  by_cases hmem : c.target ∈ s.loan.status.validTransitions
  · obtain ⟨loan, hstep, henters⟩ := step_of_mem hmem
    obtain rfl := Option.some.inj (hstep.symm.trans h)
    exact .inr ⟨hmem, henters, rfl⟩
  · exact .inl ⟨hmem, (Option.some.inj ((step_of_not_mem hmem).symm.trans h)).symm⟩

/-- A loan has reasons only in `REJECTED`, and there it has those of the call that
rejected it, which is the last that succeeded; none given are no reasons. -/
structure ReasonsOfRejection (s : Lifecycle) : Prop where
  elsewhere : s.loan.status ≠ .rejected → s.loan.decisionReasons = []
  given : s.loan.status = .rejected → ∃ reasons now,
    s.successes.getLast? = some (.reject reasons now, LoanStatus.rejected) ∧
      s.loan.decisionReasons = reasons.getD []

structure Inv (s : Lifecycle) : Prop where
  path : LoanStatus.Path s.loan.status s.entered
  reasons : s.ReasonsOfRejection

theorem inv_init {loan : LoanApplication} (hstatus : loan.status = .draft)
    (hreasons : loan.decisionReasons = []) : Inv ⟨loan, []⟩ := by
  refine ⟨?_, fun _ => hreasons, fun hrejected => ?_⟩
  · rw [hstatus]
    exact .draft
  · exact absurd (hstatus.symm.trans hrejected) (by decide)

/-- A call that is let through starts without reasons, and leaves its own. -/
theorem decisionReasons_of_enters (h : s.ReasonsOfRejection) {loan : LoanApplication}
    (hmem : c.target ∈ s.loan.status.validTransitions) (henters : c.Enters s.loan loan) :
    loan.decisionReasons = c.reasons := by
  have hnone : s.loan.decisionReasons = [] := by
    refine h.elsewhere fun hrejected => ?_
    rw [hrejected] at hmem
    cases hmem
  rw [henters.reasons, hnone]
  split
  · rename_i hempty
    exact hempty.symm
  · rfl

theorem reasons_step (h : s.ReasonsOfRejection)
    (hmem : c.target ∈ s.loan.status.validTransitions) (henters : c.Enters s.loan s'.loan)
    (hsuccesses : s'.successes = s.successes ++ [(c, c.target)]) : s'.ReasonsOfRejection := by
  have hreasons := decisionReasons_of_enters h hmem henters
  refine ⟨?_, ?_⟩
  · intro hother
    rw [henters.status] at hother
    rw [hreasons, TransitionCall.reasons_of_target_ne hother]
  · intro hrejected
    rw [henters.status] at hrejected
    obtain ⟨reasons, now, hc, hgiven⟩ := TransitionCall.eq_reject_of_target hrejected
    refine ⟨reasons, now, ?_, hreasons.trans hgiven⟩
    rw [hsuccesses, List.getLast?_concat, hrejected, hc]

theorem inv_step (hinv : s.Inv) (h : s.step c = some s') : s'.Inv := by
  obtain ⟨_, rfl⟩ | ⟨hmem, henters, hsuccesses⟩ := step_cases h
  · exact hinv
  · refine ⟨?_, reasons_step hinv.reasons hmem henters hsuccesses⟩
    rw [entered, hsuccesses, List.map_append, henters.status]
    exact hinv.path.enter hmem

theorem step_exists (s : Lifecycle) (c : TransitionCall) : ∃ s', s.step c = some s' := by
  by_cases hmem : c.target ∈ s.loan.status.validTransitions
  · obtain ⟨loan, hstep, _⟩ := step_of_mem hmem
    exact ⟨_, hstep⟩
  · exact ⟨s, step_of_not_mem hmem⟩

theorem run_exists (s : Lifecycle) (calls : List TransitionCall) :
    ∃ s', Runs.run step s calls = some s' := by
  induction calls generalizing s with
  | nil => exact ⟨s, rfl⟩
  | cons c calls ih =>
      obtain ⟨t, ht⟩ := s.step_exists c
      obtain ⟨s', hrun⟩ := ih t
      exact ⟨s', Runs.run_cons_eq_some.mpr ⟨t, ht, hrun⟩⟩

/-- A loan that is not active refuses every call. -/
theorem transitions_nil_of_not_active {loan : LoanApplication} (h : loan.isActive = false) :
    loan.status.validTransitions = [] := by
  unfold LoanApplication.isActive at h
  revert h
  cases loan.status with
  | rejected => exact fun _ => rfl
  | disbursed => exact fun _ => rfl
  | docRejected => exact fun _ => rfl
  | disbursementFailed => exact fun _ => rfl
  | _ => exact fun h => absurd h (by decide)

/-- The call an active loan lets through. -/
theorem exists_target_of_active {loan : LoanApplication} (h : loan.isActive = true) :
    ∃ c : TransitionCall, c.target ∈ loan.status.validTransitions := by
  unfold LoanApplication.isActive at h
  revert h
  cases loan.status with
  | draft => exact fun _ => ⟨.submit 0, .head _⟩
  | submitted => exact fun _ => ⟨.startDocVerification 0, .head _⟩
  | docVerification => exact fun _ => ⟨.startUnderwriting 0, .head _⟩
  | underwriting => exact fun _ => ⟨.approve 0, .head _⟩
  | approved => exact fun _ => ⟨.startDisbursing 0, .head _⟩
  | disbursing => exact fun _ => ⟨.completeDisbursement 0, .head _⟩
  | _ => exact fun h => absurd h (by decide)

theorem isActive_eq_false_iff (s : Lifecycle) :
    s.loan.isActive = false ↔
      ∀ calls s', Runs.run step s calls = some s' → s'.loan = s.loan := by
  constructor
  · intro hclosed calls s' hrun
    refine Runs.invariant (I := fun t => t.loan = s.loan) ?_ rfl hrun
    intro t c t' ht hstep
    obtain ⟨_, rfl⟩ | ⟨hmem, _⟩ := step_cases hstep
    · exact ht
    · rw [ht, transitions_nil_of_not_active hclosed] at hmem
      cases hmem
  · intro hfixed
    by_contra hactive
    obtain ⟨c, hmem⟩ := exists_target_of_active (Bool.eq_true_of_not_eq_false hactive)
    obtain ⟨loan, hstep, henters⟩ := step_of_mem hmem
    have heq : loan = s.loan := hfixed [c] _ (Runs.run_cons_eq_some.mpr ⟨_, hstep, rfl⟩)
    have hlt := LoanStatus.rank_lt_of_transition hmem
    rw [← henters.status, heq] at hlt
    exact absurd hlt (Nat.lt_irrefl _)

/-- What a run of calls leaves behind. -/
structure Lawful (s : Lifecycle) : Prop where
  refused : ∀ (c : TransitionCall) (e : Error) (loan : LoanApplication),
    c.method s.loan = .raises e loan →
    loan = s.loan ∧ e = .invalidStatusTransition s.loan.status.value c.target.value
  once : (LoanStatus.draft :: s.entered).Nodup
  six : s.successes.length ≤ 6
  disbursed : s.loan.status = .disbursed → s.entered =
    [.submitted, .docVerification, .underwriting, .approved, .disbursing, .disbursed]
  reasons : s.ReasonsOfRejection
  closed : s.loan.isActive = false ↔
    ∀ calls s', Runs.run step s calls = some s' → s'.loan = s.loan

theorem Inv.lawful (hinv : s.Inv) : s.Lawful := by
  refine ⟨?_, hinv.path.nodup, ?_, ?_, hinv.reasons, isActive_eq_false_iff s⟩
  · intro c e loan hraise
    by_cases hmem : c.target ∈ s.loan.status.validTransitions
    · obtain ⟨_, hret, _⟩ := TransitionCall.method_of_mem hmem
      exact absurd (hret.symm.trans hraise) (by simp)
    · rw [TransitionCall.method_of_not_mem hmem] at hraise
      cases hraise
      exact ⟨rfl, rfl⟩
  · have hle := hinv.path.length_le
    rw [entered, List.length_map] at hle
    exact hle.trans s.loan.status.rank_le
  · intro hstatus
    have hpath := hinv.path
    rw [hstatus] at hpath
    exact hpath.eq_of_disbursed

theorem lifecycle_lawful (applicantId : Uuid) (amount : Decimal) (termMonths : Int)
    (monthlyIncome : Decimal) (applicantAge : Int) (id : Uuid)
    (idempotencyKey : Option String) (createdAt updatedAt : Datetime)
    (calls : List TransitionCall) :
    ∃ s, Runs.run step
        ⟨.init applicantId amount termMonths monthlyIncome applicantAge id idempotencyKey
          createdAt updatedAt, []⟩ calls = some s ∧ s.Lawful := by
  have hinit : Inv ⟨.init applicantId amount termMonths monthlyIncome applicantAge id
      idempotencyKey createdAt updatedAt, []⟩ := inv_init rfl rfl
  obtain ⟨s, hrun⟩ := run_exists _ calls
  have hinv : s.Inv := Runs.invariant (fun _ _ _ => inv_step) hinit hrun
  exact ⟨s, hrun, hinv.lawful⟩

end Lifecycle

end CrediGuard.Loan
