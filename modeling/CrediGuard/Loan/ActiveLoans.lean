import CrediGuard.Loan.Service

/-!
At most one active loan per applicant.

The guard is a read followed, in the same transaction, by an insert and a commit,
and no index enforces what it checks. A run keeps the property just if no request
commits a loan while a loan of its applicant is committed that its guard query
did not see.
-/

namespace CrediGuard.Loan
open ReadCommitted

def closedStatuses : List String := ["REJECTED", "DISBURSED", "DOC_REJECTED", "DISBURSEMENT_FAILED"]

def LoanApplicationModel.isOpen (m : LoanApplicationModel) : Bool := m.status ∉ closedStatuses

def openLoans (rows : List LoanApplicationModel) (applicantId : Uuid) :
    List LoanApplicationModel :=
  rows.filter fun m => m.applicantId = applicantId && m.isOpen

def AtMostOneActive (rows : List LoanApplicationModel) : Prop :=
  ∀ applicantId, (openLoans rows applicantId).length ≤ 1

/-- Every stored status is the value of a `LoanStatus`. -/
def KnownStatuses (rows : List LoanApplicationModel) : Prop :=
  ∀ m ∈ rows, ∃ status, LoanStatus.ofValue? m.status = some status

theorem atMostOneActive_append {rows : List LoanApplicationModel} {m : LoanApplicationModel}
    (hm : m.isOpen = true) :
    AtMostOneActive (rows ++ [m]) ↔
      AtMostOneActive rows ∧ openLoans rows m.applicantId = [] := by
  have hlen (a : Uuid) : (openLoans (rows ++ [m]) a).length =
      (openLoans rows a).length + if m.applicantId = a then 1 else 0 := by
    by_cases ha : m.applicantId = a <;> simp [openLoans, List.filter_append, hm, ha]
  constructor
  · intro h
    refine ⟨?_, ?_⟩
    · intro a
      have ha := h a
      rw [hlen] at ha
      omega
    · have ha := h m.applicantId
      rw [hlen, if_pos rfl] at ha
      exact List.length_eq_zero_iff.mp (by omega)
  · rintro ⟨hrows, hnone⟩ a
    rw [hlen]
    by_cases ha : m.applicantId = a
    · subst ha
      simp [hnone]
    · simpa [ha] using hrows a

theorem isOpen_iff {m : LoanApplicationModel} {status : LoanStatus}
    (h : LoanStatus.ofValue? m.status = some status) :
    m.isOpen = true ↔ m.status ∈ LoanRepository.activeStatuses := by
  rw [← LoanStatus.value_of_ofValue? h, mem_activeStatuses, LoanApplicationModel.isOpen,
    ← LoanStatus.value_of_ofValue? h]
  cases status <;> decide

theorem isOpen_of_toModel {c : CreateCall} {m : LoanApplicationModel}
    (h : LoanRepository.toModel c.loan = some m) : m.isOpen = true := by
  obtain ⟨_, _, hstatus, _⟩ := toModel_eq_some h
  simp only [LoanApplicationModel.isOpen, hstatus]
  exact (by decide : (decide (LoanStatus.submitted.value ∉ closedStatuses)) = true)

section Invariant

/-- Between a request's guard query and now: it saw no active loan of its
applicant, and what has been committed since is active. -/
def Guarded (rows : List LoanApplicationModel) (r : Request) : Prop :=
  activeRows r.guardRead r.call.applicantId = [] ∧
    ∀ m ∈ rows, m ∉ r.guardRead → m.isOpen = true

def Inserted (r : Request) (ws : List (Write LoanApplicationModel)) : Prop :=
  ∃ m, LoanRepository.toModel r.call.loan = some m ∧ ws = [.insert m]

def Progress.LoanInv (rows : List LoanApplicationModel) (ws : List (Write LoanApplicationModel))
    (r : Request) : Progress → Prop
  | .running (.redisGet _) => ws = []
  | .running (.getById _) => ws = []
  | .running .existsActive => ws = []
  | .running .saveLoan => ws = [] ∧ Guarded rows r
  | .running _ => Inserted r ws ∧ Guarded rows r
  | .committing _ => ws = [] ∨ (Inserted r ws ∧ Guarded rows r)
  | .aborting _ => ws = [] ∨ (Inserted r ws ∧ Guarded rows r)
  | .returned _ => ws = []
  | .raised _ => ws = []

structure LoanInv (s : State) : Prop where
  known : KnownStatuses s.world.loans.committed
  absent : ∀ n, s.requests n = none → s.world.loans.writes (.request n) = []
  present : ∀ n r, s.requests n = some r →
    r.progress.LoanInv s.world.loans.committed (s.world.loans.writes (.request n)) r

theorem Guarded.mono {rows rows' : List LoanApplicationModel} {r : Request}
    (h : Guarded rows r) (hext : ∀ m ∈ rows', m ∈ rows ∨ m.isOpen = true) :
    Guarded rows' r := by
  refine ⟨h.1, ?_⟩
  intro m hm hnew
  cases hext m hm with
  | inl hold => exact h.2 m hold hnew
  | inr hopen => exact hopen

theorem Progress.LoanInv.mono {rows rows' : List LoanApplicationModel}
    {ws : List (Write LoanApplicationModel)} {r : Request} {p : Progress}
    (h : p.LoanInv rows ws r) (hext : ∀ m ∈ rows', m ∈ rows ∨ m.isOpen = true) :
    p.LoanInv rows' ws r := by
  cases p with
  | running p =>
      cases p with
      | redisGet key => exact h
      | getById existingId => exact h
      | existsActive => exact h
      | saveLoan => exact ⟨h.1, h.2.mono hext⟩
      | saveEvent => exact ⟨h.1, h.2.mono hext⟩
      | saveStatusEvent => exact ⟨h.1, h.2.mono hext⟩
      | acquire key => exact ⟨h.1, h.2.mono hext⟩
  | committing a => exact h.imp_right fun hi => ⟨hi.1, hi.2.mono hext⟩
  | aborting e => exact h.imp_right fun hi => ⟨hi.1, hi.2.mono hext⟩
  | returned a => exact h
  | raised e => exact h

/-- Whatever a request was doing, it has inserted its loan after its guard or
nothing yet. -/
theorem Progress.LoanInv.aborting {rows : List LoanApplicationModel}
    {ws : List (Write LoanApplicationModel)} {r : Request} {p : Progress}
    (h : p.LoanInv rows ws r) : ws = [] ∨ (Inserted r ws ∧ Guarded rows r) := by
  cases p with
  | running p =>
      cases p with
      | redisGet key => exact .inl h
      | getById existingId => exact .inl h
      | existsActive => exact .inl h
      | saveLoan => exact .inl h.1
      | saveEvent => exact .inr h
      | saveStatusEvent => exact .inr h
      | acquire key => exact .inr h
  | committing a => exact h
  | aborting e => exact h
  | returned a => exact .inl h
  | raised e => exact .inl h

variable {v : Pydantic} {s s' : State} {n : Nat} {r : Request}

theorem LoanInv.setRequest (h : LoanInv s) {r' : Request} {w : World}
    (hknown : KnownStatuses w.loans.committed)
    (hext : ∀ m ∈ w.loans.committed, m ∈ s.world.loans.committed ∨ m.isOpen = true)
    (hother : ∀ k, n ≠ k →
      w.loans.writes (.request k) = s.world.loans.writes (.request k))
    (hn : r'.progress.LoanInv w.loans.committed (w.loans.writes (.request n)) r') :
    LoanInv { s.setRequest n r' with world := w } := by
  refine ⟨hknown, ?_, ?_⟩
  · intro k hk
    by_cases hkn : n = k
    · subst hkn
      simp [State.setRequest] at hk
    · rw [hother k hkn]
      refine h.absent k ?_
      simpa [State.setRequest, Function.update_of_ne (Ne.symm hkn)] using hk
  · intro k rk hk
    by_cases hkn : n = k
    · subst hkn
      obtain rfl : r' = rk := by simpa [State.setRequest] using hk
      exact hn
    · rw [hother k hkn]
      refine (h.present k rk ?_).mono hext
      simpa [State.setRequest, Function.update_of_ne (Ne.symm hkn)] using hk

/-- A request that leaves the loan table alone. -/
theorem LoanInv.setRequest_same (h : LoanInv s) {r' : Request} {w : World}
    (hloans : w.loans = s.world.loans)
    (hn : r'.progress.LoanInv s.world.loans.committed
      (s.world.loans.writes (.request n)) r') :
    LoanInv { s.setRequest n r' with world := w } := by
  refine h.setRequest ?_ ?_ ?_ ?_
  · rw [hloans]
    exact h.known
  · intro m hm
    rw [hloans] at hm
    exact .inl hm
  · intro k _
    rw [hloans]
  · rw [hloans]
    exact hn

theorem guarded_of_query {r' : Request}
    (hread : r'.guardRead = s.world.loans.committed)
    (hnone : activeRows s.world.loans.committed r'.call.applicantId = []) :
    Guarded s.world.loans.committed r' := by
  refine ⟨by rw [hread]; exact hnone, ?_⟩
  intro m hm hnew
  rw [hread] at hnew
  exact absurd hm hnew

theorem LoanInv.next (h : LoanInv s) (hr : s.requests n = some r) {p : Phase}
    {q : Phase ⊕ LoanApplicationResponse} {w : World} (hp : r.progress = .running p)
    (hdoes : Does (.request n) r.call s.world p q w) :
    LoanInv { s.setRequest n { r with
      progress := Phase.after q
      guardRead := if p = .existsActive then s.world.loans.committed else r.guardRead }
        with world := w } := by
  have hcur := h.present n r hr
  rw [hp] at hcur
  cases p with
  | redisGet key =>
      obtain ⟨rfl, rfl⟩ := hdoes
      refine h.setRequest_same rfl ?_
      cases s.world.redis (IdempotencyStore.redisKey key) with
      | none => exact hcur
      | some existingId => exact hcur
  | getById existingId =>
      obtain ⟨rfl, loanId, found, _, _, rfl⟩ := hdoes
      refine h.setRequest_same rfl ?_
      cases found with
      | none => exact hcur
      | some loan => exact .inl hcur
  | existsActive =>
      obtain ⟨rfl, rfl, hnone⟩ := hdoes
      rw [Table.visible_of_writes_nil hcur] at hnone
      exact h.setRequest_same rfl ⟨hcur, guarded_of_query rfl hnone⟩
  | saveLoan =>
      obtain ⟨rfl, m, loans, hm, hinsert, rfl⟩ := hdoes
      obtain ⟨rfl, _, _⟩ := Table.insert_eq_done hinsert
      refine h.setRequest h.known (fun m hm => .inl hm) ?_ ?_
      · intro k hk
        exact Table.writes_write_of_ne _ _ (by simpa using hk)
      · refine ⟨⟨m, hm, ?_⟩, hcur.2⟩
        rw [Table.writes_write_self, hcur.1]
        rfl
  | saveEvent =>
      obtain ⟨rfl, outbox, _, rfl⟩ := hdoes
      exact h.setRequest_same rfl hcur
  | saveStatusEvent =>
      obtain ⟨rfl, outbox, _, rfl⟩ := hdoes
      refine h.setRequest_same rfl ?_
      cases r.call.key? with
      | none => exact .inr hcur
      | some key => exact hcur
  | acquire key =>
      obtain ⟨rfl, hloans, _, _⟩ := hdoes
      exact h.setRequest_same hloans (.inr hcur)

/-- The rows a commit of request `n` leaves: those of before and, where it has
created a loan, that loan. -/
theorem LoanInv.committed_commit (h : LoanInv s) (hr : s.requests n = some r)
    {a : LoanApplicationResponse} (hp : r.progress = .committing a) :
    (s.world.loans.writes (.request n) = [] ∧
        (s.world.loans.commit (.request n)).committed = s.world.loans.committed) ∨
      ∃ m, LoanRepository.toModel r.call.loan = some m ∧
        s.world.loans.writes (.request n) = [.insert m] ∧ Guarded s.world.loans.committed r ∧
        (s.world.loans.commit (.request n)).committed = s.world.loans.committed ++ [m] := by
  have hcur := h.present n r hr
  rw [hp] at hcur
  cases hcur with
  | inl hnil =>
      refine .inl ⟨hnil, ?_⟩
      simp [hnil]
  | inr hins =>
      obtain ⟨⟨m, hm, hws⟩, hguard⟩ := hins
      refine .inr ⟨m, hm, hws, hguard, ?_⟩
      simp [hws]

theorem LoanInv.commits (h : LoanInv s) (hr : s.requests n = some r)
    {a : LoanApplicationResponse} (hp : r.progress = .committing a) :
    LoanInv { s.setRequest n { r with progress := .returned a }
      with world := s.world.commit (.request n) } := by
  refine h.setRequest ?_ ?_ ?_ ?_
  · cases h.committed_commit hr hp with
    | inl hold =>
        intro m hm
        rw [World.commit, hold.2] at hm
        exact h.known m hm
    | inr hnew =>
        obtain ⟨m, hm, _, _, hrows⟩ := hnew
        intro m' hm'
        rw [World.commit, hrows] at hm'
        cases List.mem_append.mp hm' with
        | inl hm' => exact h.known m' hm'
        | inr hm' =>
            obtain rfl := List.mem_singleton.mp hm'
            refine ⟨.submitted, ?_⟩
            rw [(toModel_eq_some hm).2.2.1]
            exact LoanStatus.ofValue?_value .submitted
  · cases h.committed_commit hr hp with
    | inl hold =>
        intro m hm
        rw [World.commit, hold.2] at hm
        exact .inl hm
    | inr hnew =>
        obtain ⟨m, hm, _, _, hrows⟩ := hnew
        intro m' hm'
        rw [World.commit, hrows] at hm'
        refine (List.mem_append.mp hm').imp_right fun hm' => ?_
        obtain rfl := List.mem_singleton.mp hm'
        exact isOpen_of_toModel hm
  · intro k hk
    simp [World.commit, Table.writes_commit, hk]
  · exact Table.writes_commit_self _ _

theorem LoanInv.request (h : LoanInv s) (hr : s.requests n = some r) {fails : Bool}
    (hstep : RequestStep s n r fails s') : LoanInv s' := by
  cases hstep with
  | next p q w hp hdoes => exact h.next hr hp hdoes
  | raises p e fails hp => exact h.setRequest_same rfl (h.present n r hr).aborting
  | commitFails a e hp => exact h.setRequest_same rfl (h.present n r hr).aborting
  | commits a hp => exact h.commits hr hp
  | rollsBack e hp =>
      refine h.setRequest h.known (fun m hm => .inl hm) ?_ (Table.writes_rollback_self _ _)
      intro k hk
      simp [World.rollback, Table.writes_rollback, hk]

theorem LoanInv.step (h : LoanInv s) {l : Label} (hstep : step v s l = some s') :
    LoanInv s' := by
  cases l with
  | arrive n c =>
      simp only [Loan.step, arriveStep] at hstep
      split at hstep
      · rename_i hfree
        obtain rfl := Option.some.inj hstep
        have hnone : s.requests n = none := by
          simp only [Bool.and_eq_true, Option.isNone_iff_eq_none] at hfree
          exact hfree.1
        have hstart : (Progress.running c.start).LoanInv s.world.loans.committed
            (s.world.loans.writes (.request n)) { call := c, progress := .running c.start } := by
          simp only [CreateCall.start]
          cases c.key? with
          | none => exact h.absent n hnone
          | some key => exact h.absent n hnone
        have hset := h.setRequest_same (n := n) (w := s.world) rfl hstart
        exact ⟨hset.known, hset.absent, hset.present⟩
      · contradiction
  | request n =>
      obtain ⟨r, hr, hcase⟩ := requestStep_cases hstep
      exact h.request hr hcase
  | requestFails n =>
      obtain ⟨r, hr, hcase⟩ := requestFailStep_cases hstep
      exact h.request hr hcase
  | expire key =>
      obtain rfl := Option.some.inj hstep
      exact ⟨h.known, h.absent, h.present⟩
  | worker n l =>
      obtain ⟨hloans, _, hrequests⟩ := (workerStep_cases hstep).frame
      refine ⟨?_, ?_, ?_⟩
      · rw [hloans]
        exact h.known
      · rw [hloans, hrequests]
        exact h.absent
      · rw [hloans, hrequests]
        exact h.present

theorem LoanInv.of_quiet (hquiet : s.Quiet) (hknown : KnownStatuses s.world.loans.committed) :
    LoanInv s := by
  refine ⟨hknown, ?_, ?_⟩
  · intro n _
    simp [Table.writes, hquiet.loans]
  · intro n r hr
    simp [hquiet.requests n] at hr

end Invariant

section Exactness
variable {v : Pydantic} {s s' : State}

/-- A request that commits a new loan has seen, in its guard query, every loan of
its applicant that is committed by then. -/
def CommitSeesAll (s : State) : Label → Prop
  | .request n => ∀ r a, s.requests n = some r → r.progress = .committing a →
      s.world.loans.writes (.request n) ≠ [] →
      ∀ m ∈ s.world.loans.committed, m.applicantId = r.call.applicantId → m ∈ r.guardRead
  | _ => True

theorem openLoans_eq_nil_iff {r : Request} (h : LoanInv s)
    (hguard : Guarded s.world.loans.committed r) :
    openLoans s.world.loans.committed r.call.applicantId = [] ↔
      ∀ m ∈ s.world.loans.committed, m.applicantId = r.call.applicantId → m ∈ r.guardRead := by
  simp only [openLoans, List.filter_eq_nil_iff, Bool.and_eq_true, decide_eq_true_eq, not_and]
  constructor
  · intro hnone m hm happlicant
    by_contra hnew
    exact hnone m hm happlicant (hguard.2 m hm hnew)
  · intro hseen m hm happlicant hopen
    obtain ⟨status, hstatus⟩ := h.known m hm
    have hactive := (isOpen_iff hstatus).mp hopen
    have hmem : m ∈ activeRows r.guardRead r.call.applicantId := by
      simp only [activeRows, List.mem_filter, Bool.and_eq_true, decide_eq_true_eq]
      exact ⟨hseen m hm happlicant, happlicant, hactive⟩
    rw [hguard.1] at hmem
    contradiction

theorem committed_of_next {n : Nat} {c : CreateCall} {w w' : World} {p : Phase}
    {q : Phase ⊕ LoanApplicationResponse} (h : Does (.request n) c w p q w') :
    w'.loans.committed = w.loans.committed := by
  cases p with
  | redisGet key => rw [h.1]
  | getById existingId => rw [h.1]
  | existsActive => rw [h.1]
  | saveLoan =>
      obtain ⟨_, m, loans, _, hinsert, rfl⟩ := h
      obtain ⟨rfl, _, _⟩ := Table.insert_eq_done hinsert
      rfl
  | saveEvent =>
      obtain ⟨_, outbox, _, rfl⟩ := h
      rfl
  | saveStatusEvent =>
      obtain ⟨_, outbox, _, rfl⟩ := h
      rfl
  | acquire key => rw [h.2.1]

theorem step_atMostOneActive (h : LoanInv s) (hone : AtMostOneActive s.world.loans.committed)
    {l : Label} (hstep : step v s l = some s') :
    AtMostOneActive s'.world.loans.committed ↔ CommitSeesAll s l := by
  have hsame (hrows : s'.world.loans.committed = s.world.loans.committed)
      (hC : CommitSeesAll s l) :
      AtMostOneActive s'.world.loans.committed ↔ CommitSeesAll s l := by
    rw [hrows]
    exact ⟨fun _ => hC, fun _ => hone⟩
  cases l with
  | arrive n c =>
      refine hsame ?_ trivial
      simp only [step, arriveStep] at hstep
      split at hstep
      · obtain rfl := Option.some.inj hstep
        rfl
      · contradiction
  | requestFails n =>
      refine hsame ?_ trivial
      simp only [step, requestFailStep] at hstep
      split at hstep
      · contradiction
      · split at hstep <;> first | contradiction | (obtain rfl := Option.some.inj hstep; rfl)
  | expire key =>
      obtain rfl := Option.some.inj hstep
      exact hsame rfl trivial
  | worker n l =>
      refine hsame ?_ trivial
      rw [(workerStep_cases hstep).frame.1]
  | request n =>
      obtain ⟨r, hr, hcase⟩ := requestStep_cases hstep
      -- only a commit can change the committed rows, and only it is constrained
      have hfree (hp : ∀ a, r.progress ≠ .committing a) : CommitSeesAll s (.request n) := by
        intro r' a hr' hp'
        obtain rfl : r = r' := Option.some.inj (hr.symm.trans hr')
        exact absurd hp' (hp a)
      cases hcase with
      | next p q w hp hdoes =>
          exact hsame (committed_of_next hdoes) (hfree fun a ha => by simp [hp] at ha)
      | raises p e fails hp => exact hsame rfl (hfree fun a ha => by simp [hp] at ha)
      | rollsBack e hp => exact hsame rfl (hfree fun a ha => by simp [hp] at ha)
      | commits a hp =>
          cases h.committed_commit hr hp with
          | inl hold =>
              refine hsame hold.2 ?_
              intro r' a' _ _ hws
              exact absurd hold.1 hws
          | inr hnew =>
              obtain ⟨m, hm, hws, hguard, hrows⟩ := hnew
              have happlicant : m.applicantId = r.call.applicantId := (toModel_eq_some hm).2.1
              change AtMostOneActive (s.world.loans.commit (.request n)).committed ↔ _
              rw [hrows, atMostOneActive_append (isOpen_of_toModel hm), happlicant,
                openLoans_eq_nil_iff h hguard]
              constructor
              · rintro ⟨_, hseen⟩ r' a' hr' _ _
                obtain rfl : r = r' := Option.some.inj (hr.symm.trans hr')
                exact hseen
              · intro hC
                exact ⟨hone, hC r a hr hp (by simp [hws])⟩

/-- From a table with at most one active loan per applicant and no open
transaction, a run keeps it so just if every commit of a new loan has seen all
committed loans of its applicant. -/
theorem atMostOneActive_iff (hquiet : s.Quiet)
    (hknown : KnownStatuses s.world.loans.committed)
    (hone : AtMostOneActive s.world.loans.committed) (ls : List Label) :
    Runs.Throughout (step v) (fun s => AtMostOneActive s.world.loans.committed) s ls ↔
      Runs.EachStep (step v) CommitSeesAll s ls := by
  refine Runs.throughout_iff_eachStep (I := LoanInv) ?_ ?_ (.of_quiet hquiet hknown) hone ls
  · intro s l s' h _ _ hstep
    exact h.step hstep
  · intro s l s' h hone hstep
    exact step_atMostOneActive h hone hstep

end Exactness

section Race

/-- Both requests pass the guard before either commits. -/
def raceLabels : List Label :=
  [.arrive 0 (.sample ⟨100⟩ none 1), .arrive 1 (.sample ⟨100⟩ none 4),
    .request 0, .request 1] ++ List.replicate 4 (.request 0) ++ List.replicate 4 (.request 1)

theorem race_not_atMostOneActive :
    ∃ s', Runs.run (step Pydantic.strict) State.init raceLabels = some s' ∧
      ¬ AtMostOneActive s'.world.loans.committed := by
  have hrun : ((Runs.run (step Pydantic.strict) State.init raceLabels).map fun s =>
      (openLoans s.world.loans.committed ⟨100⟩).length) = some 2 := by decide +kernel
  cases h : Runs.run (step Pydantic.strict) State.init raceLabels with
  | none => simp [h] at hrun
  | some s' =>
      refine ⟨s', rfl, ?_⟩
      intro hone
      have htwo : (openLoans s'.world.loans.committed ⟨100⟩).length = 2 := by
        simpa [h] using hrun
      have := hone ⟨100⟩
      omega

theorem atMostOneActive_iff_race :
    Runs.Throughout (step Pydantic.strict)
        (fun s => AtMostOneActive s.world.loans.committed) State.init raceLabels ↔
      Runs.EachStep (step Pydantic.strict) CommitSeesAll State.init raceLabels :=
  atMostOneActive_iff State.quiet_init (fun _ hm => absurd hm List.not_mem_nil)
    (fun _ => Nat.zero_le 1) raceLabels

end Race

end CrediGuard.Loan
