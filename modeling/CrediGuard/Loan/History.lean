import CrediGuard.Loan.Service

/-!
Create calls one after the other: `execute` inside the transaction of
`get_session`, whose commit may fail. A call is a run of the service in which
only its request moves.
-/

namespace CrediGuard.Loan
open ReadCommitted Statement

/-- `get_session` around a body: commit what it returns, roll back what it raises. -/
def withSession {α : Type} (t : Tx) (commits : Bool) (body : Statement α) (w : World) :
    Option (Except Error α × World) :=
  match body w with
  | .waits => none
  | .raises e w' => some (.error e, w'.rollback t)
  | .returns a w' =>
      if commits then some (.ok a, w'.commit t)
      else some (.error .connectionError, w'.rollback t)

section Execute

def addedEvents (t : Tx) (c : CreateCall) (outbox : Table Tx OutboxEventModel) :
    Table Tx OutboxEventModel :=
  (outbox.write t (.insert (OutboxRepository.toModel (outboxEvent c.loan c.draws)))).write t
    (.insert (OutboxRepository.toModel (statusOutboxEvent c.loan c.draws)))

def acquired (c : CreateCall) (redis : String → Option String) : String → Option String :=
  match c.key? with
  | none => redis
  | some key => Function.update redis (IdempotencyStore.redisKey key)
      ((redis (IdempotencyStore.redisKey key)).or (some c.loan.id.str))

/-- The idempotency key leads to no stored loan. -/
def NoReplay (t : Tx) (c : CreateCall) (w : World) : Prop :=
  ∀ key, c.key? = some key → ∀ existingId,
    w.redis (IdempotencyStore.redisKey key) = some existingId →
    ∃ loanId, Uuid.parse existingId = some loanId ∧ Found t w loanId none

/-- The loan is inserted after a guard query that found no active one. -/
structure Saved (t : Tx) (c : CreateCall) (w w' : World) : Prop where
  noReplay : NoReplay t c w
  guard : activeRows (w.loans.visible t) c.applicantId = []
  insert : ∃ m, LoanRepository.toModel c.loan = some m ∧
    w.loans.insert LoanApplicationModel.clash t m = .done w'.loans

structure Created (t : Tx) (c : CreateCall) (w : World) (response : LoanApplicationResponse)
    (w' : World) : Prop where
  saved : Saved t c w w'
  response : response = LoanApplicationResponse.modelValidate c.loan
  outbox : w'.outbox = addedEvents t c w.outbox
  redis : w'.redis = acquired c w.redis

structure Replayed (t : Tx) (c : CreateCall) (w : World) (response : LoanApplicationResponse)
    (w' : World) : Prop where
  unchanged : w' = w
  found : ∃ key existingId loanId loan, c.key? = some key ∧
    w.redis (IdempotencyStore.redisKey key) = some existingId ∧
    Uuid.parse existingId = some loanId ∧ Found t w loanId (some loan) ∧
    response = LoanApplicationResponse.modelValidate loan

/-- What holds when an undisturbed call reaches a phase, `w` being the state it
started in. -/
def Reached (t : Tx) (c : CreateCall) (w : World) : Phase → World → Prop
  | .redisGet key, w' => w' = w ∧ c.key? = some key
  | .getById existingId, w' => w' = w ∧ ∃ key, c.key? = some key ∧
      w.redis (IdempotencyStore.redisKey key) = some existingId
  | .existsActive, w' => w' = w ∧ NoReplay t c w
  | .saveLoan, w' => w' = w ∧ NoReplay t c w ∧ activeRows (w.loans.visible t) c.applicantId = []
  | .saveEvent, w' => Saved t c w w' ∧ w'.outbox = w.outbox ∧ w'.redis = w.redis
  | .saveStatusEvent, w' => Saved t c w w' ∧ w'.redis = w.redis ∧ w'.outbox = w.outbox.write t
      (.insert (OutboxRepository.toModel (outboxEvent c.loan c.draws)))
  | .acquire key, w' => c.key? = some key ∧ Saved t c w w' ∧ w'.redis = w.redis ∧
      w'.outbox = addedEvents t c w.outbox

theorem Saved.rollback {t : Tx} {c : CreateCall} {w w' : World} (h : Saved t c w w') :
    w'.loans.rollback t = w.loans.rollback t := by
  obtain ⟨m, _, hinsert⟩ := h.insert
  obtain ⟨hloans, _, _⟩ := Table.insert_eq_done hinsert
  rw [hloans, Table.rollback_write]

/-- A phase that raises leaves only writes that a rollback undoes. -/
theorem Reached.rollback {t : Tx} {c : CreateCall} {w w' : World} {p : Phase}
    (h : Reached t c w p w') : w'.rollback t = w.rollback t := by
  cases p with
  | redisGet key => rw [h.1]
  | getById existingId => rw [h.1]
  | existsActive => rw [h.1]
  | saveLoan => rw [h.1]
  | saveEvent => simp only [World.rollback, h.1.rollback, h.2.1, h.2.2]
  | saveStatusEvent =>
      simp only [World.rollback, h.1.rollback, h.2.1, h.2.2, Table.rollback_write]
  | acquire key =>
      simp only [World.rollback, h.2.1.rollback, h.2.2.1, h.2.2.2, addedEvents,
        Table.rollback_write]

theorem reached_start (t : Tx) (c : CreateCall) (w : World) : Reached t c w c.start w := by
  simp only [CreateCall.start]
  cases h : c.key? with
  | none => exact ⟨rfl, fun key hkey => by simp [h] at hkey⟩
  | some key => exact ⟨rfl, h⟩

theorem reached_resume {t : Tx} {c : CreateCall} {w w' : World} {p : Phase}
    (h : Reached t c w p w') :
    Stmt.Ensures (resume t c p) w'
      (fun x w'' => Sum.elim (Reached t c w · w'')
        (fun a => Replayed t c w a w'' ∨ Created t c w a w'') x)
      (fun _ w'' => w''.rollback t = w.rollback t) := by
  refine (resume_ensures t c w' p).mono ?_ ?_
  · intro x w'' hdoes
    cases p with
    | redisGet key =>
        obtain ⟨rfl, hkey⟩ := h
        obtain ⟨rfl, rfl⟩ := hdoes
        cases hredis : w''.redis (IdempotencyStore.redisKey key) with
        | none =>
            refine ⟨rfl, ?_⟩
            intro key' hkey' existingId hexisting
            obtain rfl := Option.some.inj (hkey.symm.trans hkey')
            simp [hredis] at hexisting
        | some existingId => exact ⟨rfl, key, hkey, hredis⟩
    | getById existingId =>
        obtain ⟨rfl, key, hkey, hredis⟩ := h
        obtain ⟨rfl, loanId, found, hparse, hfound, rfl⟩ := hdoes
        cases found with
        | none =>
            refine ⟨rfl, ?_⟩
            intro key' hkey' existingId' hexisting
            obtain rfl := Option.some.inj (hkey.symm.trans hkey')
            obtain rfl := Option.some.inj (hredis.symm.trans hexisting)
            exact ⟨loanId, hparse, hfound⟩
        | some loan =>
            exact .inl ⟨rfl, key, existingId, loanId, loan, hkey, hredis, hparse, hfound, rfl⟩
    | existsActive =>
        obtain ⟨rfl, hno⟩ := h
        obtain ⟨rfl, rfl, hguard⟩ := hdoes
        exact ⟨rfl, hno, hguard⟩
    | saveLoan =>
        obtain ⟨rfl, hno, hguard⟩ := h
        obtain ⟨rfl, m, loans, hm, hinsert, rfl⟩ := hdoes
        exact ⟨⟨hno, hguard, m, hm, hinsert⟩, rfl, rfl⟩
    | saveEvent =>
        obtain ⟨hsaved, houtbox, hredis⟩ := h
        obtain ⟨rfl, outbox, hinsert, rfl⟩ := hdoes
        obtain ⟨rfl, _, _⟩ := Table.insert_eq_done hinsert
        exact ⟨⟨hsaved.noReplay, hsaved.guard, hsaved.insert⟩, hredis, by simp only [houtbox]⟩
    | saveStatusEvent =>
        obtain ⟨hsaved, hredis, houtbox⟩ := h
        obtain ⟨rfl, outbox, hinsert, rfl⟩ := hdoes
        obtain ⟨rfl, _, _⟩ := Table.insert_eq_done hinsert
        cases hkey : c.key? with
        | none =>
            refine .inr ⟨⟨hsaved.noReplay, hsaved.guard, hsaved.insert⟩, rfl,
              by simp only [houtbox, addedEvents], ?_⟩
            simp only [acquired, hkey, hredis]
        | some key =>
            exact ⟨hkey, ⟨hsaved.noReplay, hsaved.guard, hsaved.insert⟩, hredis,
              by simp only [houtbox, addedEvents]⟩
    | acquire key =>
        obtain ⟨hkey, hsaved, hredis, houtbox⟩ := h
        obtain ⟨rfl, hloans, houtbox', hredis'⟩ := hdoes
        refine .inr ⟨⟨hsaved.noReplay, hsaved.guard, ?_⟩, rfl, houtbox'.trans houtbox, ?_⟩
        · rw [hloans]
          exact hsaved.insert
        · simp only [acquired, hkey, hredis', hredis]
  · intro e w'' heq
    rw [heq]
    exact h.rollback

theorem execute_ensures (t : Tx) (c : CreateCall) (w : World) :
    Stmt.Ensures (execute t c) w
      (fun a w' => Replayed t c w a w' ∨ Created t c w a w')
      (fun _ w' => w'.rollback t = w.rollback t) := by
  rw [← iterate_start t c 0]
  exact Stmt.iterate_ensures (J := Reached t c w) (fun _ _ h => reached_resume h) 7
    (reached_start t c w)

end Execute

section Alone
variable {v : Pydantic}

/-- Labels that move request `n` only. -/
def Only (n : Nat) (ls : List Label) : Prop := ∀ l ∈ ls, l = .request n ∨ l = .requestFails n

/-- The progress of a request whose body is over, and after `get_session`. -/
def Progress.ending : Except Error LoanApplicationResponse → Progress
  | .ok a => .committing a
  | .error e => .aborting e

def Progress.ended : Except Error LoanApplicationResponse → Progress
  | .ok a => .returned a
  | .error e => .raised e

theorem Only.cons {n : Nat} {ls : List Label} (h : Only n ls) : Only n (.request n :: ls) := by
  intro l hl
  cases List.mem_cons.mp hl with
  | inl heq => exact .inl heq
  | inr hmem => exact h l hmem

theorem Only.snoc {n : Nat} {ls : List Label} (h : Only n ls) {l : Label}
    (hl : l = .request n ∨ l = .requestFails n) : Only n (ls ++ [l]) := by
  intro m hm
  cases List.mem_append.mp hm with
  | inl hm => exact h m hm
  | inr hm => rw [List.mem_singleton.mp hm]; exact hl

/-- The statements of an undisturbed body are moves of its request. -/
theorem run_iterate {n fuel : Nat} {s : State} {r : Request} {p : Phase} {w : World}
    {result : Except Error LoanApplicationResponse}
    (hr : s.requests n = some r) (hp : r.progress = .running p)
    (h : Stmt.iterate (resume (.request n) r.call) fuel p s.world = .ofExcept result w) :
    ∃ ls s' r', Runs.run (step v) s ls = some s' ∧ Only n ls ∧ s'.world = w ∧
      s'.requests n = some r' ∧ r'.call = r.call ∧ r'.progress = .ending result := by
  induction fuel generalizing s r p with
  | zero => cases result <;> contradiction
  | succ fuel ih =>
      have hstep : step v s (.request n) = requestStep s n := rfl
      simp only [requestStep, hr, hp] at hstep
      cases hx : resume (.request n) r.call p s.world with
      | waits =>
          rw [Stmt.iterate_succ, Stmt.bind_of_waits hx] at h
          cases result <;> contradiction
      | raises e w' =>
          rw [Stmt.iterate_of_raises hx] at h
          cases result with
          | ok a => contradiction
          | error e' =>
              obtain ⟨rfl, rfl⟩ := Outcome.raises.inj h
              simp only [hx] at hstep
              refine ⟨[.request n], _, { r with progress := .aborting e },
                Runs.run_cons_eq_some.mpr ⟨_, hstep, rfl⟩, Only.cons fun _ h => ?_, rfl,
                Function.update_self .., rfl, rfl⟩
              contradiction
      | returns q w' =>
          simp only [hx] at hstep
          have hnext : ∃ t r', step v s (.request n) = some t ∧ t.world = w' ∧
              t.requests n = some r' ∧ r'.call = r.call ∧ r'.progress = Phase.after q :=
            ⟨_, _, hstep, rfl, Function.update_self .., rfl, rfl⟩
          obtain ⟨t, r', ht, hw', hr', hcall', hprogress'⟩ := hnext
          cases q with
          | inl q =>
              rw [Stmt.iterate_of_next hx, ← hw', ← hcall'] at h
              obtain ⟨ls, s', r'', hrun, honly, hw, hr'', hcall, hprogress⟩ :=
                ih hr' hprogress' h
              exact ⟨.request n :: ls, s', r'', Runs.run_cons_eq_some.mpr ⟨t, ht, hrun⟩,
                honly.cons, hw, hr'', hcall.trans hcall', hprogress⟩
          | inr a =>
              rw [Stmt.iterate_of_returns hx] at h
              cases result with
              | error e => contradiction
              | ok a' =>
                  obtain ⟨rfl, rfl⟩ := Outcome.returns.inj h
                  refine ⟨[.request n], t, r', Runs.run_cons_eq_some.mpr ⟨t, ht, rfl⟩,
                    Only.cons fun _ h => ?_, hw', hr', hcall', hprogress'⟩
                  contradiction

section Moves
variable {n : Nat} {s : State} {r : Request} {c : CreateCall} {a : LoanApplicationResponse}
  {e : Error}

theorem step_arrive (hfree : s.requests n = none) (hfresh : fresh s.drawn c.draws.uuids = true) :
    step v s (.arrive n c) = some { s.setRequest n { call := c, progress := .running c.start }
      with drawn := c.draws.uuids ++ s.drawn } := by
  simp only [step, arriveStep, hfree, hfresh, Option.isNone_none, Bool.and_self, if_true]

theorem step_commit (hr : s.requests n = some r) (hp : r.progress = .committing a) :
    step v s (.request n) = some { s.setRequest n { r with progress := .returned a }
      with world := s.world.commit (.request n) } := by
  simp only [step, requestStep, hr, hp]

theorem step_rollback (hr : s.requests n = some r) (hp : r.progress = .aborting e) :
    step v s (.request n) = some { s.setRequest n { r with progress := .raised e }
      with world := s.world.rollback (.request n) } := by
  simp only [step, requestStep, hr, hp]

theorem step_commitFails (hr : s.requests n = some r) (hp : r.progress = .committing a) :
    step v s (.requestFails n) =
      some (s.setRequest n { r with progress := .aborting .connectionError }) := by
  simp only [step, requestFailStep, hr, hp]

end Moves

/-- A call inside its session is a run of the service. -/
theorem run_withSession {n : Nat} {s : State} {c : CreateCall} {commits : Bool} {w : World}
    {result : Except Error LoanApplicationResponse} (hfree : s.requests n = none)
    (hfresh : fresh s.drawn c.draws.uuids = true)
    (h : withSession (.request n) commits (execute (.request n) c) s.world = some (result, w)) :
    ∃ ls s' r, Runs.run (step v) s (.arrive n c :: ls) = some s' ∧ Only n ls ∧ s'.world = w ∧
      s'.requests n = some r ∧ r.call = c ∧ r.progress = .ended result := by
  have harrive := step_arrive (v := v) hfree hfresh
  generalize hr : ({ call := c, progress := .running c.start } : Request) = r at harrive
  have hcall : r.call = c := by rw [← hr]
  have hprogress : r.progress = .running c.start := by rw [← hr]
  -- the body, then the one or two moves that end the session
  have hbody (result' : Except Error LoanApplicationResponse) (w' : World)
      (hx : execute (.request n) c s.world = .ofExcept result' w') :=
    @run_iterate v n 7 { s.setRequest n r with drawn := c.draws.uuids ++ s.drawn } r _ w' result'
      (Function.update_self ..) hprogress
      (by rw [hcall, iterate_start (.request n) c 0]; exact hx)
  simp only [withSession] at h
  cases hx : execute (.request n) c s.world with
  | waits => simp [hx] at h
  | raises e w' =>
      simp only [hx, Option.some.injEq, Prod.mk.injEq] at h
      obtain ⟨rfl, rfl⟩ := h
      obtain ⟨ls, s', r', hrun, honly, rfl, hr', hcall', hp⟩ := hbody (.error e) w' hx
      have hends := Runs.run_concat_eq_some.mpr ⟨s', hrun, step_rollback hr' hp⟩
      exact ⟨ls ++ [.request n], _, { r' with progress := .raised e },
        Runs.run_cons_eq_some.mpr ⟨_, harrive, hends⟩,
        honly.snoc (.inl rfl), rfl, Function.update_self .., hcall'.trans hcall, rfl⟩
  | returns a w' =>
      obtain ⟨ls, s', r', hrun, honly, rfl, hr', hcall', hp⟩ := hbody (.ok a) w' hx
      cases commits with
      | true =>
          simp only [hx, if_true, Option.some.injEq, Prod.mk.injEq] at h
          obtain ⟨rfl, rfl⟩ := h
          have hends := Runs.run_concat_eq_some.mpr ⟨s', hrun, step_commit hr' hp⟩
          exact ⟨ls ++ [.request n], _, { r' with progress := .returned a },
            Runs.run_cons_eq_some.mpr ⟨_, harrive, hends⟩,
            honly.snoc (.inl rfl), rfl, Function.update_self .., hcall'.trans hcall, rfl⟩
      | false =>
          simp only [hx, Bool.false_eq_true, if_false, Option.some.injEq, Prod.mk.injEq] at h
          obtain ⟨rfl, rfl⟩ := h
          have hfails := Runs.run_concat_eq_some.mpr ⟨s', hrun, step_commitFails hr' hp⟩
          have hrollback := step_rollback (v := v) (e := .connectionError)
            (s := s'.setRequest n { r' with progress := .aborting .connectionError })
            (Function.update_self ..) rfl
          exact ⟨ls ++ [.requestFails n] ++ [.request n], _,
            { r' with progress := .raised .connectionError },
            Runs.run_cons_eq_some.mpr ⟨_, harrive,
              Runs.run_concat_eq_some.mpr ⟨_, hfails, hrollback⟩⟩,
            (honly.snoc (.inr rfl)).snoc (.inl rfl), rfl, Function.update_self ..,
            hcall'.trans hcall, rfl⟩

end Alone

section History

structure History where
  world : World
  drawn : List Uuid
  log : List (CreateCall × Except Error LoanApplicationResponse)

inductive HistoryLabel where
  | call (c : CreateCall) (commits : Bool)
  | expire (key : String)

def historyStep (h : History) : HistoryLabel → Option History
  | .call c commits =>
      if fresh h.drawn c.draws.uuids then
        let t := Tx.request h.log.length
        (withSession t commits (execute t c) h.world).map fun (result, w) =>
          ⟨w, c.draws.uuids ++ h.drawn, h.log ++ [(c, result)]⟩
      else none
  | .expire key =>
      some { h with world := { h.world with redis := Function.update h.world.redis key none } }

def History.init : History := ⟨State.init.world, [], []⟩

/-- No transaction is open. -/
structure World.Closed (w : World) : Prop where
  loans : w.loans.pending = []
  outbox : w.outbox.pending = []

theorem World.Closed.rollback {w : World} (h : w.Closed) (t : Tx) : w.rollback t = w := by
  simp only [World.rollback, Table.rollback_of_pending_nil t h.loans,
    Table.rollback_of_pending_nil t h.outbox]

theorem World.Closed.commit {w : World} (h : w.Closed) (t : Tx) : w.commit t = w := by
  simp only [World.commit, Table.commit_of_pending_nil t h.loans,
    Table.commit_of_pending_nil t h.outbox]

/-- The world after a call that has stored `m`. -/
def World.stored (w : World) (c : CreateCall) (m : LoanApplicationModel) : World where
  loans := ⟨w.loans.committed ++ [m], []⟩
  outbox := ⟨w.outbox.committed ++ [OutboxRepository.toModel (outboxEvent c.loan c.draws),
    OutboxRepository.toModel (statusOutboxEvent c.loan c.draws)], []⟩
  redis := acquired c w.redis

/-- What one call can do to a world without open transactions. -/
inductive CallEffect (t : Tx) (c : CreateCall) (w : World) :
    Except Error LoanApplicationResponse → World → Prop
  | replayed (a : LoanApplicationResponse) (h : Replayed t c w a w) : CallEffect t c w (.ok a) w
  | created (m : LoanApplicationModel) (hm : LoanRepository.toModel c.loan = some m)
      (hno : NoReplay t c w)
      (hguard : activeRows w.loans.committed c.applicantId = [])
      (hfree : ∀ x ∈ w.loans.committed, m.clash x = false) :
      CallEffect t c w (.ok (LoanApplicationResponse.modelValidate c.loan)) (w.stored c m)
  | refused (e : Error) : CallEffect t c w (.error e) w
  | uncommitted (e : Error) :
      CallEffect t c w (.error e) { w with redis := acquired c w.redis }

theorem Created.commit {t : Tx} {c : CreateCall} {w w' : World} {a : LoanApplicationResponse}
    (hw : w.Closed) (h : Created t c w a w') :
    ∃ m, LoanRepository.toModel c.loan = some m ∧
      (∀ x ∈ w.loans.committed, m.clash x = false) ∧ w'.commit t = w.stored c m := by
  obtain ⟨m, hm, hinsert⟩ := h.saved.insert
  obtain ⟨hloans, _, hfree⟩ := Table.insert_eq_done hinsert
  rw [Table.visible_of_writes_nil (Table.writes_of_pending_nil t hw.loans)] at hfree
  refine ⟨m, hm, hfree, ?_⟩
  simp only [World.commit, World.stored, hloans, h.outbox, h.redis, addedEvents,
    Table.commit_write_of_pending_nil t hw.loans]
  simp [Table.commit, Table.visible, Table.writes, Table.write, hw.outbox]

theorem withSession_effect {t : Tx} {c : CreateCall} {commits : Bool} {w w' : World}
    {result : Except Error LoanApplicationResponse} (hw : w.Closed)
    (h : withSession t commits (execute t c) w = some (result, w')) :
    CallEffect t c w result w' := by
  have hensures := execute_ensures t c w
  simp only [withSession] at h
  cases hx : execute t c w with
  | waits => simp [hx] at h
  | raises e w₁ =>
      simp only [hx, Option.some.injEq, Prod.mk.injEq] at h
      obtain ⟨rfl, rfl⟩ := h
      rw [hensures.of_raises hx, hw.rollback]
      exact .refused e
  | returns a w₁ =>
      simp only [hx] at h
      cases hensures.of_returns hx with
      | inl hreplayed =>
          obtain rfl := hreplayed.unchanged
          cases commits with
          | true =>
              obtain ⟨rfl, rfl⟩ := Prod.mk.inj (Option.some.inj h)
              rw [hw.commit]
              exact .replayed a hreplayed
          | false =>
              obtain ⟨rfl, rfl⟩ := Prod.mk.inj (Option.some.inj h)
              rw [hw.rollback]
              exact .refused _
      | inr hcreated =>
          cases commits with
          | true =>
              obtain ⟨rfl, rfl⟩ := Prod.mk.inj (Option.some.inj h)
              obtain ⟨m, hm, hfree, hcommit⟩ := hcreated.commit hw
              have hguard := hcreated.saved.guard
              rw [Table.visible_of_writes_nil (Table.writes_of_pending_nil t hw.loans)] at hguard
              rw [hcommit, hcreated.response]
              exact .created m hm hcreated.saved.noReplay hguard hfree
          | false =>
              obtain ⟨rfl, rfl⟩ := Prod.mk.inj (Option.some.inj h)
              have hrollback : w₁.rollback t = { w with redis := acquired c w.redis } := by
                simp only [World.rollback, hcreated.saved.rollback, hcreated.outbox,
                  hcreated.redis, addedEvents, Table.rollback_write,
                  Table.rollback_of_pending_nil t hw.loans,
                  Table.rollback_of_pending_nil t hw.outbox]
              rw [hrollback]
              exact .uncommitted _

theorem CallEffect.closed {t : Tx} {c : CreateCall} {w w' : World}
    {result : Except Error LoanApplicationResponse} (hw : w.Closed)
    (h : CallEffect t c w result w') : w'.Closed := by
  cases h with
  | replayed a h => exact hw
  | created m hm hno hguard hfree => exact ⟨rfl, rfl⟩
  | refused e => exact hw
  | uncommitted e => exact ⟨hw.loans, hw.outbox⟩

end History

end CrediGuard.Loan
