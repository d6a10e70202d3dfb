import CrediGuard.Lib.Runs
import CrediGuard.Loan.CreateLoan
import CrediGuard.Loan.Outbox

/-!
The loan service as a labelled step function: any number of create requests and
of outbox workers over one database, one Redis and one Kafka topic per event type.

A request moves one await at a time and ends with the commit or rollback of
`get_session`; any await of it may raise instead. A worker moves one await of
`poll_once` at a time. A uuid drawn by one call is never drawn again.
-/

namespace CrediGuard.Loan
open ReadCommitted Statement

inductive Progress where
  | running (phase : Phase)
  | committing (response : LoanApplicationResponse)
  | aborting (error : Error)
  | returned (response : LoanApplicationResponse)
  | raised (error : Error)
  deriving DecidableEq

structure Request where
  call : CreateCall
  progress : Progress
  /-- The committed loans its guard query ran on. -/
  guardRead : List LoanApplicationModel := []

structure State where
  world : World
  requests : Nat → Option Request
  workers : Nat → Worker
  locks : List (Uuid × Nat)
  kafka : List Publication
  drawn : List Uuid

inductive Label where
  | arrive (n : Nat) (c : CreateCall)
  | request (n : Nat)
  | requestFails (n : Nat)
  | expire (key : String)
  | worker (n : Nat) (l : WorkerLabel)

def Draws.uuids (d : Draws) : List Uuid := [d.loanId, d.submittedEventId, d.statusEventId]

def EnvelopeDraws.uuids (d : EnvelopeDraws) : List Uuid := [d.eventId, d.correlationId]

def fresh (drawn uuids : List Uuid) : Bool := uuids.Nodup && uuids.all fun u => u ∉ drawn

theorem loanId_of_fresh {drawn : List Uuid} {d : Draws} (h : fresh drawn d.uuids = true) :
    d.loanId ∉ drawn := by
  simp only [fresh, Bool.and_eq_true, List.all_eq_true, decide_eq_true_eq] at h
  exact h.2 d.loanId (List.mem_cons_self ..)

namespace State

def setRequest (s : State) (n : Nat) (r : Request) : State :=
  { s with requests := Function.update s.requests n (some r) }

def setPosition (s : State) (n : Nat) (p : Position) : State :=
  { s with workers := Function.update s.workers n { s.workers n with position := p } }

/-- The worker's transaction is over: its locks are released. -/
def endPoll (s : State) (n : Nat) (w : World) : State :=
  { s.setPosition n .idle with world := w, locks := s.locks.filter fun l => l.2 ≠ n }

end State

def Phase.after : Phase ⊕ LoanApplicationResponse → Progress
  | .inl p => .running p
  | .inr response => .committing response

def requestStep (s : State) (n : Nat) : Option State :=
  match s.requests n with
  | none => none
  | some r =>
      match r.progress with
      | .running p =>
          match resume (.request n) r.call p s.world with
          | .waits => none
          | .raises e w =>
              some { s.setRequest n { r with progress := .aborting e } with world := w }
          | .returns next w =>
              let guardRead := if p = .existsActive then s.world.loans.committed else r.guardRead
              some { s.setRequest n { r with progress := Phase.after next, guardRead := guardRead }
                with world := w }
      | .committing response =>
          some { s.setRequest n { r with progress := .returned response }
            with world := s.world.commit (.request n) }
      | .aborting e =>
          some { s.setRequest n { r with progress := .raised e }
            with world := s.world.rollback (.request n) }
      | .returned _ => none
      | .raised _ => none

def requestFailStep (s : State) (n : Nat) : Option State :=
  match s.requests n with
  | none => none
  | some r =>
      match r.progress with
      | .running _ => some (s.setRequest n { r with progress := .aborting .connectionError })
      | .committing _ => some (s.setRequest n { r with progress := .aborting .connectionError })
      | _ => none

def arriveStep (s : State) (n : Nat) (c : CreateCall) : Option State :=
  if (s.requests n).isNone && fresh s.drawn c.draws.uuids then
    some { s.setRequest n { call := c, progress := .running c.start }
      with drawn := c.draws.uuids ++ s.drawn }
  else none

/-- The row a `FOR UPDATE SKIP LOCKED` takes: not locked, and pending in its
latest committed version. -/
def lockable? (s : State) (id : Uuid) : Option OutboxEventModel :=
  if s.locks.any fun l => l.1 = id then none
  else s.world.outbox.committed.find? fun m => m.id = id && m.status = "PENDING"

/-- The broker's part of `send_and_wait`. -/
def deliver (s : State) (row : Uuid) (record : ProducerRecord) : Delivery → State
  | .acked => { s with kafka := s.kafka ++ [⟨row, record, true⟩] }
  | .lost => s
  | .unacknowledged => { s with kafka := s.kafka ++ [⟨row, record, false⟩] }

def workerStep (v : Pydantic) (s : State) (n : Nat) (l : WorkerLabel) : Option State :=
  -- the worker's session touches the outbox only
  let rolledBack := { s.world with outbox := s.world.outbox.rollback (.worker n) }
  let committed := { s.world with outbox := s.world.outbox.commit (.worker n) }
  match (s.workers n).position, l with
  | _, .crash =>
      let s' := s.endPoll n rolledBack
      some { s' with workers := Function.update s.workers n {} }
  | .idle, .start =>
      if (s.workers n).started then none
      else some { s with workers := Function.update s.workers n { started := true } }
  | .idle, .select candidates =>
      if Selects s.world.outbox.committed candidates then
        some (s.setPosition n (.selecting candidates []))
      else none
  | .selecting (id :: rest) batch, .lock =>
      if batch.length < 10 then
        match lockable? s id with
        | none => some (s.setPosition n (.selecting rest batch))
        | some m =>
            some { s.setPosition n (.selecting rest (batch ++ [m])) with
              locks := (id, n) :: s.locks }
      else none
  | .selecting candidates batch, .fetched =>
      if candidates = [] ∨ batch.length = 10 then some (s.setPosition n (.looping batch false))
      else none
  | .selecting _ _, .fails => some (s.endPoll n rolledBack)
  | .looping (event :: events) aborted, .publish d delivery =>
      match publishEvent v (s.workers n).started event d with
      | .error _ => some (s.setPosition n (.looping events aborted))
      | .ok none => some (s.setPosition n (.updating event events aborted))
      | .ok (some record) =>
          if fresh s.drawn d.uuids then
            let s' := deliver { s with drawn := d.uuids ++ s.drawn } event.id record delivery
            match delivery with
            | .acked => some (s'.setPosition n (.updating event events aborted))
            | _ => some (s'.setPosition n (.looping events aborted))
          else none
  | .updating event events aborted, .update now =>
      if aborted then none
      else
        let outbox := s.world.outbox.write (.worker n) (.update (markSent event.id now))
        some { s.setPosition n (.looping events false)
          with world := { s.world with outbox := outbox } }
  | .updating _ events _, .updateFails => some (s.setPosition n (.looping events true))
  | .looping [] aborted, .commit =>
      -- COMMIT of an aborted transaction rolls back and reports no error
      some (s.endPoll n (if aborted then rolledBack else committed))
  | .looping [] _, .fails => some (s.endPoll n rolledBack)
  | _, _ => none

def step (v : Pydantic) (s : State) : Label → Option State
  | .arrive n c => arriveStep s n c
  | .request n => requestStep s n
  | .requestFails n => requestFailStep s n
  | .expire key =>
      some { s with world := { s.world with redis := Function.update s.world.redis key none } }
  | .worker n l => workerStep v s n l

/-- No transaction is open. -/
structure State.Quiet (s : State) : Prop where
  loans : s.world.loans.pending = []
  outbox : s.world.outbox.pending = []
  requests : ∀ n, s.requests n = none
  workers : ∀ n, (s.workers n).position = .idle
  locks : s.locks = []

/-- Empty tables, an empty Redis, an empty topic. -/
def State.init : State where
  world := ⟨⟨[], []⟩, ⟨[], []⟩, fun _ => none⟩
  requests := fun _ => none
  workers := fun _ => {}
  locks := []
  kafka := []
  drawn := []

theorem State.quiet_init : State.init.Quiet :=
  ⟨rfl, rfl, fun _ => rfl, fun _ => rfl, rfl⟩

section Inversion
variable {v : Pydantic} {s s' : State} {n : Nat}

/-- What a move of request `n` can be; `true` for the label that makes it fail. -/
inductive RequestStep (s : State) (n : Nat) (r : Request) : Bool → State → Prop
  | next (p : Phase) (q : Phase ⊕ LoanApplicationResponse) (w : World)
      (hp : r.progress = .running p) (hdoes : Does (.request n) r.call s.world p q w) :
      RequestStep s n r false { s.setRequest n { r with
        progress := Phase.after q
        guardRead := if p = .existsActive then s.world.loans.committed else r.guardRead }
          with world := w }
  | raises (p : Phase) (e : Error) (fails : Bool) (hp : r.progress = .running p) :
      RequestStep s n r fails (s.setRequest n { r with progress := .aborting e })
  | commitFails (a : LoanApplicationResponse) (e : Error) (hp : r.progress = .committing a) :
      RequestStep s n r true (s.setRequest n { r with progress := .aborting e })
  | commits (a : LoanApplicationResponse) (hp : r.progress = .committing a) :
      RequestStep s n r false { s.setRequest n { r with progress := .returned a }
        with world := s.world.commit (.request n) }
  | rollsBack (e : Error) (hp : r.progress = .aborting e) :
      RequestStep s n r false { s.setRequest n { r with progress := .raised e }
        with world := s.world.rollback (.request n) }

theorem requestStep_cases (h : requestStep s n = some s') :
    ∃ r, s.requests n = some r ∧ RequestStep s n r false s' := by
  simp only [requestStep] at h
  cases hr : s.requests n with
  | none => simp [hr] at h
  | some r =>
      refine ⟨r, rfl, ?_⟩
      simp only [hr] at h
      cases hp : r.progress with
      | running p =>
          simp only [hp] at h
          have hensures := resume_ensures (.request n) r.call s.world p
          cases hx : resume (.request n) r.call p s.world with
          | waits => simp [hx] at h
          | raises e w =>
              obtain rfl : w = s.world := hensures.of_raises hx
              simp only [hx, Option.some.injEq] at h
              subst h
              exact .raises p e false hp
          | returns q w =>
              simp only [hx, Option.some.injEq] at h
              subst h
              exact .next p q w hp (hensures.of_returns hx)
      | committing a =>
          simp only [hp, Option.some.injEq] at h
          subst h
          exact .commits a hp
      | aborting e =>
          simp only [hp, Option.some.injEq] at h
          subst h
          exact .rollsBack e hp
      | returned a => simp [hp] at h
      | raised e => simp [hp] at h

theorem requestFailStep_cases (h : requestFailStep s n = some s') :
    ∃ r, s.requests n = some r ∧ RequestStep s n r true s' := by
  simp only [requestFailStep] at h
  cases hr : s.requests n with
  | none => simp [hr] at h
  | some r =>
      refine ⟨r, rfl, ?_⟩
      simp only [hr] at h
      cases hp : r.progress with
      | running p =>
          simp only [hp, Option.some.injEq] at h
          subst h
          exact .raises p .connectionError true hp
      | committing a =>
          simp only [hp, Option.some.injEq] at h
          subst h
          exact .commitFails a .connectionError hp
      | aborting e => simp [hp] at h
      | returned a => simp [hp] at h
      | raised e => simp [hp] at h

/-- What a move of worker `n` can be. -/
inductive WorkerStep (v : Pydantic) (s : State) (n : Nat) : WorkerLabel → State → Prop
  | crash : WorkerStep v s n .crash
      { s.endPoll n { s.world with outbox := s.world.outbox.rollback (.worker n) } with
        workers := Function.update s.workers n {} }
  | start (hp : (s.workers n).position = .idle) : WorkerStep v s n .start
      { s with workers := Function.update s.workers n { started := true } }
  | select (ids : List Uuid) (hp : (s.workers n).position = .idle)
      (hids : Selects s.world.outbox.committed ids) :
      WorkerStep v s n (.select ids) (s.setPosition n (.selecting ids []))
  | skips (id : Uuid) (ids : List Uuid) (batch : List OutboxEventModel)
      (hp : (s.workers n).position = .selecting (id :: ids) batch)
      (hid : lockable? s id = none) :
      WorkerStep v s n .lock (s.setPosition n (.selecting ids batch))
  | locks (id : Uuid) (ids : List Uuid) (batch : List OutboxEventModel) (m : OutboxEventModel)
      (hp : (s.workers n).position = .selecting (id :: ids) batch) (hlen : batch.length < 10)
      (hid : lockable? s id = some m) :
      WorkerStep v s n .lock { s.setPosition n (.selecting ids (batch ++ [m])) with
        locks := (id, n) :: s.locks }
  | fetched (ids : List Uuid) (batch : List OutboxEventModel)
      (hp : (s.workers n).position = .selecting ids batch)
      (hdone : ids = [] ∨ batch.length = 10) :
      WorkerStep v s n .fetched (s.setPosition n (.looping batch false))
  | fails (hp : (∃ ids batch, (s.workers n).position = .selecting ids batch) ∨
        ∃ aborted, (s.workers n).position = .looping [] aborted) :
      WorkerStep v s n .fails
        (s.endPoll n { s.world with outbox := s.world.outbox.rollback (.worker n) })
  | refuses (event : OutboxEventModel) (events : List OutboxEventModel) (aborted : Bool)
      (d : EnvelopeDraws) (delivery : Delivery) (e : PublishError)
      (hp : (s.workers n).position = .looping (event :: events) aborted)
      (hpublish : publishEvent v (s.workers n).started event d = .error e) :
      WorkerStep v s n (.publish d delivery) (s.setPosition n (.looping events aborted))
  | ignores (event : OutboxEventModel) (events : List OutboxEventModel) (aborted : Bool)
      (d : EnvelopeDraws) (delivery : Delivery)
      (hp : (s.workers n).position = .looping (event :: events) aborted)
      (hpublish : publishEvent v (s.workers n).started event d = .ok none) :
      WorkerStep v s n (.publish d delivery) (s.setPosition n (.updating event events aborted))
  | sends (event : OutboxEventModel) (events : List OutboxEventModel) (aborted : Bool)
      (d : EnvelopeDraws) (delivery : Delivery) (record : ProducerRecord)
      (hp : (s.workers n).position = .looping (event :: events) aborted)
      (hpublish : publishEvent v (s.workers n).started event d = .ok (some record))
      (hfresh : fresh s.drawn d.uuids = true) :
      WorkerStep v s n (.publish d delivery)
        ((deliver { s with drawn := d.uuids ++ s.drawn } event.id record delivery).setPosition n
          (if delivery = .acked then .updating event events aborted
            else .looping events aborted))
  | updates (event : OutboxEventModel) (events : List OutboxEventModel) (now : Datetime)
      (hp : (s.workers n).position = .updating event events false) :
      WorkerStep v s n (.update now) { s.setPosition n (.looping events false) with
        world := { s.world with
          outbox := s.world.outbox.write (.worker n) (.update (markSent event.id now)) } }
  | updateFails (event : OutboxEventModel) (events : List OutboxEventModel) (aborted : Bool)
      (hp : (s.workers n).position = .updating event events aborted) :
      WorkerStep v s n .updateFails (s.setPosition n (.looping events true))
  | commits (hp : (s.workers n).position = .looping [] false) :
      WorkerStep v s n .commit
        (s.endPoll n { s.world with outbox := s.world.outbox.commit (.worker n) })
  | commitsAborted (hp : (s.workers n).position = .looping [] true) :
      WorkerStep v s n .commit
        (s.endPoll n { s.world with outbox := s.world.outbox.rollback (.worker n) })

theorem workerStep_cases {l : WorkerLabel} (h : workerStep v s n l = some s') :
    WorkerStep v s n l s' := by
  simp only [workerStep] at h
  split at h
  · obtain rfl := Option.some.inj h
    exact .crash
  · rename_i hp
    split at h
    · contradiction
    · obtain rfl := Option.some.inj h
      exact .start hp
  · rename_i ids hp
    split at h
    · rename_i hids
      obtain rfl := Option.some.inj h
      exact .select ids hp hids
    · contradiction
  · rename_i id ids batch hp
    split at h
    · rename_i hlen
      split at h
      · rename_i hid
        obtain rfl := Option.some.inj h
        exact .skips id ids batch hp hid
      · rename_i m hid
        obtain rfl := Option.some.inj h
        exact .locks id ids batch m hp hlen hid
    · contradiction
  · rename_i ids batch hp
    split at h
    · rename_i hdone
      obtain rfl := Option.some.inj h
      exact .fetched ids batch hp hdone
    · contradiction
  · rename_i ids batch hp
    obtain rfl := Option.some.inj h
    exact .fails (.inl ⟨ids, batch, hp⟩)
  · rename_i event events aborted d delivery hp
    split at h
    · rename_i e hpublish
      obtain rfl := Option.some.inj h
      exact .refuses event events aborted d delivery e hp hpublish
    · rename_i hpublish
      obtain rfl := Option.some.inj h
      exact .ignores event events aborted d delivery hp hpublish
    · rename_i record hpublish
      split at h
      · rename_i hfresh
        have hsends := WorkerStep.sends event events aborted d delivery record hp hpublish hfresh
        cases delivery with
        | acked => obtain rfl := Option.some.inj h; exact hsends
        | lost => obtain rfl := Option.some.inj h; exact hsends
        | unacknowledged => obtain rfl := Option.some.inj h; exact hsends
      · contradiction
  · rename_i event events aborted now hp
    cases aborted with
    | true => simp at h
    | false =>
        obtain rfl := Option.some.inj h
        exact .updates event events now hp
  · rename_i event events aborted hp
    obtain rfl := Option.some.inj h
    exact .updateFails event events aborted hp
  · rename_i aborted hp
    obtain rfl := Option.some.inj h
    cases aborted with
    | true => exact .commitsAborted hp
    | false => exact .commits hp
  · rename_i aborted hp
    obtain rfl := Option.some.inj h
    exact .fails (.inr ⟨aborted, hp⟩)
  · contradiction

/-- What a move of request `n` does to the outbox. -/
inductive OutboxChange (n : Nat) (T : Table Tx OutboxEventModel) :
    Table Tx OutboxEventModel → Prop
  | none : OutboxChange n T T
  | insert (m : OutboxEventModel) (T' : Table Tx OutboxEventModel)
      (hpending : m.status = "PENDING")
      (h : T.insert OutboxEventModel.clash (.request n) m = .done T') : OutboxChange n T T'
  | commit : OutboxChange n T (T.commit (.request n))
  | rollback : OutboxChange n T (T.rollback (.request n))

theorem Does.outbox {c : CreateCall} {w w' : World} {p : Phase}
    {q : Phase ⊕ LoanApplicationResponse} (h : Does (.request n) c w p q w') :
    OutboxChange n w.outbox w'.outbox := by
  cases p with
  | redisGet key => rw [h.1]; exact .none
  | getById existingId => rw [h.1]; exact .none
  | existsActive => rw [h.1]; exact .none
  | saveLoan =>
      obtain ⟨_, m, loans, _, _, rfl⟩ := h
      exact .none
  | saveEvent =>
      obtain ⟨_, outbox, hinsert, rfl⟩ := h
      exact .insert _ _ rfl hinsert
  | saveStatusEvent =>
      obtain ⟨_, outbox, hinsert, rfl⟩ := h
      exact .insert _ _ rfl hinsert
  | acquire key => rw [h.2.2.1]; exact .none

/-- A request touches neither a worker nor a lock nor the topic. -/
theorem RequestStep.frame {r : Request} {fails : Bool} (h : RequestStep s n r fails s') :
    s'.kafka = s.kafka ∧ s'.workers = s.workers ∧ s'.locks = s.locks ∧ s'.drawn = s.drawn ∧
      OutboxChange n s.world.outbox s'.world.outbox := by
  cases h with
  | next p q w hp hdoes => exact ⟨rfl, rfl, rfl, rfl, hdoes.outbox⟩
  | raises p e fails hp => exact ⟨rfl, rfl, rfl, rfl, .none⟩
  | commitFails a e hp => exact ⟨rfl, rfl, rfl, rfl, .none⟩
  | commits a hp => exact ⟨rfl, rfl, rfl, rfl, .commit⟩
  | rollsBack e hp => exact ⟨rfl, rfl, rfl, rfl, .rollback⟩

/-- Every step is a move of a worker or leaves the workers' side alone. -/
theorem step_outbox {l : Label} (h : step v s l = some s') :
    (∃ n k, l = .worker n k ∧ WorkerStep v s n k s') ∨
      ((∀ n k, l ≠ .worker n k) ∧ s'.kafka = s.kafka ∧ s'.workers = s.workers ∧
        s'.locks = s.locks ∧ (∀ u ∈ s.drawn, u ∈ s'.drawn) ∧
        ∃ n, OutboxChange n s.world.outbox s'.world.outbox) := by
  cases l with
  | worker n k => exact .inl ⟨n, k, rfl, workerStep_cases h⟩
  | expire key =>
      obtain rfl := Option.some.inj h
      exact .inr ⟨by simp, rfl, rfl, rfl, fun _ hu => hu, 0, .none⟩
  | arrive n c =>
      simp only [step, arriveStep] at h
      split at h
      · obtain rfl := Option.some.inj h
        exact .inr ⟨by simp, rfl, rfl, rfl, fun _ hu => List.mem_append_right _ hu, n, .none⟩
      · contradiction
  | request n =>
      obtain ⟨r, _, hcase⟩ := requestStep_cases h
      obtain ⟨hkafka, hworkers, hlocks, hdrawn, hchange⟩ := hcase.frame
      exact .inr ⟨by simp, hkafka, hworkers, hlocks, fun _ hu => by rw [hdrawn]; exact hu, n,
        hchange⟩
  | requestFails n =>
      obtain ⟨r, _, hcase⟩ := requestFailStep_cases h
      obtain ⟨hkafka, hworkers, hlocks, hdrawn, hchange⟩ := hcase.frame
      exact .inr ⟨by simp, hkafka, hworkers, hlocks, fun _ hu => by rw [hdrawn]; exact hu, n,
        hchange⟩

@[simp] theorem deliver_world (s : State) (row : Uuid) (record : ProducerRecord)
    (delivery : Delivery) : (deliver s row record delivery).world = s.world := by
  cases delivery <;> rfl

@[simp] theorem deliver_requests (s : State) (row : Uuid) (record : ProducerRecord)
    (delivery : Delivery) : (deliver s row record delivery).requests = s.requests := by
  cases delivery <;> rfl

@[simp] theorem deliver_workers (s : State) (row : Uuid) (record : ProducerRecord)
    (delivery : Delivery) : (deliver s row record delivery).workers = s.workers := by
  cases delivery <;> rfl

theorem mem_kafka_deliver {p : Publication} {row : Uuid} {record : ProducerRecord}
    {delivery : Delivery} (hp : p ∈ s.kafka) : p ∈ (deliver s row record delivery).kafka := by
  cases delivery with
  | acked => exact List.mem_append_left _ hp
  | lost => exact hp
  | unacknowledged => exact List.mem_append_left _ hp

theorem kafka_deliver_cases {p : Publication} {row : Uuid} {record : ProducerRecord}
    {delivery : Delivery} (hp : p ∈ (deliver s row record delivery).kafka) :
    p ∈ s.kafka ∨ p.row = row := by
  cases delivery with
  | acked =>
      refine (List.mem_append.mp hp).imp_right fun hnew => ?_
      rw [List.mem_singleton.mp hnew]
  | lost => exact .inl hp
  | unacknowledged =>
      refine (List.mem_append.mp hp).imp_right fun hnew => ?_
      rw [List.mem_singleton.mp hnew]

@[simp] theorem setPosition_world (s : State) (n : Nat) (p : Position) :
    (s.setPosition n p).world = s.world := rfl

@[simp] theorem setPosition_requests (s : State) (n : Nat) (p : Position) :
    (s.setPosition n p).requests = s.requests := rfl

/-- A worker touches neither the loans nor Redis nor a request. -/
theorem WorkerStep.frame {l : WorkerLabel} (h : WorkerStep v s n l s') :
    s'.world.loans = s.world.loans ∧ s'.world.redis = s.world.redis ∧
      s'.requests = s.requests := by
  cases h <;> simp [State.endPoll]

end Inversion

end CrediGuard.Loan
