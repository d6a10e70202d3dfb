import CrediGuard.Gateway.Isolation
import CrediGuard.Pipeline

/-!
The platform as one step function: the loan service, the partitions of the status
topic, the notification worker, Pub/Sub, and the streams of the gateway.

Every part moves on its own and fails on its own: the calls of httpx and Redis that a
stream waits for may raise, which ends it. Others may write to the topic too. What
Redis has published is kept as a list, which the code does not have.
-/

namespace CrediGuard.Platform
open Loan (LoanApplicationModel)
open Notification (Bridge Slot)
open Gateway (Message StreamArgs Frame Ending)

section Model

/-- What the platform uses of others: pydantic, the partitioner of the producer, the
ids and responses of the loan service's endpoint, and `repr`; and how its gateway
is set up. -/
structure Environment where
  pydantic : Pydantic
  dump : PydanticDump
  partition : String → Nat
  service : Gateway.LoanService
  repr : Json → String
  settings : Gateway.Settings
  frontendUrl : String

/-- A record of the status topic. -/
inductive Entry where
  | own (p : Loan.Publication)
  | foreign (value : Option ByteArray)

/-- A call of `event_stream`: what it has fetched, with the draws for the initial
frame, how much had been published when it subscribed, and whether a call of httpx or
Redis has raised in it. -/
structure Stream where
  args : StreamArgs
  fetched : Option (Gateway.Loan × Uuid × Datetime) := none
  since : Option Nat := none
  /-- Delivered by Redis, and not yet taken by `get_message`. -/
  inbox : List ByteArray := []
  received : List (Option Message) := []
  failed : Bool := false

structure State where
  loan : Loan.State
  topic : Nat → List Entry
  bridge : Bridge
  channel : List Notification.Publication
  streams : Nat → Option Stream

inductive Label where
  | loan (l : Loan.Label)
  | foreign (partition : Nat) (value : Option ByteArray)
  | bridge (l : Notification.Label)
  /-- Redis publishes the message, and the answer is lost. -/
  | unanswered
  /-- A request for a stream, with what `edge` answers at that moment. -/
  | visit (n : Nat) (loanId : String) (req : Gateway.Request) (edge : Gateway.Edge)
  | fetch (n : Nat) (uuid : Uuid) (now : Datetime)
  | subscribe (n : Nat)
  | getMessage (n : Nat) (uuid : Uuid) (now : Datetime)
  | timeout (n : Nat)
  /-- What the stream waits for raises: the fetch, `subscribe` or `get_message`. Where the
  fetch before it raises, in `loan_events`, no stream is opened. -/
  | fails (n : Nat)
  | leave (n : Nat)

def Entry.value (w : PydanticDump) : Entry → Option ByteArray
  | .own p => some (modelDumpJson w p.record.value)
  | .foreign value => value

def Entry.own? : Entry → Option Loan.Publication
  | .own p => some p
  | .foreign _ => none

variable (env : Environment)

/-- `_fetch_loan` against what the loan service has committed. -/
def fetchLoan (s : Loan.State) (loanId applicantId _correlationId : String) :
    Option Gateway.Loan :=
  match env.service.readId loanId, Loan.getCurrentApplicantId (some applicantId) with
  | some loanId, .ok applicantId =>
      let world := { s.world with loans := ⟨s.world.loans.committed, []⟩ }
      match (Loan.GetLoanApplicationUseCase.execute (.request 0) loanId applicantId
          world).result? with
      | some (.ok response) => some (env.service.render response)
      | _ => none
  | _, _ => none

namespace Stream

/-- A subscriber of the channel gets the message. -/
def hear (p : Notification.Publication) (t : Stream) : Stream :=
  if t.since.isSome ∧ t.failed = false ∧
      p.channel = Gateway.streamChannel t.args.applicantId then
    { t with inbox := t.inbox ++ [p.message] }
  else t

/-- What the stream makes of what it has fetched and received. -/
def events (t : Stream) : List Frame × Ending :=
  match t.fetched with
  | none => ([], .waiting)
  | some (loan, uuid, now) =>
      Gateway.eventStream Gateway.utf8Loads env.repr t.args.loanId t.args.lastEventId (some loan)
        uuid now t.received

/-- What the client has got, and how the stream stands. -/
def frames (t : Stream) : List Frame × Ending :=
  ((t.events env).1, if t.failed then .raised else (t.events env).2)

end Stream

namespace State

def setStream (s : State) (n : Nat) (t : Option Stream) : State :=
  { s with streams := Function.update s.streams n t }

/-- The broker appends an entry to a partition. -/
def produce (s : State) (partition : Nat) (e : Entry) : State :=
  { s with
    topic := Function.update s.topic partition (s.topic partition ++ [e])
    bridge := { s.bridge with
      log := Function.update s.bridge.log partition
        (s.bridge.log partition ++ [e.value env.dump]) } }

/-- The loan service has moved; status records that it sent are in the topic. -/
def afterLoan (s : State) (loan : Loan.State) : State :=
  let sent := (loan.kafka.drop s.loan.kafka.length).filter fun p =>
    p.record.topic = loanStatusChangedV1
  sent.foldl (fun s p => s.produce env (env.partition p.record.key) (.own p))
    { s with loan := loan }

/-- Redis hands a message to the subscribers of its channel. -/
def publish (s : State) (p : Notification.Publication) : State :=
  { s with
    channel := s.channel ++ [p]
    streams := fun n => (s.streams n).map (Stream.hear p) }

/-- The message the notification worker is about to publish. -/
def outgoing? (s : State) : Option Notification.Publication :=
  match s.bridge.phase with
  | .publishing r channel message => some ⟨r, channel, message⟩
  | _ => none

end State

def bridgeStep (s : State) (l : Notification.Label) : Option State :=
  match l with
  | .produce _ _ => none
  | .publish =>
      match s.outgoing? with
      | none => none
      | some p => (s.bridge.step env.pydantic .publish).map fun b =>
          { s with bridge := b }.publish p
  | l => (s.bridge.step env.pydantic l).map fun b => { s with bridge := b }

/-- The first moves of a stream: `loan_events`, the fetch of `event_stream` and, where
it goes on behind the initial frame, its subscription. -/
def openStep (s : State) : Label → Option State
  | .visit n loanId req edge =>
      match s.streams n, Gateway.loanEvents edge env.settings env.frontendUrl
          (fetchLoan env s.loan) loanId req with
      | none, .ok args => some (s.setStream n (some { args := args }))
      | _, _ => none
  | .fetch n uuid now =>
      match s.streams n with
      | some { args, fetched := none, failed := false, .. } =>
          match fetchLoan env s.loan args.loanId args.applicantId args.correlationId with
          | none => some (s.setStream n none)
          | some loan =>
              some (s.setStream n (some { args := args, fetched := some (loan, uuid, now) }))
      | _ => none
  | .subscribe n =>
      match s.streams n with
      | some { args, fetched := some (loan, draws), since := none, failed := false, .. } =>
          if args.lastEventId = none ∧ Gateway.isTerminal (Gateway.fetchedStatus env.repr loan) then
            none
          else
            some (s.setStream n (some {
              args := args
              fetched := some (loan, draws)
              since := some s.channel.length }))
      | _ => none
  | _ => none

def step (s : State) : Label → Option State
  | .loan l => (Loan.step env.pydantic s.loan l).map (s.afterLoan env)
  | .foreign partition value => some (s.produce env partition (.foreign value))
  | .bridge l => bridgeStep env s l
  | .unanswered =>
      match s.outgoing? with
      | none => none
      | some p => (s.bridge.step env.pydantic .publishFails).map fun b =>
          { s with bridge := b }.publish p
  | .getMessage n uuid now =>
      match s.streams n with
      | some t =>
          match t.inbox, t.failed with
          | data :: rest, false =>
              some (s.setStream n (some { t with
                inbox := rest
                received := t.received ++ [some ⟨data, uuid, now⟩] }))
          | _, _ => none
      | none => none
  | .timeout n =>
      match s.streams n with
      | some t =>
          if t.since.isSome ∧ t.inbox = [] ∧ t.failed = false then
            some (s.setStream n (some { t with received := t.received ++ [none] }))
          else none
      | none => none
  | .fails n =>
      match s.streams n with
      | some t =>
          if (t.frames env).2 = .waiting then
            some (s.setStream n (some { t with failed := true }))
          else none
      | none => none
  | .leave n => some (s.setStream n none)
  | l => openStep env s l

/-- Nothing stored, nothing sent, nobody there. -/
def State.init : State where
  loan := .init
  topic := fun _ => []
  bridge := .start fun _ => []
  channel := []
  streams := fun _ => none

end Model

section Inversion
variable {env : Environment} {s s' : State}

/-- What can become of a stream in one step. -/
inductive StreamMove (env : Environment) (s : State) (l : Label) (n : Nat) :
    Option Stream → Option Stream → Prop
  | opens (loanId : String) (req : Gateway.Request) (edge : Gateway.Edge) (args : StreamArgs)
      (hl : l = .visit n loanId req edge)
      (hargs : Gateway.loanEvents edge env.settings env.frontendUrl (fetchLoan env s.loan)
        loanId req = .ok args) :
      StreamMove env s l n none (some { args := args })
  | fetches (t : Stream) (loan : Gateway.Loan) (uuid : Uuid) (now : Datetime)
      (hloan : fetchLoan env s.loan t.args.loanId t.args.applicantId t.args.correlationId =
        some loan) :
      StreamMove env s l n (some t)
        (some { args := t.args, fetched := some (loan, uuid, now) })
  | subscribes (t : Stream) (hfetched : t.fetched.isSome) (hsince : t.since = none) :
      StreamMove env s l n (some t)
        (some { args := t.args, fetched := t.fetched, since := some s.channel.length })
  | takes (t : Stream) (data : ByteArray) (rest : List ByteArray) (uuid : Uuid) (now : Datetime)
      (hinbox : t.inbox = data :: rest) (hlive : t.failed = false) :
      StreamMove env s l n (some t)
        (some { t with inbox := rest, received := t.received ++ [some ⟨data, uuid, now⟩] })
  | waits (t : Stream) (hsince : t.since.isSome) (hlive : t.failed = false) :
      StreamMove env s l n (some t)
        (some { t with received := t.received ++ [none] })
  | fails (t : Stream) (hwaits : (t.frames env).2 = .waiting) :
      StreamMove env s l n (some t) (some { t with failed := true })
  | ends (t? : Option Stream) : StreamMove env s l n t? none

/-- What a step does to the parts. -/
inductive Move (env : Environment) (s : State) : Label → State → Prop
  | loan (l : Loan.Label) (loan : Loan.State) (hstep : Loan.step env.pydantic s.loan l = some loan)
      (hsent : loan.kafka = s.loan.kafka ∨ ∃ p, loan.kafka = s.loan.kafka ++ [p] ∧
        p.record.topic ≠ loanStatusChangedV1) :
      Move env s (.loan l) { s with loan := loan }
  | sends (l : Loan.Label) (loan : Loan.State) (p : Loan.Publication)
      (hstep : Loan.step env.pydantic s.loan l = some loan)
      (hkafka : loan.kafka = s.loan.kafka ++ [p])
      (htopic : p.record.topic = loanStatusChangedV1) :
      Move env s (.loan l)
        (State.produce env { s with loan := loan } (env.partition p.record.key) (.own p))
  | foreign (partition : Nat) (value : Option ByteArray) :
      Move env s (.foreign partition value)
        (s.produce env partition (.foreign value))
  | bridge (l : Notification.Label) (b : Bridge)
      (hstep : s.bridge.step env.pydantic l = some b)
      (hl : l ≠ .publish ∧ ∀ p value, l ≠ .produce p value) :
      Move env s (.bridge l) { s with bridge := b }
  | publishes (p : Notification.Publication) (b : Bridge) (hp : s.outgoing? = some p)
      (hstep : s.bridge.step env.pydantic .publish = some b) :
      Move env s (.bridge .publish)
        (State.publish { s with bridge := b } p)
  | unanswered (p : Notification.Publication) (b : Bridge) (hp : s.outgoing? = some p)
      (hstep : s.bridge.step env.pydantic .publishFails = some b) :
      Move env s .unanswered (State.publish { s with bridge := b } p)
  | stream (l : Label) (n : Nat) (t : Option Stream)
      (hmove : StreamMove env s l n (s.streams n) t) :
      Move env s l (s.setStream n t)

theorem afterLoan_of_same {loan : Loan.State} (hkafka : loan.kafka = s.loan.kafka) :
    s.afterLoan env loan = { s with loan := loan } := by
  simp [State.afterLoan, hkafka]

theorem afterLoan_of_append {loan : Loan.State} {p : Loan.Publication}
    (hkafka : loan.kafka = s.loan.kafka ++ [p]) :
    s.afterLoan env loan =
      if p.record.topic = loanStatusChangedV1 then
        State.produce env { s with loan := loan } (env.partition p.record.key) (.own p)
      else { s with loan := loan } := by
  simp only [State.afterLoan, hkafka, List.drop_left]
  by_cases htopic : p.record.topic = loanStatusChangedV1 <;> simp [htopic]

theorem bridgeStep_cases {l : Notification.Label} (h : bridgeStep env s l = some s') :
    Move env s (.bridge l) s' := by
  cases l with
  | produce p value => simp [bridgeStep] at h
  | publish =>
      simp only [bridgeStep] at h
      cases hp : s.outgoing? with
      | none => simp [hp] at h
      | some p =>
          simp only [hp, Option.map_eq_some_iff] at h
          obtain ⟨b, hb, rfl⟩ := h
          exact .publishes p b hp hb
  | fetch _ | handle | publishFails | commit | commitFails | restart =>
      simp only [bridgeStep, Option.map_eq_some_iff] at h
      obtain ⟨b, hb, rfl⟩ := h
      exact .bridge _ b hb (by simp)

theorem openStep_cases {l : Label} (h : openStep env s l = some s') :
    Move env s l s' := by
  simp only [openStep] at h
  split at h
  · rename_i n loanId req edge
    split at h
    · rename_i args hnone hargs
      obtain rfl := Option.some.inj h
      refine .stream _ n _ ?_
      rw [hnone]
      exact .opens loanId req edge args rfl hargs
    · contradiction
  · rename_i n uuid now
    split at h
    · rename_i args since inbox received hsome
      split at h
      · obtain rfl := Option.some.inj h
        exact .stream _ n _ (.ends _)
      · rename_i loan hloan
        obtain rfl := Option.some.inj h
        refine .stream _ n _ ?_
        rw [hsome]
        exact .fetches _ loan uuid now hloan
    · contradiction
  · rename_i n
    split at h
    · rename_i args loan draws inbox received hsome
      split at h
      · contradiction
      · obtain rfl := Option.some.inj h
        refine .stream _ n _ ?_
        rw [hsome]
        exact .subscribes _ rfl rfl
    · contradiction
  · contradiction

theorem step_cases {l : Label} (h : step env s l = some s') :
    Move env s l s' := by
  cases l with
  | loan l =>
      obtain ⟨loan, hloan, rfl⟩ := Option.map_eq_some_iff.mp h
      cases (Loan.step_appends hloan).2 with
      | inl hnothing =>
          rw [afterLoan_of_same hnothing.1]
          exact .loan l loan hloan (.inl hnothing.1)
      | inr happends =>
          obtain ⟨p, hkafka, _⟩ := happends
          rw [afterLoan_of_append hkafka]
          split
          · rename_i htopic
            exact .sends l loan p hloan hkafka htopic
          · rename_i htopic
            exact .loan l loan hloan (.inr ⟨p, hkafka, htopic⟩)
  | foreign p value =>
      obtain rfl := Option.some.inj h
      exact .foreign p value
  | bridge l => exact bridgeStep_cases h
  | unanswered =>
      simp only [step] at h
      cases hp : s.outgoing? with
      | none => simp [hp] at h
      | some p =>
          simp only [hp, Option.map_eq_some_iff] at h
          obtain ⟨b, hb, rfl⟩ := h
          exact .unanswered p b hp hb
  | visit n loanId req edge => exact openStep_cases h
  | fetch n uuid now => exact openStep_cases h
  | subscribe n => exact openStep_cases h
  | getMessage n uuid now =>
      simp only [step] at h
      split at h
      · rename_i t hsome
        split at h
        · rename_i data rest hinbox hlive
          obtain rfl := Option.some.inj h
          refine .stream _ n _ ?_
          rw [hsome]
          exact .takes t data rest uuid now hinbox hlive
        · contradiction
      · contradiction
  | timeout n =>
      simp only [step] at h
      split at h
      · rename_i t hsome
        split at h
        · rename_i hwaits
          obtain rfl := Option.some.inj h
          refine .stream _ n _ ?_
          rw [hsome]
          exact .waits t hwaits.1 hwaits.2.2
        · contradiction
      · contradiction
  | fails n =>
      simp only [step] at h
      split at h
      · rename_i t hsome
        split at h
        · rename_i hwaits
          obtain rfl := Option.some.inj h
          refine .stream _ n _ ?_
          rw [hsome]
          exact .fails t hwaits
        · contradiction
      · contradiction
  | leave n =>
      obtain rfl := Option.some.inj h
      exact .stream _ n _ (.ends _)

end Inversion

end CrediGuard.Platform
