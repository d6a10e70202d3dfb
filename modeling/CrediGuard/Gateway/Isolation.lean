import CrediGuard.Gateway.Identity
import CrediGuard.Gateway.LoanEvents
import CrediGuard.Gateway.SseResume
import CrediGuard.Loan.GetLoan
import CrediGuard.Notification.Relay

/-!
What an applicant learns of the loans of others: nothing.

What a stream shows is a function of the loan the service hands out and of the
applicant's events about it. Two histories that agree on the applicant's loans and
events therefore look alike, whatever else the tables and the topic hold.
-/

namespace CrediGuard.Gateway
open Notification

section Model

/-- The loan service behind the gateway: the id it reads in a path, if the path is
one of a loan, and the object that is read from its response. -/
structure LoanService where
  readId : String → Option Uuid
  render : Loan.LoanApplicationResponse → Loan

/-- `_fetch_loan`: whatever is not answered with 200 is `None`. -/
def LoanService.fetchLoan (service : LoanService) (T : Loan.LoanTable)
    (loanId applicantId _correlationId : String) : Option Loan :=
  match service.readId loanId, Loan.getCurrentApplicantId (some applicantId) with
  | some loanId, .ok applicantId =>
      match T.outcome loanId applicantId with
      | some (.ok response) => some (service.render response)
      | _ => none
  | _, _ => none

/-- The loans committed at each moment, and the records the bridge takes then. -/
structure History where
  loans : Nat → Loan.LoanTable
  records : Nat → List ByteArray

/-- What is published on a channel for some records. -/
def publishedOn (v : Pydantic) (channel : String) (records : List ByteArray) : List ByteArray :=
  (records.filterMap (handleMessage v)).filterMap fun p =>
    if p.1 = channel then some p.2 else none

/-- The events about an applicant among some records. -/
def eventsAbout (v : Pydantic) (applicantId : Uuid) (records : List ByteArray) :
    List (EventEnvelope LoanStatusChangedV1) :=
  (records.filterMap (parseStatusChanged v)).filter fun m => m.payload.applicantId = applicantId

structure Agree (v : Pydantic) (applicantId : Uuid) (h h' : History) : Prop where
  loans : ∀ n, (h.loans n).Agree applicantId (h'.loans n)
  events : ∀ n, eventsAbout v applicantId (h.records n) = eventsAbout v applicantId (h'.records n)

/-- A client's request for a stream, the moments at which the endpoint checks it, the
stream reads the loan and subscribes, and the moment up to which it has run. -/
structure Visit where
  loanId : String
  req : Request
  checked : Nat
  fetched : Nat
  subscribed : Nat
  reached : Nat

def History.during (h : History) (visit : Visit) : List ByteArray :=
  (List.range' visit.subscribed (visit.reached - visit.subscribed)).flatMap h.records

/-- What the code draws for one visit, and the results of `get_message`. -/
structure Connection where
  correlationId : Uuid
  initialId : Uuid
  initialAt : Datetime
  received : List (Option Message)

/-- The id of an initial frame is a fresh one. -/
def StatusFrame.hideId (f : StatusFrame) : StatusFrame :=
  { f with eventId := if startsWith f.eventId "initial-" then "initial-" else f.eventId }

/-- The status frames, up to fresh ids, clock readings and heartbeats. -/
def observed (frames : List Frame) : List StatusFrame := (untimed frames).map StatusFrame.hideId

/-- Both are refused with one response, or show the same. -/
def SameView : Except Response (List Frame × Ending) → Except Response (List Frame × Ending) → Prop
  | .error r, .error r' => r = r'
  | .ok (frames, ending), .ok (frames', ending') =>
      observed frames = observed frames' ∧ ending = ending'
  | _, _ => False

variable (v : Pydantic) (repr : Json → String) (edge : Edge) (settings : Settings)
  (frontendUrl : String) (service : LoanService) (h : History) (visit : Visit) (c : Connection)

def opened : Except Response StreamArgs :=
  loanEvents { edge with uuid := c.correlationId } settings frontendUrl
    (service.fetchLoan (h.loans visit.checked)) visit.loanId visit.req

/-- Every message that is published on the stream's channel is received. -/
def Follows : Prop :=
  ∀ args, opened edge settings frontendUrl service h visit c = .ok args →
    (c.received.filterMap id).map Message.data =
      publishedOn v (streamChannel args.applicantId) (h.during visit)

def view : Except Response (List Frame × Ending) :=
  (opened edge settings frontendUrl service h visit c).map fun args =>
    eventStream utf8Loads repr args.loanId args.lastEventId
      (service.fetchLoan (h.loans visit.fetched) args.loanId args.applicantId args.correlationId)
      c.initialId c.initialAt c.received

end Model

section Channel
variable {v : Pydantic} {applicantId : Uuid}

theorem redisChannelFor_eq_streamChannel {a b : Uuid} :
    redisChannelFor a = streamChannel b.str ↔ a = b := by
  constructor
  · intro heq
    have hlist := congrArg String.toList heq
    simp only [redisChannelFor, streamChannel, String.toList_append] at hlist
    exact Uuid.str_injective (String.toList_inj.mp (List.append_cancel_left hlist))
  · rintro rfl
    rfl

/-- On the channel of an applicant are the events about them. -/
theorem publishedOn_streamChannel (records : List ByteArray) :
    publishedOn v (streamChannel applicantId.str) records =
      (eventsAbout v applicantId records).map fun m => (toRedisMessage m).2 := by
  have hmapped : records.filterMap (handleMessage v) =
      (records.filterMap (parseStatusChanged v)).map toRedisMessage :=
    List.map_filterMap.symm
  rw [publishedOn, eventsAbout, hmapped]
  induction records.filterMap (parseStatusChanged v) with
  | nil => rfl
  | cons m messages ih =>
      rw [List.map_cons, List.filterMap_cons, ih]
      by_cases happlicant : m.payload.applicantId = applicantId
      · rw [List.filter_cons_of_pos (by simpa using happlicant)]
        simp only [toRedisMessage, redisChannelFor_eq_streamChannel, happlicant, if_true,
          List.map_cons]
      · rw [List.filter_cons_of_neg (by simpa using happlicant)]
        simp only [toRedisMessage, redisChannelFor_eq_streamChannel, happlicant, if_false]

/-- What a bridge that never fails publishes on a channel is what is published for
the records it takes. -/
theorem publishedOn_taken {log : Nat → List (Option ByteArray)}
    {ls : List Notification.Label} {b : Bridge}
    (hls : ∀ l ∈ ls, Bridge.Faultless l)
    (hrun : Runs.run (Bridge.step v) (Bridge.start log) ls = some b)
    (hidle : b.phase.inHand = none) (channel : String) :
    (b.published.filterMap fun p => if p.channel = channel then some p.message else none) =
      publishedOn v channel (Bridge.taken v (Bridge.start log) ls) := by
  rw [publishedOn, ← Bridge.messages_eq_taken hls hrun hidle, Bridge.messages,
    List.filterMap_map]
  rfl

theorem eventsAbout_flatMap (records : Nat → List ByteArray) (moments : List Nat) :
    eventsAbout v applicantId (moments.flatMap records) =
      moments.flatMap fun n => eventsAbout v applicantId (records n) := by
  simp only [eventsAbout, List.filterMap_flatMap, List.filter_flatMap]

/-- A stream on the channel of an applicant receives the events about them. -/
theorem exists_deliveries {messages : List (EventEnvelope LoanStatusChangedV1)}
    {received : List (Option Message)}
    (h : (received.filterMap id).map Message.data =
      messages.map fun m => (toRedisMessage m).2) :
    ∃ deliveries : List Delivery, received = deliveries.map Delivery.message? ∧
      deliveries.filterMap (fun d => d.map Prod.fst) = messages := by
  induction received generalizing messages with
  | nil =>
      refine ⟨[], rfl, ?_⟩
      exact (List.map_eq_nil_iff.mp h.symm).symm
  | cons result received ih =>
      cases result with
      | none =>
          obtain ⟨deliveries, hreceived, hmessages⟩ := ih h
          exact ⟨none :: deliveries, by rw [hreceived]; rfl, hmessages⟩
      | some message =>
          cases messages with
          | nil => simp at h
          | cons m messages =>
              simp only [List.filterMap_cons, id_eq, List.map_cons, List.cons.injEq] at h
              obtain ⟨deliveries, hreceived, hmessages⟩ := ih h.2
              refine ⟨some (m, message.uuid, message.now) :: deliveries, ?_, ?_⟩
              · rw [hreceived, List.map_cons]
                simp only [Delivery.message?, Option.map_some, messageOf, ← h.1]
              · simp only [List.filterMap_cons, Option.map_some, hmessages]

end Channel

section Stream
variable {repr : Json → String} {loanId : String} {lastEventId : Option String}

def liveView (messages : List (EventEnvelope LoanStatusChangedV1)) : List StatusFrame × Ending :=
  ((throughTerminal messages).map fun m => (frameOf m 0).hideId, endingOf messages)

/-- What a stream shows: a function of the loan it fetched and of the messages about it. -/
def viewOf (repr : Json → String) (loanId : String) (lastEventId : Option String)
    (fetched : Option Loan) (messages : List (EventEnvelope LoanStatusChangedV1)) :
    List StatusFrame × Ending :=
  match fetched, lastEventId with
  | none, _ => ([], .returned)
  | some loan, none =>
      let initial := (initialFrame repr loanId loan ⟨0⟩ 0).hideId
      if isTerminal (fetchedStatus repr loan) then ([initial], .returned)
      else (initial :: (liveView messages).1, (liveView messages).2)
  | some _, some eventId => liveView (behind eventId messages)

theorem hideId_initialFrame (loan : Loan) (uuid : Uuid) (now : Datetime) :
    StatusFrame.hideId { initialFrame repr loanId loan uuid now with now := 0 } =
      (initialFrame repr loanId loan ⟨0⟩ 0).hideId := by
  have hfresh (uuid : Uuid) : startsWith ("initial-" ++ uuid.str) "initial-" = true := by
    simp only [startsWith, String.toList_append, List.isPrefixOf_iff_prefix, List.prefix_append]
  simp only [StatusFrame.hideId, initialFrame, hfresh, if_true]

theorem observed_cons_initial (loan : Loan) (uuid : Uuid) (now : Datetime)
    (frames : List Frame) :
    observed (.status (initialFrame repr loanId loan uuid now) :: frames) =
      (initialFrame repr loanId loan ⟨0⟩ 0).hideId :: observed frames := by
  rw [← hideId_initialFrame loan uuid now]
  rfl

theorem observed_of_untimed {frames : List Frame}
    {messages : List (EventEnvelope LoanStatusChangedV1)}
    (h : untimed frames = (throughTerminal messages).map fun m => frameOf m 0) :
    observed frames = (liveView messages).1 := by
  rw [observed, h, List.map_map]
  rfl

theorem eventStream_view (fetched : Option Loan) (uuid : Uuid) (now : Datetime)
    (received : List Delivery) :
    let run := eventStream utf8Loads repr loanId lastEventId fetched uuid now
      (received.map Delivery.message?)
    observed run.1 = (viewOf repr loanId lastEventId fetched (spelled loanId received)).1 ∧
      run.2 = (viewOf repr loanId lastEventId fetched (spelled loanId received)).2 := by
  cases fetched with
  | none => exact ⟨rfl, rfl⟩
  | some loan =>
      cases lastEventId with
      | some eventId =>
          obtain ⟨huntimed, hending⟩ := @listen_unseen repr loanId eventId
            (fetchedStatus repr loan) received
          exact ⟨observed_of_untimed huntimed, hending⟩
      | none =>
          simp only [eventStream, viewOf]
          split
          · exact ⟨observed_cons_initial loan uuid now [], rfl⟩
          · obtain ⟨huntimed, hending⟩ := @listen_seen repr loanId
              (fetchedStatus repr loan) none received
            refine ⟨?_, hending⟩
            rw [observed_cons_initial, observed_of_untimed huntimed]

end Stream

section Views
variable {v : Pydantic} {repr : Json → String} {edge : Edge} {settings : Settings}
  {frontendUrl : String} {service : LoanService} {h h' : History} {visit : Visit}
  {c c' : Connection} {applicantId : Uuid}

theorem fetchLoan_of_agree {T T' : Loan.LoanTable} (hagree : T.Agree applicantId T')
    (loanId correlationId correlationId' : String) :
    service.fetchLoan T loanId applicantId.str correlationId =
      service.fetchLoan T' loanId applicantId.str correlationId' := by
  simp only [LoanService.fetchLoan, Loan.getCurrentApplicantId_str]
  cases service.readId loanId with
  | none => rfl
  | some id => simp only [hagree.outcome_eq id]

theorem fetchLoan_of_foreign {T : Loan.LoanTable} {loanId : String} {id : Uuid}
    (hread : service.readId loanId = some id) (hforeign : T.Foreign id applicantId)
    (correlationId : String) : service.fetchLoan T loanId applicantId.str correlationId = none := by
  simp only [LoanService.fetchLoan, Loan.getCurrentApplicantId_str, hread,
    Loan.outcome_of_foreign hforeign]

/-- The correlation id of a visit, its own or a drawn one. -/
def visitId (edge : Edge) (visit : Visit) (c : Connection) : String :=
  correlationId { edge with uuid := c.correlationId } visit.req

theorem opened_of_origin (horigin : checkOrigin frontendUrl visit.req = false) :
    opened edge settings frontendUrl service h visit c = .error (detail 403 "Forbidden" []) := by
  simp only [opened, loanEvents, horigin, Bool.false_eq_true, if_false]

section Visitor
variable (hvisitor : streamApplicant edge settings visit.req = some applicantId.str)
  (horigin : checkOrigin frontendUrl visit.req = true)
include hvisitor horigin

theorem opened_of_none (hfetch : service.fetchLoan (h.loans visit.checked) visit.loanId
      applicantId.str (visitId edge visit c) = none) :
    opened edge settings frontendUrl service h visit c = .error (detail 404 "Not Found" []) := by
  have hsame : streamApplicant { edge with uuid := c.correlationId } settings visit.req =
      some applicantId.str := hvisitor
  rw [visitId] at hfetch
  simp only [opened, loanEvents, horigin, if_true, hsame, hfetch]

theorem opened_of_some {loan : Loan} (hfetch : service.fetchLoan (h.loans visit.checked)
      visit.loanId applicantId.str (visitId edge visit c) = some loan) :
    opened edge settings frontendUrl service h visit c =
      .ok ⟨visit.loanId, applicantId.str, lookup visit.req.headers "last-event-id",
        visitId edge visit c⟩ := by
  have hsame : streamApplicant { edge with uuid := c.correlationId } settings visit.req =
      some applicantId.str := hvisitor
  rw [visitId] at hfetch
  simp only [opened, loanEvents, horigin, if_true, hsame, hfetch, visitId]

end Visitor

/-- Whom a stream is opened for. -/
theorem opened_ok (hvisitor : streamApplicant edge settings visit.req = some applicantId.str)
    {args : StreamArgs} (h' : opened edge settings frontendUrl service h visit c = .ok args) :
    args.applicantId = applicantId.str := by
  cases horigin : checkOrigin frontendUrl visit.req with
  | false =>
      rw [opened_of_origin horigin] at h'
      contradiction
  | true =>
      cases hfetch : service.fetchLoan (h.loans visit.checked) visit.loanId applicantId.str
          (visitId edge visit c) with
      | none =>
          rw [opened_of_none hvisitor horigin hfetch] at h'
          contradiction
      | some loan =>
          rw [opened_of_some hvisitor horigin hfetch] at h'
          rw [← Except.ok.inj h']

variable (c c') in
/-- The endpoint refuses the visit with one response in both histories, or lets it in. -/
theorem opened_of_agree (hagree : Agree v applicantId h h')
    (hvisitor : streamApplicant edge settings visit.req = some applicantId.str) :
    (∃ r, opened edge settings frontendUrl service h visit c = .error r ∧
      opened edge settings frontendUrl service h' visit c' = .error r) ∨
    ∃ lastEventId id id',
      opened edge settings frontendUrl service h visit c =
        .ok ⟨visit.loanId, applicantId.str, lastEventId, id⟩ ∧
      opened edge settings frontendUrl service h' visit c' =
        .ok ⟨visit.loanId, applicantId.str, lastEventId, id'⟩ := by
  have hsame : service.fetchLoan (h.loans visit.checked) visit.loanId applicantId.str
        (visitId edge visit c) =
      service.fetchLoan (h'.loans visit.checked) visit.loanId applicantId.str
        (visitId edge visit c') :=
    fetchLoan_of_agree (hagree.loans visit.checked) visit.loanId _ _
  cases horigin : checkOrigin frontendUrl visit.req with
  | false => exact .inl ⟨_, opened_of_origin horigin, opened_of_origin horigin⟩
  | true =>
      cases hfetch : service.fetchLoan (h.loans visit.checked) visit.loanId applicantId.str
          (visitId edge visit c) with
      | none =>
          exact .inl ⟨_, opened_of_none hvisitor horigin hfetch,
            opened_of_none hvisitor horigin (hsame ▸ hfetch)⟩
      | some loan =>
          exact .inr ⟨_, _, _, opened_of_some hvisitor horigin hfetch,
            opened_of_some hvisitor horigin (hsame ▸ hfetch)⟩

theorem History.eventsAbout_during (hagree : Agree v applicantId h h') (visit : Visit) :
    eventsAbout v applicantId (h.during visit) = eventsAbout v applicantId (h'.during visit) := by
  simp only [History.during, eventsAbout_flatMap, hagree.events]

variable (repr) in
/-- What a followed stream of the applicant shows. -/
theorem eventStream_of_follows (hfollows : Follows v edge settings frontendUrl service h visit c)
    {loanId correlationId : String} {lastEventId : Option String}
    (hopened : opened edge settings frontendUrl service h visit c =
      .ok ⟨loanId, applicantId.str, lastEventId, correlationId⟩) (fetched : Option Loan) :
    let run := eventStream utf8Loads repr loanId lastEventId fetched c.initialId c.initialAt
      c.received
    let messages := (eventsAbout v applicantId (h.during visit)).filter fun m =>
      m.payload.loanId.str = loanId
    observed run.1 = (viewOf repr loanId lastEventId fetched messages).1 ∧
      run.2 = (viewOf repr loanId lastEventId fetched messages).2 := by
  have hdata := hfollows _ hopened
  rw [publishedOn_streamChannel] at hdata
  obtain ⟨deliveries, hreceived, hmessages⟩ := exists_deliveries hdata
  rw [hreceived, ← hmessages]
  exact eventStream_view fetched c.initialId c.initialAt deliveries

theorem view_of_agree (hagree : Agree v applicantId h h')
    (hvisitor : streamApplicant edge settings visit.req = some applicantId.str)
    (hfollows : Follows v edge settings frontendUrl service h visit c)
    (hfollows' : Follows v edge settings frontendUrl service h' visit c') :
    SameView (view repr edge settings frontendUrl service h visit c)
      (view repr edge settings frontendUrl service h' visit c') := by
  cases opened_of_agree c c' hagree hvisitor with
  | inl hrefused =>
      obtain ⟨r, hopened, hopened'⟩ := hrefused
      rw [view, hopened, view, hopened']
      exact rfl
  | inr haccepted =>
      obtain ⟨lastEventId, id, id', hopened, hopened'⟩ := haccepted
      rw [view, hopened, view, hopened']
      simp only [Except.map, SameView]
      have hfetch : service.fetchLoan (h.loans visit.fetched) visit.loanId applicantId.str id =
          service.fetchLoan (h'.loans visit.fetched) visit.loanId applicantId.str id' :=
        fetchLoan_of_agree (hagree.loans visit.fetched) visit.loanId id id'
      obtain ⟨hframes, hending⟩ := eventStream_of_follows repr hfollows hopened
        (service.fetchLoan (h.loans visit.fetched) visit.loanId applicantId.str id)
      obtain ⟨hframes', hending'⟩ := eventStream_of_follows repr hfollows' hopened'
        (service.fetchLoan (h'.loans visit.fetched) visit.loanId applicantId.str id')
      rw [hframes, hframes', hending, hending', hfetch, History.eventsAbout_during hagree]
      exact ⟨rfl, rfl⟩

/-- A stream for a loan of somebody else is answered as one for a missing loan. -/
theorem view_of_foreign {id : Uuid} (hread : service.readId visit.loanId = some id)
    (hforeign : (h.loans visit.checked).Foreign id applicantId)
    (hvisitor : streamApplicant edge settings visit.req = some applicantId.str)
    (horigin : checkOrigin frontendUrl visit.req = true) :
    view repr edge settings frontendUrl service h visit c =
      .error (detail 404 "Not Found" []) := by
  rw [view, opened_of_none hvisitor horigin (fetchLoan_of_foreign hread hforeign _)]
  rfl

/-- Two histories that agree on an applicant's loans and events answer the applicant
alike, and the loans of others as if they did not exist. -/
theorem reading_isolated (hagree : Agree v applicantId h h') :
    (∀ n loanId, (h.loans n).outcome loanId applicantId =
        (h'.loans n).outcome loanId applicantId) ∧
      (∀ visit c c', streamApplicant edge settings visit.req = some applicantId.str →
        Follows v edge settings frontendUrl service h visit c →
        Follows v edge settings frontendUrl service h' visit c' →
        SameView (view repr edge settings frontendUrl service h visit c)
          (view repr edge settings frontendUrl service h' visit c')) ∧
      ∀ n loanId, (h.loans n).Foreign loanId applicantId →
        (h.loans n).outcome loanId applicantId =
            some (.error (.loanApplicationNotFound loanId)) ∧
          ∀ visit c, visit.checked = n → service.readId visit.loanId = some loanId →
            streamApplicant edge settings visit.req = some applicantId.str →
            checkOrigin frontendUrl visit.req = true →
            view repr edge settings frontendUrl service h visit c =
              .error (detail 404 "Not Found" []) := by
  refine ⟨?_, ?_, ?_⟩
  · intro n loanId
    exact (hagree.loans n).outcome_eq loanId
  · intro visit c c' hvisitor hfollows hfollows'
    exact view_of_agree hagree hvisitor hfollows hfollows'
  · intro n loanId hforeign
    refine ⟨Loan.outcome_of_foreign hforeign, ?_⟩
    intro visit c hchecked hread hvisitor horigin
    exact view_of_foreign hread (hchecked ▸ hforeign) hvisitor horigin

theorem follows_of_received
    (hvisitor : streamApplicant edge settings visit.req = some applicantId.str)
    (hreceived : (c.received.filterMap id).map Message.data =
      publishedOn v (streamChannel applicantId.str) (h.during visit)) :
    Follows v edge settings frontendUrl service h visit c := by
  intro args hargs
  rw [opened_ok hvisitor hargs]
  exact hreceived

end Views

section Sample
variable {v : Pydantic}

def storedLoan (id applicantId : Uuid) : Loan.LoanApplicationModel where
  id := id
  applicantId := applicantId
  amount := ⟨1000, 0⟩
  termMonths := 12
  monthlyIncome := ⟨5000, 0⟩
  applicantAge := 30
  status := "SUBMITTED"
  decisionReasons := none
  idempotencyKey := none
  createdAt := 0
  updatedAt := 0

theorem knownStatuses_storedLoan {rows : List Loan.LoanApplicationModel}
    (h : ∀ m ∈ rows, ∃ id applicantId, m = storedLoan id applicantId) :
    Loan.KnownStatuses rows := by
  intro m hm
  obtain ⟨id, applicantId, rfl⟩ := h m hm
  exact ⟨.submitted, Loan.LoanStatus.ofValue?_value .submitted⟩

/-- A loan of applicant 100. -/
def ownTable : Loan.LoanTable where
  rows := [storedLoan ⟨2⟩ ⟨100⟩]
  ids := by decide
  known := knownStatuses_storedLoan (by simp)

/-- The same, and a loan of applicant 4. -/
def sharedTable : Loan.LoanTable where
  rows := [storedLoan ⟨3⟩ ⟨4⟩, storedLoan ⟨2⟩ ⟨100⟩]
  ids := by decide
  known := knownStatuses_storedLoan (by simp)

/-- One history where applicant 4 has a loan and an event, and one where not. -/
def busyHistory : History := ⟨fun _ => sharedTable, fun n =>
  if n = 3 then [Bridge.sampleRecord] else []⟩

def quietHistory : History := ⟨fun _ => ownTable, fun _ => []⟩

theorem eventsAbout_of_other {raw : ByteArray} {m : EventEnvelope LoanStatusChangedV1}
    {applicantId : Uuid} (hparse : parseStatusChanged v raw = some m)
    (hother : m.payload.applicantId ≠ applicantId) : eventsAbout v applicantId [raw] = [] := by
  simp [eventsAbout, hparse, hother]

theorem eventsAbout_sampleRecord :
    eventsAbout Pydantic.strict ⟨100⟩ [Bridge.sampleRecord] = [] := by
  have hexact : Json.Exact Bridge.sampleData := by
    simp only [Bridge.sampleData, Json.Exact, Json.ExactPairs, and_self]
  have hparse : parseStatusChanged Pydantic.strict Bridge.sampleRecord =
      statusChangedOf Pydantic.strict Bridge.sampleData := by
    simp only [parseStatusChanged, Bridge.sampleRecord, Json.loadsBytes_toUTF8_dumps hexact,
      Option.bind_some]
  have happlicant : (statusChangedOf Pydantic.strict Bridge.sampleData).map
      (fun m => m.payload.applicantId) = some ⟨4⟩ := by decide +kernel
  obtain ⟨m, hm, happlicant⟩ := Option.map_eq_some_iff.mp happlicant
  refine eventsAbout_of_other (hparse.trans hm) ?_
  rw [happlicant]
  decide

theorem agree_quietHistory : Agree Pydantic.strict ⟨100⟩ busyHistory quietHistory := by
  refine ⟨?_, ?_⟩
  · intro n m hm
    simp only [busyHistory, quietHistory, sharedTable, ownTable, List.mem_cons, List.not_mem_nil,
      or_false, or_iff_right_iff_imp]
    intro heq
    rw [heq] at hm
    exact absurd hm (by decide)
  · intro n
    simp only [busyHistory, quietHistory]
    split
    · exact eventsAbout_sampleRecord
    · rfl

theorem streamApplicant_bearerRequest :
    streamApplicant Edge.sample {} bearerRequest = some (Uuid.str ⟨100⟩) := by
  have hcookie (name : String) : lookup bearerRequest.cookies name = none := rfl
  simp only [streamApplicant, hcookie, Edge.validateCookie, validate_bearerRequest,
    Option.map_some]

def sampleService : LoanService := ⟨Uuid.parse, fun r => [("status", .str r.status.value)]⟩

/-- Applicant 100 follows their own loan, and cannot tell that loan 3 exists. -/
theorem reading_isolated_busy :
    let visit (loanId : Uuid) : Visit := ⟨loanId.str, bearerRequest, 0, 1, 2, 5⟩
    let c : Connection := ⟨⟨10⟩, ⟨11⟩, 0, [none]⟩
    let c' : Connection := ⟨⟨20⟩, ⟨21⟩, 7, [none, none]⟩
    let view := view (fun _ => "") Edge.sample {} "http://localhost:3000" sampleService
    (busyHistory.loans 0).outcome ⟨3⟩ ⟨100⟩ = (quietHistory.loans 0).outcome ⟨3⟩ ⟨100⟩ ∧
      SameView (view busyHistory (visit ⟨2⟩) c) (view quietHistory (visit ⟨2⟩) c') ∧
      view busyHistory (visit ⟨3⟩) c = .error (detail 404 "Not Found" []) := by
  intro visit c c' view
  obtain ⟨houtcome, hview, hforeign⟩ := @reading_isolated Pydantic.strict (fun _ => "")
    Edge.sample {} "http://localhost:3000" sampleService _ _ _ agree_quietHistory
  have hbusy : publishedOn Pydantic.strict (streamChannel (Uuid.str ⟨100⟩))
      (busyHistory.during (visit ⟨2⟩)) = [] := by
    have hduring : busyHistory.during (visit ⟨2⟩) = [Bridge.sampleRecord] := by
      simp [History.during, visit, busyHistory, List.range']
    rw [publishedOn_streamChannel, hduring, eventsAbout_sampleRecord, List.map_nil]
  refine ⟨houtcome 0 ⟨3⟩, ?_, ?_⟩
  · refine hview (visit ⟨2⟩) c c' streamApplicant_bearerRequest ?_ ?_
    · exact follows_of_received streamApplicant_bearerRequest hbusy.symm
    · refine follows_of_received streamApplicant_bearerRequest ?_
      simp [publishedOn, History.during, quietHistory, c']
  · have hread : sampleService.readId (visit ⟨3⟩).loanId = some ⟨3⟩ := by
      simp only [sampleService, visit, Uuid.parse_str]
    have horigin : checkOrigin "http://localhost:3000" bearerRequest = true := by
      simp [checkOrigin, lookup, bearerRequest]
    refine (hforeign 0 ⟨3⟩ ?_).2 (visit ⟨3⟩) c rfl hread streamApplicant_bearerRequest horigin
    intro m hm hid
    simp only [busyHistory, sharedTable, List.mem_cons, List.not_mem_nil, or_false] at hm
    cases hm with
    | inl heq =>
        rw [heq]
        decide
    | inr heq =>
        rw [heq] at hid
        exact absurd hid (by decide)

end Sample

end CrediGuard.Gateway
