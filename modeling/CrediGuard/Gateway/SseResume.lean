import CrediGuard.Gateway.Sse

/-!
Resuming an SSE stream with a Last-Event-ID.

A resumed stream shows nothing until a message with that id comes by, and
Pub/Sub does not replay the one the client has seen. What it shows, and whether it
ends, is therefore decided by the messages behind a second copy of that message.
-/

namespace CrediGuard.Gateway
open Notification

section Statement

/-- A result of `get_message`: a timeout, or a message of the notification service
with the uuid and the clock reading the loop draws for it. -/
abbrev Delivery := Option (EventEnvelope LoanStatusChangedV1 × Uuid × Datetime)

def Delivery.message? (d : Delivery) : Option Message :=
  d.map fun (envelope, uuid, now) => messageOf envelope uuid now

/-- The envelopes about one loan, in the order they were received. -/
def about (loan : Uuid) (received : List Delivery) : List (EventEnvelope LoanStatusChangedV1) :=
  (received.filterMap fun d => d.map Prod.fst).filter fun m => m.payload.loanId = loan

/-- The status behind the last message of the loan. -/
def currentStatus (fetched : String) (messages : List (EventEnvelope LoanStatusChangedV1)) :
    String :=
  (messages.getLast?.map fun m => m.payload.newStatus).getD fetched

def hasTerminal (messages : List (EventEnvelope LoanStatusChangedV1)) : Bool :=
  messages.any fun m => isTerminal m.payload.newStatus

variable (repr : Json → String) (loanId : String) (loan : Uuid) (lastEventId carried : String)
  (fetched : Loan) (uuid : Uuid) (now : Datetime) (received : List Delivery)

def resumed : List Frame × Ending :=
  eventStream utf8Loads repr loanId (some lastEventId) (some fetched) uuid now
    (received.map Delivery.message?)

/-- A client that has seen the status `carried` learns the current one, and the
stream ends once a terminal status has come by. -/
def KeepsState : Prop :=
  let messages := about loan received
  let current := currentStatus (fetchedStatus repr fetched) messages
  let (frames, ending) := resumed repr loanId lastEventId fetched uuid now received
  (current ≠ carried → ∃ f, Frame.status f ∈ frames ∧ f.status = current) ∧
    (isTerminal (fetchedStatus repr fetched) ∨ hasTerminal messages → ending = .returned)

/-- The messages behind the first one with the id `lastEventId`. -/
def behind (messages : List (EventEnvelope LoanStatusChangedV1)) :
    List (EventEnvelope LoanStatusChangedV1) :=
  (messages.dropWhile fun m => m.eventId.str ≠ lastEventId).tail

/-- Up to the first terminal message, and with it. -/
def throughTerminal : List (EventEnvelope LoanStatusChangedV1) →
    List (EventEnvelope LoanStatusChangedV1)
  | [] => []
  | m :: ms => if isTerminal m.payload.newStatus then [m] else m :: throughTerminal ms

/-- The messages a resumed stream gets to: the path spells the loan as the
messages do, and a copy of the last seen message comes first. -/
def reached : List (EventEnvelope LoanStatusChangedV1) :=
  if loanId = loan.str then behind lastEventId (about loan received) else []

/-- The current status is the one the client has, or that of a reached message
with no terminal one before it; and where a terminal status is known, one is reached. -/
def ReachesState : Prop :=
  let messages := about loan received
  let current := currentStatus (fetchedStatus repr fetched) messages
  let ms := reached loanId loan lastEventId received
  (current = carried ∨ ∃ m ∈ throughTerminal ms, m.payload.newStatus = current) ∧
    (isTerminal (fetchedStatus repr fetched) ∨ hasTerminal messages → hasTerminal ms)

end Statement

section Listen
variable {repr : Json → String} {loanId lastEventId status : String}

/-- The envelopes whose loan is spelled `loanId`. -/
def spelled (loanId : String) (received : List Delivery) :
    List (EventEnvelope LoanStatusChangedV1) :=
  (received.filterMap fun d => d.map Prod.fst).filter fun m => m.payload.loanId.str = loanId

theorem spelled_cons (m : EventEnvelope LoanStatusChangedV1) (uuid : Uuid) (now : Datetime)
    (received : List Delivery) :
    spelled loanId (some (m, uuid, now) :: received) =
      if m.payload.loanId.str = loanId then m :: spelled loanId received
      else spelled loanId received := by
  by_cases h : m.payload.loanId.str = loanId <;> simp [spelled, h]

/-- The statuses a list of frames shows. -/
def shown (frames : List Frame) : List String :=
  (frames.filterMap Frame.status?).map fun f => f.status

/-- The status frames, without the clock readings. -/
def untimed (frames : List Frame) : List StatusFrame :=
  (frames.filterMap Frame.status?).map fun f => { f with now := 0 }

theorem shown_of_untimed {frames : List Frame}
    {messages : List (EventEnvelope LoanStatusChangedV1)}
    (h : untimed frames = messages.map fun m => frameOf m 0) :
    shown frames = messages.map fun m => m.payload.newStatus := by
  have hstatuses : shown frames = (untimed frames).map fun f => f.status := by
    simp only [shown, untimed, List.map_map]
    rfl
  rw [hstatuses, h, List.map_map]
  rfl

def endingOf (messages : List (EventEnvelope LoanStatusChangedV1)) : Ending :=
  if hasTerminal messages then .returned else .waiting

theorem listen_seen (lastEventId : Option String) (received : List Delivery) :
    let run := listen utf8Loads repr loanId lastEventId status true (received.map Delivery.message?)
    let messages := spelled loanId received
    untimed run.1 = (throughTerminal messages).map (fun m => frameOf m 0) ∧
      run.2 = endingOf messages := by
  induction received with
  | nil => exact ⟨rfl, rfl⟩
  | cons d received ih =>
      cases d with
      | none => exact ih
      | some d =>
          obtain ⟨m, uuid, now⟩ := d
          simp only [List.map_cons, Delivery.message?, Option.map_some, listen,
            react_messageOf, spelled_cons]
          by_cases hloan : m.payload.loanId.str = loanId
          · simp only [if_pos hloan, if_true]
            by_cases hterminal : isTerminal m.payload.newStatus = true
            · simp [hterminal, throughTerminal, untimed, Frame.status?, frameOf, endingOf,
                hasTerminal]
            · simp only [Bool.not_eq_true] at hterminal
              simp only [hterminal, Bool.false_eq_true, if_false, throughTerminal]
              refine ⟨?_, ?_⟩
              · simp only [untimed, List.filterMap_cons, Frame.status?, List.map_cons]
                exact congrArg _ ih.1
              · simpa [endingOf, hasTerminal, hterminal] using ih.2
          · simpa only [if_neg hloan] using ih

theorem listen_unseen (received : List Delivery) :
    let run := listen utf8Loads repr loanId (some lastEventId) status false
      (received.map Delivery.message?)
    let messages := behind lastEventId (spelled loanId received)
    untimed run.1 = (throughTerminal messages).map (fun m => frameOf m 0) ∧
      run.2 = endingOf messages := by
  induction received with
  | nil => exact ⟨rfl, rfl⟩
  | cons d received ih =>
      cases d with
      | none => exact ih
      | some d =>
          obtain ⟨m, uuid, now⟩ := d
          simp only [List.map_cons, Delivery.message?, Option.map_some, listen,
            react_messageOf, spelled_cons]
          by_cases hloan : m.payload.loanId.str = loanId
          · simp only [if_pos hloan, Bool.false_eq_true, if_false]
            by_cases hid : m.eventId.str = lastEventId
            · simp only [if_pos (congrArg some hid), behind]
              rw [List.dropWhile_cons_of_neg (by simpa using hid)]
              exact listen_seen (some lastEventId) received
            · simp only [if_neg (fun h => hid (Option.some.inj h)), behind]
              rw [List.dropWhile_cons_of_pos (by simpa using hid)]
              exact ih
          · simpa only [if_neg hloan] using ih

end Listen

section Exactness
variable {repr : Json → String} {loanId lastEventId carried : String} {loan : Uuid}
  {fetched : Loan} {uuid : Uuid} {now : Datetime} {received : List Delivery}

theorem mem_shown {frames : List Frame} {status : String} :
    status ∈ shown frames ↔ ∃ f, Frame.status f ∈ frames ∧ f.status = status := by
  simp only [shown, List.mem_map, List.mem_filterMap]
  constructor
  · rintro ⟨f, ⟨frame, hframe, hf⟩, rfl⟩
    cases frame with
    | heartbeat => simp [Frame.status?] at hf
    | status g =>
        obtain rfl := Option.some.inj hf
        exact ⟨g, hframe, rfl⟩
  · rintro ⟨f, hf, rfl⟩
    exact ⟨f, ⟨.status f, hf, rfl⟩, rfl⟩

/-- A path that names the loan spells it as the messages do, or as none does. -/
theorem behind_spelled (hpath : Uuid.parse loanId = some loan) :
    behind lastEventId (spelled loanId received) = reached loanId loan lastEventId received := by
  simp only [reached]
  split
  · rename_i hstr
    have hsame : spelled loanId received = about loan received := by
      refine List.filter_congr ?_
      intro m _
      simp only [hstr, Uuid.str_injective.eq_iff]
    rw [hsame]
  · rename_i hstr
    have hnone : spelled loanId received = [] := by
      refine List.filter_eq_nil_iff.mpr ?_
      intro m _ hm
      have hm := of_decide_eq_true hm
      exact hstr (by rw [← Uuid.eq_of_str_eq_of_parse hpath hm, hm])
    rw [hnone]
    rfl

theorem hasTerminal_iff_ending {messages : List (EventEnvelope LoanStatusChangedV1)} :
    endingOf messages = .returned ↔ hasTerminal messages = true := by
  by_cases h : hasTerminal messages = true <;> simp [endingOf, h]

/-- A resumed stream keeps the client's view of the loan just if what it can show,
the messages behind a second copy of the last seen one, does. -/
theorem keepsState_iff (hpath : Uuid.parse loanId = some loan) :
    KeepsState repr loanId loan lastEventId carried fetched uuid now received ↔
      ReachesState repr loanId loan lastEventId carried fetched received := by
  obtain ⟨huntimed, hending⟩ := @listen_unseen repr loanId lastEventId
    (fetchedStatus repr fetched) received
  rw [behind_spelled hpath] at huntimed hending
  have hshown := shown_of_untimed huntimed
  simp only [KeepsState, ReachesState, resumed, eventStream, hending, hasTerminal_iff_ending,
    ← mem_shown, hshown, List.mem_map]
  refine and_congr_left' ?_
  by_cases h : currentStatus (fetchedStatus repr fetched) (about loan received) = carried
    <;> simp [h]

/-- The client saw SUBMITTED in the initial frame; by the time it reconnects the
loan is DISBURSED, and nothing is published any more. -/
theorem initial_not_keepsState :
    ¬ KeepsState (fun _ => "") (Uuid.str ⟨1⟩) ⟨1⟩ ("initial-" ++ Uuid.str ⟨2⟩) "SUBMITTED"
      [("status", .str "DISBURSED")] ⟨3⟩ 0 [] := by
  intro h
  have hcurrent : currentStatus (fetchedStatus (fun _ => "") [("status", .str "DISBURSED")])
      (about ⟨1⟩ []) = "DISBURSED" := by decide
  obtain ⟨f, hf, _⟩ := h.1 (by rw [hcurrent]; decide)
  exact absurd hf List.not_mem_nil

/-- A stream that gets a second copy of the message it resumes at. -/
theorem keepsState_iff_copy :
    let envelope (id : BitVec 128) (status : String) : EventEnvelope LoanStatusChangedV1 :=
      ⟨⟨id⟩, loanStatusChangedV1, .utc 0, ⟨0⟩, "loan-application-service",
        ⟨⟨1⟩, ⟨2⟩, "SUBMITTED", status, none⟩⟩
    let received : List Delivery :=
      [some (envelope 10 "UNDERWRITING", ⟨20⟩, 0), none, some (envelope 11 "REJECTED", ⟨21⟩, 1)]
    KeepsState (fun _ => "") (Uuid.str ⟨1⟩) ⟨1⟩ (Uuid.str ⟨10⟩) "UNDERWRITING"
        [("status", .str "REJECTED")] ⟨3⟩ 0 received ↔
      ReachesState (fun _ => "") (Uuid.str ⟨1⟩) ⟨1⟩ (Uuid.str ⟨10⟩) "UNDERWRITING"
        [("status", .str "REJECTED")] received := by
  intro envelope received
  exact keepsState_iff (Uuid.parse_str ⟨1⟩)

end Exactness

end CrediGuard.Gateway
