import CrediGuard.Gateway.Isolation

/-!
A fresh SSE stream whose path spells the loan in its own way.

The loan service reads the path as a UUID, the stream compares it as a text with
the ids in the messages, and the notification service prints these in one way.
-/

namespace CrediGuard.Gateway
open Notification

section Statement
variable (repr : Json → String) (loan : Uuid) (fetched : Loan) (received : List Delivery)

/-- The ids and statuses of the events a stream forwards behind its first frame. -/
def forwarded (frames : List Frame) : List (String × String) :=
  (frames.tail.filterMap Frame.status?).map fun f => (f.eventId, f.status)

/-- What a stream of the loan is to forward, and how it is to end. -/
def liveUpdates : List (String × String) × Ending :=
  if isTerminal (fetchedStatus repr fetched) then ([], .returned)
  else
    ((throughTerminal (about loan received)).map fun m => (m.eventId.str, m.payload.newStatus),
      endingOf (about loan received))

/-- The stream of a client that opens it with the path `spelling`. -/
def spelledStream (spelling : String) (uuid : Uuid) (now : Datetime) : List Frame × Ending :=
  eventStream utf8Loads repr spelling none (some fetched) uuid now (received.map Delivery.message?)

def ForwardsLive (spelling : String) (uuid : Uuid) (now : Datetime) : Prop :=
  let (frames, ending) := spelledStream repr fetched received spelling uuid now
  (forwarded frames, ending) = liveUpdates repr loan fetched received

end Statement

section Spelling
variable {repr : Json → String} {service : LoanService} {T : Loan.LoanTable} {loan : Uuid}
  {spelling applicantId correlationId : String} {fetched : Loan} {uuid : Uuid} {now : Datetime}
  {received : List Delivery}

theorem readId_of_fetchLoan
    (h : service.fetchLoan T spelling applicantId correlationId = some fetched) :
    ∃ loan, service.readId spelling = some loan := by
  cases hread : service.readId spelling with
  | none => simp only [LoanService.fetchLoan, hread, reduceCtorEq] at h
  | some loan => exact ⟨loan, rfl⟩

/-- A path that names the loan spells it as the messages do, or as none does. -/
theorem spelled_eq (hcanonical : ∀ u : Uuid, service.readId u.str = some u)
    (hread : service.readId spelling = some loan) :
    spelled spelling received = if spelling = loan.str then about loan received else [] := by
  split
  · rename_i hstr
    refine List.filter_congr ?_
    intro m _
    simp only [hstr, Uuid.str_injective.eq_iff]
  · rename_i hstr
    refine List.filter_eq_nil_iff.mpr ?_
    intro m _ hm
    have hm := of_decide_eq_true hm
    have hother := hcanonical m.payload.loanId
    rw [hm, hread] at hother
    exact hstr (by rw [Option.some.inj hother, hm])

theorem forwarded_of_untimed {frame : Frame} {frames : List Frame}
    {messages : List (EventEnvelope LoanStatusChangedV1)}
    (h : untimed frames = messages.map fun m => frameOf m 0) :
    forwarded (frame :: frames) =
      messages.map fun m => (m.eventId.str, m.payload.newStatus) := by
  have hpairs : forwarded (frame :: frames) =
      (untimed frames).map fun f => (f.eventId, f.status) := by
    rw [untimed, List.map_map]
    rfl
  rw [hpairs, h, List.map_map]
  rfl

/-- A fresh stream forwards the messages that spell the loan as its path does. -/
theorem forwarded_spelledStream
    (hterminal : isTerminal (fetchedStatus repr fetched) = false) :
    (forwarded (spelledStream repr fetched received spelling uuid now).1,
        (spelledStream repr fetched received spelling uuid now).2) =
      ((throughTerminal (spelled spelling received)).map fun m =>
          (m.eventId.str, m.payload.newStatus), endingOf (spelled spelling received)) := by
  obtain ⟨huntimed, hending⟩ :=
    @listen_seen repr spelling (fetchedStatus repr fetched) none received
  simp only [spelledStream, eventStream, hterminal, Bool.false_eq_true, if_false]
  rw [forwarded_of_untimed huntimed, hending]

theorem throughTerminal_eq_nil {messages : List (EventEnvelope LoanStatusChangedV1)} :
    throughTerminal messages = [] ↔ messages = [] := by
  cases messages with
  | nil => exact iff_of_true rfl rfl
  | cons m messages =>
      rw [throughTerminal]
      split
      · exact iff_of_false (List.cons_ne_nil _ _) (List.cons_ne_nil _ _)
      · exact iff_of_false (List.cons_ne_nil _ _) (List.cons_ne_nil _ _)

/-- A path the loan service accepts gets the live updates of its loan just if it spells
the id as the messages do, or there is nothing to forward. -/
theorem forwardsLive_iff (hcanonical : ∀ u : Uuid, service.readId u.str = some u)
    (hfetch : service.fetchLoan T spelling applicantId correlationId = some fetched) :
    ∃ loan, service.readId spelling = some loan ∧
      (ForwardsLive repr loan fetched received spelling uuid now ↔
        isTerminal (fetchedStatus repr fetched) = true ∨ spelling = loan.str ∨
          about loan received = []) := by
  obtain ⟨loan, hread⟩ := readId_of_fetchLoan hfetch
  refine ⟨loan, hread, ?_⟩
  simp only [ForwardsLive, liveUpdates]
  cases hterminal : isTerminal (fetchedStatus repr fetched) with
  | true =>
      refine iff_of_true ?_ (.inl rfl)
      simp only [spelledStream, eventStream, hterminal, if_true]
      rfl
  | false =>
      rw [forwarded_spelledStream hterminal, spelled_eq hcanonical hread]
      simp only [Bool.false_eq_true, if_false, false_or]
      by_cases hstr : spelling = loan.str
      · simp only [hstr, if_true, true_or]
      · simp only [hstr, if_false, false_or]
        constructor
        · intro h
          have hnone : [] = (throughTerminal (about loan received)).map fun m =>
              (m.eventId.str, m.payload.newStatus) := congrArg Prod.fst h
          exact throughTerminal_eq_nil.mp (List.map_eq_nil_iff.mp hnone.symm)
        · intro h
          rw [h]

theorem ForwardsLive.eq_liveUpdates
    (h : ForwardsLive repr loan fetched received spelling uuid now) :
    (forwarded (spelledStream repr fetched received spelling uuid now).1,
        (spelledStream repr fetched received spelling uuid now).2) =
      liveUpdates repr loan fetched received := h

/-- Streams that forward what they should show the same statuses, however their paths
spell the loan. -/
theorem ForwardsLive.same {spelling' : String} {uuid' : Uuid} {now' : Datetime}
    (h : ForwardsLive repr loan fetched received spelling uuid now)
    (h' : ForwardsLive repr loan fetched received spelling' uuid' now') :
    forwarded (spelledStream repr fetched received spelling uuid now).1 =
      forwarded (spelledStream repr fetched received spelling' uuid' now').1 :=
  (congrArg Prod.fst h).trans (congrArg Prod.fst h').symm

/-- An event about loan 2 of applicant 100. -/
def disbursedDelivery : Delivery :=
  some (⟨⟨10⟩, loanStatusChangedV1, .utc 0, ⟨0⟩, "loan-application-service",
    ⟨⟨2⟩, ⟨100⟩, "DISBURSING", "DISBURSED", none⟩⟩, ⟨20⟩, 0)

def submittedLoan : Loan := [("status", .str "SUBMITTED")]

theorem readId_canonical (u : Uuid) : sampleService.readId u.str = some u := by
  simp only [sampleService, Uuid.parse_str]

theorem readId_unhyphenated (u : Uuid) : sampleService.readId u.hex = some u := by
  simp only [sampleService, Uuid.parse_hex]

/-- Applicant 100 gets loan 2, however the path spells it. -/
theorem fetchLoan_ownTable {spelling : String} (h : sampleService.readId spelling = some ⟨2⟩) :
    sampleService.fetchLoan ownTable spelling (Uuid.str ⟨100⟩) "" = some submittedLoan := by
  simp only [LoanService.fetchLoan, h, Loan.getCurrentApplicantId_str]
  decide +kernel

theorem forwardsLive_iff_canonical :
    ∃ loan, sampleService.readId (Uuid.str ⟨2⟩) = some loan ∧
      (ForwardsLive (fun _ => "") loan submittedLoan [none, disbursedDelivery] (Uuid.str ⟨2⟩)
          ⟨30⟩ 0 ↔
        isTerminal (fetchedStatus (fun _ => "") submittedLoan) = true ∨
          Uuid.str ⟨2⟩ = loan.str ∨ about loan [none, disbursedDelivery] = []) :=
  forwardsLive_iff readId_canonical (fetchLoan_ownTable (readId_canonical ⟨2⟩))

/-- The path without hyphens names loan 2, and its stream stays silent. -/
theorem unhyphenated_not_forwardsLive :
    ¬ ∀ (service : LoanService) (T : Loan.LoanTable) (repr : Json → String)
      (spelling applicantId correlationId : String) (loan : Uuid) (fetched : Loan) (uuid : Uuid)
      (now : Datetime) (received : List Delivery), (∀ u : Uuid, service.readId u.str = some u) →
      service.readId spelling = some loan →
      service.fetchLoan T spelling applicantId correlationId = some fetched →
      ForwardsLive repr loan fetched received spelling uuid now := by
  intro h
  have hlive := h sampleService ownTable (fun _ => "") (Uuid.hex ⟨2⟩) (Uuid.str ⟨100⟩) "" ⟨2⟩
    submittedLoan ⟨30⟩ 0 [disbursedDelivery] readId_canonical
    (readId_unhyphenated ⟨2⟩) (fetchLoan_ownTable (readId_unhyphenated ⟨2⟩))
  have hhex : Uuid.hex ⟨2⟩ ≠ Uuid.str ⟨2⟩ := by
    intro heq
    have hchars := congrArg String.toList heq
    simp only [Uuid.hex, Uuid.str, String.toList_ofList] at hchars
    revert hchars
    decide +kernel
  have hnone := @spelled_eq sampleService ⟨2⟩ (Uuid.hex ⟨2⟩) [disbursedDelivery] readId_canonical
    (readId_unhyphenated ⟨2⟩)
  rw [if_neg hhex] at hnone
  have hstarts : isTerminal (fetchedStatus (fun _ => "") submittedLoan) = false := by decide
  have hsilent := hlive.eq_liveUpdates
  rw [forwarded_spelledStream hstarts, hnone] at hsilent
  have hending := congrArg Prod.snd hsilent
  revert hending
  decide +kernel

end Spelling

end CrediGuard.Gateway
