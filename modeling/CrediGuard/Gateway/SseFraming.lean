import CrediGuard.Gateway.SseResume
import CrediGuard.Lib.EventStream

/-!
The text of an SSE stream, read by the rules of the event-stream format.

A status frame is one event and a heartbeat one comment. JSON is printed on one
line, so the texts in a frame cannot end it, and the frames of a stream are read back
as they were written.
-/

namespace CrediGuard.Gateway
open EventStream

section Statement

/-- What `status_frame` renders: the name of the event and its data. -/
def StatusFrame.event (f : StatusFrame) : String :=
  if isTerminal f.status ∨ f.status = "APPROVED" then "decision" else "status"

def StatusFrame.rendered (f : StatusFrame) : Json :=
  let (step, message) := statusStep f.status
  let occurredAt :=
    if f.occurredAt.truthy then f.occurredAt else .str (Stamp.utc f.now).isoformat
  let reasons := if f.reasons.truthy then [("reasons", f.reasons)] else []
  .obj ([("loan_id", .str f.loanId), ("status", .str f.status), ("step", .int step),
    ("total_steps", .int totalSteps), ("message", .str message), ("occurred_at", occurredAt)] ++
      reasons)

/-- The id stands on one line and the reader takes it; reasons and time are texts, or
any other JSON without floats. -/
structure StatusFrame.Readable (takesId : String → Bool) (f : StatusFrame) : Prop where
  id_lineFree : LineFree f.eventId.toList
  id_taken : takesId f.eventId = true
  reasons_exact : f.reasons.Exact
  occurredAt_exact : f.occurredAt.Exact

/-- The text of the response, frame behind frame. -/
def streamText (frames : List Frame) : String := String.join (frames.map Frame.text)

/-- The event a client is to see. -/
def StatusFrame.toEvent (f : StatusFrame) : Event := ⟨f.eventId, f.event, f.rendered.dumps⟩

end Statement

section Frames
variable {takesId : String → Bool} {f : StatusFrame}

theorem statusFrame_eq (f : StatusFrame) :
    statusFrame f = formatSse f.event f.rendered f.eventId := rfl

theorem StatusFrame.rendered_exact (hreasons : f.reasons.Exact)
    (hoccurred : f.occurredAt.Exact) : f.rendered.Exact := by
  have htime : (if f.occurredAt.truthy then f.occurredAt
      else .str (Stamp.utc f.now).isoformat : Json).Exact := by
    split
    · exact hoccurred
    · simp only [Json.Exact]
  simp only [rendered, List.cons_append, List.nil_append, Json.Exact, Json.ExactPairs, htime,
    true_and]
  split
  · simp only [Json.ExactPairs, hreasons, and_self]
  · simp only [Json.ExactPairs]

/-- A frame as an item of the format. -/
def Frame.item : Frame → Item
  | .heartbeat => .comment " ping"
  | .status f => .event f.toEvent

theorem toList_text (frame : Frame) : frame.text.toList = frame.item.text := by
  cases frame with
  | heartbeat => rfl
  | status f =>
      simp [Frame.text, statusFrame_eq, formatSse, Frame.item, StatusFrame.toEvent, Item.text,
        fieldText]

theorem streamText_eq (frames : List Frame) :
    streamText frames = String.ofList ((frames.map Frame.item).flatMap Item.text) := by
  apply String.toList_inj.mp
  rw [streamText, String.toList_join, String.toList_ofList, List.flatMap_map, List.flatMap_map]
  simp only [toList_text]

theorem lineFree_dumps {j : Json} (h : j.Exact) : LineFree j.dumps.toList := by
  intro c hc
  rw [Json.dumps, String.toList_ofList] at hc
  obtain ⟨hlow, _⟩ := Json.printable_text h c hc
  refine ⟨?_, ?_⟩
  · rintro rfl
    exact absurd hlow (by decide)
  · rintro rfl
    exact absurd hlow (by decide)

theorem item_readable {frame : Frame} (h : ∀ f, frame = .status f → f.Readable takesId) :
    frame.item.Readable takesId := by
  cases frame with
  | heartbeat =>
      change LineFree " ping".toList
      decide
  | status f =>
      obtain ⟨hid, htaken, hreasons, hoccurred⟩ := h f rfl
      have hname : LineFree f.event.toList ∧ f.event ≠ "" := by
        unfold StatusFrame.event
        split <;> decide
      exact ⟨hid, htaken, hname.1, hname.2, lineFree_dumps (f.rendered_exact hreasons hoccurred)⟩

theorem event?_item (frame : Frame) :
    frame.item.event? = frame.status?.map StatusFrame.toEvent := by
  cases frame <;> rfl

/-- A client reads the status frames of a stream, in order, and nothing else. -/
theorem parse_streamText {frames : List Frame}
    (h : ∀ f, Frame.status f ∈ frames → f.Readable takesId) :
    parse takesId (streamText frames) =
      (frames.filterMap Frame.status?).map StatusFrame.toEvent := by
  have hitems : ∀ i ∈ frames.map Frame.item, i.Readable takesId := by
    intro i hi
    obtain ⟨frame, hframe, rfl⟩ := List.mem_map.mp hi
    exact item_readable fun f heq => h f (heq ▸ hframe)
  rw [streamText_eq, parse_texts hitems, List.filterMap_map, List.map_filterMap]
  exact List.filterMap_congr fun frame _ => event?_item frame

end Frames

section Served
variable {takesId : String → Bool} {repr : Json → String} {loanId : String}
  {lastEventId : Option String}

/-- An id without the characters that a line or an id must not have. -/
def PlainText (cs : List Char) : Prop := ∀ c ∈ cs, c ≠ '\n' ∧ c ≠ '\r' ∧ c ≠ Char.ofNat 0

theorem PlainText.lineFree {cs : List Char} (h : PlainText cs) : LineFree cs :=
  fun c hc => ⟨(h c hc).1, (h c hc).2.1⟩

theorem PlainText.plainId {s : String} (h : PlainText s.toList) : plainId s = true :=
  decide_eq_true fun hc => (h _ hc).2.2 rfl

theorem plainText_str (u : Uuid) : PlainText u.str.toList := by
  have hdigits : ∀ d < 16, Nat.digitChar d ≠ '\n' ∧ Nat.digitChar d ≠ '\r' ∧
      Nat.digitChar d ≠ Char.ofNat 0 := by decide
  intro c hc
  cases Uuid.mem_str hc with
  | inl hyphen =>
      rw [hyphen]
      decide
  | inr digit =>
      obtain ⟨d, hd, rfl⟩ := digit
      exact hdigits d hd

theorem frameOf_readable (envelope : EventEnvelope LoanStatusChangedV1) (now : Datetime) :
    (frameOf envelope now).Readable plainId := by
  have hid := plainText_str envelope.eventId
  refine ⟨hid.lineFree, hid.plainId, ?_, by simp only [frameOf, Json.Exact]⟩
  simp only [frameOf]
  cases envelope.payload.decisionReasons with
  | none => simp only [Json.Exact]
  | some reasons => simp only [Json.Exact, Json.exactItems_map_str]

theorem initialFrame_readable {loan : Loan} (uuid : Uuid) (now : Datetime)
    (h : ∀ reasons ∈ Json.get? loan "decision_reasons", reasons.Exact) :
    (initialFrame repr loanId loan uuid now).Readable plainId := by
  have hid : PlainText ("initial-" ++ uuid.str).toList := by
    rw [String.toList_append]
    intro c hc
    cases List.mem_append.mp hc with
    | inl hleft =>
        have hall : ("initial-".toList.all fun d =>
            d ≠ '\n' ∧ d ≠ '\r' ∧ d ≠ Char.ofNat 0) = true := by decide
        exact of_decide_eq_true (List.all_eq_true.mp hall c hleft)
    | inr hright => exact plainText_str uuid c hright
  refine ⟨hid.lineFree, hid.plainId, ?_, by simp only [initialFrame, Json.Exact]⟩
  simp only [initialFrame]
  cases hreasons : Json.get? loan "decision_reasons" with
  | none => simp only [Option.getD_none, Json.Exact]
  | some reasons => exact h reasons hreasons

theorem StatusFrame.Readable.of_untimed {f : StatusFrame}
    (h : StatusFrame.Readable takesId { f with now := 0 }) : f.Readable takesId :=
  ⟨h.1, h.2, h.3, h.4⟩

theorem readable_of_untimed {frames : List Frame}
    {messages : List (EventEnvelope LoanStatusChangedV1)}
    (h : untimed frames = messages.map fun m => frameOf m 0) {f : StatusFrame}
    (hf : .status f ∈ frames) : f.Readable plainId := by
  have hmem : { f with now := 0 } ∈ untimed frames :=
    List.mem_map.mpr ⟨f, List.mem_filterMap.mpr ⟨.status f, hf, rfl⟩, rfl⟩
  rw [h] at hmem
  obtain ⟨m, _, hm⟩ := List.mem_map.mp hmem
  apply StatusFrame.Readable.of_untimed
  exact hm ▸ frameOf_readable m 0

/-- The frames of a stream the notification service feeds, whatever the loan and the
last id the client has seen. -/
theorem eventStream_readable {fetched : Option Loan} {received : List Delivery}
    (hreasons : ∀ loan ∈ fetched, ∀ reasons ∈ Json.get? loan "decision_reasons", reasons.Exact)
    (uuid : Uuid) (now : Datetime) {f : StatusFrame}
    (hf : .status f ∈ (eventStream utf8Loads repr loanId lastEventId fetched uuid now
      (received.map Delivery.message?)).1) : f.Readable plainId := by
  cases fetched with
  | none => cases hf
  | some loan =>
      cases lastEventId with
      | some lastEventId => exact readable_of_untimed (listen_unseen received).1 hf
      | none =>
          have hinitial : (initialFrame repr loanId loan uuid now).Readable plainId :=
            initialFrame_readable uuid now (hreasons loan rfl)
          simp only [eventStream] at hf
          split at hf
          · cases List.mem_singleton.mp hf
            exact hinitial
          · cases List.mem_cons.mp hf with
            | inl heq =>
                cases heq
                exact hinitial
            | inr hmem => exact readable_of_untimed (listen_seen none received).1 hmem

/-- A client of the gateway reads the frames it was sent. -/
theorem parse_eventStream {fetched : Option Loan} {received : List Delivery}
    (hreasons : ∀ loan ∈ fetched, ∀ reasons ∈ Json.get? loan "decision_reasons", reasons.Exact)
    (uuid : Uuid) (now : Datetime) :
    let frames := (eventStream utf8Loads repr loanId lastEventId fetched uuid now
      (received.map Delivery.message?)).1
    parse plainId (streamText frames) =
      (frames.filterMap Frame.status?).map StatusFrame.toEvent :=
  parse_streamText fun _ hf => eventStream_readable hreasons uuid now hf

end Served

section Main

/-- The frames of a stream are read back: each status frame as its id, its event and
data that parses to the object it renders, in order, and a heartbeat as nothing. -/
theorem streamText_decodable {takesId : String → Bool} {frames : List Frame}
    (h : ∀ f, Frame.status f ∈ frames → f.Readable takesId) :
    parse takesId (streamText frames) =
        (frames.filterMap Frame.status?).map StatusFrame.toEvent ∧
      ∀ f, Frame.status f ∈ frames → Json.loads f.toEvent.data = some f.rendered := by
  refine ⟨parse_streamText h, ?_⟩
  intro f hf
  obtain ⟨_, _, hreasons, hoccurred⟩ := h f hf
  exact Json.loads_dumps (f.rendered_exact hreasons hoccurred)

/-- Texts that would end a line, an event or a string if they were not escaped. -/
def hostileFrame : StatusFrame :=
  { loanId := "a\n\ndata: {}\r\nid: 2"
    status := "REJECTED"
    eventId := "id: 1"
    reasons := .arr [.str "\"é\"\r", .str "data:\n"]
    occurredAt := .str "\n"
    now := 0 }

def hostileFrames : List Frame := [.heartbeat, .status hostileFrame, .heartbeat,
  .status { hostileFrame with eventId := "", reasons := .null }]

theorem streamText_decodable_hostile :
    parse plainId (streamText hostileFrames) =
        [hostileFrame.toEvent, { hostileFrame with eventId := "", reasons := .null }.toEvent] ∧
      Json.loads hostileFrame.toEvent.data = some hostileFrame.rendered := by
  have hreadable : ∀ f, Frame.status f ∈ hostileFrames → f.Readable plainId := by
    intro f hf
    simp only [hostileFrames, List.mem_cons, reduceCtorEq, List.not_mem_nil, false_or, or_false,
      Frame.status.injEq] at hf
    cases hf with
    | inl heq =>
        subst heq
        refine ⟨by decide, by decide, ?_, ?_⟩
        · simp only [hostileFrame, Json.Exact, Json.ExactItems, and_self]
        · simp only [hostileFrame, Json.Exact]
    | inr heq =>
        subst heq
        refine ⟨by decide, by decide, ?_, ?_⟩
        · simp only [Json.Exact]
        · simp only [hostileFrame, Json.Exact]
  obtain ⟨hparse, hloads⟩ := streamText_decodable hreadable
  exact ⟨hparse, hloads hostileFrame (.tail _ (.head _))⟩

end Main

end CrediGuard.Gateway
