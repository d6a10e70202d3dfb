import CrediGuard.Gateway.Sse

/-!
A fresh SSE stream, one without a Last-Event-ID, on a channel that may carry
anything, whatever `json.loads` makes of it.
-/

namespace CrediGuard.Gateway

section Reference
variable (loads : Loads) (repr : Json → String) (loan : Uuid)

/-- The payload of a message that is a JSON object about the loan. -/
def payloadOf (m : Message) : Option (List (String × Json)) :=
  match loads m.data with
  | .ok (.obj payload) =>
      if Json.get? payload "loan_id" = some (.str loan.str) then some payload else none
  | _ => none

def payloadFrame (status : String) (m : Message) (payload : List (String × Json)) : StatusFrame :=
  { loanId := loan.str
    status := str repr ((Json.get? payload "new_status").getD (.str status))
    eventId := str repr ((Json.get? payload "event_id").getD (.str m.uuid.str))
    reasons := (Json.get? payload "decision_reasons").getD .null
    occurredAt := (Json.get? payload "occurred_at").getD .null
    now := m.now }

def payloadTerminal (payload : List (String × Json)) : Bool :=
  match Json.get? payload "new_status" with
  | some (.str s) => isTerminal s
  | _ => false

/-- A heartbeat for a timeout, a status frame for a message about the loan. -/
def resultFrame (status : String) : Option Message → Option Frame
  | none => some .heartbeat
  | some m => (payloadOf loads loan m).map fun payload =>
      .status (payloadFrame repr loan status m payload)

/-- A message about the loan with a terminal status. -/
def endsStream : Option Message → Bool
  | none => false
  | some m => (payloadOf loads loan m).any payloadTerminal

/-- The results up to the first that ends the stream, and with it. -/
def reachedResults (received : List (Option Message)) : List (Option Message) :=
  received.takeWhile (fun r => !endsStream loads loan r) ++
    (received.dropWhile fun r => !endsStream loads loan r).take 1

/-- What a fresh stream is to put out. -/
def freshReference (fetched : Loan) (uuid : Uuid) (now : Datetime)
    (received : List (Option Message)) : List Frame × Ending :=
  let status := fetchedStatus repr fetched
  let initial := Frame.status (initialFrame repr loan.str fetched uuid now)
  if isTerminal status then ([initial], .returned)
  else
    (initial :: (reachedResults loads loan received).filterMap (resultFrame loads repr loan status),
      if received.any (endsStream loads loan) then .returned else .waiting)

/-- The message is one the loop neither skips nor shows: JSON that is not an object, or
data on which `json.loads` raises an error that is not caught. -/
def escapes (m : Message) : Bool :=
  match loads m.data with
  | .ok (.obj _) => false
  | .error .caught => false
  | _ => true

/-- Python's `str` of a JSON value that is not a text is neither the text of a UUID
nor that of a terminal status. -/
structure PlainRepr (repr : Json → String) : Prop where
  not_uuid : ∀ j, (∀ s, j ≠ .str s) → ∀ u : Uuid, repr j ≠ u.str
  not_terminal : ∀ j, (∀ s, j ≠ .str s) → isTerminal (repr j) = false

end Reference

section Exactness
variable {loads : Loads} {repr : Json → String} {loan : Uuid} {status : String} {m : Message}
  {received : List (Option Message)}

theorem str_eq_uuid (hrepr : PlainRepr repr) (value : Option Json) :
    str repr (value.getD .null) = loan.str ↔ value = some (.str loan.str) := by
  cases value with
  | none =>
      have hnull := hrepr.not_uuid .null (fun s h => Json.noConfusion h) loan
      exact iff_of_false hnull (Option.some_ne_none _).symm
  | some j =>
      cases j with
      | str s => simp only [Option.getD_some, str, Option.some.injEq, Json.str.injEq]
      | null | bool _ | int _ | float _ | arr _ | obj _ =>
          refine iff_of_false (hrepr.not_uuid _ (fun s h => Json.noConfusion h) loan) ?_
          intro h
          exact Json.noConfusion (Option.some.inj h)

theorem isTerminal_str (hrepr : PlainRepr repr) (payload : List (String × Json)) :
    isTerminal (str repr ((Json.get? payload "new_status").getD .null)) =
      payloadTerminal payload := by
  rw [payloadTerminal]
  cases Json.get? payload "new_status" with
  | none => exact hrepr.not_terminal .null (fun s h => Json.noConfusion h)
  | some j =>
      cases j with
      | str s => rfl
      | null | bool _ | int _ | float _ | arr _ | obj _ =>
          exact hrepr.not_terminal _ (fun s h => Json.noConfusion h)

theorem react_of_escapes (h : escapes loads m = true) :
    react loads repr loan.str none status true m = .raises := by
  cases hloads : loads m.data with
  | error e =>
      cases e with
      | caught => simp only [escapes, hloads, Bool.false_eq_true] at h
      | escaping => simp only [react, hloads]
  | ok j =>
      cases j with
      | obj payload => simp only [escapes, hloads, Bool.false_eq_true] at h
      | null | bool _ | int _ | float _ | arr _ | str _ => simp only [react, hloads]

theorem react_of_payload (hrepr : PlainRepr repr) {payload : List (String × Json)}
    (h : payloadOf loads loan m = some payload) :
    react loads repr loan.str none status true m =
      .frame (payloadFrame repr loan status m payload) (payloadTerminal payload) := by
  rw [payloadOf] at h
  split at h
  · rename_i payload' hloads
    split at h
    · rename_i hloan
      obtain rfl := Option.some.inj h
      have hsame := (str_eq_uuid hrepr _).mpr hloan
      simp only [react, hloads, hsame, ne_eq, not_true_eq_false, if_false, Bool.not_true,
        Bool.false_eq_true, isTerminal_str hrepr, payloadFrame]
    · contradiction
  · contradiction

theorem react_of_no_payload (hrepr : PlainRepr repr) (hescapes : escapes loads m = false)
    (h : payloadOf loads loan m = none) : react loads repr loan.str none status true m = .skip := by
  rw [escapes] at hescapes
  split at hescapes
  · rename_i payload hloads
    simp only [payloadOf, hloads] at h
    split at h
    · contradiction
    · rename_i hloan
      have hother : str repr ((Json.get? payload "loan_id").getD .null) ≠ loan.str :=
        fun heq => hloan ((str_eq_uuid hrepr _).mp heq)
      simp only [react, hloads, ne_eq, hother, not_false_eq_true, if_true]
  · rename_i hloads
    simp only [react, hloads]
  · contradiction

theorem reachedResults_cons (r : Option Message) :
    reachedResults loads loan (r :: received) =
      if endsStream loads loan r = true then [r] else r :: reachedResults loads loan received := by
  by_cases h : endsStream loads loan r = true
  · simp only [reachedResults, h, Bool.not_true, List.takeWhile_cons, List.dropWhile_cons,
      Bool.false_eq_true, if_false, if_true, List.nil_append, List.take_succ_cons,
      List.take_zero]
  · simp only [Bool.not_eq_true] at h
    simp only [reachedResults, h, Bool.not_false, List.takeWhile_cons, List.dropWhile_cons,
      Bool.false_eq_true, if_false, if_true, List.cons_append]

/-- The frames and the ending the loop is to give. -/
def listenReference (loads : Loads) (repr : Json → String) (loan : Uuid) (status : String)
    (received : List (Option Message)) : List Frame × Ending :=
  ((reachedResults loads loan received).filterMap (resultFrame loads repr loan status),
    if received.any (endsStream loads loan) then .returned else .waiting)

theorem listenReference_of_ends {r : Option Message} (h : endsStream loads loan r = true) :
    listenReference loads repr loan status (r :: received) =
      ((resultFrame loads repr loan status r).toList, .returned) := by
  simp only [listenReference, reachedResults_cons, h, if_true, List.any_cons, Bool.true_or,
    List.filterMap_cons, List.filterMap_nil]
  cases resultFrame loads repr loan status r <;> rfl

theorem listenReference_of_not_ends {r : Option Message} (h : endsStream loads loan r = false) :
    listenReference loads repr loan status (r :: received) =
      ((resultFrame loads repr loan status r).toList ++
          (listenReference loads repr loan status received).1,
        (listenReference loads repr loan status received).2) := by
  simp only [listenReference, reachedResults_cons, h, Bool.false_eq_true, if_false, List.any_cons,
    Bool.false_or, List.filterMap_cons]
  cases resultFrame loads repr loan status r <;> rfl

theorem listenReference_ending :
    (listenReference loads repr loan status received).2 ≠ .raised := by
  simp only [listenReference]
  split <;> decide

theorem cons_pair_eq_iff {f : Frame} {out out' : List Frame × Ending} :
    (f :: out.1, out.2) = ([f] ++ out'.1, out'.2) ↔ out = out' := by
  simp only [List.cons_append, List.nil_append, List.cons.injEq, true_and, Prod.ext_iff]

/-- The loop meets its reference just if no message it gets to escapes. -/
theorem listen_eq_iff (hrepr : PlainRepr repr) :
    listen loads repr loan.str none status true received =
        listenReference loads repr loan status received ↔
      ∀ r ∈ reachedResults loads loan received, r.any (escapes loads) = false := by
  induction received with
  | nil => exact iff_of_true rfl fun r hr => absurd hr List.not_mem_nil
  | cons r received ih =>
      cases r with
      | none =>
          have hends : endsStream loads loan none = false := rfl
          rw [listenReference_of_not_ends hends, reachedResults_cons, hends, listen]
          simp only [resultFrame, Option.toList_some, cons_pair_eq_iff, ih, Bool.false_eq_true,
            if_false, List.mem_cons, forall_eq_or_imp, Option.any_none, true_and]
      | some m =>
          by_cases hescapes : escapes loads m = true
          · -- the message kills the stream, and the reference never raises
            have hreached : some m ∈ reachedResults loads loan (some m :: received) := by
              rw [reachedResults_cons]
              split <;> exact List.mem_cons_self
            refine iff_of_false ?_ fun h => absurd hescapes (Bool.eq_false_iff.mp (h _ hreached))
            intro heq
            rw [listen, react_of_escapes hescapes] at heq
            exact listenReference_ending (congrArg Prod.snd heq).symm
          · simp only [Bool.not_eq_true] at hescapes
            cases hpayload : payloadOf loads loan m with
            | none =>
                have hends : endsStream loads loan (some m) = false := by
                  rw [endsStream, hpayload]
                  rfl
                rw [listenReference_of_not_ends hends, reachedResults_cons, hends, listen,
                  react_of_no_payload hrepr hescapes hpayload]
                simp only [resultFrame, hpayload, Option.map_none, Option.toList_none,
                  List.nil_append, ih, Bool.false_eq_true, if_false, List.mem_cons,
                  forall_eq_or_imp, Option.any_some, hescapes, true_and]
            | some payload =>
                have hframe : resultFrame loads repr loan status (some m) =
                    some (.status (payloadFrame repr loan status m payload)) := by
                  rw [resultFrame, hpayload]
                  rfl
                have hends : endsStream loads loan (some m) = payloadTerminal payload := by
                  rw [endsStream, hpayload]
                  rfl
                cases hterminal : payloadTerminal payload with
                | true =>
                    rw [hterminal] at hends
                    rw [listenReference_of_ends hends, reachedResults_cons, hends, listen,
                      react_of_payload hrepr hpayload, hterminal, hframe]
                    simp only [if_true, Option.toList_some, List.mem_singleton, forall_eq,
                      Option.any_some, hescapes]
                | false =>
                    rw [hterminal] at hends
                    rw [listenReference_of_not_ends hends, reachedResults_cons, hends,
                      listen, react_of_payload hrepr hpayload, hterminal, hframe]
                    simp only [Bool.false_eq_true, if_false, Option.toList_some,
                      cons_pair_eq_iff, ih, List.mem_cons, forall_eq_or_imp,
                      Option.any_some, hescapes, true_and]

/-- A fresh stream puts out what it is to put out just if it ends with its first frame
or no message it gets to escapes. -/
theorem freshStream_eq_reference_iff (hrepr : PlainRepr repr) {fetched : Loan} {uuid : Uuid}
    {now : Datetime} :
    eventStream loads repr loan.str none (some fetched) uuid now received =
        freshReference loads repr loan fetched uuid now received ↔
      isTerminal (fetchedStatus repr fetched) = true ∨
        ∀ r ∈ reachedResults loads loan received, r.any (escapes loads) = false := by
  simp only [eventStream, freshReference]
  cases hterminal : isTerminal (fetchedStatus repr fetched) with
  | true => exact iff_of_true rfl (.inl rfl)
  | false =>
      simp only [Bool.false_eq_true, if_false, false_or]
      have hlisten :=
        @listen_eq_iff loads repr loan (fetchedStatus repr fetched) received hrepr
      exact cons_pair_eq_iff.trans hlisten

theorem plainRepr_none : PlainRepr fun _ => "None" := by
  refine ⟨?_, ?_⟩
  · intro _ _ u heq
    have hparse := Uuid.parse_str u
    have hnone : Uuid.parse "None" = none := by decide
    rw [← heq, hnone] at hparse
    contradiction
  · intro _ _
    decide

/-- A timeout, a message without a loan and the last one about this loan. -/
theorem freshStream_eq_reference_disbursed :
    let received : List (Option Message) :=
      [none, some ⟨(Json.obj [("loan_id", .null)]).dumps.toUTF8, ⟨3⟩, 0⟩,
        some ⟨(Json.obj [("loan_id", .str (Uuid.str ⟨1⟩)),
          ("new_status", .str "DISBURSED")]).dumps.toUTF8, ⟨4⟩, 0⟩]
    eventStream utf8Loads (fun _ => "None") (Uuid.str ⟨1⟩) none
        (some [("status", .str "SUBMITTED")]) ⟨2⟩ 0 received =
      freshReference utf8Loads (fun _ => "None") ⟨1⟩ [("status", .str "SUBMITTED")] ⟨2⟩ 0
        received :=
  (freshStream_eq_reference_iff plainRepr_none).mpr (.inr (by decide +kernel))

/-- A client of a submitted loan receives a message that is a JSON array. -/
theorem array_not_reference :
    ¬ ∀ (loads : Loads) (repr : Json → String) (loan : Uuid) (fetched : Loan) (uuid : Uuid)
      (now : Datetime) (received : List (Option Message)), PlainRepr repr →
      eventStream loads repr loan.str none (some fetched) uuid now received =
        freshReference loads repr loan fetched uuid now received := by
  intro h
  have hraised := congrArg Prod.snd (h utf8Loads (fun _ => "None") ⟨1⟩
    [("status", .str "SUBMITTED")] ⟨2⟩ 0 [some ⟨"[]".toUTF8, ⟨3⟩, 0⟩] plainRepr_none)
  revert hraised
  decide +kernel

end Exactness

end CrediGuard.Gateway
