import CrediGuard.Lib.BatchQueue
import CrediGuard.Lib.Runs
import CrediGuard.Loan.OutboxDelivery

/-!
Consecutive calls of `poll_once` by one worker, with a broker that acknowledges every
send.

A row whose payload fails the schema of its type stays pending and is fetched again
by the next poll. The batch holds ten rows, so the rows behind ten of these are
never reached, and every other row is.
-/

namespace CrediGuard.Loan
open BatchQueue

section Model
variable (v : Pydantic)

/-- What a poll draws: the order in which the database takes the pending rows, and
for each row the uuids of its envelope and the time of its `UPDATE`. -/
structure PollDraws where
  candidates : List Uuid
  envelope : Uuid → EnvelopeDraws
  sentAt : Uuid → Datetime

theorem unique_markSent {rows : List OutboxEventModel}
    (h : rows.Pairwise fun a b => a.clash b = false) (id : Uuid) (now : Datetime) :
    (rows.map (markSent id now)).Pairwise fun a b => a.clash b = false := by
  apply List.pairwise_map.mpr
  simpa only [OutboxEventModel.clash, id_markSent] using h

/-- The outbox table, with its primary key, and the topic. -/
structure Backlog where
  rows : List OutboxEventModel
  unique : rows.Pairwise fun a b => a.clash b = false
  kafka : List Publication

def Backlog.markSent (s : Backlog) (id : Uuid) (now : Datetime) : Backlog :=
  ⟨s.rows.map (Loan.markSent id now), unique_markSent s.unique id now, s.kafka⟩

def Backlog.acknowledge (s : Backlog) (p : Publication) : Backlog :=
  { s with kafka := s.kafka ++ [p] }

/-- `LIMIT 10`, with the rows in the order of the candidates. -/
def fetch (rows : List OutboxEventModel) (candidates : List Uuid) : List OutboxEventModel :=
  (rowsOf rows candidates).take 10

/-- One pass of the loop over the batch, with `published_count`. -/
def publishRow (p : PollDraws) (acc : Backlog × Nat) (event : OutboxEventModel) : Backlog × Nat :=
  let (s, published) := acc
  match publishEvent v true event (p.envelope event.id) with
  -- the error is logged, and the loop goes on
  | .error _ => (s, published)
  | .ok none => (s.markSent event.id (p.sentAt event.id), published + 1)
  | .ok (some record) =>
      ((s.acknowledge ⟨event.id, record, true⟩).markSent event.id (p.sentAt event.id),
        published + 1)

def pollOnce (s : Backlog) (p : PollDraws) : Backlog × Nat :=
  (fetch s.rows p.candidates).foldl (publishRow v p) (s, 0)

def pollStep (s : Backlog) (p : PollDraws) : Option Backlog :=
  if Selects s.rows p.candidates then some (pollOnce v s p).1 else none

end Model

section Statement
variable (v : Pydantic)

/-- The type is known, and the payload fails its schema. -/
def failsSchema (m : OutboxEventModel) : Bool :=
  ((eventSchemas v).lookup m.eventType).any fun schema => (validatePayload schema m.payload).isNone

/-- The type is known, and the payload meets its schema. -/
def meetsSchema (m : OutboxEventModel) : Bool :=
  ((eventSchemas v).lookup m.eventType).any fun schema => (validatePayload schema m.payload).isSome

/-- The row is sent, and the broker has acknowledged a record for it. -/
def Published (s : Backlog) (m : OutboxEventModel) : Prop :=
  (∃ m' ∈ s.rows, m'.id = m.id ∧ m'.status = "SENT") ∧ Acknowledged v s.kafka m

/-- As many polls as there are pending rows publish every valid one of these. -/
def Drains (s : Backlog) : Prop :=
  ∀ polls s', Runs.run (pollStep v) s polls = some s' →
    (pendingRows s.rows).length ≤ polls.length →
      ∀ m ∈ pendingRows s.rows, meetsSchema v m = true → Published v s' m

/-- Fewer than ten pending rows fail their schema and are as old as `m` or older. -/
def Uncrowded (s : Backlog) (m : OutboxEventModel) : Prop :=
  ((pendingRows s.rows).filter fun b => failsSchema v b && b.createdAt ≤ m.createdAt).length < 10

end Statement

section Effect
variable {v : Pydantic} {event m : OutboxEventModel}

theorem failsSchema_of_meetsSchema (h : meetsSchema v m = true) : failsSchema v m = false := by
  simp only [meetsSchema, failsSchema, Option.any_eq_true] at h ⊢
  obtain ⟨schema, hschema, hpayload⟩ := h
  simp only [hschema, Option.any_some]
  exact Option.isNone_eq_false_iff.mpr hpayload

theorem publishEvent_of_failsSchema (h : failsSchema v event = true) (d : EnvelopeDraws) :
    publishEvent v true event d = .error .validationError := by
  simp only [failsSchema, Option.any_eq_true] at h
  obtain ⟨schema, hschema, hpayload⟩ := h
  simp only [publishEvent, Bool.true_eq_false, if_false, hschema,
    Option.isNone_iff_eq_none.mp hpayload]

theorem publishEvent_of_not_failsSchema (h : failsSchema v event = false) (d : EnvelopeDraws) :
    ∃ sent, publishEvent v true event d = .ok sent := by
  cases hlookup : (eventSchemas v).lookup event.eventType with
  | none => exact ⟨none, by simp only [publishEvent, Bool.true_eq_false, if_false, hlookup]⟩
  | some schema =>
      cases hpayload : validatePayload schema event.payload with
      | none => simp [failsSchema, hlookup, hpayload] at h
      | some payload =>
          simp only [publishEvent, Bool.true_eq_false, if_false, hlookup, hpayload]
          exact ⟨_, rfl⟩

theorem publishRow_of_failsSchema (h : failsSchema v event = true) (p : PollDraws)
    (acc : Backlog × Nat) : publishRow v p acc event = acc := by
  simp only [publishRow, publishEvent_of_failsSchema h]

theorem rows_publishRow (h : failsSchema v event = false) (p : PollDraws) (acc : Backlog × Nat) :
    (publishRow v p acc event).1.rows =
      acc.1.rows.map (markSent event.id (p.sentAt event.id)) := by
  obtain ⟨sent, hsent⟩ := publishEvent_of_not_failsSchema h (p.envelope event.id)
  simp only [publishRow, hsent]
  cases sent <;> rfl

theorem kafka_publishRow (p : PollDraws) (acc : Backlog × Nat) (event : OutboxEventModel) :
    ∃ new, (publishRow v p acc event).1.kafka = acc.1.kafka ++ new := by
  simp only [publishRow]
  cases publishEvent v true event (p.envelope event.id) with
  | error e => exact ⟨[], (List.append_nil _).symm⟩
  | ok sent =>
      cases sent with
      | none => exact ⟨[], (List.append_nil _).symm⟩
      | some record => exact ⟨_, rfl⟩

theorem acknowledged_publishRow (h : meetsSchema v event = true) (p : PollDraws)
    (acc : Backlog × Nat) : Acknowledged v (publishRow v p acc event).1.kafka event := by
  obtain ⟨sent, hsent⟩ :=
    publishEvent_of_not_failsSchema (failsSchema_of_meetsSchema h) (p.envelope event.id)
  cases sent with
  | none =>
      have hunknown := (lookup_eventSchemas v event.eventType).mpr (publishEvent_eq_skip hsent)
      simp [meetsSchema, hunknown] at h
  | some record =>
      obtain ⟨_, htopic, _, _, schema, hschema, hpayload⟩ := publishEvent_eq_record hsent
      have hkafka : (publishRow v p acc event).1.kafka =
          acc.1.kafka ++ [⟨event.id, record, true⟩] := by
        simp only [publishRow, hsent]
        rfl
      refine ⟨⟨event.id, record, true⟩, ?_, rfl, rfl, htopic, ?_⟩
      · rw [hkafka]
        exact List.mem_append_right _ (List.mem_singleton.mpr rfl)
      · intro schema' hschema'
        rw [hschema] at hschema'
        rw [← Option.some.inj hschema']
        exact hpayload

/-- The poll has published the row, or passed it over as one of unknown type. -/
def handled (v : Pydantic) (batch : List OutboxEventModel) (m : OutboxEventModel) : Bool :=
  batch.any fun e => e.id = m.id && !failsSchema v e

/-- A row behind the loop over a batch. -/
def settle (v : Pydantic) (p : PollDraws) (batch : List OutboxEventModel)
    (m : OutboxEventModel) : OutboxEventModel :=
  if handled v batch m then { m with status := "SENT", sentAt := some (p.sentAt m.id) } else m

theorem rows_foldl (p : PollDraws) (batch : List OutboxEventModel) (acc : Backlog × Nat) :
    (batch.foldl (publishRow v p) acc).1.rows = acc.1.rows.map (settle v p batch) := by
  induction batch generalizing acc with
  | nil =>
      have hid : settle v p [] = id := by
        funext m
        simp [settle, handled]
      rw [hid, List.map_id]
      rfl
  | cons e batch ih =>
      rw [List.foldl_cons, ih]
      cases hfails : failsSchema v e with
      | true =>
          rw [publishRow_of_failsSchema hfails]
          apply List.map_congr_left
          intro m _
          simp [settle, handled, hfails]
      | false =>
          rw [rows_publishRow hfails, List.map_map]
          apply List.map_congr_left
          intro m _
          by_cases hid : m.id = e.id
          · simp [settle, handled, markSent, hid, hfails]
          · simp [settle, handled, markSent, hid, Ne.symm hid]

theorem kafka_foldl (p : PollDraws) (batch : List OutboxEventModel) (acc : Backlog × Nat) :
    ∃ new, (batch.foldl (publishRow v p) acc).1.kafka = acc.1.kafka ++ new := by
  induction batch generalizing acc with
  | nil => exact ⟨[], (List.append_nil _).symm⟩
  | cons e batch ih =>
      obtain ⟨new, hnew⟩ := kafka_publishRow (v := v) p acc e
      obtain ⟨rest, hrest⟩ := ih (publishRow v p acc e)
      exact ⟨new ++ rest, by rw [List.foldl_cons, hrest, hnew, List.append_assoc]⟩

theorem Acknowledged.append {kafka : List Publication} (h : Acknowledged v kafka m)
    (new : List Publication) : Acknowledged v (kafka ++ new) m := by
  obtain ⟨record, hrecord, hrest⟩ := h
  exact ⟨record, List.mem_append_left _ hrecord, hrest⟩

theorem acknowledged_foldl (p : PollDraws) {batch : List OutboxEventModel} (acc : Backlog × Nat)
    {e : OutboxEventModel} (he : e ∈ batch) (h : meetsSchema v e = true) :
    Acknowledged v (batch.foldl (publishRow v p) acc).1.kafka e := by
  induction batch generalizing acc with
  | nil => cases he
  | cons e' batch ih =>
      cases List.mem_cons.mp he with
      | inr hmem => exact ih (publishRow v p acc e') hmem
      | inl heq =>
          subst heq
          obtain ⟨new, hnew⟩ := kafka_foldl (v := v) p batch (publishRow v p acc e)
          rw [List.foldl_cons, hnew]
          exact (acknowledged_publishRow h p acc).append new

end Effect

section Fetch
variable {rows order : List OutboxEventModel} {ids : List Uuid}

theorem mem_of_mem_pendingRows {m : OutboxEventModel} (h : m ∈ pendingRows rows) : m ∈ rows :=
  (List.mem_filter.mp h).1

theorem order_of_selects (hunique : rows.Pairwise fun a b => a.clash b = false)
    (h : Selects rows ids) : Order (fun m => m.createdAt) (pendingRows rows) (rowsOf rows ids) := by
  refine ⟨?_, sorted_rowsOf h⟩
  have hrows := h.1.filterMap fun id => rows.find? fun m => m.id = id
  have hpending : rowsOf rows ((pendingRows rows).map fun m => m.id) = pendingRows rows :=
    rowsOf_map_id hunique fun _ => mem_of_mem_pendingRows
  rw [rowsOf] at hpending
  rwa [hpending] at hrows

theorem selects_of_order (hunique : rows.Pairwise fun a b => a.clash b = false)
    (h : Order (fun m => m.createdAt) (pendingRows rows) order) :
    Selects rows (order.map fun m => m.id) := by
  obtain ⟨hperm, hsorted⟩ := h
  have hrows : rowsOf rows (order.map fun m => m.id) = order :=
    rowsOf_map_id hunique fun m hm => mem_of_mem_pendingRows (hperm.mem_iff.mp hm)
  refine ⟨hperm.map _, ?_⟩
  rw [← List.map_filterMap, ← rowsOf, hrows]
  exact List.pairwise_map.mpr hsorted

end Fetch

section Round
variable {v : Pydantic} {s s' : Backlog} {p : PollDraws} {batch : List OutboxEventModel}
  {m : OutboxEventModel}

theorem settle_id (m : OutboxEventModel) : (settle v p batch m).id = m.id := by
  unfold settle
  split <;> rfl

theorem pendingRows_settle (rows : List OutboxEventModel) :
    pendingRows (rows.map (settle v p batch)) =
      (pendingRows rows).filter fun m => !handled v batch m := by
  have hstatus (m : OutboxEventModel) : (settle v p batch m).status = "PENDING" ↔
      m.status = "PENDING" ∧ handled v batch m = false := by
    unfold settle
    cases handled v batch m <;> simp
  have hkept : ∀ m ∈ (pendingRows rows).filter fun m => !handled v batch m,
      settle v p batch m = m := by
    intro m hm
    have hnot := (List.mem_filter.mp hm).2
    simp only [Bool.not_eq_true'] at hnot
    simp [settle, hnot]
  have hpending : pendingRows (rows.map (settle v p batch)) =
      ((pendingRows rows).filter fun m => !handled v batch m).map (settle v p batch) := by
    simp only [pendingRows, List.filter_map, List.filter_filter]
    congr 1
    apply List.filter_congr
    intro m _
    rw [Bool.eq_iff_iff]
    simp [hstatus, and_comm]
  rw [hpending]
  conv_rhs => rw [← List.map_id ((pendingRows rows).filter fun m => !handled v batch m)]
  exact List.map_congr_left hkept

theorem handled_iff (hunique : s.rows.Pairwise fun a b => a.clash b = false)
    (hbatch : ∀ e ∈ batch, e ∈ s.rows) (hm : m ∈ s.rows) :
    handled v batch m = true ↔ m ∈ batch ∧ failsSchema v m = false := by
  simp only [handled, List.any_eq_true, Bool.and_eq_true, decide_eq_true_eq, Bool.not_eq_true']
  constructor
  · intro h
    obtain ⟨e, he, hid, hfails⟩ := h
    obtain rfl := OutboxEventModel.eq_of_id hunique (hbatch e he) hm hid
    exact ⟨he, hfails⟩
  · intro h
    exact ⟨m, h.1, rfl, h.2⟩

theorem pollStep_eq_some (h : pollStep v s p = some s') :
    Selects s.rows p.candidates ∧ s' = (pollOnce v s p).1 := by
  simp only [pollStep] at h
  split at h
  · rename_i hselects
    exact ⟨hselects, (Option.some.inj h).symm⟩
  · contradiction

theorem rows_pollOnce (v : Pydantic) (s : Backlog) (p : PollDraws) :
    (pollOnce v s p).1.rows = s.rows.map (settle v p (fetch s.rows p.candidates)) :=
  rows_foldl p _ _

theorem fetch_subset (hselects : Selects s.rows p.candidates) :
    ∀ e ∈ fetch s.rows p.candidates, e ∈ pendingRows s.rows := by
  intro e he
  exact (order_of_selects s.unique hselects).perm.mem_iff.mp (List.mem_of_mem_take he)

theorem nodup_ids_of_order {order : List OutboxEventModel}
    (h : Order (fun m => m.createdAt) (pendingRows s.rows) order) :
    (order.map fun m => m.id).Nodup := by
  have hrows : (s.rows.map fun m => m.id).Nodup := by
    apply List.pairwise_map.mpr
    exact s.unique.imp fun hclash => of_decide_eq_false hclash
  have hpending : ((pendingRows s.rows).map fun m => m.id).Nodup :=
    hrows.sublist ((List.filter_sublist ..).map _)
  exact (h.perm.map _).nodup_iff.mpr hpending

/-- The rows that are pending behind a poll: those of the batch that fail, and those
that are not in it. -/
theorem remaining_perm (hselects : Selects s.rows p.candidates) :
    (remaining (failsSchema v) 10 (rowsOf s.rows p.candidates)).Perm
      (pendingRows (pollOnce v s p).1.rows) := by
  rw [rows_pollOnce, pendingRows_settle]
  have horder := order_of_selects s.unique hselects
  have hmem : ∀ e ∈ rowsOf s.rows p.candidates, e ∈ s.rows :=
    fun e he => mem_of_mem_pendingRows (horder.perm.mem_iff.mp he)
  have hbatch : ∀ e ∈ fetch s.rows p.candidates, e ∈ s.rows :=
    fun e he => hmem e (List.mem_of_mem_take he)
  have hsplit : rowsOf s.rows p.candidates =
      fetch s.rows p.candidates ++ (rowsOf s.rows p.candidates).drop 10 :=
    (List.take_append_drop 10 _).symm
  have hdisjoint := (List.nodup_append.mp (hsplit ▸ (nodup_ids_of_order horder).of_map)).2.2
  have htake : (fetch s.rows p.candidates).filter (failsSchema v) =
      (fetch s.rows p.candidates).filter fun m => !handled v (fetch s.rows p.candidates) m := by
    apply List.filter_congr
    intro m hm
    rw [Bool.eq_iff_iff, Bool.not_eq_true', ← Bool.not_eq_true,
      handled_iff s.unique hbatch (hbatch m hm)]
    simp [hm]
  have hdrop : ((rowsOf s.rows p.candidates).drop 10).filter
      (fun m => !handled v (fetch s.rows p.candidates) m) =
        (rowsOf s.rows p.candidates).drop 10 := by
    apply List.filter_eq_self.mpr
    intro m hm
    rw [Bool.not_eq_true', ← Bool.not_eq_true,
      handled_iff s.unique hbatch (hmem m (List.mem_of_mem_drop hm))]
    intro hin
    exact hdisjoint m hin.1 m hm rfl
  have hremaining : remaining (failsSchema v) 10 (rowsOf s.rows p.candidates) =
      (rowsOf s.rows p.candidates).filter
        fun m => !handled v (fetch s.rows p.candidates) m := by
    conv_rhs => rw [hsplit, List.filter_append, hdrop, ← htake]
    rfl
  rw [hremaining]
  exact horder.perm.filter _

/-- A poll is a round of a queue in batches of ten. -/
theorem round_pollStep (h : pollStep v s p = some s') :
    Round (fun m => m.createdAt) (failsSchema v) 10 (pendingRows s.rows)
      (pendingRows s'.rows) := by
  obtain ⟨hselects, rfl⟩ := pollStep_eq_some h
  exact ⟨rowsOf s.rows p.candidates, order_of_selects s.unique hselects, remaining_perm hselects⟩

end Round

section Run
variable {v : Pydantic} {s s' : Backlog} {m : OutboxEventModel}

theorem rounds_run {polls : List PollDraws} (h : Runs.run (pollStep v) s polls = some s') :
    Rounds (fun m => m.createdAt) (failsSchema v) 10 polls.length (pendingRows s.rows)
      (pendingRows s'.rows) := by
  induction polls generalizing s with
  | nil =>
      cases h
      exact .refl _
  | cons p polls ih =>
      obtain ⟨next, hstep, hrun⟩ := Runs.run_cons_eq_some.mp h
      exact .step (round_pollStep hstep) (ih hrun)

/-- A valid row is pending until it is published. -/
theorem pending_or_published_pollStep (hvalid : meetsSchema v m = true) {p : PollDraws}
    (h : m ∈ pendingRows s.rows ∨ Published v s m) (hstep : pollStep v s p = some s') :
    m ∈ pendingRows s'.rows ∨ Published v s' m := by
  obtain ⟨hselects, rfl⟩ := pollStep_eq_some hstep
  have hbatch : ∀ e ∈ fetch s.rows p.candidates, e ∈ s.rows :=
    fun e he => mem_of_mem_pendingRows (fetch_subset hselects e he)
  rw [rows_pollOnce, pendingRows_settle]
  cases h with
  | inl hpending =>
      have hm := mem_of_mem_pendingRows hpending
      cases hhandled : handled v (fetch s.rows p.candidates) m with
      | false => exact .inl (List.mem_filter.mpr ⟨hpending, by rw [hhandled]; rfl⟩)
      | true =>
          obtain ⟨hin, _⟩ := (handled_iff s.unique hbatch hm).mp hhandled
          refine .inr ⟨⟨settle v p (fetch s.rows p.candidates) m, ?_, settle_id m, ?_⟩,
            acknowledged_foldl p (s, 0) hin hvalid⟩
          · rw [rows_pollOnce]
            exact List.mem_map_of_mem hm
          · simp [settle, hhandled]
  | inr hpublished =>
      obtain ⟨⟨m', hm', hid, hsent⟩, hacknowledged⟩ := hpublished
      obtain ⟨new, hnew⟩ := kafka_foldl (v := v) p (fetch s.rows p.candidates) (s, 0)
      refine .inr ⟨⟨settle v p (fetch s.rows p.candidates) m', ?_, (settle_id m').trans hid, ?_⟩,
        ?_⟩
      · rw [rows_pollOnce]
        exact List.mem_map_of_mem hm'
      · unfold settle
        split
        · rfl
        · exact hsent
      · rw [pollOnce, hnew]
        exact hacknowledged.append new

theorem crowd_lt_iff : crowd (fun m => m.createdAt) (failsSchema v) (pendingRows s.rows) m < 10 ↔
    Uncrowded v s m := by
  rw [crowd, List.countP_eq_length_filter]
  rfl

theorem published_of_uncrowded (hm : m ∈ pendingRows s.rows) (hvalid : meetsSchema v m = true)
    (hcrowd : Uncrowded v s m) {polls : List PollDraws}
    (hrun : Runs.run (pollStep v) s polls = some s')
    (hlength : (pendingRows s.rows).length ≤ polls.length) : Published v s' m := by
  have hgone : m ∉ pendingRows s'.rows :=
    (rounds_run hrun).not_mem (failsSchema_of_meetsSchema hvalid) (crowd_lt_iff.mpr hcrowd)
      (List.countP_le_length.trans hlength)
  have hstill : m ∈ pendingRows s'.rows ∨ Published v s' m :=
    Runs.invariant (I := fun s => m ∈ pendingRows s.rows ∨ Published v s m)
      (fun _ _ _ h hstep => pending_or_published_pollStep hvalid h hstep) (.inl hm) hrun
  exact hstill.resolve_left hgone

/-- A poll in an order in which the rows that fail come first. -/
theorem exists_blocked_pollStep (hm : m ∈ pendingRows s.rows) (hvalid : meetsSchema v m = true)
    (hcrowd : ¬ Uncrowded v s m) :
    ∃ p s', pollStep v s p = some s' ∧ m ∈ pendingRows s'.rows := by
  rw [← crowd_lt_iff, Nat.not_lt] at hcrowd
  obtain ⟨order, horder, hstays⟩ :=
    exists_order_of_crowd hm (failsSchema_of_meetsSchema hvalid) hcrowd
  let p : PollDraws :=
    ⟨order.map fun m => m.id, fun _ => ⟨⟨0⟩, ⟨0⟩, 0⟩, fun _ => 0⟩
  have hselects : Selects s.rows p.candidates := selects_of_order s.unique horder
  have hrows : rowsOf s.rows p.candidates = order :=
    rowsOf_map_id s.unique fun m hm => mem_of_mem_pendingRows (horder.perm.mem_iff.mp hm)
  refine ⟨p, (pollOnce v s p).1, if_pos hselects, ?_⟩
  apply (remaining_perm hselects).mem_iff.mp
  rwa [hrows]

theorem exists_blocked_run (n : Nat) (hm : m ∈ pendingRows s.rows) (hvalid : meetsSchema v m = true)
    (hcrowd : ¬ Uncrowded v s m) :
    ∃ polls s', Runs.run (pollStep v) s polls = some s' ∧ polls.length = n ∧
      m ∈ pendingRows s'.rows := by
  induction n generalizing s with
  | zero => exact ⟨[], s, rfl, rfl, hm⟩
  | succ n ih =>
      obtain ⟨p, next, hstep, hnext⟩ := exists_blocked_pollStep hm hvalid hcrowd
      have hcrowd' : ¬ Uncrowded v next m := by
        rwa [← crowd_lt_iff, (round_pollStep hstep).crowd_eq, crowd_lt_iff]
      obtain ⟨polls, s', hrun, hlength, hlast⟩ := ih hnext hcrowd'
      refine ⟨p :: polls, s', Runs.run_cons_eq_some.mpr ⟨next, hstep, hrun⟩, ?_, hlast⟩
      rw [List.length_cons, hlength]

theorem not_published_of_pending (hm : m ∈ pendingRows s.rows) : ¬ Published v s m := by
  intro h
  obtain ⟨⟨m', hm', hid, hsent⟩, _⟩ := h
  obtain ⟨hrow, hpending⟩ := List.mem_filter.mp hm
  obtain rfl := OutboxEventModel.eq_of_id s.unique hm' hrow hid
  rw [hsent] at hpending
  contradiction

/-- Behind ten rows that fail, a row is never reached. -/
theorem not_drains_of_crowded (hm : m ∈ pendingRows s.rows) (hvalid : meetsSchema v m = true)
    (hcrowd : ¬ Uncrowded v s m) : ¬ Drains v s := by
  intro hdrains
  obtain ⟨polls, s', hrun, hlength, hlast⟩ :=
    exists_blocked_run (pendingRows s.rows).length hm hvalid hcrowd
  exact not_published_of_pending hlast (hdrains polls s' hrun hlength.ge m hm hvalid)

end Run

section Main

/-- The outbox drains just if no valid row has ten older ones that fail their schema. -/
theorem drains_iff (v : Pydantic) (s : Backlog) :
    Drains v s ↔ ∀ m ∈ pendingRows s.rows, meetsSchema v m = true → Uncrowded v s m := by
  constructor
  · intro hdrains m hm hvalid
    by_contra hcrowd
    exact not_drains_of_crowded hm hvalid hcrowd hdrains
  · intro huncrowded polls s' hrun hlength m hm hvalid
    exact published_of_uncrowded hm hvalid (huncrowded m hm hvalid) hrun hlength

/-- A row whose payload has none of the fields of its event. -/
def emptyRow (n : Nat) : OutboxEventModel :=
  { pendingRow loanStatusChangedV1 with id := ⟨BitVec.ofNat 128 (n + 10)⟩, payload := .obj [] }

def goodRow : OutboxEventModel := { pendingRow loanStatusChangedV1 with createdAt := 1 }

/-- Ten rows that fail their schema, and a good row behind them. -/
def crowded : Backlog where
  rows := (List.range 10).map emptyRow ++ [goodRow]
  unique := by decide +kernel
  kafka := []

theorem crowded_not_drained : ¬ Drains Pydantic.strict crowded := by
  have hpending : goodRow ∈ pendingRows crowded.rows :=
    List.mem_filter.mpr ⟨List.mem_append_right _ (List.mem_singleton.mpr rfl), by decide +kernel⟩
  have hvalid : meetsSchema Pydantic.strict goodRow = true := by decide +kernel
  have hcrowd : ¬ Uncrowded Pydantic.strict crowded goodRow := by
    unfold Uncrowded
    decide +kernel
  exact not_drains_of_crowded hpending hvalid hcrowd

end Main

end CrediGuard.Loan
