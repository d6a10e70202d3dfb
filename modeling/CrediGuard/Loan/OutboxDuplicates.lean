import CrediGuard.Loan.OutboxDelivery

/-!
Repeated publications of one outbox row.

Each `EventEnvelope` draws its own `event_id`, so a row that is published again,
after a lost acknowledgement or a rolled back poll, is published under a new id.
A run keeps one id per row just if the broker never takes a second record for a
row; then, and only then, the rule of dropping known ids handles a row once.
-/

namespace CrediGuard.Loan

def OneEventId (kafka : List Publication) : Prop :=
  ∀ p ∈ kafka, ∀ q ∈ kafka, p.row = q.row → p.record.value.eventId = q.record.value.eventId

/-- A consumer with a `processed_events` table. -/
structure Consumer where
  processed : List Uuid := []
  handled : List Uuid := []

/-- Drop a record whose `event_id` is known, else remember it and handle the record. -/
def Consumer.receive (c : Consumer) (p : Publication) : Consumer :=
  if p.record.value.eventId ∈ c.processed then c
  else ⟨p.record.value.eventId :: c.processed, c.handled ++ [p.row]⟩

/-- Whatever is delivered, how often and in which order, no row is handled twice. -/
def HandledOnce (kafka : List Publication) : Prop :=
  ∀ ds : List Publication, (∀ p ∈ ds, p ∈ kafka) →
    (ds.foldl Consumer.receive {}).handled.Nodup

section Consumers
variable {kafka : List Publication}

/-- Every handled row has a record whose id is remembered. -/
structure Consumer.Inv (kafka : List Publication) (c : Consumer) : Prop where
  nodup : c.handled.Nodup
  known : ∀ row ∈ c.handled, ∃ p ∈ kafka, p.row = row ∧ p.record.value.eventId ∈ c.processed

theorem Consumer.Inv.receive (hone : OneEventId kafka) {c : Consumer} (h : c.Inv kafka)
    {p : Publication} (hp : p ∈ kafka) : (c.receive p).Inv kafka := by
  simp only [Consumer.receive]
  split
  · exact h
  · rename_i hnew
    have hrow : p.row ∉ c.handled := by
      intro hhandled
      obtain ⟨q, hq, hqrow, hqid⟩ := h.known p.row hhandled
      rw [hone q hq p hp hqrow] at hqid
      exact hnew hqid
    refine ⟨?_, ?_⟩
    · refine List.nodup_append.mpr ⟨h.nodup, List.nodup_singleton _, ?_⟩
      intro a ha b hb
      rw [List.mem_singleton.mp hb]
      rintro rfl
      exact hrow ha
    · intro row hmem
      cases List.mem_append.mp hmem with
      | inl hold =>
          obtain ⟨q, hq, hqrow, hqid⟩ := h.known row hold
          exact ⟨q, hq, hqrow, List.mem_cons_of_mem _ hqid⟩
      | inr hlast =>
          exact ⟨p, hp, (List.mem_singleton.mp hlast).symm, List.mem_cons_self ..⟩

theorem handledOnce_of_oneEventId (hone : OneEventId kafka) : HandledOnce kafka := by
  intro ds hds
  have hfold (c : Consumer) (hc : c.Inv kafka) : (ds.foldl Consumer.receive c).Inv kafka := by
    induction ds generalizing c with
    | nil => exact hc
    | cons p ds ih =>
        exact ih (fun q hq => hds q (List.mem_cons_of_mem _ hq)) _
          (hc.receive hone (hds p (List.mem_cons_self ..)))
  exact (hfold {} ⟨List.nodup_nil, fun _ h => absurd h List.not_mem_nil⟩).nodup

end Consumers

section Runs
variable {v : Pydantic} {s s' : State}

/-- The step makes the broker take a record for `row`. -/
def Takes (v : Pydantic) (s : State) (l : Label) (row : Uuid) : Prop :=
  ∃ n d delivery event events aborted record, l = .worker n (.publish d delivery) ∧
    delivery ≠ .lost ∧ (s.workers n).position = .looping (event :: events) aborted ∧
    publishEvent v (s.workers n).started event d = .ok (some record) ∧ row = event.id

/-- The broker takes no record for a row that has one. -/
def TakesOnce (v : Pydantic) (s : State) (l : Label) : Prop :=
  ∀ row, Takes v s l row → ∀ p ∈ s.kafka, p.row ≠ row

/-- Every published id has been drawn. -/
def IdsDrawn (s : State) : Prop := ∀ p ∈ s.kafka, p.record.value.eventId ∈ s.drawn

theorem takes_publish {n : Nat} {d : EnvelopeDraws} {delivery : Delivery}
    {event : OutboxEventModel} {events : List OutboxEventModel} {aborted : Bool} {row : Uuid}
    (hp : (s.workers n).position = .looping (event :: events) aborted) :
    Takes v s (.worker n (.publish d delivery)) row ↔ delivery ≠ .lost ∧
      (∃ record, publishEvent v (s.workers n).started event d = .ok (some record)) ∧
        row = event.id := by
  constructor
  · rintro ⟨n', d', delivery', event', events', aborted', record, hl, hne, hp', hpublish, rfl⟩
    obtain ⟨rfl, hpublishes⟩ := Label.worker.inj hl
    obtain ⟨rfl, rfl⟩ := WorkerLabel.publish.inj hpublishes
    obtain ⟨hevents, _⟩ := Position.looping.inj (hp.symm.trans hp')
    obtain ⟨rfl, _⟩ := List.cons.inj hevents
    exact ⟨hne, ⟨record, hpublish⟩, rfl⟩
  · rintro ⟨hne, ⟨record, hpublish⟩, rfl⟩
    exact ⟨n, d, delivery, event, events, aborted, record, rfl, hne, hp, hpublish, rfl⟩

theorem not_takes {l : Label} (h : ∀ n d delivery, l ≠ .worker n (.publish d delivery))
    (row : Uuid) : ¬ Takes v s l row := by
  rintro ⟨n, d, delivery, _, _, _, _, hl, _⟩
  exact h n d delivery hl

/-- A step leaves the topic alone or appends one record under a new id. -/
def Appends (v : Pydantic) (s : State) (l : Label) (s' : State) : Prop :=
  (∀ u ∈ s.drawn, u ∈ s'.drawn) ∧
    ((s'.kafka = s.kafka ∧ ∀ row, ¬ Takes v s l row) ∨
      ∃ p, s'.kafka = s.kafka ++ [p] ∧ p.record.value.eventId ∉ s.drawn ∧
        p.record.value.eventId ∈ s'.drawn ∧ ∀ row, Takes v s l row ↔ row = p.row)

theorem appends_none {l : Label} (hdrawn : s'.drawn = s.drawn) (hkafka : s'.kafka = s.kafka)
    (htakes : ∀ row, ¬ Takes v s l row) : Appends v s l s' :=
  ⟨fun u hu => by rw [hdrawn]; exact hu, .inl ⟨hkafka, htakes⟩⟩

theorem WorkerStep.appends {n : Nat} {k : WorkerLabel} (h : WorkerStep v s n k s') :
    Appends v s (.worker n k) s' := by
  have hother {s' : State} {k : WorkerLabel} (hk : ∀ d delivery, k ≠ .publish d delivery)
      (hdrawn : s'.drawn = s.drawn) (hkafka : s'.kafka = s.kafka) :
      Appends v s (.worker n k) s' := by
    refine appends_none hdrawn hkafka (not_takes ?_)
    rintro m d delivery heq
    exact hk d delivery (Label.worker.inj heq).2
  cases h with
  | crash => exact hother (by simp) rfl rfl
  | start hp => exact hother (by simp) rfl rfl
  | select ids hp hids => exact hother (by simp) rfl rfl
  | skips id ids batch hp hid => exact hother (by simp) rfl rfl
  | locks id ids batch m hp hlen hid => exact hother (by simp) rfl rfl
  | fetched ids batch hp hdone => exact hother (by simp) rfl rfl
  | fails hp => exact hother (by simp) rfl rfl
  | updates event events now hp => exact hother (by simp) rfl rfl
  | updateFails event events aborted hp => exact hother (by simp) rfl rfl
  | commits hp => exact hother (by simp) rfl rfl
  | commitsAborted hp => exact hother (by simp) rfl rfl
  | refuses event events aborted d delivery e hp hpublish =>
      refine appends_none rfl rfl ?_
      intro row
      simp [takes_publish hp, hpublish]
  | ignores event events aborted d delivery hp hpublish =>
      refine appends_none rfl rfl ?_
      intro row
      simp [takes_publish hp, hpublish]
  | sends event events aborted d delivery record hp hpublish hfresh =>
      have hid : record.value.eventId = d.eventId := (publishEvent_eq_record hpublish).2.2.2.1
      have hnew : d.eventId ∉ s.drawn := by
        simp only [fresh, EnvelopeDraws.uuids, Bool.and_eq_true, List.all_eq_true,
          decide_eq_true_eq] at hfresh
        exact hfresh.2 d.eventId (List.mem_cons_self ..)
      have hdrawn : d.eventId ∈ d.uuids ++ s.drawn :=
        List.mem_append_left _ (List.mem_cons_self ..)
      have htakes (row : Uuid) : Takes v s (.worker n (.publish d delivery)) row ↔ _ :=
        takes_publish hp
      have hmono (u : Uuid) (hu : u ∈ s.drawn) : u ∈ d.uuids ++ s.drawn :=
        List.mem_append_right _ hu
      cases delivery with
      | acked =>
          refine ⟨hmono, .inr ⟨⟨event.id, record, true⟩, rfl, ?_, ?_, ?_⟩⟩
          · rw [hid]
            exact hnew
          · rw [hid]
            exact hdrawn
          · intro row
            simp [htakes, hpublish]
      | unacknowledged =>
          refine ⟨hmono, .inr ⟨⟨event.id, record, false⟩, rfl, ?_, ?_, ?_⟩⟩
          · rw [hid]
            exact hnew
          · rw [hid]
            exact hdrawn
          · intro row
            simp [htakes, hpublish]
      | lost =>
          refine ⟨hmono, .inl ⟨rfl, ?_⟩⟩
          intro row
          simp [htakes]

theorem step_appends {l : Label} (hstep : step v s l = some s') : Appends v s l s' := by
  cases step_outbox hstep with
  | inl hworker =>
      obtain ⟨n, k, rfl, hcase⟩ := hworker
      exact hcase.appends
  | inr hframe =>
      obtain ⟨hne, hkafka, _, _, hdrawn, _⟩ := hframe
      exact ⟨hdrawn, .inl ⟨hkafka, not_takes fun n d delivery => hne n _⟩⟩

/-- What a run has to keep: one id per row, and no row handled twice. -/
def Recognisable (s : State) : Prop := OneEventId s.kafka ∧ HandledOnce s.kafka

theorem step_oneEventId (hids : IdsDrawn s) (hone : OneEventId s.kafka) {l : Label}
    (hstep : step v s l = some s') : OneEventId s'.kafka ↔ TakesOnce v s l := by
  obtain ⟨_, hcase⟩ := step_appends hstep
  cases hcase with
  | inl hsame =>
      obtain ⟨hkafka, hnone⟩ := hsame
      rw [hkafka]
      exact ⟨fun _ row htakes => absurd htakes (hnone row), fun _ => hone⟩
  | inr hnew =>
      obtain ⟨p, hkafka, hfresh, _, htakes⟩ := hnew
      rw [hkafka]
      constructor
      · intro hone' row hrow q hq heq
        obtain rfl := (htakes row).mp hrow
        have hid := hone' q (List.mem_append_left _ hq) p
          (List.mem_append_right _ (List.mem_singleton.mpr rfl)) heq
        exact hfresh (hid ▸ hids q hq)
      · intro honce
        have hother (q : Publication) (hq : q ∈ s.kafka) : q.row ≠ p.row :=
          honce p.row ((htakes p.row).mpr rfl) q hq
        intro q hq r hr hrow
        cases List.mem_append.mp hq with
        | inl hq =>
            cases List.mem_append.mp hr with
            | inl hr => exact hone q hq r hr hrow
            | inr hr =>
                rw [List.mem_singleton.mp hr] at hrow
                exact absurd hrow (hother q hq)
        | inr hq =>
            cases List.mem_append.mp hr with
            | inl hr =>
                rw [List.mem_singleton.mp hq] at hrow
                exact absurd hrow.symm (hother r hr)
            | inr hr => rw [List.mem_singleton.mp hq, List.mem_singleton.mp hr]

theorem IdsDrawn.step (hids : IdsDrawn s) {l : Label} (hstep : Loan.step v s l = some s') :
    IdsDrawn s' := by
  obtain ⟨hdrawn, hcase⟩ := step_appends hstep
  intro q hq
  cases hcase with
  | inl hsame =>
      rw [hsame.1] at hq
      exact hdrawn _ (hids q hq)
  | inr hnew =>
      obtain ⟨p, hkafka, _, hp, _⟩ := hnew
      rw [hkafka] at hq
      cases List.mem_append.mp hq with
      | inl hold => exact hdrawn _ (hids q hold)
      | inr hlast =>
          rw [List.mem_singleton.mp hlast]
          exact hp

/-- From an empty topic, a run keeps repeated publications recognisable just if
the broker never takes a second record for a row. -/
theorem recognisable_iff (hkafka : s.kafka = []) (ls : List Label) :
    Runs.Throughout (step v) Recognisable s ls ↔ Runs.EachStep (step v) (TakesOnce v) s ls := by
  have hiff (s : State) : Recognisable s ↔ OneEventId s.kafka :=
    ⟨fun h => h.1, fun h => ⟨h, handledOnce_of_oneEventId h⟩⟩
  refine Runs.throughout_iff_eachStep (I := IdsDrawn) ?_ ?_ ?_ ?_ ls
  · intro s l s' hids _ _ hstep
    exact hids.step hstep
  · intro s l s' hids hone hstep
    rw [hiff]
    exact step_oneEventId hids hone.1 hstep
  · intro p hp
    simp [hkafka] at hp
  · rw [hiff]
    intro p hp
    simp [hkafka] at hp

end Runs

section Crash

/-- The worker dies between the acknowledgement and the commit; the next poll
publishes the row again. -/
def crashLabels : List Label :=
  [.start, .select [⟨1⟩], .lock, .fetched, .publish ⟨⟨7⟩, ⟨8⟩, 0⟩ .acked, .crash,
    .start, .select [⟨1⟩], .lock, .fetched, .publish ⟨⟨9⟩, ⟨10⟩, 1⟩ .acked].map (.worker 0)

theorem crash_not_recognisable :
    ∃ s, Runs.run (step Pydantic.strict) (.ofOutbox [pendingRow loanStatusChangedV1])
        crashLabels = some s ∧ ¬ Recognisable s := by
  have heval : (Runs.run (step Pydantic.strict) (.ofOutbox [pendingRow loanStatusChangedV1])
      crashLabels).map (fun s => s.kafka.map fun p => (p.row, p.record.value.eventId)) =
        some [(⟨1⟩, ⟨7⟩), (⟨1⟩, ⟨9⟩)] := by decide +kernel
  obtain ⟨s, hrun, heq⟩ := Option.map_eq_some_iff.mp heval
  refine ⟨s, hrun, ?_⟩
  rintro ⟨hone, _⟩
  match hkafka : s.kafka with
  | [] => simp [hkafka] at heq
  | [p] => simp [hkafka] at heq
  | p :: q :: rest =>
      simp only [hkafka, List.map_cons, List.cons.injEq, Prod.mk.injEq] at heq
      obtain ⟨⟨hprow, hpid⟩, ⟨hqrow, hqid⟩, _⟩ := heq
      have hid := hone p (by simp [hkafka]) q (by simp [hkafka]) (hprow.trans hqrow.symm)
      rw [hpid, hqid] at hid
      exact absurd hid (by decide)

theorem recognisable_iff_crash :
    Runs.Throughout (step Pydantic.strict) Recognisable
        (.ofOutbox [pendingRow loanStatusChangedV1]) crashLabels ↔
      Runs.EachStep (step Pydantic.strict) (TakesOnce Pydantic.strict)
        (.ofOutbox [pendingRow loanStatusChangedV1]) crashLabels :=
  recognisable_iff rfl crashLabels

end Crash

end CrediGuard.Loan
