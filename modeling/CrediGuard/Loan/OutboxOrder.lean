import CrediGuard.Loan.OutboxOnce

/-!
Order of the publications of one loan.

A worker sends its batch oldest first, so no row overtakes one that waits behind
it in the same batch. It goes on after a failed send, though, and it passes over
a row that another worker has locked. A run keeps the order just if this never
happens to an older row that has not been acknowledged yet.
-/

namespace CrediGuard.Loan
open ReadCommitted

def AckedRow (kafka : List Publication) (id : Uuid) : Prop :=
  ∃ p ∈ kafka, p.row = id ∧ p.acked = true

/-- Rows of one topic and one partition key, the first one older. -/
structure Precedes (a b : OutboxEventModel) : Prop where
  aggregateId : a.aggregateId = b.aggregateId
  eventType : a.eventType = b.eventType
  createdAt : a.createdAt < b.createdAt

/-- The first acknowledged record of a row that was pending at the start comes
before that of every later row. -/
def InOrder (rows : List OutboxEventModel) (s : State) : Prop :=
  ∀ a ∈ rows, ∀ b ∈ rows, a.status = "PENDING" → Precedes a b →
    ∀ pre, pre <+: s.kafka → AckedRow pre b.id → AckedRow pre a.id

/-- Worker `n` has the row in its batch, and its send has failed. -/
def Failed (s : State) (n : Nat) (id : Uuid) : Prop :=
  (id, n) ∈ s.locks ∧ ¬ Marked s n id ∧
    id ∉ (s.workers n).position.events.map fun e => e.id

/-- The row is pending, and not in the batch of worker `n`. -/
def Skipped (s : State) (n : Nat) (id : Uuid) : Prop :=
  (id, n) ∉ s.locks ∧ ∃ m ∈ s.world.outbox.committed, m.id = id ∧ m.status = "PENDING"

/-- If the broker acknowledges a record for `event`, every older row that failed
in this batch or was passed over has been acknowledged. -/
def NotOvertaking (v : Pydantic) (rows : List OutboxEventModel) (s : State) (l : Label) : Prop :=
  ∀ n d event events aborted record, l = .worker n (.publish d .acked) →
    (s.workers n).position = .looping (event :: events) aborted →
    publishEvent v (s.workers n).started event d = .ok (some record) →
    ∀ a ∈ rows, ∀ b ∈ rows, b.id = event.id → a.status = "PENDING" → Precedes a b →
      Failed s n a.id ∨ Skipped s n a.id → AckedRow s.kafka a.id

/-- What a worker holds and what it may still lock, oldest first. -/
def Position.Sorted (rows : List OutboxEventModel) (p : Position) : Prop :=
  ∃ cs : List OutboxEventModel, p.candidates = cs.map (fun c => c.id) ∧
    (p.events ++ cs).Pairwise (fun a b => a.createdAt ≤ b.createdAt) ∧
    ∀ e ∈ p.events ++ cs, ∃ m ∈ rows, Kept e m

structure OrderInv (before : List OutboxEventModel) (s : State) : Prop where
  start : ∀ a ∈ before, ∃ m ∈ s.world.outbox.committed, Kept a m
  sorted : ∀ n, (s.workers n).position.Sorted s.world.outbox.committed

section Kept
variable {v : Pydantic} {before : List OutboxEventModel} {s s' : State}

theorem step_keeps (houtbox : OutboxInv v before s) {l : Label}
    (hstep : step v s l = some s') {m : OutboxEventModel} (hm : m ∈ s.world.outbox.committed) :
    ∃ m' ∈ s'.world.outbox.committed, Kept m m' := by
  obtain ⟨f, new, hf, hrows⟩ := step_rows houtbox hstep
  refine ⟨f m, ?_, hf m⟩
  rw [hrows]
  exact List.mem_append_left _ (List.mem_map_of_mem hm)

theorem Position.Sorted.mono {rows rows' : List OutboxEventModel} {p : Position}
    (h : p.Sorted rows) (hkept : ∀ m ∈ rows, ∃ m' ∈ rows', Kept m m') : p.Sorted rows' := by
  obtain ⟨cs, hcandidates, hsorted, hrows⟩ := h
  refine ⟨cs, hcandidates, hsorted, ?_⟩
  intro e he
  obtain ⟨m, hm, hem⟩ := hrows e he
  obtain ⟨m', hm', hmm'⟩ := hkept m hm
  exact ⟨m', hm', hem.trans hmm'⟩

end Kept

section Sorted
variable {v : Pydantic} {before : List OutboxEventModel} {s s' : State} {n : Nat}

/-- The candidates of a `SELECT`, as rows. -/
theorem exists_candidates {rows : List OutboxEventModel} {ids : List Uuid}
    (h : Selects rows ids) : ∃ cs : List OutboxEventModel, ids = cs.map (fun c => c.id) ∧
      cs.Pairwise (fun a b => a.createdAt ≤ b.createdAt) ∧ ∀ c ∈ cs, c ∈ rows := by
  refine ⟨rowsOf rows ids, (ids_rowsOf h).symm, sorted_rowsOf h, ?_⟩
  intro c hc
  exact mem_of_mem_rowsOf hc

/-- A worker goes on with a part of what it holds. -/
theorem Position.Sorted.part {rows : List OutboxEventModel} {p q : Position} (h : p.Sorted rows)
    (hevents : q.events.Sublist p.events) (hnone : q.candidates = []) : q.Sorted rows := by
  obtain ⟨cs, _, hsorted, hrows⟩ := h
  have hsub : (q.events ++ []).Sublist (p.events ++ cs) := hevents.append (List.nil_sublist cs)
  exact ⟨[], hnone, hsorted.sublist hsub, fun e he => hrows e (hsub.subset he)⟩

theorem Position.Sorted.skips {rows batch : List OutboxEventModel} {id : Uuid} {ids : List Uuid}
    (h : (Position.selecting (id :: ids) batch).Sorted rows) :
    (Position.selecting ids batch).Sorted rows := by
  obtain ⟨cs, hcandidates, hsorted, hrows⟩ := h
  obtain ⟨c, cs, rfl, _, hids⟩ := List.map_eq_cons_iff.mp hcandidates.symm
  have hsub : (batch ++ cs).Sublist (batch ++ c :: cs) :=
    (List.Sublist.refl batch).append (List.sublist_cons_self c cs)
  exact ⟨cs, hids.symm, hsorted.sublist hsub, fun e he => hrows e (hsub.subset he)⟩

/-- The row that is locked is the candidate, in its latest version. -/
theorem Position.Sorted.locks {batch : List OutboxEventModel} {id : Uuid} {ids : List Uuid}
    {m : OutboxEventModel} (hunique : s.world.outbox.Unique OutboxEventModel.clash)
    (h : (Position.selecting (id :: ids) batch).Sorted s.world.outbox.committed)
    (hid : lockable? s id = some m) :
    (Position.selecting ids (batch ++ [m])).Sorted s.world.outbox.committed := by
  obtain ⟨cs, hcandidates, hsorted, hrows⟩ := h
  obtain ⟨c, cs, rfl, hcid, hids⟩ := List.map_eq_cons_iff.mp hcandidates.symm
  obtain ⟨hm, hmid, _⟩ := lockable_eq_some hid
  have hstored : ∃ m' ∈ s.world.outbox.committed, Kept c m' :=
    hrows c (List.mem_append_right _ (List.mem_cons_self ..))
  obtain ⟨m', hm', hkept⟩ := hstored
  have hsame : m'.id = m.id := (hkept.1.id.trans hcid).trans hmid.symm
  obtain rfl := OutboxEventModel.eq_of_id hunique.committed hm' hm hsame
  have hdate : m'.createdAt = c.createdAt := hkept.1.createdAt
  have hevents : (Position.selecting ids (batch ++ [m'])).events ++ cs = batch ++ m' :: cs :=
    List.append_assoc ..
  refine ⟨cs, hids.symm, ?_, ?_⟩
  · rw [hevents]
    obtain ⟨hbatch, hrest, hcross⟩ := List.pairwise_append.mp hsorted
    obtain ⟨hfirst, htail⟩ := List.pairwise_cons.mp hrest
    refine List.pairwise_append.mpr ⟨hbatch, List.pairwise_cons.mpr ⟨?_, htail⟩, ?_⟩
    · intro e he
      rw [hdate]
      exact hfirst e he
    · intro e he e' he'
      cases List.mem_cons.mp he' with
      | inl heq =>
          rw [heq, hdate]
          exact hcross e he c (List.mem_cons_self ..)
      | inr htail => exact hcross e he e' (List.mem_cons_of_mem _ htail)
  · rw [hevents]
    intro e he
    cases List.mem_append.mp he with
    | inl hold => exact hrows e (List.mem_append_left _ hold)
    | inr hnew =>
        cases List.mem_cons.mp hnew with
        | inl heq => exact ⟨m', hm, heq ▸ .refl m'⟩
        | inr htail => exact hrows e (List.mem_append_right _ (List.mem_cons_of_mem _ htail))

theorem WorkerStep.other {k : WorkerLabel} (h : WorkerStep v s n k s') {j : Nat} (hj : j ≠ n) :
    s'.workers j = s.workers j := by
  cases h with
  | crash => exact Function.update_of_ne hj _ _
  | start hp => exact Function.update_of_ne hj _ _
  | sends event events aborted d delivery record hp hpublish hfresh =>
      rw [setPosition_other _ _ hj, deliver_workers]
  | select ids hp hids => exact setPosition_other s _ hj
  | skips id ids batch hp hid => exact setPosition_other s _ hj
  | locks id ids batch m hp hlen hid => exact setPosition_other s _ hj
  | fetched ids batch hp hdone => exact setPosition_other s _ hj
  | fails hp => exact endPoll_other s _ hj
  | refuses event events aborted d delivery e hp hpublish => exact setPosition_other s _ hj
  | ignores event events aborted d delivery hp hpublish => exact setPosition_other s _ hj
  | updates event events now hp => exact setPosition_other s _ hj
  | updateFails event events aborted hp => exact setPosition_other s _ hj
  | commits hp => exact endPoll_other s _ hj
  | commitsAborted hp => exact endPoll_other s _ hj

theorem WorkerStep.sorted {k : WorkerLabel}
    (hunique : s.world.outbox.Unique OutboxEventModel.clash) (h : WorkerStep v s n k s')
    (hcur : (s.workers n).position.Sorted s.world.outbox.committed) :
    (s'.workers n).position.Sorted s.world.outbox.committed := by
  have hidle : Position.idle.Sorted s.world.outbox.committed :=
    hcur.part (List.nil_sublist _) rfl
  cases h with
  | crash =>
      simp only [Function.update_self]
      exact hidle
  | start hp =>
      simp only [Function.update_self]
      exact hidle
  | select ids hp hids =>
      obtain ⟨cs, hcandidates, hsorted, hrows⟩ := exists_candidates hids
      rw [setPosition_at]
      exact ⟨cs, hcandidates, hsorted, fun e he => ⟨e, hrows e he, .refl e⟩⟩
  | skips id ids batch hp hid =>
      rw [hp] at hcur
      rw [setPosition_at]
      exact hcur.skips
  | locks id ids batch m hp hlen hid =>
      rw [hp] at hcur
      change ((s.setPosition n _).workers n).position.Sorted s.world.outbox.committed
      rw [setPosition_at]
      exact hcur.locks hunique hid
  | fetched ids batch hp hdone =>
      rw [hp] at hcur
      rw [setPosition_at]
      exact hcur.part (List.Sublist.refl _) rfl
  | fails hp =>
      rw [endPoll_at]
      exact hidle
  | refuses event events aborted d delivery e hp hpublish =>
      rw [hp] at hcur
      rw [setPosition_at]
      exact hcur.part (List.sublist_cons_self ..) rfl
  | ignores event events aborted d delivery hp hpublish =>
      rw [hp] at hcur
      rw [setPosition_at]
      exact hcur.part (List.Sublist.refl _) rfl
  | sends event events aborted d delivery record hp hpublish hfresh =>
      rw [hp] at hcur
      rw [setPosition_at]
      split
      · exact hcur.part (List.Sublist.refl _) rfl
      · exact hcur.part (List.sublist_cons_self ..) rfl
  | updates event events now hp =>
      rw [hp] at hcur
      change ((s.setPosition n _).workers n).position.Sorted s.world.outbox.committed
      rw [setPosition_at]
      exact hcur.part (List.sublist_cons_self ..) rfl
  | updateFails event events aborted hp =>
      rw [hp] at hcur
      rw [setPosition_at]
      exact hcur.part (List.sublist_cons_self ..) rfl
  | commits hp =>
      rw [endPoll_at]
      exact hidle
  | commitsAborted hp =>
      rw [endPoll_at]
      exact hidle

theorem OrderInv.step (h : OrderInv before s) (houtbox : OutboxInv v before s) {l : Label}
    (hstep : Loan.step v s l = some s') : OrderInv before s' := by
  have hkept (m : OutboxEventModel) (hm : m ∈ s.world.outbox.committed) :=
    step_keeps houtbox hstep hm
  refine ⟨?_, ?_⟩
  · intro a ha
    obtain ⟨m, hm, ham⟩ := h.start a ha
    obtain ⟨m', hm', hmm'⟩ := hkept m hm
    exact ⟨m', hm', ham.trans hmm'⟩
  · intro j
    refine Position.Sorted.mono ?_ hkept
    cases step_outbox hstep with
    | inl hworker =>
        obtain ⟨n, k, _, hcase⟩ := hworker
        by_cases hj : j = n
        · rw [hj]
          exact hcase.sorted houtbox.unique (h.sorted n)
        · rw [hcase.other hj]
          exact h.sorted j
    | inr hframe =>
        obtain ⟨_, _, hworkers, _⟩ := hframe
        rw [hworkers]
        exact h.sorted j

theorem OrderInv.of_quiet (hquiet : s.Quiet) : OrderInv s.world.outbox.committed s := by
  refine ⟨fun a ha => ⟨a, ha, .refl a⟩, ?_⟩
  intro n
  rw [hquiet.workers n]
  exact ⟨[], rfl, List.Pairwise.nil, fun e he => absurd he List.not_mem_nil⟩

end Sorted

section Order
variable {v : Pydantic} {before : List OutboxEventModel} {s s' : State} {n : Nat}

theorem AckedRow.mono {kafka kafka' : List Publication} {id : Uuid} (h : AckedRow kafka id)
    (hsub : ∀ p ∈ kafka, p ∈ kafka') : AckedRow kafka' id := by
  obtain ⟨p, hp, hacked⟩ := h
  exact ⟨p, hsub p hp, hacked⟩

theorem inOrder_of_kafka (h : InOrder before s) (hkafka : s'.kafka = s.kafka) :
    InOrder before s' := by
  intro a ha b hb hpending hab pre hpre
  rw [hkafka] at hpre
  exact h a ha b hb hpending hab pre hpre

/-- One more record in the topic. -/
theorem inOrder_append (hunique : before.Pairwise fun a b => a.clash b = false)
    (h : InOrder before s) {p : Publication} (hkafka : s'.kafka = s.kafka ++ [p]) :
    InOrder before s' ↔ (p.acked = true → ∀ a ∈ before, ∀ b ∈ before, b.id = p.row →
      a.status = "PENDING" → Precedes a b → AckedRow s.kafka a.id) := by
  constructor
  · intro h' hacked a ha b hb hrow hpending hab
    have hlast : AckedRow s'.kafka b.id := by
      refine ⟨p, ?_, hrow.symm, hacked⟩
      rw [hkafka]
      exact List.mem_append_right _ (List.mem_singleton.mpr rfl)
    obtain ⟨q, hq, hqrow, hqacked⟩ := h' a ha b hb hpending hab _ List.prefix_rfl hlast
    rw [hkafka] at hq
    cases List.mem_append.mp hq with
    | inl hold => exact ⟨q, hold, hqrow, hqacked⟩
    | inr hnew =>
        rw [List.mem_singleton.mp hnew] at hqrow
        obtain rfl := OutboxEventModel.eq_of_id hunique ha hb (hqrow.symm.trans hrow.symm)
        exact absurd hab.createdAt (lt_irrefl _)
  · intro hnew a ha b hb hpending hab pre hpre hacked
    rw [hkafka] at hpre
    cases List.prefix_concat_iff.mp hpre with
    | inr hold => exact h a ha b hb hpending hab pre hold hacked
    | inl hall =>
        rw [hall]
        refine AckedRow.mono ?_ fun q hq => List.mem_append_left _ hq
        obtain ⟨q, hq, hqrow, hqacked⟩ := hacked
        rw [hall] at hq
        cases List.mem_append.mp hq with
        | inl hq => exact h a ha b hb hpending hab s.kafka List.prefix_rfl ⟨q, hq, hqrow, hqacked⟩
        | inr hq =>
            rw [List.mem_singleton.mp hq] at hqrow hqacked
            exact hnew hqacked a ha b hb hqrow.symm hpending hab

/-- The row of an event in a worker's hands. -/
theorem Position.Sorted.kept_of_id {p : Position} {event m : OutboxEventModel}
    (houtbox : OutboxInv v before s) (h : p.Sorted s.world.outbox.committed)
    (hevent : event ∈ p.events) (hm : m ∈ s.world.outbox.committed) (hid : m.id = event.id) :
    Kept event m := by
  obtain ⟨cs, _, _, hrows⟩ := h
  obtain ⟨m', hm', hkept⟩ := hrows event (List.mem_append_left _ hevent)
  have hsame := hkept.1.id.trans hid.symm
  obtain rfl := OutboxEventModel.eq_of_id houtbox.unique.committed hm' hm hsame
  exact hkept

/-- No older row waits behind an event in the batch it is in. -/
theorem Position.Sorted.createdAt_le {event e : OutboxEventModel} {events : List OutboxEventModel}
    {aborted : Bool} {rows : List OutboxEventModel}
    (h : (Position.looping (event :: events) aborted).Sorted rows) (he : e ∈ event :: events) :
    event.createdAt ≤ e.createdAt := by
  obtain ⟨cs, _, hsorted, _⟩ := h
  cases List.mem_cons.mp he with
  | inl heq => rw [heq]
  | inr htail => exact List.rel_of_pairwise_cons hsorted (List.mem_append_left _ htail)

theorem OrderInv.acked (h : OrderInv before s) (houtbox : OutboxInv v before s)
    (hunique : before.Pairwise fun a b => a.clash b = false) {event : OutboxEventModel}
    {events : List OutboxEventModel} {aborted : Bool}
    (hp : (s.workers n).position = .looping (event :: events) aborted)
    (hknown : event.eventType ∈ knownEventTypes) {a b : OutboxEventModel} (ha : a ∈ before)
    (hb : b ∈ before) (hrow : b.id = event.id) (hpending : a.status = "PENDING")
    (hab : Precedes a b)
    (hleft : Failed s n a.id ∨ Skipped s n a.id → AckedRow s.kafka a.id) :
    AckedRow s.kafka a.id := by
  have hsorted := h.sorted n
  rw [hp] at hsorted
  obtain ⟨ma, hma, hkepta⟩ := h.start a ha
  obtain ⟨mb, hmb, hkeptb⟩ := h.start b hb
  have hevent : Kept event mb :=
    hsorted.kept_of_id houtbox (List.mem_cons_self ..) hmb (hkeptb.1.id.trans hrow)
  have hmaknown : ma.eventType ∈ knownEventTypes := by
    rw [hkepta.1.eventType, hab.eventType, ← hkeptb.1.eventType, hevent.1.eventType]
    exact hknown
  have hdelivered (hd : Delivered v s.kafka ma) : AckedRow s.kafka a.id := by
    obtain ⟨p, hp, hprow, hacked, _⟩ := hd hmaknown
    exact ⟨p, hp, hprow.trans hkepta.1.id, hacked⟩
  cases hkepta.2 with
  | inr hsent =>
      cases houtbox.sent ma hma hsent with
      | inl hd => exact hdelivered hd
      | inr hbefore =>
          obtain ⟨m₀, hm₀, hid, hsent₀⟩ := hbefore
          obtain rfl := OutboxEventModel.eq_of_id hunique hm₀ ha (hid.trans hkepta.1.id)
          rw [hpending] at hsent₀
          exact absurd hsent₀ (by decide)
  | inl hsame =>
      by_cases hlocked : (a.id, n) ∈ s.locks
      · by_cases hmarked : Marked s n a.id
        · obtain ⟨now, hmem⟩ := hmarked
          obtain ⟨id, now', heq, hsettled⟩ := houtbox.updates n _ hmem
          obtain rfl := markSent_injective (Write.update.inj heq)
          exact hdelivered (houtbox.delivered_of_settled hma (hkepta.1.id ▸ hsettled))
        · refine hleft (.inl ⟨hlocked, hmarked, ?_⟩)
          intro hmem
          rw [hp] at hmem
          obtain ⟨e, he, heid⟩ := List.mem_map.mp hmem
          -- it would be older than the event in front of it
          have hkept : Kept e ma :=
            hsorted.kept_of_id houtbox he hma (hkepta.1.id.trans heid.symm)
          have hle : event.createdAt ≤ e.createdAt := hsorted.createdAt_le he
          rw [← hkept.1.createdAt, hkepta.1.createdAt, ← hevent.1.createdAt,
            hkeptb.1.createdAt] at hle
          exact absurd hab.createdAt (not_lt.mpr hle)
      · exact hleft (.inr ⟨hlocked, ma, hma, hkepta.1.id, hsame.trans hpending⟩)

/-- Only an acknowledged publication can break the order. -/
theorem notOvertaking_of_ne {l : Label} (h : ∀ n d, l ≠ .worker n (.publish d .acked)) :
    NotOvertaking v before s l := by
  intro n d event events aborted record hl
  exact absurd hl (h n d)

theorem WorkerStep.inOrder (h : OrderInv before s) (houtbox : OutboxInv v before s)
    (hunique : before.Pairwise fun a b => a.clash b = false) (hin : InOrder before s)
    {k : WorkerLabel} (hstep : WorkerStep v s n k s') :
    InOrder before s' ↔ NotOvertaking v before s (.worker n k) := by
  have hsilent {s' : State} {k : WorkerLabel} (hkafka : s'.kafka = s.kafka)
      (hno : NotOvertaking v before s (.worker n k)) :
      InOrder before s' ↔ NotOvertaking v before s (.worker n k) :=
    ⟨fun _ => hno, fun _ => inOrder_of_kafka hin hkafka⟩
  have hother {s' : State} {k : WorkerLabel} (hk : ∀ d, k ≠ .publish d .acked)
      (hkafka : s'.kafka = s.kafka) :
      InOrder before s' ↔ NotOvertaking v before s (.worker n k) :=
    hsilent hkafka (notOvertaking_of_ne fun _ d heq => hk d (Label.worker.inj heq).2)
  -- the label fixes the worker and the event
  have hnone {d : EnvelopeDraws} {event : OutboxEventModel} {events : List OutboxEventModel}
      {aborted : Bool} (hp : (s.workers n).position = .looping (event :: events) aborted)
      (hpublish : ∀ record, publishEvent v (s.workers n).started event d ≠ .ok (some record)) :
      NotOvertaking v before s (.worker n (.publish d .acked)) := by
    intro n' d' event' events' aborted' record hl hp' hpublish'
    obtain ⟨rfl, hd⟩ := Label.worker.inj hl
    obtain ⟨rfl, _⟩ := WorkerLabel.publish.inj hd
    obtain ⟨hevents, _⟩ := Position.looping.inj (hp.symm.trans hp')
    obtain ⟨rfl, _⟩ := List.cons.inj hevents
    exact absurd hpublish' (hpublish record)
  cases hstep with
  | crash => exact hother (by simp) rfl
  | start hp => exact hother (by simp) rfl
  | select ids hp hids => exact hother (by simp) rfl
  | skips id ids batch hp hid => exact hother (by simp) rfl
  | locks id ids batch m hp hlen hid => exact hother (by simp) rfl
  | fetched ids batch hp hdone => exact hother (by simp) rfl
  | fails hp => exact hother (by simp) rfl
  | updates event events now hp => exact hother (by simp) rfl
  | updateFails event events aborted hp => exact hother (by simp) rfl
  | commits hp => exact hother (by simp) rfl
  | commitsAborted hp => exact hother (by simp) rfl
  | refuses event events aborted d delivery e hp hpublish =>
      cases delivery with
      | acked => exact hsilent rfl (hnone hp fun record => by rw [hpublish]; exact nofun)
      | lost => exact hother (by simp) rfl
      | unacknowledged => exact hother (by simp) rfl
  | ignores event events aborted d delivery hp hpublish =>
      cases delivery with
      | acked => exact hsilent rfl (hnone hp fun record => by rw [hpublish]; exact nofun)
      | lost => exact hother (by simp) rfl
      | unacknowledged => exact hother (by simp) rfl
  | sends event events aborted d delivery record hp hpublish hfresh =>
      cases delivery with
      | lost => exact hother (by simp) rfl
      | unacknowledged =>
          rw [inOrder_append hunique hin (p := ⟨event.id, record, false⟩) rfl]
          refine ⟨fun _ => notOvertaking_of_ne ?_, fun _ hacked => absurd hacked Bool.false_ne_true⟩
          simp
      | acked =>
          rw [inOrder_append hunique hin (p := ⟨event.id, record, true⟩) rfl]
          constructor
          · intro hall n' d' event' events' aborted' record' hl hp' _ a ha b hb hrow hpending
              hab _
            obtain ⟨rfl, _⟩ := Label.worker.inj hl
            obtain ⟨hevents, _⟩ := Position.looping.inj (hp.symm.trans hp')
            obtain ⟨rfl, _⟩ := List.cons.inj hevents
            exact hall rfl a ha b hb hrow hpending hab
          · intro hno _ a ha b hb hrow hpending hab
            have hknown := (publishEvent_eq_record hpublish).1
            refine h.acked houtbox hunique hp hknown ha hb hrow hpending hab ?_
            exact hno n d event events aborted record rfl hp hpublish a ha b hb hrow hpending hab

end Order

section Runs
variable {v : Pydantic} {s : State}

/-- From any outbox table a run publishes the rows of a loan in their order just
if no worker goes past an older row that failed or was passed over and has not
been acknowledged. -/
theorem inOrder_iff (hquiet : s.Quiet)
    (hunique : s.world.outbox.committed.Pairwise fun a b => a.clash b = false)
    (hkafka : s.kafka = []) (ls : List Label) :
    Runs.Throughout (step v) (InOrder s.world.outbox.committed) s ls ↔
      Runs.EachStep (step v) (NotOvertaking v s.world.outbox.committed) s ls := by
  let before := s.world.outbox.committed
  refine Runs.throughout_iff_eachStep
    (I := fun s => OutboxInv v before s ∧ OrderInv before s) ?_ ?_ ?_ ?_ ls
  · intro s l s' hinv _ _ hstep
    exact ⟨hinv.1.step hstep, hinv.2.step hinv.1 hstep⟩
  · intro s l s' hinv hin hstep
    cases step_outbox hstep with
    | inl hworker =>
        obtain ⟨n, k, rfl, hcase⟩ := hworker
        exact hcase.inOrder hinv.2 hinv.1 hunique hin
    | inr hframe =>
        obtain ⟨hne, hsame, _⟩ := hframe
        exact ⟨fun _ => notOvertaking_of_ne fun n d => hne n _, fun _ => inOrder_of_kafka hin hsame⟩
  · exact ⟨.of_quiet hquiet hunique hkafka, .of_quiet hquiet⟩
  · intro a _ b _ _ _ pre hpre hacked
    rw [hkafka] at hpre
    obtain rfl := List.prefix_nil.mp hpre
    obtain ⟨p, hp, _⟩ := hacked
    exact absurd hp List.not_mem_nil

/-- The send of the older row fails, and the worker goes on with the next one. -/
def pollOverturned : List Label :=
  [.start, .select [⟨1⟩, ⟨3⟩], .lock, .lock, .fetched, .publish ⟨⟨7⟩, ⟨8⟩, 0⟩ .lost,
    .publish ⟨⟨9⟩, ⟨10⟩, 0⟩ .acked].map (.worker 0)

theorem overturned_not_inOrder :
    (twoPending.map fun m => m.createdAt).Nodup ∧
      ∃ s, Runs.run (step Pydantic.strict) (.ofOutbox twoPending) pollOverturned = some s ∧
        ¬ InOrder twoPending s := by
  refine ⟨by decide, ?_⟩
  have heval : (Runs.run (step Pydantic.strict) (.ofOutbox twoPending) pollOverturned).map
      (fun s => s.kafka.map fun p => (p.row, p.acked)) = some [(⟨3⟩, true)] := by
    decide +kernel
  obtain ⟨s, hrun, hkafka⟩ := Option.map_eq_some_iff.mp heval
  refine ⟨s, hrun, ?_⟩
  intro hin
  have hpending : ∃ a ∈ twoPending, ∃ b ∈ twoPending, a.status = "PENDING" ∧ Precedes a b ∧
      a.id = ⟨1⟩ ∧ b.id = ⟨3⟩ :=
    ⟨_, List.mem_cons_self .., _, List.mem_cons_of_mem _ (List.mem_cons_self ..), rfl,
      ⟨rfl, rfl, by decide⟩, rfl, rfl⟩
  obtain ⟨a, ha, b, hb, hstatus, hab, haid, hbid⟩ := hpending
  have hacked : AckedRow s.kafka b.id := by
    have hmem : ((⟨3⟩, true) : Uuid × Bool) ∈ s.kafka.map fun p => (p.row, p.acked) := by
      rw [hkafka]
      exact List.mem_cons_self ..
    obtain ⟨p, hp, hcolumns⟩ := List.mem_map.mp hmem
    obtain ⟨hrow, hacked⟩ := Prod.mk.inj hcolumns
    exact ⟨p, hp, hrow.trans hbid.symm, hacked⟩
  obtain ⟨p, hp, hrow, _⟩ := hin a ha b hb hstatus hab s.kafka List.prefix_rfl hacked
  have hmem : (p.row, p.acked) ∈ s.kafka.map fun p => (p.row, p.acked) := List.mem_map_of_mem hp
  rw [hkafka, List.mem_singleton, hrow, haid] at hmem
  exact absurd (Prod.mk.inj hmem).1 (by decide)

theorem inOrder_iff_overturned :
    Runs.Throughout (step Pydantic.strict) (InOrder twoPending) (.ofOutbox twoPending)
        pollOverturned ↔
      Runs.EachStep (step Pydantic.strict) (NotOvertaking Pydantic.strict twoPending)
        (.ofOutbox twoPending) pollOverturned :=
  inOrder_iff (State.quiet_ofOutbox _) (by decide) rfl pollOverturned

end Runs

end CrediGuard.Loan
