import CrediGuard.Loan.OutboxLocks

/-!
Rows are published once.

A record that the broker took belongs to a row that is marked, or that a worker
is about to mark or has marked in its open transaction. The row stays locked
until that transaction ends, so no other worker can put it into a batch. Only a
crash, an error of the database or a lost acknowledgement gets around this.
-/

namespace CrediGuard.Loan
open ReadCommitted

/-- Not a crash or a database error of a worker, and not a failed send that the
broker accepted. -/
def Healthy : Label → Prop
  | .worker _ .crash => False
  | .worker _ .fails => False
  | .worker _ .updateFails => False
  | .worker _ (.publish _ .unacknowledged) => False
  | _ => True

instance (l : Label) : Decidable (Healthy l) := by
  unfold Healthy
  split <;> infer_instance

/-- How many records the broker has taken for the row. -/
def publications (kafka : List Publication) (id : Uuid) : Nat :=
  (kafka.map fun p => p.row).count id

/-- `before` are the rows the run started with. -/
def PublishedOnce (before : List OutboxEventModel) (s : State) : Prop :=
  ∀ m ∈ s.world.outbox.committed, m.eventType ∈ knownEventTypes →
    publications s.kafka m.id ≤ 1 ∧
      (m.status = "SENT" →
        publications s.kafka m.id = 1 ∨ ∃ m₀ ∈ before, m₀.id = m.id ∧ m₀.status = "SENT")

namespace Position

def aborted : Position → Bool
  | .looping _ aborted => aborted
  | .updating _ _ aborted => aborted
  | _ => false

/-- The row the worker is about to mark. -/
def sending? : Position → Option Uuid
  | .updating event _ _ => some event.id
  | _ => none

theorem sending_mem {p : Position} {id : Uuid} (h : p.sending? = some id) :
    ∃ e ∈ p.events, e.id = id := by
  cases p with
  | updating event events aborted =>
      exact ⟨event, List.mem_cons_self .., Option.some.inj h⟩
  | idle => contradiction
  | selecting ids batch => contradiction
  | looping events aborted => contradiction

end Position

/-- Where a published row stands. -/
def Accounted (s : State) (id : Uuid) : Prop :=
  (∃ m ∈ s.world.outbox.committed, m.id = id ∧ m.status = "SENT") ∨
    ∃ n, Marked s n id ∨ (s.workers n).position.sending? = some id

structure OnceInv (v : Pydantic) (before : List OutboxEventModel) (s : State) : Prop where
  outbox : OutboxInv v before s
  batch : BatchInv s
  running : ∀ n, (s.workers n).position.aborted = false
  unsent : ∀ n, ∀ e ∈ (s.workers n).position.unsent, publications s.kafka e.id = 0
  accounted : ∀ p ∈ s.kafka, Accounted s p.row
  once : ∀ id, publications s.kafka id ≤ 1

section Publications

theorem publications_append (kafka : List Publication) (p : Publication) (id : Uuid) :
    publications (kafka ++ [p]) id = publications kafka id + if p.row = id then 1 else 0 := by
  simp only [publications, List.map_append, List.map_cons, List.map_nil, List.count_append,
    List.count_singleton, beq_iff_eq]

theorem publications_eq_zero {kafka : List Publication} {id : Uuid} :
    publications kafka id = 0 ↔ ∀ p ∈ kafka, p.row ≠ id := by
  rw [publications, List.count_eq_zero]
  constructor
  · intro h p hp hrow
    exact h (List.mem_map.mpr ⟨p, hp, hrow⟩)
  · intro h hmem
    obtain ⟨p, hp, hrow⟩ := List.mem_map.mp hmem
    exact h p hp hrow

theorem publications_pos {kafka : List Publication} {p : Publication} (hp : p ∈ kafka) :
    0 < publications kafka p.row :=
  List.count_pos_iff.mpr (List.mem_map_of_mem hp)

end Publications

section Step
variable {v : Pydantic} {before : List OutboxEventModel} {s s' : State} {n : Nat}

/-- A row that can be locked has no record. -/
theorem OnceInv.unpublished (h : OnceInv v before s) {id : Uuid} {m : OutboxEventModel}
    (hid : lockable? s id = some m) : publications s.kafka m.id = 0 := by
  obtain ⟨hm, hmid, hpending⟩ := lockable_eq_some hid
  have hfree (n : Nat) : (m.id, n) ∉ s.locks := by
    rw [hmid]
    exact not_locked_of_lockable hid n
  refine publications_eq_zero.mpr ?_
  intro p hp hrow
  cases h.accounted p hp with
  | inl hsent =>
      obtain ⟨m', hm', hm'id, hsent⟩ := hsent
      obtain rfl := OutboxEventModel.eq_of_id h.outbox.unique.committed hm' hm (hm'id.trans hrow)
      rw [hpending] at hsent
      exact absurd hsent (by decide)
  | inr hopen =>
      rw [hrow] at hopen
      obtain ⟨n, hopen⟩ := hopen
      cases hopen with
      | inl hmarked => exact hfree n (h.batch.marked n m.id hmarked)
      | inr hsending =>
          obtain ⟨e, he, heid⟩ := Position.sending_mem hsending
          exact hfree n (heid ▸ h.batch.held n e he)

/-- A row in the hands of one worker is not in the hands of another. -/
theorem BatchInv.ne_of_held (h : BatchInv s) {n k : Nat} (hk : k ≠ n)
    {e event : OutboxEventModel} (he : e ∈ (s.workers k).position.events)
    (hevent : event ∈ (s.workers n).position.events) : e.id ≠ event.id := by
  intro heq
  exact hk (h.exclusive event.id k n (heq ▸ h.held k e he) (h.held n event hevent))

/-- A step that publishes nothing. -/
theorem OnceInv.silent (h : OnceInv v before s) (houtbox : OutboxInv v before s')
    (hbatch : BatchInv s') (hkafka : s'.kafka = s.kafka)
    (hother : ∀ k, k ≠ n → s'.workers k = s.workers k)
    (hrunning : (s'.workers n).position.aborted = false)
    (hunsent : ∀ e ∈ (s'.workers n).position.unsent, publications s.kafka e.id = 0)
    (haccounted : ∀ id, Accounted s id → Accounted s' id) : OnceInv v before s' := by
  refine ⟨houtbox, hbatch, ?_, ?_, ?_, ?_⟩
  · intro k
    by_cases hk : k = n
    · rw [hk]
      exact hrunning
    · rw [hother k hk]
      exact h.running k
  · intro k e he
    rw [hkafka]
    by_cases hk : k = n
    · rw [hk] at he
      exact hunsent e he
    · rw [hother k hk] at he
      exact h.unsent k e he
  · rw [hkafka]
    exact fun p hp => haccounted p.row (h.accounted p hp)
  · rw [hkafka]
    exact h.once

/-- Worker `n` moves, and it was not about to mark a row. -/
theorem Accounted.moves {id : Uuid} (h : Accounted s id)
    (houtbox : s'.world.outbox = s.world.outbox)
    (hother : ∀ k, k ≠ n → s'.workers k = s.workers k)
    (hsending : (s.workers n).position.sending? = none) : Accounted s' id := by
  cases h with
  | inl hsent =>
      rw [← houtbox] at hsent
      exact .inl hsent
  | inr hopen =>
      obtain ⟨k, hopen⟩ := hopen
      refine .inr ⟨k, ?_⟩
      cases hopen with
      | inl hmarked =>
          rw [Marked, houtbox]
          exact .inl hmarked
      | inr hsends =>
          have hk : k ≠ n := by
            intro heq
            rw [heq, hsending] at hsends
            contradiction
          rw [hother k hk]
          exact .inr hsends

/-- The marks of worker `n` are committed. -/
theorem Accounted.commit {id : Uuid} (houtbox : OutboxInv v before s)
    (hp : (s.workers n).position = .looping [] false) (h : Accounted s id)
    (hstored : ∃ m ∈ s.world.outbox.committed, m.id = id) :
    Accounted (s.endPoll n { s.world with outbox := s.world.outbox.commit (.worker n) }) id := by
  obtain ⟨f, hf, hrows⟩ := houtbox.marks n
  have hsent {m : OutboxEventModel} (hm : m ∈ s.world.outbox.committed) (hid : m.id = id)
      (hstatus : (f m).status = "SENT") :
      Accounted (s.endPoll n { s.world with outbox := s.world.outbox.commit (.worker n) }) id := by
    refine .inl ⟨f m, ?_, (hf.only m).id.trans hid, hstatus⟩
    change f m ∈ applyAll (s.world.outbox.writes (.worker n)) s.world.outbox.committed
    rw [hrows]
    exact List.mem_map_of_mem hm
  cases h with
  | inl hbefore =>
      obtain ⟨m, hm, hid, hstatus⟩ := hbefore
      exact hsent hm hid ((hf.only m).2 hstatus)
  | inr hopen =>
      obtain ⟨k, hopen⟩ := hopen
      by_cases hk : k = n
      · rw [hk] at hopen
        cases hopen with
        | inl hmarked =>
            obtain ⟨m, hm, rfl⟩ := hstored
            obtain ⟨now, hmem⟩ := hmarked
            exact hsent hm rfl (hf.marked m now hmem)
        | inr hsends =>
            rw [hp] at hsends
            contradiction
      · refine .inr ⟨k, ?_⟩
        rw [endPoll_other s _ hk, Marked]
        change (∃ now, _ ∈ (s.world.outbox.commit (.worker n)).writes (.worker k)) ∨ _
        rw [writes_worker_commit, if_neg (Ne.symm hk)]
        exact hopen

/-- Worker `n` marks the row it has sent. -/
theorem Accounted.marks {id : Uuid} (h : Accounted s id) {event : OutboxEventModel}
    {events : List OutboxEventModel} {now : Datetime}
    (hp : (s.workers n).position = .updating event events false) :
    Accounted { s.setPosition n (.looping events false) with
      world := { s.world with
        outbox := s.world.outbox.write (.worker n) (.update (markSent event.id now)) } } id := by
  have hwrites (k : Nat) : (s.world.outbox.write (.worker n)
      (.update (markSent event.id now))).writes (.worker k) = _ := Table.writes_write _ _ _ _
  cases h with
  | inl hsent => exact .inl hsent
  | inr hopen =>
      obtain ⟨k, hopen⟩ := hopen
      refine .inr ⟨k, ?_⟩
      cases hopen with
      | inl hmarked =>
          obtain ⟨now', hmem⟩ := hmarked
          refine .inl ⟨now', ?_⟩
          change _ ∈ (s.world.outbox.write _ _).writes (.worker k)
          rw [hwrites]
          exact List.mem_append_left _ hmem
      | inr hsends =>
          by_cases hk : k = n
          · rw [hk, hp] at hsends
            obtain rfl := Option.some.inj hsends
            refine .inl ⟨now, ?_⟩
            change _ ∈ (s.world.outbox.write _ _).writes (.worker k)
            rw [hwrites, if_pos (by rw [hk])]
            exact List.mem_append_right _ (List.mem_singleton.mpr rfl)
          · refine .inr ?_
            change ((s.setPosition n _).workers k).position.sending? = _
            rw [setPosition_other s _ hk]
            exact hsends

/-- The broker acknowledges the record of the next event. -/
theorem OnceInv.acknowledges (h : OnceInv v before s) (houtbox : OutboxInv v before s')
    (hbatch : BatchInv s') {event : OutboxEventModel} {events : List OutboxEventModel}
    {aborted : Bool} {record : ProducerRecord}
    (hp : (s.workers n).position = .looping (event :: events) aborted)
    (hp' : (s'.workers n).position = .updating event events aborted)
    (hother : ∀ k, k ≠ n → s'.workers k = s.workers k)
    (houtboxes : s'.world.outbox = s.world.outbox)
    (hkafka : s'.kafka = s.kafka ++ [⟨event.id, record, true⟩]) : OnceInv v before s' := by
  have hcur : event ∈ (s.workers n).position.events := by
    rw [hp]
    exact List.mem_cons_self ..
  have hnew : publications s.kafka event.id = 0 := by
    refine h.unsent n event ?_
    rw [hp]
    exact List.mem_cons_self ..
  have hcount (id : Uuid) : publications s'.kafka id =
      publications s.kafka id + if event.id = id then 1 else 0 := by
    rw [hkafka, publications_append]
  have hkeeps {e : OutboxEventModel} (hne : e.id ≠ event.id)
      (hzero : publications s.kafka e.id = 0) : publications s'.kafka e.id = 0 := by
    rw [hcount, hzero, if_neg (Ne.symm hne)]
  refine ⟨houtbox, hbatch, ?_, ?_, ?_, ?_⟩
  · intro k
    by_cases hk : k = n
    · have hrunning := h.running n
      rw [hp] at hrunning
      rw [hk, hp']
      exact hrunning
    · rw [hother k hk]
      exact h.running k
  · intro k e he
    by_cases hk : k = n
    · rw [hk, hp'] at he
      have hnodup := h.batch.nodup n
      have hzero := h.unsent n e
      rw [hp] at hnodup hzero
      refine hkeeps ?_ (hzero (List.mem_cons_of_mem _ he))
      intro heq
      have hnot := (List.nodup_cons.mp hnodup).1
      exact hnot (List.mem_map.mpr ⟨e, he, heq⟩)
    · rw [hother k hk] at he
      refine hkeeps ?_ (h.unsent k e he)
      exact h.batch.ne_of_held hk ((Position.unsent_sublist _).subset he) hcur
  · intro p hp
    rw [hkafka] at hp
    cases List.mem_append.mp hp with
    | inl hold =>
        refine (h.accounted p hold).moves houtboxes hother ?_
        rw [‹(s.workers n).position = _›]
        rfl
    | inr hlast =>
        rw [List.mem_singleton.mp hlast]
        refine .inr ⟨n, .inr ?_⟩
        rw [hp']
        rfl
  · intro id
    rw [hcount]
    split
    · rename_i heq
      rw [← heq, hnew]
    · exact h.once id

/-- The commit of a batch, which ends its poll. -/
theorem OnceInv.commits (h : OnceInv v before s)
    (hp : (s.workers n).position = .looping [] false)
    (houtbox : OutboxInv v before
      (s.endPoll n { s.world with outbox := s.world.outbox.commit (.worker n) }))
    (hbatch : BatchInv
      (s.endPoll n { s.world with outbox := s.world.outbox.commit (.worker n) })) :
    OnceInv v before
      (s.endPoll n { s.world with outbox := s.world.outbox.commit (.worker n) }) := by
  have hat := endPoll_at s n { s.world with outbox := s.world.outbox.commit (.worker n) }
  refine ⟨houtbox, hbatch, ?_, ?_, ?_, h.once⟩
  · intro k
    by_cases hk : k = n
    · rw [hk, hat]
      rfl
    · rw [endPoll_other s _ hk]
      exact h.running k
  · intro k e he
    by_cases hk : k = n
    · rw [hk, hat] at he
      exact absurd he List.not_mem_nil
    · rw [endPoll_other s _ hk] at he
      exact h.unsent k e he
  · intro p hpub
    obtain ⟨m, hm, hid, _⟩ := h.outbox.published p hpub
    exact (h.accounted p hpub).commit h.outbox hp ⟨m, hm, hid⟩

/-- Worker `n` goes on with a part of what it has not tried to send. -/
theorem OnceInv.stays (h : OnceInv v before s) {p : Position}
    (houtbox : OutboxInv v before (s.setPosition n p)) (hbatch : BatchInv (s.setPosition n p))
    (hsending : (s.workers n).position.sending? = none) (hrunning : p.aborted = false)
    (hpart : ∀ e ∈ p.unsent, e ∈ (s.workers n).position.unsent) :
    OnceInv v before (s.setPosition n p) := by
  refine h.silent (n := n) houtbox hbatch rfl (fun k hk => setPosition_other s _ hk) ?_ ?_ ?_
  · rw [setPosition_at]
    exact hrunning
  · rw [setPosition_at]
    exact fun e he => h.unsent n e (hpart e he)
  · exact fun id hid => hid.moves (n := n) rfl (fun k hk => setPosition_other s _ hk) hsending

theorem OnceInv.starts (h : OnceInv v before s) (hp : (s.workers n).position = .idle)
    (houtbox : OutboxInv v before
      { s with workers := Function.update s.workers n { started := true } })
    (hbatch : BatchInv { s with workers := Function.update s.workers n { started := true } }) :
    OnceInv v before { s with workers := Function.update s.workers n { started := true } } := by
  have hother (k : Nat) (hk : k ≠ n) :
      Function.update s.workers n { started := true } k = s.workers k :=
    Function.update_of_ne hk _ _
  refine h.silent (n := n) houtbox hbatch rfl hother ?_ ?_ ?_
  · simp only [Function.update_self]
    rfl
  · simp only [Function.update_self]
    exact fun e he => absurd he List.not_mem_nil
  · refine fun id hid => hid.moves (n := n) rfl hother ?_
    rw [hp]
    rfl

/-- Worker `n` locks a row and takes it into its batch. -/
theorem OnceInv.locks (h : OnceInv v before s) {id : Uuid} {ids : List Uuid}
    {batch : List OutboxEventModel} {m : OutboxEventModel}
    (hp : (s.workers n).position = .selecting (id :: ids) batch) (hid : lockable? s id = some m)
    (houtbox : OutboxInv v before { s.setPosition n (.selecting ids (batch ++ [m])) with
      locks := (id, n) :: s.locks })
    (hbatch : BatchInv { s.setPosition n (.selecting ids (batch ++ [m])) with
      locks := (id, n) :: s.locks }) :
    OnceInv v before { s.setPosition n (.selecting ids (batch ++ [m])) with
      locks := (id, n) :: s.locks } := by
  refine h.silent (n := n) houtbox hbatch rfl (fun k hk => setPosition_other s _ hk) ?_ ?_ ?_
  · change ((s.setPosition n _).workers n).position.aborted = false
    rw [setPosition_at]
    rfl
  · intro e he
    change e ∈ ((s.setPosition n _).workers n).position.unsent at he
    rw [setPosition_at] at he
    have hunsent := h.unsent n
    rw [hp] at hunsent
    cases List.mem_append.mp he with
    | inl hold => exact hunsent e hold
    | inr hnew =>
        rw [List.mem_singleton.mp hnew]
        exact h.unpublished hid
  · refine fun id' hid' => hid'.moves (n := n) rfl (fun k hk => setPosition_other s _ hk) ?_
    rw [hp]
    rfl

/-- The send of the next event fails, and the broker has not got the record. -/
theorem OnceInv.loses (h : OnceInv v before s) {event : OutboxEventModel}
    {events : List OutboxEventModel} {aborted : Bool}
    (hp : (s.workers n).position = .looping (event :: events) aborted)
    (houtbox : OutboxInv v before s') (hbatch : BatchInv s')
    (hp' : (s'.workers n).position = .looping events aborted)
    (hother : ∀ k, k ≠ n → s'.workers k = s.workers k)
    (houtboxes : s'.world.outbox = s.world.outbox) (hkafka : s'.kafka = s.kafka) :
    OnceInv v before s' := by
  have hrunning := h.running n
  have hunsent := h.unsent n
  rw [hp] at hrunning hunsent
  refine h.silent (n := n) houtbox hbatch hkafka hother ?_ ?_ ?_
  · rw [hp']
    exact hrunning
  · rw [hp']
    exact fun e he => hunsent e (List.mem_cons_of_mem _ he)
  · refine fun id hid => hid.moves (n := n) houtboxes hother ?_
    rw [hp]
    rfl

/-- What becomes of the next event once it is sent, unless the broker takes the record
and the answer is lost. -/
theorem OnceInv.sends (h : OnceInv v before s) {event : OutboxEventModel}
    {events : List OutboxEventModel} {aborted : Bool} {drawn : List Uuid} {delivery : Delivery}
    {record : ProducerRecord} (hp : (s.workers n).position = .looping (event :: events) aborted)
    (hdelivery : delivery ≠ .unacknowledged)
    (hstep : s' = (deliver { s with drawn := drawn } event.id record delivery).setPosition n
      (if delivery = .acked then .updating event events aborted else .looping events aborted))
    (houtbox : OutboxInv v before s') (hbatch : BatchInv s') : OnceInv v before s' := by
  have hother (k : Nat) (hk : k ≠ n) : s'.workers k = s.workers k := by
    rw [hstep, setPosition_other _ _ hk, deliver_workers]
  have houtboxes : s'.world.outbox = s.world.outbox := by
    rw [hstep, setPosition_world, deliver_world]
  cases delivery with
  | acked =>
      have hkafka : s'.kafka = s.kafka ++ [⟨event.id, record, true⟩] := by
        rw [hstep]
        rfl
      refine h.acknowledges houtbox hbatch hp ?_ hother houtboxes hkafka
      rw [hstep, setPosition_at, if_pos rfl]
  | unacknowledged => exact absurd rfl hdelivery
  | lost =>
      refine h.loses hp houtbox hbatch ?_ hother houtboxes ?_
      · rw [hstep, setPosition_at, if_neg (by decide)]
      · rw [hstep]
        rfl

/-- Worker `n` marks the row it has sent. -/
theorem OnceInv.updates (h : OnceInv v before s) {event : OutboxEventModel}
    {events : List OutboxEventModel} {now : Datetime}
    (hp : (s.workers n).position = .updating event events false)
    (houtbox : OutboxInv v before { s.setPosition n (.looping events false) with
      world := { s.world with
        outbox := s.world.outbox.write (.worker n) (.update (markSent event.id now)) } })
    (hbatch : BatchInv { s.setPosition n (.looping events false) with
      world := { s.world with
        outbox := s.world.outbox.write (.worker n) (.update (markSent event.id now)) } }) :
    OnceInv v before { s.setPosition n (.looping events false) with
      world := { s.world with
        outbox := s.world.outbox.write (.worker n) (.update (markSent event.id now)) } } := by
  refine h.silent (n := n) houtbox hbatch rfl (fun k hk => setPosition_other s _ hk) ?_ ?_ ?_
  · change ((s.setPosition n _).workers n).position.aborted = false
    rw [setPosition_at]
    rfl
  · intro e he
    change e ∈ ((s.setPosition n _).workers n).position.unsent at he
    rw [setPosition_at] at he
    have hunsent := h.unsent n
    rw [hp] at hunsent
    exact hunsent e he
  · exact fun id hid => hid.marks hp

theorem OnceInv.worker (h : OnceInv v before s) {k : WorkerLabel}
    (hhealthy : Healthy (.worker n k)) (houtbox : OutboxInv v before s') (hbatch : BatchInv s')
    (hstep : WorkerStep v s n k s') : OnceInv v before s' := by
  have hrunning := h.running n
  cases hstep with
  | crash => exact absurd hhealthy id
  | fails hp => exact absurd hhealthy id
  | updateFails event events aborted hp => exact absurd hhealthy id
  | start hp => exact h.starts hp houtbox hbatch
  | select ids hp hids =>
      refine h.stays houtbox hbatch (by rw [hp]; rfl) rfl ?_
      exact fun e he => absurd he List.not_mem_nil
  | skips id ids batch hp hid =>
      refine h.stays houtbox hbatch (by rw [hp]; rfl) rfl ?_
      rw [hp]
      exact fun e he => he
  | locks id ids batch m hp hlen hid => exact h.locks hp hid houtbox hbatch
  | fetched ids batch hp hdone =>
      refine h.stays houtbox hbatch (by rw [hp]; rfl) rfl ?_
      rw [hp]
      exact fun e he => he
  | refuses event events aborted d delivery e hp hpublish =>
      rw [hp] at hrunning
      refine h.stays houtbox hbatch (by rw [hp]; rfl) hrunning ?_
      rw [hp]
      exact fun e he => List.mem_cons_of_mem _ he
  | ignores event events aborted d delivery hp hpublish =>
      rw [hp] at hrunning
      refine h.stays houtbox hbatch (by rw [hp]; rfl) hrunning ?_
      rw [hp]
      exact fun e he => List.mem_cons_of_mem _ he
  | sends event events aborted d delivery record hp hpublish hfresh =>
      refine h.sends hp ?_ rfl houtbox hbatch
      rintro rfl
      exact hhealthy
  | updates event events now hp => exact h.updates hp houtbox hbatch
  | commits hp => exact h.commits hp houtbox hbatch
  | commitsAborted hp =>
      rw [hp] at hrunning
      contradiction

theorem OnceInv.step (h : OnceInv v before s) {l : Label} (hhealthy : Healthy l)
    (hstep : Loan.step v s l = some s') : OnceInv v before s' := by
  have houtbox := h.outbox.step hstep
  have hbatch := h.batch.step h.outbox hstep
  cases step_outbox hstep with
  | inl hworker =>
      obtain ⟨n, k, rfl, hcase⟩ := hworker
      exact h.worker hhealthy houtbox hbatch hcase
  | inr hframe =>
      obtain ⟨_, hkafka, hworkers, _, _, n, hchange⟩ := hframe
      have hother (k : Nat) : s'.workers k = s.workers k := by rw [hworkers]
      refine h.silent (n := 0) houtbox hbatch hkafka (fun k _ => hother k) ?_ ?_ ?_
      · rw [hother]
        exact h.running 0
      · rw [hother]
        exact h.unsent 0
      · intro id hid
        cases hid with
        | inl hsent =>
            obtain ⟨m, hm, hmid, hstatus⟩ := hsent
            obtain ⟨new, hrows⟩ := hchange.rows h.outbox
            exact .inl ⟨m, hrows ▸ List.mem_append_left _ hm, hmid, hstatus⟩
        | inr hopen =>
            obtain ⟨k, hopen⟩ := hopen
            refine .inr ⟨k, ?_⟩
            rw [Marked, hchange.workerWrites, hother]
            exact hopen

theorem OnceInv.of_quiet (hquiet : s.Quiet)
    (hunique : s.world.outbox.committed.Pairwise fun a b => a.clash b = false)
    (hkafka : s.kafka = []) : OnceInv v s.world.outbox.committed s := by
  refine ⟨.of_quiet hquiet hunique hkafka, .of_quiet hquiet, ?_, ?_, ?_, ?_⟩
  · intro n
    rw [hquiet.workers n]
    rfl
  · intro n e he
    rw [hquiet.workers n] at he
    exact absurd he List.not_mem_nil
  · rw [hkafka]
    exact fun p hp => absurd hp List.not_mem_nil
  · intro id
    rw [hkafka]
    exact Nat.zero_le _

theorem OnceInv.publishedOnce (h : OnceInv v before s) : PublishedOnce before s := by
  intro m hm hknown
  refine ⟨h.once m.id, fun hsent => ?_⟩
  refine (h.outbox.sent m hm hsent).imp_left fun hdelivered => ?_
  obtain ⟨p, hp, hrow, _⟩ := hdelivered hknown
  exact Nat.le_antisymm (h.once m.id) (hrow ▸ publications_pos hp)

end Step

section Runs
variable {v : Pydantic} {s s' : State} {ls : List Label}

/-- From any outbox table, whatever workers and requests do in whatever order:
while no worker crashes, the database answers and a failed send is a lost record,
no row is published twice, and a row the run has marked is published once. -/
theorem publishedOnce_of_healthy (hquiet : s.Quiet)
    (hunique : s.world.outbox.committed.Pairwise fun a b => a.clash b = false)
    (hkafka : s.kafka = []) (hhealthy : ∀ l ∈ ls, Healthy l)
    (hrun : Runs.run (step v) s ls = some s') :
    PublishedOnce s.world.outbox.committed s' := by
  have hinv : OnceInv v s.world.outbox.committed s' :=
    Runs.invariant_of_labels (fun s l s' h hl hstep => h.step hl hstep)
      (.of_quiet hquiet hunique hkafka) hhealthy hrun
  exact hinv.publishedOnce

/-- Two pending rows of one loan, oldest first. -/
def twoPending : List OutboxEventModel :=
  [pendingRow loanStatusChangedV1,
    { pendingRow loanStatusChangedV1 with id := ⟨3⟩, createdAt := 1 }]

/-- Two workers select both rows; each takes the one the other has not locked. -/
def pollTwo : List Label :=
  [.worker 0 .start, .worker 1 .start, .worker 0 (.select [⟨1⟩, ⟨3⟩]), .worker 0 .lock,
    .worker 1 (.select [⟨1⟩, ⟨3⟩]), .worker 1 .lock, .worker 1 .lock, .worker 0 .lock,
    .worker 0 .fetched, .worker 1 .fetched, .worker 1 (.publish ⟨⟨9⟩, ⟨10⟩, 0⟩ .acked),
    .worker 0 (.publish ⟨⟨7⟩, ⟨8⟩, 0⟩ .acked), .worker 0 (.update 1), .worker 0 .commit,
    .worker 1 (.update 1), .worker 1 .commit]

theorem publishedOnce_polled :
    ∃ s, Runs.run (step Pydantic.strict) (.ofOutbox twoPending) pollTwo = some s ∧
      PublishedOnce twoPending s := by
  have hruns : (Runs.run (step Pydantic.strict) (.ofOutbox twoPending) pollTwo).isSome = true := by
    decide +kernel
  obtain ⟨s, hrun⟩ := Option.isSome_iff_exists.mp hruns
  refine ⟨s, hrun, ?_⟩
  exact publishedOnce_of_healthy (State.quiet_ofOutbox _) (by decide) rfl (by decide) hrun

end Runs

end CrediGuard.Loan
