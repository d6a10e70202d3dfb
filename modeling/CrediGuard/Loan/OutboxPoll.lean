import CrediGuard.Loan.OutboxDrain
import CrediGuard.Loan.OutboxLocks

/-!
A call of `poll_once` as the moves of its worker.

While no other transaction is open, the moves of one worker from its `SELECT` to its
commit do to the table and to the topic what `pollOnce` does.
-/

namespace CrediGuard.Loan
open ReadCommitted

section Statement

/-- Worker `n` waits for its next poll, and no transaction is open. -/
structure AtRest (n : Nat) (b : Backlog) (s : State) : Prop where
  worker : s.workers n = ⟨true, .idle⟩
  outbox : s.world.outbox = ⟨b.rows, []⟩
  locks : s.locks = []
  kafka : s.kafka = b.kafka

def rowLabels (v : Pydantic) (p : PollDraws) (e : OutboxEventModel) : List WorkerLabel :=
  .publish (p.envelope e.id) .acked :: if failsSchema v e then [] else [.update (p.sentAt e.id)]

def pollLabels (v : Pydantic) (b : Backlog) (p : PollDraws) : List WorkerLabel :=
  let batch := fetch b.rows p.candidates
  .select p.candidates :: (List.replicate batch.length .lock ++
    .fetched :: (batch.flatMap (rowLabels v p) ++ [.commit]))

def drawnFor (p : PollDraws) (batch : List OutboxEventModel) : List Uuid :=
  batch.flatMap fun e => (p.envelope e.id).uuids

end Statement

section Row
variable {v : Pydantic} {n : Nat} {p : PollDraws} {rows : List OutboxEventModel} {s s' : State}
  {pos : Position}

/-- Worker `n` has read `rows` and sees the table of `b`; nobody else is at work. -/
structure Amid (n : Nat) (rows : List OutboxEventModel) (pos : Position) (b : Backlog)
    (s : State) : Prop where
  worker : s.workers n = ⟨true, pos⟩
  committed : s.world.outbox.committed = rows
  visible : s.world.outbox.visible (.worker n) = b.rows
  pending : ∀ q ∈ s.world.outbox.pending, q.1 = .worker n
  locks : ∀ l ∈ s.locks, l.2 = n
  kafka : s.kafka = b.kafka

theorem Amid.setPosition {b : Backlog} (h : Amid n rows pos b s) (pos' : Position) :
    Amid n rows pos' b (s.setPosition n pos') := by
  refine ⟨?_, h.committed, h.visible, h.pending, h.locks, h.kafka⟩
  simp only [State.setPosition, Function.update_self, h.worker]

theorem Amid.sends {b : Backlog} (h : Amid n rows pos b s) (row : Uuid) (record : ProducerRecord)
    (uuids : List Uuid) :
    Amid n rows pos (b.acknowledge ⟨row, record, true⟩)
      (deliver { s with drawn := uuids ++ s.drawn } row record .acked) := by
  refine ⟨h.worker, h.committed, h.visible, h.pending, h.locks, ?_⟩
  simp only [deliver, h.kafka]
  rfl

theorem Amid.takes {b : Backlog} (h : Amid n rows pos b s) (id : Uuid) :
    Amid n rows pos b { s with locks := (id, n) :: s.locks } := by
  refine ⟨h.worker, h.committed, h.visible, h.pending, ?_, h.kafka⟩
  intro l hl
  cases List.mem_cons.mp hl with
  | inl heq => rw [heq]
  | inr hold => exact h.locks l hold

/-- The worker's `UPDATE` is seen by itself only. -/
theorem Amid.updates {b : Backlog} (h : Amid n rows pos b s) (id : Uuid) (now : Datetime) :
    Amid n rows pos (b.markSent id now) { s with
      world := { s.world with
        outbox := s.world.outbox.write (.worker n) (.update (markSent id now)) } } := by
  refine ⟨h.worker, h.committed, ?_, ?_, h.locks, h.kafka⟩
  · simp only [Table.visible_write_self, apply_update, h.visible]
    rfl
  · intro q hq
    cases List.mem_append.mp hq with
    | inl hold => exact h.pending q hold
    | inr hnew => rw [List.mem_singleton.mp hnew]

theorem step_update {event : OutboxEventModel} {events : List OutboxEventModel}
    (hworker : s.workers n = ⟨true, .updating event events false⟩) (now : Datetime) :
    step v s (.worker n (.update now)) = some { s.setPosition n (.looping events false) with
      world := { s.world with
        outbox := s.world.outbox.write (.worker n) (.update (markSent event.id now)) } } := by
  simp only [step, workerStep, hworker, Bool.false_eq_true, if_false]

/-- What the worker does about one row of its batch. -/
theorem run_rowLabels {acc : Backlog × Nat} {event : OutboxEventModel}
    {events : List OutboxEventModel} (h : Amid n rows (.looping (event :: events) false) acc.1 s)
    (hfresh : fresh s.drawn (p.envelope event.id).uuids = true) :
    ∃ s', Runs.run (step v) s ((rowLabels v p event).map (.worker n)) = some s' ∧
      Amid n rows (.looping events false) (publishRow v p acc event).1 s' ∧
      ∀ u ∈ s'.drawn, u ∈ s.drawn ∨ u ∈ (p.envelope event.id).uuids := by
  have hworker := h.worker
  cases hfails : failsSchema v event with
  | true =>
      refine ⟨s.setPosition n (.looping events false), ?_, ?_, fun u hu => .inl hu⟩
      · have hstep : step v s (.worker n (.publish (p.envelope event.id) .acked)) =
            some (s.setPosition n (.looping events false)) := by
          simp only [step, workerStep, hworker, publishEvent_of_failsSchema hfails]
        simp only [rowLabels, hfails, if_true, List.map_cons, List.map_nil]
        exact Runs.run_cons_eq_some.mpr ⟨_, hstep, rfl⟩
      · rw [publishRow_of_failsSchema hfails]
        exact h.setPosition _
  | false =>
      obtain ⟨sent, hsent⟩ := publishEvent_of_not_failsSchema hfails (p.envelope event.id)
      have hlabels : (rowLabels v p event).map (Label.worker n) =
          [.worker n (.publish (p.envelope event.id) .acked),
            .worker n (.update (p.sentAt event.id))] := by
        simp only [rowLabels, hfails, Bool.false_eq_true, if_false, List.map_cons, List.map_nil]
      rw [hlabels]
      cases sent with
      | none =>
          have hstep : step v s (.worker n (.publish (p.envelope event.id) .acked)) =
              some (s.setPosition n (.updating event events false)) := by
            simp only [step, workerStep, hworker, hsent]
          have hmid := h.setPosition (.updating event events false)
          refine ⟨_, Runs.run_cons_eq_some.mpr ⟨_, hstep,
            Runs.run_cons_eq_some.mpr ⟨_, step_update hmid.worker _, rfl⟩⟩, ?_, fun u hu => .inl hu⟩
          have hrow : (publishRow v p acc event).1 =
              acc.1.markSent event.id (p.sentAt event.id) := by
            simp only [publishRow, hsent]
          rw [hrow]
          exact (hmid.setPosition (.looping events false)).updates event.id _
      | some record =>
          have hstep : step v s (.worker n (.publish (p.envelope event.id) .acked)) =
              some ((deliver { s with drawn := (p.envelope event.id).uuids ++ s.drawn } event.id
                record .acked).setPosition n (.updating event events false)) := by
            simp only [step, workerStep, hworker, hsent, hfresh, if_true]
          have hmid := (h.sends event.id record (p.envelope event.id).uuids).setPosition
            (.updating event events false)
          refine ⟨_, Runs.run_cons_eq_some.mpr ⟨_, hstep,
            Runs.run_cons_eq_some.mpr ⟨_, step_update hmid.worker _, rfl⟩⟩, ?_, ?_⟩
          · have hrow : (publishRow v p acc event).1 = (acc.1.acknowledge
                ⟨event.id, record, true⟩).markSent event.id (p.sentAt event.id) := by
              simp only [publishRow, hsent]
            rw [hrow]
            exact (hmid.setPosition (.looping events false)).updates event.id _
          · intro u hu
            exact (List.mem_append.mp hu).symm

/-- Uuids that no call has drawn, and none of them twice. -/
def Fresh (drawn uuids : List Uuid) : Prop := uuids.Nodup ∧ ∀ u ∈ uuids, u ∉ drawn

theorem run_rows {batch : List OutboxEventModel} (acc : Backlog × Nat)
    (h : Amid n rows (.looping batch false) acc.1 s) (hfresh : Fresh s.drawn (drawnFor p batch)) :
    ∃ s', Runs.run (step v) s ((batch.flatMap (rowLabels v p)).map (.worker n)) = some s' ∧
      Amid n rows (.looping [] false) (batch.foldl (publishRow v p) acc).1 s' := by
  induction batch generalizing s acc with
  | nil => exact ⟨s, rfl, h⟩
  | cons event batch ih =>
      obtain ⟨hnodup, hnew⟩ := hfresh
      simp only [drawnFor, List.flatMap_cons] at hnodup hnew
      obtain ⟨hfirst, hrest, hdisjoint⟩ := List.nodup_append.mp hnodup
      have hevent : fresh s.drawn (p.envelope event.id).uuids = true := by
        simp only [fresh, Bool.and_eq_true, decide_eq_true_eq, List.all_eq_true]
        exact ⟨hfirst, fun u hu => hnew u (List.mem_append_left _ hu)⟩
      obtain ⟨t, hrun, hamid, hdrawn⟩ := run_rowLabels h hevent
      have hfresh' : Fresh t.drawn (drawnFor p batch) := by
        refine ⟨hrest, ?_⟩
        intro u hu hin
        cases hdrawn u hin with
        | inl hold => exact hnew u (List.mem_append_right _ hu) hold
        | inr hown => exact hdisjoint u hown u hu rfl
      obtain ⟨s', hrun', hamid'⟩ := ih _ hamid hfresh'
      refine ⟨s', ?_, hamid'⟩
      rw [List.flatMap_cons, List.map_append, Runs.run_append, hrun]
      exact hrun'

end Row

section Batch
variable {v : Pydantic} {n : Nat} {p : PollDraws} {s : State} {b : Backlog}

theorem lockable_of_pending {pos : Position} (h : Amid n b.rows pos b s) {m : OutboxEventModel}
    (hm : m ∈ pendingRows b.rows) (hfree : ∀ l ∈ s.locks, l.1 ≠ m.id) :
    lockable? s m.id = some m := by
  obtain ⟨hrow, hpending⟩ := List.mem_filter.mp hm
  rw [← h.committed] at hrow
  cases hlock : lockable? s m.id with
  | none =>
      have hnot := lockable_eq_none hlock (fun k hk => hfree _ hk rfl) hrow rfl
      exact absurd (of_decide_eq_true hpending) hnot
  | some m' =>
      obtain ⟨hm', hid, _⟩ := lockable_eq_some hlock
      have hunique := b.unique
      rw [← h.committed] at hunique
      rw [OutboxEventModel.eq_of_id hunique hm' hrow hid]

/-- The candidates are locked one after the other, as long as the batch has room. -/
theorem run_locks (k : Nat) {candidates batch : List OutboxEventModel}
    (h : Amid n b.rows (.selecting (candidates.map fun m => m.id) batch) b s)
    (hpending : ∀ m ∈ candidates, m ∈ pendingRows b.rows)
    (hnodup : (candidates.map fun m => m.id).Nodup)
    (hfree : ∀ l ∈ s.locks, ∀ m ∈ candidates, l.1 ≠ m.id)
    (hk : k ≤ candidates.length) (hroom : batch.length + k ≤ 10) :
    ∃ s', Runs.run (step v) s ((List.replicate k WorkerLabel.lock).map (.worker n)) = some s' ∧
      Amid n b.rows (.selecting ((candidates.drop k).map fun m => m.id)
        (batch ++ candidates.take k)) b s' ∧ s'.drawn = s.drawn := by
  induction k generalizing s candidates batch with
  | zero =>
      refine ⟨s, rfl, ?_, rfl⟩
      rw [List.drop_zero, List.take_zero, List.append_nil]
      exact h
  | succ k ih =>
      cases candidates with
      | nil => cases hk
      | cons m candidates =>
          obtain ⟨hm, hrest⟩ := List.forall_mem_cons.mp hpending
          have hlock : lockable? s m.id = some m := lockable_of_pending h hm
            fun l hl => hfree l hl m List.mem_cons_self
          have hstep : step v s (.worker n .lock) = some { s.setPosition n
              (.selecting (candidates.map fun m => m.id) (batch ++ [m])) with
                locks := (m.id, n) :: s.locks } := by
            have hshort : batch.length < 10 := by omega
            simp only [step, workerStep, h.worker, List.map_cons, hshort, if_true, hlock]
          have hlocked := (h.setPosition
            (.selecting (candidates.map fun m => m.id) (batch ++ [m]))).takes m.id
          rw [List.map_cons, List.nodup_cons] at hnodup
          have hfree' : ∀ l ∈ (m.id, n) :: s.locks, ∀ c ∈ candidates, l.1 ≠ c.id := by
            intro l hl c hc
            cases List.mem_cons.mp hl with
            | inl heq =>
                rw [heq]
                intro hid
                exact hnodup.1 (List.mem_map.mpr ⟨c, hc, hid.symm⟩)
            | inr hold => exact hfree l hold c (List.mem_cons_of_mem _ hc)
          have hroom' : (batch ++ [m]).length + k ≤ 10 := by
            rw [List.length_append, List.length_singleton]
            omega
          obtain ⟨s', hrun, hamid, hdrawn⟩ := ih hlocked hrest hnodup.2 hfree'
            (Nat.le_of_succ_le_succ hk) hroom'
          refine ⟨s', ?_, ?_, hdrawn⟩
          · rw [List.replicate_succ, List.map_cons]
            exact Runs.run_cons_eq_some.mpr ⟨_, hstep, hrun⟩
          · rw [List.drop_succ_cons, List.take_succ_cons, List.append_cons]
            exact hamid

theorem AtRest.amid (h : AtRest n b s) : Amid n b.rows .idle b s := by
  obtain ⟨hworker, houtbox, hlocks, hkafka⟩ := h
  have hvisible : s.world.outbox.visible (.worker n) = b.rows := by
    rw [houtbox]
    exact Table.visible_of_writes_nil (Table.writes_of_pending_nil _ rfl)
  refine ⟨hworker, by rw [houtbox], hvisible, ?_, ?_, hkafka⟩
  · rw [houtbox]
    exact fun q hq => absurd hq List.not_mem_nil
  · rw [hlocks]
    exact fun l hl => absurd hl List.not_mem_nil

/-- The commit shows the worker's table to everyone and frees its locks. -/
theorem step_commit_worker {rows : List OutboxEventModel} {b : Backlog}
    (h : Amid n rows (.looping [] false) b s) :
    ∃ s', step v s (.worker n .commit) = some s' ∧ AtRest n b s' := by
  refine ⟨s.endPoll n { s.world with outbox := s.world.outbox.commit (.worker n) }, ?_, ?_⟩
  · simp only [step, workerStep, h.worker, Bool.false_eq_true, if_false]
  · refine ⟨?_, ?_, ?_, h.kafka⟩
    · simp only [State.endPoll, State.setPosition, Function.update_self, h.worker]
    · have hpending : s.world.outbox.pending.filter (fun q => q.1 ≠ .worker n) = [] := by
        apply List.filter_eq_nil_iff.mpr
        intro q hq
        simp [h.pending q hq]
      simp only [State.endPoll, Table.commit, h.visible, hpending]
    · apply List.filter_eq_nil_iff.mpr
      intro l hl
      simp [h.locks l hl]

theorem step_fetched {ids : List Uuid} {batch : List OutboxEventModel}
    (hworker : s.workers n = ⟨true, .selecting ids batch⟩) (hdone : ids = [] ∨ batch.length = 10) :
    step v s (.worker n .fetched) = some (s.setPosition n (.looping batch false)) := by
  simp only [step, workerStep, hworker, hdone, if_true]

/-- The moves of a worker that is alone do what `pollOnce` does. -/
theorem run_pollLabels (h : AtRest n b s) (hselects : Selects b.rows p.candidates)
    (hfresh : Fresh s.drawn (drawnFor p (fetch b.rows p.candidates))) :
    ∃ s', Runs.run (step v) s ((pollLabels v b p).map (.worker n)) = some s' ∧
      AtRest n (pollOnce v b p).1 s' := by
  have horder := order_of_selects b.unique hselects
  have hselect : step v s (.worker n (.select p.candidates)) =
      some (s.setPosition n (.selecting p.candidates [])) := by
    simp only [step, workerStep, h.worker, h.outbox, hselects, if_true]
  have hselected : Amid n b.rows
      (.selecting ((rowsOf b.rows p.candidates).map fun m => m.id) []) b
      (s.setPosition n (.selecting p.candidates [])) := by
    rw [ids_rowsOf hselects]
    exact h.amid.setPosition _
  have hfree : ∀ l ∈ s.locks, ∀ m ∈ rowsOf b.rows p.candidates, l.1 ≠ m.id := by
    rw [h.locks]
    exact fun l hl => absurd hl List.not_mem_nil
  have hroom : (fetch b.rows p.candidates).length ≤ 10 := List.length_take_le ..
  obtain ⟨s₁, hlocks, hlocked, hdrawn⟩ := run_locks (v := v) (fetch b.rows p.candidates).length
    hselected (fun m hm => horder.perm.mem_iff.mp hm) (nodup_ids_of_order horder) hfree
    (List.length_take_le' ..) (by simpa using hroom)
  -- the batch is the first ten candidates, or all of them
  have htake : (rowsOf b.rows p.candidates).take (fetch b.rows p.candidates).length =
      fetch b.rows p.candidates := by
    rw [fetch, List.length_take, List.take_eq_take_iff]
    omega
  have hdone : ((rowsOf b.rows p.candidates).drop (fetch b.rows p.candidates).length).map
      (fun m => m.id) = [] ∨ (fetch b.rows p.candidates).length = 10 := by
    rw [List.map_eq_nil_iff, List.drop_eq_nil_iff, fetch, List.length_take]
    omega
  rw [List.nil_append, htake] at hlocked
  have hfetched := step_fetched (v := v) hlocked.worker hdone
  have hfresh' : Fresh (s₁.setPosition n (.looping (fetch b.rows p.candidates) false)).drawn
      (drawnFor p (fetch b.rows p.candidates)) := by
    change Fresh s₁.drawn _
    rw [hdrawn]
    exact hfresh
  obtain ⟨s₂, hrows, hlast⟩ := run_rows (v := v) (b, 0) (hlocked.setPosition _) hfresh'
  obtain ⟨s', hcommit, hrest⟩ := step_commit_worker (v := v) hlast
  refine ⟨s', ?_, hrest⟩
  simp only [pollLabels, List.map_cons, List.map_append, List.map_nil]
  refine Runs.run_cons_eq_some.mpr ⟨_, hselect, ?_⟩
  rw [Runs.run_append, hlocks, Option.bind_some]
  refine Runs.run_cons_eq_some.mpr ⟨_, hfetched, ?_⟩
  exact Runs.run_concat_eq_some.mpr ⟨s₂, hrows, hcommit⟩

end Batch

end CrediGuard.Loan
