import CrediGuard.Loan.OutboxMarks

/-!
Row locks of the outbox workers.

A row is locked when it is put into a batch and stays locked until the
transaction ends, whether or not its send has worked. So a row is in the hands of
one worker at most, and it is PENDING as long as it is locked.
-/

namespace CrediGuard.Loan
open ReadCommitted

namespace Position

/-- The events a worker has in its hands and has not left behind. -/
def events : Position → List OutboxEventModel
  | .idle => []
  | .selecting _ batch => batch
  | .looping events _ => events
  | .updating event events _ => event :: events

/-- The events a worker has not tried to send yet. -/
def unsent : Position → List OutboxEventModel
  | .updating _ events _ => events
  | p => p.events

/-- The candidates a SELECT has still to lock. -/
def candidates : Position → List Uuid
  | .selecting candidates _ => candidates
  | _ => []

theorem unsent_sublist (p : Position) : p.unsent.Sublist p.events := by
  cases p with
  | updating event events aborted => exact List.sublist_cons_self ..
  | idle => exact List.Sublist.refl _
  | selecting ids batch => exact List.Sublist.refl _
  | looping events aborted => exact List.Sublist.refl _

end Position

/-- The worker's open transaction has marked the row. -/
def Marked (s : State) (n : Nat) (id : Uuid) : Prop :=
  ∃ now, .update (markSent id now) ∈ s.world.outbox.writes (.worker n)

structure BatchInv (s : State) : Prop where
  held : ∀ n, ∀ e ∈ (s.workers n).position.events, (e.id, n) ∈ s.locks
  nodup : ∀ n, ((s.workers n).position.events.map fun e => e.id).Nodup
  marked : ∀ n id, Marked s n id → (id, n) ∈ s.locks
  exclusive : ∀ id n k, (id, n) ∈ s.locks → (id, k) ∈ s.locks → n = k
  pending : ∀ id n, (id, n) ∈ s.locks →
    ∃ m ∈ s.world.outbox.committed, m.id = id ∧ m.status = "PENDING"

section Locks
variable {s : State} {id : Uuid} {m : OutboxEventModel}

theorem not_locked_of_lockable (h : lockable? s id = some m) (n : Nat) : (id, n) ∉ s.locks := by
  simp only [lockable?] at h
  split at h
  · contradiction
  · rename_i hfree
    intro hmem
    exact hfree (List.any_eq_true.mpr ⟨(id, n), hmem, decide_eq_true rfl⟩)

theorem lockable_eq_some (h : lockable? s id = some m) :
    m ∈ s.world.outbox.committed ∧ m.id = id ∧ m.status = "PENDING" := by
  simp only [lockable?] at h
  split at h
  · contradiction
  · have hfound := List.find?_some h
    rw [Bool.and_eq_true] at hfound
    exact ⟨List.mem_of_find?_eq_some h, of_decide_eq_true hfound.1, of_decide_eq_true hfound.2⟩

/-- A candidate that is not locked by anyone is skipped only if it is not PENDING. -/
theorem lockable_eq_none (h : lockable? s id = none) (hfree : ∀ n, (id, n) ∉ s.locks)
    (hm : m ∈ s.world.outbox.committed) (hid : m.id = id) : m.status ≠ "PENDING" := by
  simp only [lockable?] at h
  split at h
  · rename_i hlocked
    obtain ⟨l, hl, heq⟩ := List.any_eq_true.mp hlocked
    obtain ⟨id', n⟩ := l
    obtain rfl : id' = id := of_decide_eq_true heq
    exact absurd hl (hfree n)
  · intro hpending
    have hnone := List.find?_eq_none.mp h m hm
    simp [hid, hpending] at hnone

end Locks

section Step
variable {v : Pydantic} {before : List OutboxEventModel} {s s' : State} {n : Nat}

theorem setPosition_at (s : State) (n : Nat) (p : Position) :
    ((s.setPosition n p).workers n).position = p := by
  simp only [State.setPosition, Function.update_self]

theorem setPosition_other (s : State) {n k : Nat} (p : Position) (h : k ≠ n) :
    (s.setPosition n p).workers k = s.workers k := by
  simp only [State.setPosition, Function.update_of_ne h]

/-- Worker `n` goes on with a part of what it has in its hands. -/
theorem BatchInv.moves (h : BatchInv s) (hlocks : s'.locks = s.locks)
    (houtbox : s'.world.outbox = s.world.outbox)
    (hother : ∀ k, k ≠ n → s'.workers k = s.workers k)
    (hevents : (s'.workers n).position.events.Sublist (s.workers n).position.events) :
    BatchInv s' := by
  have hall (k : Nat) : (s'.workers k).position.events.Sublist (s.workers k).position.events := by
    by_cases hk : k = n
    · subst hk
      exact hevents
    · rw [hother k hk]
  refine ⟨?_, ?_, ?_, ?_, ?_⟩
  · intro k e he
    rw [hlocks]
    exact h.held k e ((hall k).subset he)
  · exact fun k => (h.nodup k).sublist ((hall k).map _)
  · intro k id hmarked
    rw [Marked, houtbox] at hmarked
    rw [hlocks]
    exact h.marked k id hmarked
  · rw [hlocks]
    exact h.exclusive
  · rw [hlocks, houtbox]
    exact h.pending

/-- The next candidate is locked and put into the batch. -/
theorem BatchInv.locks (h : BatchInv s) {id : Uuid} {ids : List Uuid}
    {batch : List OutboxEventModel} {m : OutboxEventModel}
    (hp : (s.workers n).position = .selecting (id :: ids) batch)
    (hid : lockable? s id = some m) :
    BatchInv { s.setPosition n (.selecting ids (batch ++ [m])) with
      locks := (id, n) :: s.locks } := by
  obtain ⟨hm, hmid, hpending⟩ := lockable_eq_some hid
  have hfree := not_locked_of_lockable hid
  have hheld := h.held n
  have hnodup := h.nodup n
  rw [hp] at hheld hnodup
  refine ⟨?_, ?_, ?_, ?_, ?_⟩
  · intro k e he
    by_cases hk : k = n
    · subst hk
      rw [setPosition_at] at he
      cases List.mem_append.mp he with
      | inl hold => exact List.mem_cons_of_mem _ (hheld e hold)
      | inr hnew =>
          rw [List.mem_singleton.mp hnew, hmid]
          exact List.mem_cons_self ..
    · rw [setPosition_other s _ hk] at he
      exact List.mem_cons_of_mem _ (h.held k e he)
  · intro k
    by_cases hk : k = n
    · subst hk
      rw [setPosition_at]
      simp only [Position.events, List.map_append, List.map_cons, List.map_nil]
      refine List.nodup_append.mpr ⟨hnodup, List.nodup_singleton _, ?_⟩
      intro a ha b hb
      obtain ⟨e, he, rfl⟩ := List.mem_map.mp ha
      rw [List.mem_singleton.mp hb, hmid]
      intro heq
      exact hfree k (heq ▸ hheld e he)
    · rw [setPosition_other s _ hk]
      exact h.nodup k
  · exact fun k id' hmarked => List.mem_cons_of_mem _ (h.marked k id' hmarked)
  · intro id' k l hk hl
    cases List.mem_cons.mp hk with
    | inl hk =>
        obtain ⟨rfl, rfl⟩ := Prod.mk.inj hk
        cases List.mem_cons.mp hl with
        | inl hl => exact (Prod.mk.inj hl).2.symm
        | inr hl => exact absurd hl (hfree l)
    | inr hk =>
        cases List.mem_cons.mp hl with
        | inl hl =>
            rw [(Prod.mk.inj hl).1] at hk
            exact absurd hk (hfree k)
        | inr hl => exact h.exclusive id' k l hk hl
  · intro id' k hk
    cases List.mem_cons.mp hk with
    | inl hk =>
        rw [(Prod.mk.inj hk).1]
        exact ⟨m, hm, hmid, hpending⟩
    | inr hk => exact h.pending id' k hk

/-- The transaction of worker `n` ends: its locks are released, and no row that
another worker has locked is changed. -/
theorem BatchInv.ends (h : BatchInv s) (hlocks : s'.locks = s.locks.filter fun l => l.2 ≠ n)
    (hother : ∀ k, k ≠ n → s'.workers k = s.workers k)
    (hidle : (s'.workers n).position = .idle)
    (hwrites : ∀ k, s'.world.outbox.writes (.worker k) =
      if n = k then [] else s.world.outbox.writes (.worker k))
    (hrows : ∀ m ∈ s.world.outbox.committed, ¬ Marked s n m.id →
      ∃ m' ∈ s'.world.outbox.committed, m'.id = m.id ∧ m'.status = m.status) : BatchInv s' := by
  have hmem {id : Uuid} {k : Nat} : (id, k) ∈ s'.locks ↔ (id, k) ∈ s.locks ∧ k ≠ n := by
    rw [hlocks, List.mem_filter, decide_eq_true_eq]
  refine ⟨?_, ?_, ?_, ?_, ?_⟩
  · intro k e he
    by_cases hk : k = n
    · subst hk
      rw [hidle] at he
      exact absurd he List.not_mem_nil
    · rw [hother k hk] at he
      exact hmem.mpr ⟨h.held k e he, hk⟩
  · intro k
    by_cases hk : k = n
    · subst hk
      rw [hidle]
      exact List.nodup_nil
    · rw [hother k hk]
      exact h.nodup k
  · intro k id hmarks
    obtain ⟨now, hmarked⟩ := hmarks
    rw [hwrites] at hmarked
    split at hmarked
    · exact absurd hmarked List.not_mem_nil
    · rename_i hk
      exact hmem.mpr ⟨h.marked k id ⟨now, hmarked⟩, Ne.symm hk⟩
  · intro id k l hk hl
    exact h.exclusive id k l (hmem.mp hk).1 (hmem.mp hl).1
  · intro id k hk
    obtain ⟨hlocked, hkn⟩ := hmem.mp hk
    obtain ⟨m, hm, rfl, hpending⟩ := h.pending id k hlocked
    obtain ⟨m', hm', hid, hstatus⟩ := hrows m hm fun hmarked =>
      hkn (h.exclusive m.id k n hlocked (h.marked n m.id hmarked))
    exact ⟨m', hm', hid, hstatus.trans hpending⟩

theorem endPoll_at (s : State) (n : Nat) (w : World) :
    ((s.endPoll n w).workers n).position = .idle := by
  simp only [State.endPoll, State.setPosition, Function.update_self]

theorem endPoll_other (s : State) {n k : Nat} (w : World) (h : k ≠ n) :
    (s.endPoll n w).workers k = s.workers k := by
  simp only [State.endPoll, State.setPosition, Function.update_of_ne h]

theorem writes_worker_commit (T : Table Tx OutboxEventModel) (n k : Nat) :
    (T.commit (.worker n)).writes (.worker k) = if n = k then [] else T.writes (.worker k) := by
  simp only [Table.writes_commit, Tx.worker.injEq]

theorem writes_worker_rollback (T : Table Tx OutboxEventModel) (n k : Nat) :
    (T.rollback (.worker n)).writes (.worker k) = if n = k then [] else T.writes (.worker k) := by
  simp only [Table.writes_rollback, Tx.worker.injEq]

theorem BatchInv.rollback (h : BatchInv s) (hlocks : s'.locks = s.locks.filter fun l => l.2 ≠ n)
    (hother : ∀ k, k ≠ n → s'.workers k = s.workers k)
    (hidle : (s'.workers n).position = .idle)
    (houtbox : s'.world.outbox = s.world.outbox.rollback (.worker n)) : BatchInv s' := by
  refine h.ends hlocks hother hidle ?_ ?_
  · intro k
    rw [houtbox, writes_worker_rollback]
  · intro m hm _
    rw [houtbox]
    exact ⟨m, hm, rfl, rfl⟩

theorem BatchInv.commit (h : BatchInv s) (houtbox : OutboxInv v before s) :
    BatchInv (s.endPoll n { s.world with outbox := s.world.outbox.commit (.worker n) }) := by
  refine h.ends rfl (fun k hk => endPoll_other s _ hk) (endPoll_at s n _) ?_ ?_
  · exact fun k => writes_worker_commit _ n k
  · intro m hm hfree
    obtain ⟨f, hf, hrows⟩ := houtbox.marks n
    refine ⟨f m, ?_, (hf.only m).id, hf.kept m fun now hmem => hfree ⟨now, hmem⟩⟩
    change f m ∈ applyAll (s.world.outbox.writes (.worker n)) s.world.outbox.committed
    rw [hrows]
    exact List.mem_map_of_mem hm

/-- Worker `n` marks a row it has in its hands. -/
theorem BatchInv.marks (h : BatchInv s) {event : OutboxEventModel}
    {events : List OutboxEventModel} {now : Datetime}
    (hp : (s.workers n).position = .updating event events false) :
    BatchInv { s.setPosition n (.looping events false) with
      world := { s.world with
        outbox := s.world.outbox.write (.worker n) (.update (markSent event.id now)) } } := by
  have hmoved : BatchInv (s.setPosition n (.looping events false)) := by
    refine h.moves rfl rfl (fun k hk => setPosition_other s _ hk) ?_
    rw [setPosition_at, hp]
    exact List.sublist_cons_self ..
  have hlocked : (event.id, n) ∈ s.locks := by
    refine h.held n event ?_
    rw [hp]
    exact List.mem_cons_self ..
  refine ⟨hmoved.held, hmoved.nodup, ?_, hmoved.exclusive, hmoved.pending⟩
  intro k id hmarks
  obtain ⟨now', hmem⟩ := hmarks
  change _ ∈ (s.world.outbox.write (.worker n) _).writes (.worker k) at hmem
  rw [Table.writes_write] at hmem
  cases List.mem_append.mp hmem with
  | inl hold => exact hmoved.marked k id ⟨now', hold⟩
  | inr hnew =>
      split at hnew
      · rename_i hk
        obtain rfl := Tx.worker.inj hk
        obtain rfl := markSent_injective (Write.update.inj (List.mem_singleton.mp hnew))
        exact hlocked
      · exact absurd hnew List.not_mem_nil

@[simp] theorem deliver_locks (s : State) (row : Uuid) (record : ProducerRecord)
    (delivery : Delivery) : (deliver s row record delivery).locks = s.locks := by
  cases delivery <;> rfl

theorem BatchInv.worker (h : BatchInv s) (houtbox : OutboxInv v before s) {k : WorkerLabel}
    (hstep : WorkerStep v s n k s') : BatchInv s' := by
  have hstay {p : Position} (hp : p.events.Sublist (s.workers n).position.events) :
      BatchInv (s.setPosition n p) := by
    refine h.moves rfl rfl (fun k hk => setPosition_other s _ hk) ?_
    rw [setPosition_at]
    exact hp
  cases hstep with
  | crash =>
      refine h.rollback rfl (fun k hk => Function.update_of_ne hk _ _) ?_ rfl
      simp only [Function.update_self]
  | start hp =>
      refine h.moves rfl rfl (fun k hk => Function.update_of_ne hk _ _) ?_
      simp only [Function.update_self]
      exact List.nil_sublist _
  | select ids hp hids => exact hstay (List.nil_sublist _)
  | skips id ids batch hp hid => exact hstay (by rw [hp]; exact List.Sublist.refl _)
  | locks id ids batch m hp hlen hid => exact h.locks hp hid
  | fetched ids batch hp hdone => exact hstay (by rw [hp]; exact List.Sublist.refl _)
  | fails hp =>
      exact h.rollback rfl (fun k hk => endPoll_other s _ hk) (endPoll_at s n _) rfl
  | refuses event events aborted d delivery e hp hpublish =>
      exact hstay (by rw [hp]; exact List.sublist_cons_self ..)
  | ignores event events aborted d delivery hp hpublish =>
      exact hstay (by rw [hp]; exact List.Sublist.refl _)
  | sends event events aborted d delivery record hp hpublish hfresh =>
      refine h.moves (n := n) ?_ ?_ ?_ ?_
      · exact deliver_locks _ _ _ _
      · rw [setPosition_world, deliver_world]
      · intro k hk
        rw [setPosition_other _ _ hk, deliver_workers]
      · rw [setPosition_at, hp]
        split
        · exact List.Sublist.refl _
        · exact List.sublist_cons_self ..
  | updates event events now hp => exact h.marks hp
  | updateFails event events aborted hp =>
      exact hstay (by rw [hp]; exact List.sublist_cons_self ..)
  | commits hp => exact h.commit houtbox
  | commitsAborted hp =>
      exact h.rollback rfl (fun k hk => endPoll_other s _ hk) (endPoll_at s n _) rfl

theorem OutboxChange.workerWrites {T : Table Tx OutboxEventModel}
    (h : OutboxChange n s.world.outbox T) (k : Nat) :
    T.writes (.worker k) = s.world.outbox.writes (.worker k) := by
  have hne : Tx.request n ≠ Tx.worker k := nofun
  cases h with
  | none => rfl
  | insert m T' hpending hinsert =>
      rw [(Table.insert_eq_done hinsert).1]
      exact Table.writes_write_of_ne _ _ hne
  | commit => simp [Table.writes_commit]
  | rollback => simp [Table.writes_rollback]

theorem BatchInv.change (h : BatchInv s) (houtbox : OutboxInv v before s)
    (hworkers : s'.workers = s.workers) (hlocks : s'.locks = s.locks)
    (hchange : OutboxChange n s.world.outbox s'.world.outbox) : BatchInv s' := by
  obtain ⟨new, hrows⟩ := hchange.rows houtbox
  refine ⟨?_, ?_, ?_, ?_, ?_⟩
  · rw [hworkers, hlocks]
    exact h.held
  · rw [hworkers]
    exact h.nodup
  · intro k id hmarked
    rw [Marked, hchange.workerWrites] at hmarked
    rw [hlocks]
    exact h.marked k id hmarked
  · rw [hlocks]
    exact h.exclusive
  · rw [hlocks, hrows]
    intro id k hk
    obtain ⟨m, hm, hid, hpending⟩ := h.pending id k hk
    exact ⟨m, List.mem_append_left _ hm, hid, hpending⟩

theorem BatchInv.step (h : BatchInv s) (houtbox : OutboxInv v before s) {l : Label}
    (hstep : Loan.step v s l = some s') : BatchInv s' := by
  cases step_outbox hstep with
  | inl hworker =>
      obtain ⟨n, k, _, hcase⟩ := hworker
      exact h.worker houtbox hcase
  | inr hframe =>
      obtain ⟨_, _, hworkers, hlocks, _, n, hchange⟩ := hframe
      exact h.change houtbox hworkers hlocks hchange

theorem BatchInv.of_quiet (hquiet : s.Quiet) : BatchInv s := by
  have hempty (n : Nat) : (s.workers n).position.events = [] := by
    rw [hquiet.workers n]
    rfl
  have hnone (l : Uuid × Nat) : l ∉ s.locks := by
    rw [hquiet.locks]
    exact List.not_mem_nil
  refine ⟨?_, ?_, ?_, ?_, ?_⟩
  · intro n e he
    rw [hempty] at he
    exact absurd he List.not_mem_nil
  · intro n
    rw [hempty]
    exact List.nodup_nil
  · intro n id hmarks
    obtain ⟨now, hmem⟩ := hmarks
    rw [Table.writes_of_pending_nil _ hquiet.outbox] at hmem
    exact absurd hmem List.not_mem_nil
  · exact fun id n k hn _ => absurd hn (hnone _)
  · exact fun id n hn => absurd hn (hnone _)

end Step

end CrediGuard.Loan
