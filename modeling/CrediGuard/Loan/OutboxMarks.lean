import CrediGuard.Loan.OutboxDelivery

/-!
What the steps of the service make of the committed outbox rows: a worker marks
rows, a request adds rows, and nothing else changes.
-/

namespace CrediGuard.Loan
open ReadCommitted

/-- The row but for `status` and `sent_at`, and not PENDING again once SENT. -/
def OnlySent (a b : OutboxEventModel) : Prop :=
  b = { a with status := b.status, sentAt := b.sentAt } ∧ (a.status = "SENT" → b.status = "SENT")

/-- The row, as it was or marked. -/
def Kept (a m : OutboxEventModel) : Prop :=
  OnlySent a m ∧ (m.status = a.status ∨ m.status = "SENT")

/-- What a batch of marks does to a row. -/
structure Marks (ws : List (Write OutboxEventModel)) (f : OutboxEventModel → OutboxEventModel) :
    Prop where
  only : ∀ e, OnlySent e (f e)
  kept : ∀ e, (∀ now, .update (markSent e.id now) ∉ ws) → (f e).status = e.status
  marked : ∀ e now, .update (markSent e.id now) ∈ ws → (f e).status = "SENT"

section Marks

theorem OnlySent.refl (e : OutboxEventModel) : OnlySent e e := ⟨rfl, fun h => h⟩

theorem OnlySent.trans {a b c : OutboxEventModel} (hab : OnlySent a b) (hbc : OnlySent b c) :
    OnlySent a c := by
  refine ⟨?_, fun h => hbc.2 (hab.2 h)⟩
  rw [hbc.1, hab.1]

theorem OnlySent.id {a b : OutboxEventModel} (h : OnlySent a b) : b.id = a.id := by
  rw [h.1]

theorem OnlySent.aggregateId {a b : OutboxEventModel} (h : OnlySent a b) :
    b.aggregateId = a.aggregateId := by
  rw [h.1]

theorem OnlySent.eventType {a b : OutboxEventModel} (h : OnlySent a b) :
    b.eventType = a.eventType := by
  rw [h.1]

theorem OnlySent.createdAt {a b : OutboxEventModel} (h : OnlySent a b) :
    b.createdAt = a.createdAt := by
  rw [h.1]

theorem OnlySent.payload {a b : OutboxEventModel} (h : OnlySent a b) : b.payload = a.payload := by
  rw [h.1]

theorem Kept.refl (m : OutboxEventModel) : Kept m m := ⟨.refl m, .inl rfl⟩

theorem Kept.trans {a b c : OutboxEventModel} (hab : Kept a b) (hbc : Kept b c) : Kept a c := by
  refine ⟨hab.1.trans hbc.1, ?_⟩
  cases hbc.2 with
  | inl hsame => exact hab.2.imp hsame.trans hsame.trans
  | inr hsent => exact .inr hsent

theorem onlySent_markSent (id : Uuid) (now : Datetime) (e : OutboxEventModel) :
    OnlySent e (markSent id now e) := by
  simp only [markSent]
  split
  · exact ⟨rfl, fun _ => rfl⟩
  · exact .refl e

theorem marks_nil : Marks [] fun e => e :=
  ⟨.refl, fun _ _ => rfl, fun _ _ h => absurd h List.not_mem_nil⟩

theorem Marks.cons {ws : List (Write OutboxEventModel)} {f : OutboxEventModel → OutboxEventModel}
    (h : Marks ws f) (id : Uuid) (now : Datetime) :
    Marks (.update (markSent id now) :: ws) fun e => f (markSent id now e) := by
  refine ⟨fun e => (onlySent_markSent id now e).trans (h.only _), ?_, ?_⟩
  · intro e hnone
    have hne : e.id ≠ id := by
      intro heq
      exact hnone now (heq ▸ List.mem_cons_self ..)
    have hsame : markSent id now e = e := if_neg hne
    rw [hsame]
    exact h.kept e fun now' hmem => hnone now' (List.mem_cons_of_mem _ hmem)
  · intro e now' hmem
    cases List.mem_cons.mp hmem with
    | inl heq =>
        obtain rfl := markSent_injective (Write.update.inj heq)
        exact (h.only _).2 (by simp [markSent])
    | inr htail =>
        refine h.marked (markSent id now e) now' ?_
        rw [id_markSent]
        exact htail

theorem Marks.keeps {ws : List (Write OutboxEventModel)}
    {f : OutboxEventModel → OutboxEventModel} (h : Marks ws f) (e : OutboxEventModel) :
    Kept e (f e) := by
  refine ⟨h.only e, ?_⟩
  by_cases hmarked : ∃ now, .update (markSent e.id now) ∈ ws
  · obtain ⟨now, hmem⟩ := hmarked
    exact .inr (h.marked e now hmem)
  · exact .inl (h.kept e fun now hmem => hmarked ⟨now, hmem⟩)

/-- A batch of marks, applied to every row. -/
theorem applyAll_marks {ws : List (Write OutboxEventModel)}
    (hws : ∀ w ∈ ws, ∃ id now, w = .update (markSent id now)) :
    ∃ f, Marks ws f ∧ ∀ rows, applyAll ws rows = rows.map f := by
  induction ws with
  | nil => exact ⟨fun e => e, marks_nil, fun rows => (List.map_id' rows).symm⟩
  | cons w ws ih =>
      obtain ⟨id, now, rfl⟩ := hws w (List.mem_cons_self ..)
      obtain ⟨f, hf, hrows⟩ := ih fun w hw => hws w (List.mem_cons_of_mem _ hw)
      refine ⟨fun e => f (markSent id now e), hf.cons id now, ?_⟩
      intro rows
      rw [applyAll_cons, hrows, apply_update, List.map_map]
      rfl

theorem applyAll_inserts {ws : List (Write OutboxEventModel)}
    (hws : ∀ w ∈ ws, ∃ m, w = .insert m) :
    ∃ new, ∀ rows, applyAll ws rows = rows ++ new := by
  induction ws with
  | nil => exact ⟨[], fun rows => (List.append_nil rows).symm⟩
  | cons w ws ih =>
      obtain ⟨m, rfl⟩ := hws w (List.mem_cons_self ..)
      obtain ⟨new, hrows⟩ := ih fun w hw => hws w (List.mem_cons_of_mem _ hw)
      refine ⟨m :: new, ?_⟩
      intro rows
      rw [applyAll_cons, hrows, apply_insert, List.append_assoc]
      rfl

end Marks

section Steps
variable {v : Pydantic} {before : List OutboxEventModel} {s s' : State} {n : Nat}

theorem OutboxInv.marks (h : OutboxInv v before s) (n : Nat) :
    ∃ f, Marks (s.world.outbox.writes (.worker n)) f ∧
      ∀ rows, applyAll (s.world.outbox.writes (.worker n)) rows = rows.map f := by
  refine applyAll_marks ?_
  intro w hw
  obtain ⟨id, now, hw, _⟩ := h.updates n w hw
  exact ⟨id, now, hw⟩

theorem OutboxInv.added (h : OutboxInv v before s) (n : Nat) :
    ∃ new, ∀ rows, applyAll (s.world.outbox.writes (.request n)) rows = rows ++ new := by
  refine applyAll_inserts ?_
  intro w hw
  obtain ⟨m, hw, _⟩ := h.inserts n w hw
  exact ⟨m, hw⟩

/-- What a worker's step makes of the committed rows: its commit marks them. -/
theorem WorkerStep.rows {k : WorkerLabel} (h : WorkerStep v s n k s') :
    s'.world.outbox.committed = s.world.outbox.committed ∨
      (k = .commit ∧ (s.workers n).position = .looping [] false ∧
        s' = s.endPoll n { s.world with outbox := s.world.outbox.commit (.worker n) }) := by
  cases h with
  | commits hp => exact .inr ⟨rfl, hp, rfl⟩
  | sends event events aborted d delivery record hp hpublish hfresh =>
      refine .inl ?_
      rw [setPosition_world, deliver_world]
  | crash => exact .inl rfl
  | start hp => exact .inl rfl
  | select ids hp hids => exact .inl rfl
  | skips id ids batch hp hid => exact .inl rfl
  | locks id ids batch m hp hlen hid => exact .inl rfl
  | fetched ids batch hp hdone => exact .inl rfl
  | fails hp => exact .inl rfl
  | refuses event events aborted d delivery e hp hpublish => exact .inl rfl
  | ignores event events aborted d delivery hp hpublish => exact .inl rfl
  | updates event events now hp => exact .inl rfl
  | updateFails event events aborted hp => exact .inl rfl
  | commitsAborted hp => exact .inl rfl

theorem WorkerStep.marks {k : WorkerLabel} (houtbox : OutboxInv v before s)
    (h : WorkerStep v s n k s') :
    ∃ f, (∀ e, Kept e (f e)) ∧
      s'.world.outbox.committed = s.world.outbox.committed.map f := by
  cases h.rows with
  | inl hsame => exact ⟨fun e => e, .refl, by rw [hsame, List.map_id']⟩
  | inr hcommit =>
      obtain ⟨_, _, rfl⟩ := hcommit
      obtain ⟨f, hf, hrows⟩ := houtbox.marks n
      exact ⟨f, hf.keeps, hrows _⟩

/-- What a move of a request makes of the committed rows: it adds some. -/
theorem OutboxChange.rows {T : Table Tx OutboxEventModel} (houtbox : OutboxInv v before s)
    (h : OutboxChange n s.world.outbox T) :
    ∃ new, T.committed = s.world.outbox.committed ++ new := by
  cases h with
  | none => exact ⟨[], (List.append_nil _).symm⟩
  | insert m T' hpending hinsert =>
      rw [(Table.insert_eq_done hinsert).1]
      exact ⟨[], (List.append_nil _).symm⟩
  | commit =>
      obtain ⟨new, hrows⟩ := houtbox.added n
      exact ⟨new, hrows _⟩
  | rollback => exact ⟨[], (List.append_nil _).symm⟩

/-- Every step marks rows or adds some. -/
theorem step_rows (houtbox : OutboxInv v before s) {l : Label} (hstep : step v s l = some s') :
    ∃ f new, (∀ e, Kept e (f e)) ∧
      s'.world.outbox.committed = s.world.outbox.committed.map f ++ new := by
  cases step_outbox hstep with
  | inl hworker =>
      obtain ⟨n, k, _, hcase⟩ := hworker
      obtain ⟨f, hf, hrows⟩ := hcase.marks houtbox
      exact ⟨f, [], hf, by rw [hrows, List.append_nil]⟩
  | inr hframe =>
      obtain ⟨_, _, _, _, _, n, hchange⟩ := hframe
      obtain ⟨new, hrows⟩ := hchange.rows houtbox
      exact ⟨fun e => e, new, .refl, by rw [hrows, List.map_id']⟩

end Steps

end CrediGuard.Loan
