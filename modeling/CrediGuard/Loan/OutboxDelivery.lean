import CrediGuard.Loan.Service

/-!
Outbox rows that are marked sent.

`_publish_event` returns normally for an event type it does not know, and
`poll_once` marks the row after any normal return. So a row that workers have
marked was acknowledged by the broker just if its type is a known one.
-/

namespace CrediGuard.Loan
open ReadCommitted

/-- The columns a worker never changes. -/
def SameEvent (a b : OutboxEventModel) : Prop :=
  a.id = b.id ∧ a.eventType = b.eventType ∧ a.payload = b.payload

/-- The broker has acknowledged a record of the row's topic with its payload. -/
def Acknowledged (v : Pydantic) (kafka : List Publication) (m : OutboxEventModel) : Prop :=
  ∃ p ∈ kafka, p.row = m.id ∧ p.acked = true ∧ p.record.topic = m.eventType ∧
    ∀ schema, (eventSchemas v).lookup m.eventType = some schema →
      validatePayload schema m.payload = some p.record.value.payload

/-- What a row needs to be marked rightly. -/
def Delivered (v : Pydantic) (kafka : List Publication) (m : OutboxEventModel) : Prop :=
  m.eventType ∈ knownEventTypes → Acknowledged v kafka m

theorem SameEvent.refl (m : OutboxEventModel) : SameEvent m m := ⟨rfl, rfl, rfl⟩

theorem SameEvent.symm {a b : OutboxEventModel} (h : SameEvent a b) : SameEvent b a :=
  ⟨h.1.symm, h.2.1.symm, h.2.2.symm⟩

theorem SameEvent.trans {a b c : OutboxEventModel} (hab : SameEvent a b) (hbc : SameEvent b c) :
    SameEvent a c :=
  ⟨hab.1.trans hbc.1, hab.2.1.trans hbc.2.1, hab.2.2.trans hbc.2.2⟩

theorem Delivered.mono {v : Pydantic} {kafka kafka' : List Publication} {a b : OutboxEventModel}
    (h : Delivered v kafka a) (hsame : SameEvent a b) (hkafka : ∀ p ∈ kafka, p ∈ kafka') :
    Delivered v kafka' b := by
  obtain ⟨hid, htype, hpayload⟩ := hsame
  intro hknown
  rw [← htype] at hknown
  obtain ⟨p, hp, hrow, hacked, htopic, hvalid⟩ := h hknown
  refine ⟨p, hkafka p hp, hrow.trans hid, hacked, htopic.trans htype, ?_⟩
  intro schema hschema
  rw [← hpayload]
  exact hvalid schema (htype ▸ hschema)

theorem sameEvent_markSent (id : Uuid) (now : Datetime) (m : OutboxEventModel) :
    SameEvent m (markSent id now m) := by
  simp only [markSent]
  split <;> exact ⟨rfl, rfl, rfl⟩

theorem markSent_injective {a b : Uuid} {now now' : Datetime}
    (h : markSent a now = markSent b now') : a = b := by
  by_contra hne
  have hrow := congrArg OutboxEventModel.status
    (congrFun h ⟨a, a, "", .null, "PENDING", 0, none⟩)
  simp [markSent, hne] at hrow

section Rows

/-- A row of the committed table after a batch of `markSent` updates. -/
theorem mem_applyAll_markSent {ws : List (Write OutboxEventModel)}
    (hws : ∀ w ∈ ws, ∃ id now, w = .update (markSent id now)) {rows : List OutboxEventModel}
    {m' : OutboxEventModel} (hm' : m' ∈ applyAll ws rows) :
    ∃ m ∈ rows, SameEvent m m' ∧
      (m'.status = m.status ∨ ∃ now, .update (markSent m.id now) ∈ ws) := by
  induction ws generalizing rows with
  | nil => exact ⟨m', hm', .refl m', .inl rfl⟩
  | cons w ws ih =>
      obtain ⟨id, now, rfl⟩ := hws w (List.mem_cons_self ..)
      obtain ⟨m₁, hm₁, hsame₁, hstatus₁⟩ :=
        ih (fun w hw => hws w (List.mem_cons_of_mem _ hw)) hm'
      obtain ⟨m, hm, rfl⟩ := List.mem_map.mp hm₁
      refine ⟨m, hm, (sameEvent_markSent id now m).trans hsame₁, ?_⟩
      by_cases hid : m.id = id
      · exact .inr ⟨now, by rw [hid]; exact List.mem_cons_self ..⟩
      · cases hstatus₁ with
        | inl hkept =>
            refine .inl (hkept.trans ?_)
            simp only [markSent, hid, if_false]
        | inr hmarked =>
            obtain ⟨now', hmarked⟩ := hmarked
            rw [id_markSent] at hmarked
            exact .inr ⟨now', List.mem_cons_of_mem _ hmarked⟩

theorem mem_applyAll_inserts {ws : List (Write OutboxEventModel)}
    (hws : ∀ w ∈ ws, ∃ m, w = .insert m) {rows : List OutboxEventModel}
    {m : OutboxEventModel} (hm : m ∈ applyAll ws rows) : m ∈ rows ∨ .insert m ∈ ws := by
  induction ws generalizing rows with
  | nil => exact .inl hm
  | cons w ws ih =>
      obtain ⟨x, rfl⟩ := hws w (List.mem_cons_self ..)
      cases ih (fun w hw => hws w (List.mem_cons_of_mem _ hw)) hm with
      | inl hrows =>
          refine (List.mem_append.mp hrows).imp_right fun hx => ?_
          rw [List.mem_singleton.mp hx]
          exact List.mem_cons_self ..
      | inr htail => exact .inr (List.mem_cons_of_mem _ htail)

/-- A committed row stays, whatever a transaction of the service commits. -/
theorem exists_mem_applyAll {ws : List (Write OutboxEventModel)}
    (hws : ∀ w ∈ ws, (∃ m, w = .insert m) ∨ ∃ id now, w = .update (markSent id now))
    {rows : List OutboxEventModel} {m : OutboxEventModel} (hm : m ∈ rows) :
    ∃ m' ∈ applyAll ws rows, SameEvent m m' := by
  induction ws generalizing rows m with
  | nil => exact ⟨m, hm, .refl m⟩
  | cons w ws ih =>
      have hrest : ∀ w ∈ ws, (∃ m, w = .insert m) ∨ ∃ id now, w = .update (markSent id now) :=
        fun w hw => hws w (List.mem_cons_of_mem _ hw)
      cases hws w (List.mem_cons_self ..) with
      | inl hinsert =>
          obtain ⟨x, rfl⟩ := hinsert
          exact ih hrest (List.mem_append_left _ hm)
      | inr hupdate =>
          obtain ⟨id, now, rfl⟩ := hupdate
          obtain ⟨m', hm', hsame⟩ := ih hrest (List.mem_map_of_mem hm)
          exact ⟨m', hm', (sameEvent_markSent id now m).trans hsame⟩

end Rows

section Invariant
variable {v : Pydantic} {s s' : State}

/-- A row that may be marked: it is stored, and acknowledged if its type is known. -/
def Settled (v : Pydantic) (s : State) (id : Uuid) : Prop :=
  ∃ m ∈ s.world.outbox.committed, m.id = id ∧ Delivered v s.kafka m

/-- An event a worker holds is a stored row. -/
def Stored (s : State) (event : OutboxEventModel) : Prop :=
  ∃ m ∈ s.world.outbox.committed, SameEvent m event

def Position.Inv (v : Pydantic) (s : State) : Position → Prop
  | .idle => True
  | .selecting _ batch => ∀ e ∈ batch, Stored s e
  | .looping events _ => ∀ e ∈ events, Stored s e
  | .updating event events _ => Settled v s event.id ∧ ∀ e ∈ events, Stored s e

/-- `before` are the rows the run started with. -/
structure OutboxInv (v : Pydantic) (before : List OutboxEventModel) (s : State) : Prop where
  unique : s.world.outbox.Unique OutboxEventModel.clash
  inserts : ∀ n, ∀ w ∈ s.world.outbox.writes (.request n), ∃ m, w = .insert m ∧
    m.status = "PENDING"
  updates : ∀ n, ∀ w ∈ s.world.outbox.writes (.worker n), ∃ id now,
    w = .update (markSent id now) ∧ Settled v s id
  positions : ∀ n, (s.workers n).position.Inv v s
  sent : ∀ m ∈ s.world.outbox.committed, m.status = "SENT" →
    Delivered v s.kafka m ∨ ∃ m₀ ∈ before, m₀.id = m.id ∧ m₀.status = "SENT"
  published : ∀ p ∈ s.kafka, ∃ m ∈ s.world.outbox.committed, m.id = p.row ∧
    m.eventType ∈ knownEventTypes

/-- Rows and records are only added. -/
structure Grows (s s' : State) : Prop where
  rows : ∀ m ∈ s.world.outbox.committed, ∃ m' ∈ s'.world.outbox.committed, SameEvent m m'
  kafka : ∀ p ∈ s.kafka, p ∈ s'.kafka

theorem Settled.mono {id : Uuid} (h : Settled v s id) (hgrows : Grows s s') :
    Settled v s' id := by
  obtain ⟨m, hm, hid, hdelivered⟩ := h
  obtain ⟨m', hm', hsame⟩ := hgrows.rows m hm
  exact ⟨m', hm', hsame.1.symm.trans hid, hdelivered.mono hsame hgrows.kafka⟩

theorem Stored.mono {e : OutboxEventModel} (h : Stored s e) (hgrows : Grows s s') :
    Stored s' e := by
  obtain ⟨m, hm, hsame⟩ := h
  obtain ⟨m', hm', hsame'⟩ := hgrows.rows m hm
  exact ⟨m', hm', hsame'.symm.trans hsame⟩

theorem Position.Inv.mono {p : Position} (h : p.Inv v s) (hgrows : Grows s s') : p.Inv v s' := by
  cases p with
  | idle => trivial
  | selecting ids batch => exact fun e he => (h e he).mono hgrows
  | looping events aborted => exact fun e he => (h e he).mono hgrows
  | updating event events aborted =>
      exact ⟨h.1.mono hgrows, fun e he => (h.2 e he).mono hgrows⟩

variable {before : List OutboxEventModel}

theorem OutboxInv.forms (h : OutboxInv v before s) (t : Tx) :
    ∀ w ∈ s.world.outbox.writes t,
      (∃ m, w = .insert m) ∨ ∃ id now, w = .update (markSent id now) := by
  intro w hw
  cases t with
  | request n =>
      obtain ⟨m, rfl, _⟩ := h.inserts n w hw
      exact .inl ⟨m, rfl⟩
  | worker n =>
      obtain ⟨id, now, rfl, _⟩ := h.updates n w hw
      exact .inr ⟨id, now, rfl⟩

theorem OutboxInv.keeps (h : OutboxInv v before s) (t : Tx) :
    Keeps OutboxEventModel.clash (s.world.outbox.writes t) := by
  intro f hf a b
  cases h.forms t _ hf with
  | inl hinsert =>
      obtain ⟨m, heq⟩ := hinsert
      contradiction
  | inr hupdate =>
      obtain ⟨id, now, heq⟩ := hupdate
      obtain rfl := Write.update.inj heq
      simp [OutboxEventModel.clash]

/-- Only workers move, or records are added. -/
theorem OutboxInv.frame (h : OutboxInv v before s)
    (houtbox : s'.world.outbox = s.world.outbox) (hkafka : ∀ p ∈ s.kafka, p ∈ s'.kafka)
    (hnew : ∀ p ∈ s'.kafka, p ∈ s.kafka ∨ ∃ m ∈ s.world.outbox.committed, m.id = p.row ∧
      m.eventType ∈ knownEventTypes)
    (hpos : ∀ n, (s'.workers n).position.Inv v s') : OutboxInv v before s' := by
  have hgrows : Grows s s' := ⟨fun m hm => ⟨m, by rw [houtbox]; exact hm, .refl m⟩, hkafka⟩
  refine ⟨?_, ?_, ?_, hpos, ?_, ?_⟩
  · rw [houtbox]
    exact h.unique
  · rw [houtbox]
    exact h.inserts
  · rw [houtbox]
    intro n w hw
    obtain ⟨id, now, rfl, hsettled⟩ := h.updates n w hw
    exact ⟨id, now, rfl, hsettled.mono hgrows⟩
  · rw [houtbox]
    intro m hm hsent
    exact (h.sent m hm hsent).imp_left fun hd => hd.mono (.refl m) hkafka
  · rw [houtbox]
    intro p hp
    cases hnew p hp with
    | inl hold => exact h.published p hold
    | inr hnew => exact hnew

theorem OutboxInv.delivered_of_settled (h : OutboxInv v before s) {m : OutboxEventModel}
    (hm : m ∈ s.world.outbox.committed) (hsettled : Settled v s m.id) :
    Delivered v s.kafka m := by
  obtain ⟨m', hm', hid, hdelivered⟩ := hsettled
  obtain rfl := OutboxEventModel.eq_of_id h.unique.committed hm' hm hid
  exact hdelivered

theorem OutboxInv.sent_applyAll (h : OutboxInv v before s) {t : Tx} {m' : OutboxEventModel}
    (hm' : m' ∈ applyAll (s.world.outbox.writes t) s.world.outbox.committed)
    (hsent : m'.status = "SENT") :
    Delivered v s.kafka m' ∨ ∃ m₀ ∈ before, m₀.id = m'.id ∧ m₀.status = "SENT" := by
  cases t with
  | request n =>
      have hins : ∀ w ∈ s.world.outbox.writes (.request n), ∃ m, w = .insert m := by
        intro w hw
        obtain ⟨m, hw, _⟩ := h.inserts n w hw
        exact ⟨m, hw⟩
      cases mem_applyAll_inserts hins hm' with
      | inl hold => exact h.sent m' hold hsent
      | inr hnew =>
          obtain ⟨m, heq, hpending⟩ := h.inserts n _ hnew
          obtain rfl := Write.insert.inj heq
          simp [hsent] at hpending
  | worker n =>
      have hupd : ∀ w ∈ s.world.outbox.writes (.worker n), ∃ id now,
          w = .update (markSent id now) := by
        intro w hw
        obtain ⟨id, now, hw, _⟩ := h.updates n w hw
        exact ⟨id, now, hw⟩
      obtain ⟨m, hm, hsame, hstatus⟩ := mem_applyAll_markSent hupd hm'
      cases hstatus with
      | inl hkept =>
          rw [← hsame.1]
          exact (h.sent m hm (hkept.symm.trans hsent)).imp_left
            fun hd => hd.mono hsame fun _ hp => hp
      | inr hmarked =>
          obtain ⟨now, hw⟩ := hmarked
          obtain ⟨id, now', heq, hsettled⟩ := h.updates n _ hw
          obtain rfl := markSent_injective (Write.update.inj heq)
          exact .inl ((h.delivered_of_settled hm hsettled).mono hsame fun _ hp => hp)

/-- One worker moves on, and records may be added. -/
theorem OutboxInv.setPosition (h : OutboxInv v before s) {n : Nat} {p : Position}
    (houtbox : s'.world.outbox = s.world.outbox) (hkafka : ∀ p ∈ s.kafka, p ∈ s'.kafka)
    (hnew : ∀ p ∈ s'.kafka, p ∈ s.kafka ∨ ∃ m ∈ s.world.outbox.committed, m.id = p.row ∧
      m.eventType ∈ knownEventTypes)
    (hworkers : s'.workers = s.workers) (hp : p.Inv v s') :
    OutboxInv v before (s'.setPosition n p) := by
  have hsame : Grows s' (s'.setPosition n p) := ⟨fun m hm => ⟨m, hm, .refl m⟩, fun _ h => h⟩
  have hgrows : Grows s s' := ⟨fun m hm => ⟨m, by rw [houtbox]; exact hm, .refl m⟩, hkafka⟩
  refine h.frame houtbox hkafka hnew ?_
  intro k
  by_cases hk : k = n
  · subst hk
    simp only [State.setPosition, Function.update_self]
    exact hp.mono hsame
  · have hother : ((s'.setPosition n p).workers k).position = (s.workers k).position := by
      simp only [State.setPosition, Function.update_of_ne hk, hworkers]
    rw [hother]
    exact ((h.positions k).mono hgrows).mono hsame

/-- A transaction ends; the workers stay where they are or stop polling. -/
theorem OutboxInv.ends (h : OutboxInv v before s) (t : Tx)
    (houtbox : s'.world.outbox = s.world.outbox.commit t ∨
      s'.world.outbox = s.world.outbox.rollback t) (hkafka : s'.kafka = s.kafka)
    (hpos : ∀ n, (s'.workers n).position = (s.workers n).position ∨
      (s'.workers n).position = .idle) : OutboxInv v before s' := by
  have hwrites (u : Tx) : ∀ w ∈ s'.world.outbox.writes u, w ∈ s.world.outbox.writes u := by
    intro w hw
    cases houtbox with
    | inl hcommit =>
        rw [hcommit, Table.writes_commit] at hw
        split at hw
        · contradiction
        · exact hw
    | inr hrollback =>
        rw [hrollback, Table.writes_rollback] at hw
        split at hw
        · contradiction
        · exact hw
  have hgrows : Grows s s' := by
    refine ⟨?_, fun p hp => by rw [hkafka]; exact hp⟩
    intro m hm
    cases houtbox with
    | inl hcommit =>
        rw [hcommit]
        exact exists_mem_applyAll (h.forms t) hm
    | inr hrollback =>
        rw [hrollback]
        exact ⟨m, hm, .refl m⟩
  have hpublished : ∀ p ∈ s'.kafka, ∃ m ∈ s'.world.outbox.committed, m.id = p.row ∧
      m.eventType ∈ knownEventTypes := by
    rw [hkafka]
    intro p hp
    obtain ⟨m, hm, hid, hknown⟩ := h.published p hp
    obtain ⟨m', hm', hsame⟩ := hgrows.rows m hm
    exact ⟨m', hm', hsame.1.symm.trans hid, hsame.2.1 ▸ hknown⟩
  refine ⟨?_, ?_, ?_, ?_, ?_, hpublished⟩
  · cases houtbox with
    | inl hcommit =>
        rw [hcommit]
        exact h.unique.commit t OutboxEventModel.clash_comm (h.keeps t)
    | inr hrollback =>
        rw [hrollback]
        exact h.unique.rollback t
  · exact fun n w hw => h.inserts n w (hwrites _ w hw)
  · intro n w hw
    obtain ⟨id, now, rfl, hsettled⟩ := h.updates n w (hwrites _ w hw)
    exact ⟨id, now, rfl, hsettled.mono hgrows⟩
  · intro n
    cases hpos n with
    | inl hsame =>
        rw [hsame]
        exact (h.positions n).mono hgrows
    | inr hidle =>
        rw [hidle]
        trivial
  · intro m' hm' hsent
    rw [hkafka]
    cases houtbox with
    | inr hrollback =>
        rw [hrollback] at hm'
        exact h.sent m' hm' hsent
    | inl hcommit =>
        rw [hcommit, Table.committed_commit] at hm'
        exact h.sent_applyAll hm' hsent

/-- A statement of a transaction writes; the workers stay where they are. -/
theorem OutboxInv.write (h : OutboxInv v before s) {t : Tx} {w : Write OutboxEventModel}
    (houtbox : s'.world.outbox = s.world.outbox.write t w) (hkafka : s'.kafka = s.kafka)
    (hunique : s'.world.outbox.Unique OutboxEventModel.clash)
    (hrequest : ∀ n, t = .request n → ∃ m, w = .insert m ∧ m.status = "PENDING")
    (hworker : ∀ n, t = .worker n → ∃ id now, w = .update (markSent id now) ∧ Settled v s id)
    (hpos : ∀ n, (s'.workers n).position.Inv v s) : OutboxInv v before s' := by
  have hcommitted : s'.world.outbox.committed = s.world.outbox.committed := by
    rw [houtbox, Table.committed_write]
  have hgrows : Grows s s' :=
    ⟨fun m hm => ⟨m, by rw [hcommitted]; exact hm, .refl m⟩, fun p hp => by rw [hkafka]; exact hp⟩
  have hmem {u : Tx} {x : Write OutboxEventModel} (hx : x ∈ s'.world.outbox.writes u) :
      x ∈ s.world.outbox.writes u ∨ (t = u ∧ x = w) := by
    rw [houtbox, Table.writes_write] at hx
    refine (List.mem_append.mp hx).imp_right fun hnew => ?_
    split at hnew
    · exact ⟨‹t = u›, List.mem_singleton.mp hnew⟩
    · contradiction
  refine ⟨hunique, ?_, ?_, fun n => (hpos n).mono hgrows, ?_, ?_⟩
  · intro n x hx
    cases hmem hx with
    | inl hold => exact h.inserts n x hold
    | inr hnew =>
        obtain ⟨ht, rfl⟩ := hnew
        exact hrequest n ht
  · intro n x hx
    cases hmem hx with
    | inl hold =>
        obtain ⟨id, now, rfl, hsettled⟩ := h.updates n x hold
        exact ⟨id, now, rfl, hsettled.mono hgrows⟩
    | inr hnew =>
        obtain ⟨ht, rfl⟩ := hnew
        obtain ⟨id, now, rfl, hsettled⟩ := hworker n ht
        exact ⟨id, now, rfl, hsettled.mono hgrows⟩
  · rw [hcommitted, hkafka]
    exact h.sent
  · rw [hcommitted, hkafka]
    exact h.published

theorem OutboxInv.change (h : OutboxInv v before s) {n : Nat}
    (hchange : OutboxChange n s.world.outbox s'.world.outbox) (hkafka : s'.kafka = s.kafka)
    (hworkers : s'.workers = s.workers) : OutboxInv v before s' := by
  have hpos (n : Nat) : (s'.workers n).position = (s.workers n).position := by rw [hworkers]
  generalize hT : s'.world.outbox = T at hchange
  cases hchange with
  | none =>
      have hgrows : Grows s s' :=
        ⟨fun m hm => ⟨m, by rw [hT]; exact hm, .refl m⟩, fun p hp => by rw [hkafka]; exact hp⟩
      refine h.frame hT hgrows.kafka (fun p hp => .inl (by rw [← hkafka]; exact hp)) ?_
      intro n
      rw [hpos]
      exact (h.positions n).mono hgrows
  | insert m T' hpending hinsert =>
      have hwrite : s'.world.outbox = s.world.outbox.write (.request n) (.insert m) :=
        hT.trans (Table.insert_eq_done hinsert).1
      refine h.write hwrite hkafka ?_ ?_ ?_ ?_
      · rw [hT]
        exact h.unique.insert OutboxEventModel.clash_comm (h.keeps _) hinsert
      · exact fun _ _ => ⟨m, rfl, hpending⟩
      · intro k hk
        contradiction
      · intro k
        rw [hpos]
        exact h.positions k
  | commit => exact h.ends _ (.inl hT) hkafka fun n => .inl (hpos n)
  | rollback => exact h.ends _ (.inr hT) hkafka fun n => .inl (hpos n)

theorem stored_of_lockable {id : Uuid} {m : OutboxEventModel}
    (h : lockable? s id = some m) : m ∈ s.world.outbox.committed := by
  simp only [lockable?] at h
  split at h
  · contradiction
  · exact List.mem_of_find?_eq_some h

/-- The row an acknowledged record was sent for. -/
theorem settled_of_acked {event : OutboxEventModel} {d : EnvelopeDraws} {started : Bool}
    {record : ProducerRecord} (hstored : Stored s event)
    (hpublish : publishEvent v started event d = .ok (some record))
    (hcommitted : s'.world.outbox.committed = s.world.outbox.committed)
    (hp : ⟨event.id, record, true⟩ ∈ s'.kafka) : Settled v s' event.id := by
  obtain ⟨m, hm, hid, htype, hpayload⟩ := hstored
  obtain ⟨_, htopic, _, _, schema, hschema, hvalid⟩ := publishEvent_eq_record hpublish
  refine ⟨m, by rw [hcommitted]; exact hm, hid, ?_⟩
  intro _
  refine ⟨_, hp, hid.symm, rfl, htopic.trans htype.symm, ?_⟩
  intro schema' hschema'
  rw [htype, hschema] at hschema'
  obtain rfl := Option.some.inj hschema'
  rw [hpayload]
  exact hvalid

/-- Worker `n` moves on, and nothing else does. -/
theorem OutboxInv.stays (h : OutboxInv v before s) {n : Nat} {p : Position} (hp : p.Inv v s) :
    OutboxInv v before (s.setPosition n p) :=
  h.setPosition rfl (fun _ hp => hp) (fun _ hp => .inl hp) rfl hp

/-- The transaction of worker `n` ends, and with it its poll. -/
theorem OutboxInv.endPoll (h : OutboxInv v before s) {n : Nat} {w : World}
    (hw : w.outbox = s.world.outbox.commit (.worker n) ∨
      w.outbox = s.world.outbox.rollback (.worker n)) : OutboxInv v before (s.endPoll n w) := by
  refine h.ends (.worker n) hw rfl ?_
  intro k
  by_cases hk : k = n
  · subst hk
    exact .inr (by simp [State.endPoll, State.setPosition])
  · exact .inl (by simp [State.endPoll, State.setPosition, Function.update_of_ne hk])

theorem OutboxInv.crashes (h : OutboxInv v before s) (n : Nat) :
    OutboxInv v before
      { s.endPoll n { s.world with outbox := s.world.outbox.rollback (.worker n) } with
        workers := Function.update s.workers n {} } := by
  refine h.ends (.worker n) (.inr rfl) rfl ?_
  intro k
  by_cases hk : k = n
  · subst hk
    exact .inr (by simp)
  · exact .inl (by simp [Function.update_of_ne hk])

theorem OutboxInv.starts (h : OutboxInv v before s) (n : Nat) :
    OutboxInv v before { s with workers := Function.update s.workers n { started := true } } := by
  have hgrows : Grows s { s with workers := Function.update s.workers n { started := true } } :=
    ⟨fun m hm => ⟨m, hm, .refl m⟩, fun _ hp => hp⟩
  refine h.frame rfl (fun _ hp => hp) (fun _ hp => .inl hp) ?_
  intro k
  by_cases hk : k = n
  · subst hk
    simp only [Function.update_self]
    trivial
  · simp only [Function.update_of_ne hk]
    exact (h.positions k).mono hgrows

/-- Worker `n` locks a row and takes it into its batch. -/
theorem OutboxInv.locks (h : OutboxInv v before s) {n : Nat} {id : Uuid} {ids : List Uuid}
    {batch : List OutboxEventModel} {m : OutboxEventModel}
    (hp : (s.workers n).position = .selecting (id :: ids) batch)
    (hid : lockable? s id = some m) :
    OutboxInv v before { s.setPosition n (.selecting ids (batch ++ [m])) with
      locks := (id, n) :: s.locks } := by
  have hcur := h.positions n
  rw [hp] at hcur
  have hbatch : Position.Inv v s (.selecting ids (batch ++ [m])) := by
    intro e he
    cases List.mem_append.mp he with
    | inl hold => exact hcur e hold
    | inr hnew =>
        obtain rfl := List.mem_singleton.mp hnew
        exact ⟨e, stored_of_lockable hid, .refl e⟩
  have hmoved : OutboxInv v before (s.setPosition n _) := h.stays hbatch
  exact ⟨hmoved.unique, hmoved.inserts, hmoved.updates, hmoved.positions, hmoved.sent,
    hmoved.published⟩

/-- The next event has an unknown type: there is nothing to deliver. -/
theorem OutboxInv.ignores (h : OutboxInv v before s) {n : Nat} {event : OutboxEventModel}
    {events : List OutboxEventModel} {aborted started : Bool} {d : EnvelopeDraws}
    (hp : (s.workers n).position = .looping (event :: events) aborted)
    (hpublish : publishEvent v started event d = .ok none) :
    OutboxInv v before (s.setPosition n (.updating event events aborted)) := by
  have hcur := h.positions n
  rw [hp] at hcur
  obtain ⟨m, hm, hsame⟩ := hcur event (List.mem_cons_self ..)
  refine h.stays ⟨⟨m, hm, hsame.1, ?_⟩, fun e he => hcur e (List.mem_cons_of_mem _ he)⟩
  intro hknown
  rw [hsame.2.1] at hknown
  exact absurd hknown (publishEvent_eq_skip hpublish)

/-- The next event is sent; whether it arrives or not, the worker goes on. -/
theorem OutboxInv.sends (h : OutboxInv v before s) {n : Nat} {event : OutboxEventModel}
    {events : List OutboxEventModel} {aborted started : Bool} {d : EnvelopeDraws}
    {delivery : Delivery} {record : ProducerRecord}
    (hp : (s.workers n).position = .looping (event :: events) aborted)
    (hpublish : publishEvent v started event d = .ok (some record)) :
    OutboxInv v before
      ((deliver { s with drawn := d.uuids ++ s.drawn } event.id record delivery).setPosition n
        (if delivery = .acked then .updating event events aborted
          else .looping events aborted)) := by
  have hcur := h.positions n
  rw [hp] at hcur
  refine h.setPosition ?_ (fun _ hp => mem_kafka_deliver hp) ?_ ?_ ?_
  · rw [deliver_world]
  · intro p hp
    refine (kafka_deliver_cases hp).imp_right fun hrow => ?_
    obtain ⟨m, hm, hid, htype, _⟩ := hcur event (List.mem_cons_self ..)
    exact ⟨m, hm, hid.trans hrow.symm, htype ▸ (publishEvent_eq_record hpublish).1⟩
  · rw [deliver_workers]
  · have hgrows : Grows s
        (deliver { s with drawn := d.uuids ++ s.drawn } event.id record delivery) :=
      ⟨fun m hm => ⟨m, by rw [deliver_world]; exact hm, .refl m⟩,
        fun _ hp => mem_kafka_deliver hp⟩
    have hrest : ∀ e ∈ events, Stored (deliver { s with drawn := d.uuids ++ s.drawn }
        event.id record delivery) e :=
      fun e he => (hcur e (List.mem_cons_of_mem _ he)).mono hgrows
    cases delivery with
    | acked =>
        refine ⟨settled_of_acked (hcur event (List.mem_cons_self ..)) hpublish rfl ?_, hrest⟩
        exact List.mem_append_right _ (List.mem_singleton.mpr rfl)
    | lost => exact hrest
    | unacknowledged => exact hrest

/-- Worker `n` marks the row it is at. -/
theorem OutboxInv.updating (h : OutboxInv v before s) {n : Nat} {event : OutboxEventModel}
    {events : List OutboxEventModel} {now : Datetime}
    (hp : (s.workers n).position = .updating event events false) :
    OutboxInv v before { s.setPosition n (.looping events false) with
      world := { s.world with
        outbox := s.world.outbox.write (.worker n) (.update (markSent event.id now)) } } := by
  have hcur := h.positions n
  rw [hp] at hcur
  have hmoved : OutboxInv v before (s.setPosition n (.looping events false)) := h.stays hcur.2
  refine hmoved.write (t := .worker n) rfl rfl (hmoved.unique.update _ _) ?_ ?_ hmoved.positions
  · intro k hk
    contradiction
  · intro k hk
    exact ⟨event.id, now, rfl, hcur.1⟩

theorem OutboxInv.worker (h : OutboxInv v before s) {n : Nat} {k : WorkerLabel}
    (hstep : WorkerStep v s n k s') : OutboxInv v before s' := by
  have hcur := h.positions n
  cases hstep with
  | crash => exact h.crashes n
  | start hp => exact h.starts n
  | select ids hp hids => exact h.stays fun e he => absurd he List.not_mem_nil
  | skips id ids batch hp hid =>
      rw [hp] at hcur
      exact h.stays hcur
  | locks id ids batch m hp hlen hid => exact h.locks hp hid
  | fetched ids batch hp hdone =>
      rw [hp] at hcur
      exact h.stays hcur
  | fails hp => exact h.endPoll (.inr rfl)
  | refuses event events aborted d delivery e hp hpublish =>
      rw [hp] at hcur
      exact h.stays fun e he => hcur e (List.mem_cons_of_mem _ he)
  | ignores event events aborted d delivery hp hpublish => exact h.ignores hp hpublish
  | sends event events aborted d delivery record hp hpublish hfresh => exact h.sends hp hpublish
  | updates event events now hp => exact h.updating hp
  | updateFails event events aborted hp =>
      rw [hp] at hcur
      exact h.stays hcur.2
  | commits hp => exact h.endPoll (.inl rfl)
  | commitsAborted hp => exact h.endPoll (.inr rfl)

theorem OutboxInv.step (h : OutboxInv v before s) {l : Label}
    (hstep : Loan.step v s l = some s') : OutboxInv v before s' := by
  cases step_outbox hstep with
  | inl hworker =>
      obtain ⟨n, k, _, hcase⟩ := hworker
      exact h.worker hcase
  | inr hframe =>
      obtain ⟨_, hkafka, hworkers, _, _, n, hchange⟩ := hframe
      exact h.change hchange hkafka hworkers

theorem OutboxInv.of_quiet (hquiet : s.Quiet)
    (hunique : s.world.outbox.committed.Pairwise fun a b => a.clash b = false)
    (hkafka : s.kafka = []) : OutboxInv v s.world.outbox.committed s := by
  have hwrites (t : Tx) : s.world.outbox.writes t = [] :=
    Table.writes_of_pending_nil t hquiet.outbox
  refine ⟨?_, ?_, ?_, ?_, ?_, ?_⟩
  · simpa [Table.Unique, Table.rows, hquiet.outbox] using hunique
  · intro n w hw
    simp [hwrites] at hw
  · intro n w hw
    simp [hwrites] at hw
  · intro n
    rw [hquiet.workers n]
    trivial
  · exact fun m hm hsent => .inr ⟨m, hm, rfl, hsent⟩
  · intro p hp
    rw [hkafka] at hp
    contradiction

end Invariant

/-- In every state a run reaches from any outbox table, a row that was not marked
at the start and is marked now has been acknowledged just if its type is known. -/
theorem acknowledged_iff {v : Pydantic} {s s' : State} {ls : List Label} (hquiet : s.Quiet)
    (hunique : s.world.outbox.committed.Pairwise fun a b => a.clash b = false)
    (hkafka : s.kafka = []) (hrun : Runs.run (step v) s ls = some s') {m : OutboxEventModel}
    (hm : m ∈ s'.world.outbox.committed) (hsent : m.status = "SENT")
    (hmarked : ∀ m₀ ∈ s.world.outbox.committed, m₀.id = m.id → m₀.status ≠ "SENT") :
    Acknowledged v s'.kafka m ↔ m.eventType ∈ knownEventTypes := by
  have hinv : OutboxInv v s.world.outbox.committed s' :=
    Runs.invariant (fun s l s' h hstep => h.step hstep) (.of_quiet hquiet hunique hkafka) hrun
  constructor
  · rintro ⟨p, hp, hrow, _⟩
    obtain ⟨m', hm', hid, hknown⟩ := hinv.published p hp
    obtain rfl := OutboxEventModel.eq_of_id hinv.unique.committed hm' hm (hid.trans hrow)
    exact hknown
  · intro hknown
    cases hinv.sent m hm hsent with
    | inl hdelivered => exact hdelivered hknown
    | inr hbefore =>
        obtain ⟨m₀, hm₀, hid, hsent₀⟩ := hbefore
        exact absurd hsent₀ (hmarked m₀ hm₀ hid)

section UnknownType

/-- One pending row of the given type. -/
def pendingRow (eventType : String) : OutboxEventModel :=
  ⟨⟨1⟩, ⟨2⟩, eventType, statusEventPayload (CreateCall.sample ⟨100⟩ none 1).loan, "PENDING", 0,
    none⟩

def State.ofOutbox (rows : List OutboxEventModel) : State :=
  { State.init with world := { State.init.world with outbox := ⟨rows, []⟩ } }

theorem State.quiet_ofOutbox (rows : List OutboxEventModel) : (State.ofOutbox rows).Quiet :=
  ⟨rfl, rfl, fun _ => rfl, fun _ => rfl, rfl⟩

def pollOne : List Label :=
  [.start, .select [⟨1⟩], .lock, .fetched, .publish ⟨⟨7⟩, ⟨8⟩, 0⟩ .acked, .update 1, .commit].map
    (.worker 0)

/-- The state after `pollOne`, by what it evaluates to. -/
theorem exists_polled (eventType : String) (records : Nat)
    (heval : (Runs.run (step Pydantic.strict) (.ofOutbox [pendingRow eventType]) pollOne).map
      (fun s => (s.world.outbox.committed.map fun m => (m.id, m.eventType, m.status),
        s.kafka.length)) = some ([(⟨1⟩, eventType, "SENT")], records)) :
    ∃ s m, Runs.run (step Pydantic.strict) (.ofOutbox [pendingRow eventType]) pollOne = some s ∧
      m ∈ s.world.outbox.committed ∧ m.id = ⟨1⟩ ∧ m.eventType = eventType ∧ m.status = "SENT" ∧
      s.kafka.length = records := by
  obtain ⟨s, hrun, heq⟩ := Option.map_eq_some_iff.mp heval
  obtain ⟨hrows, hkafka⟩ := Prod.mk.inj heq
  obtain ⟨m, hm, hcolumns⟩ := List.mem_map.mp
    (hrows ▸ List.mem_singleton.mpr rfl : (⟨1⟩, eventType, "SENT") ∈ s.world.outbox.committed.map
      fun m => (m.id, m.eventType, m.status))
  obtain ⟨hid, hrest⟩ := Prod.mk.inj hcolumns
  obtain ⟨htype, hstatus⟩ := Prod.mk.inj hrest
  exact ⟨s, m, hrun, hm, hid, htype, hstatus, hkafka⟩

theorem unknownType_not_acknowledged :
    ∃ s m, Runs.run (step Pydantic.strict) (.ofOutbox [pendingRow "loan.document.verified.v1"])
        pollOne = some s ∧ m ∈ s.world.outbox.committed ∧ m.status = "SENT" ∧
      ¬ Acknowledged Pydantic.strict s.kafka m := by
  obtain ⟨s, m, hrun, hm, _, _, hsent, hkafka⟩ :=
    exists_polled "loan.document.verified.v1" 0 (by decide +kernel)
  refine ⟨s, m, hrun, hm, hsent, ?_⟩
  rintro ⟨p, hp, _⟩
  rw [List.length_eq_zero_iff.mp hkafka] at hp
  contradiction

theorem acknowledged_iff_polled :
    ∃ s m, Runs.run (step Pydantic.strict) (.ofOutbox [pendingRow loanStatusChangedV1]) pollOne =
        some s ∧
      (Acknowledged Pydantic.strict s.kafka m ↔ m.eventType ∈ knownEventTypes) := by
  obtain ⟨s, m, hrun, hm, hid, _, hsent, _⟩ :=
    exists_polled loanStatusChangedV1 1 (by decide +kernel)
  refine ⟨s, m, hrun, ?_⟩
  refine acknowledged_iff (State.quiet_ofOutbox _) (List.pairwise_singleton ..) rfl hrun hm hsent ?_
  intro m₀ hm₀ _
  obtain rfl := List.mem_singleton.mp hm₀
  decide

end UnknownType

end CrediGuard.Loan
