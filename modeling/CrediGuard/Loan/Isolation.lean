import CrediGuard.Lib.Relational
import CrediGuard.Lib.Restriction
import CrediGuard.Lib.Unwinding
import CrediGuard.Loan.OutboxIds

/-!
What one applicant's requests see of the others.

The service has one table and one key space for all applicants. Idempotency keys are
the only thing an applicant can share with another: where no two applicants use one
key, the requests of an applicant answer as if nobody else were there and no worker
ran.
-/

namespace CrediGuard.Loan
open ReadCommitted Statement

def State.owns (s : State) (applicantId : Uuid) (n : Nat) : Bool :=
  (s.requests n).any fun r => r.call.applicantId = applicantId

def State.ownsTx (s : State) (applicantId : Uuid) : Tx → Bool
  | .request n => s.owns applicantId n
  | .worker _ => false

/-- The steps that the applicant's side of the system is about; keys expire for all. -/
def isOwnStep (applicantId : Uuid) (s : State) : Label → Bool
  | .arrive _ c => c.applicantId = applicantId
  | .request n => s.owns applicantId n
  | .requestFails n => s.owns applicantId n
  | .expire _ => true
  | .worker _ _ => false

/-- No other applicant's call carries a key that a call of the applicant carries. -/
def KeysApart (applicantId : Uuid) (ls : List Label) : Prop :=
  ∀ n c k d key, Label.arrive n c ∈ ls → Label.arrive k d ∈ ls →
    c.applicantId = applicantId → d.applicantId ≠ applicantId →
    c.idempotencyKey = some key → d.idempotencyKey ≠ some key

/-- `s'` has the requests of the applicant and no other, they have come as far as in
`s` and wait where they wait in `s`, and what is committed in it are the applicant's
loans. -/
structure Isolated (applicantId : Uuid) (s s' : State) : Prop where
  only : ∀ n r', s'.requests n = some r' → r'.call.applicantId = applicantId
  same : ∀ n r, s.requests n = some r → r.call.applicantId = applicantId →
    ∃ r', s'.requests n = some r' ∧ r'.call = r.call ∧ r'.progress = r.progress
  waits : ∀ n, s.owns applicantId n = true →
    (requestStep s n = none ↔ requestStep s' n = none)
  loans : s'.world.loans.committed =
    s.world.loans.committed.filter fun m => m.applicantId = applicantId

namespace Isolation

/-- The applicant's keys: `own` holds of the keys of the applicant's calls alone. -/
def KeyOwner (applicantId : Uuid) (own : String → Bool) (c : CreateCall) : Prop :=
  ∀ key, c.idempotencyKey = some key → (own key = true ↔ c.applicantId = applicantId)

def isRow (applicantId : Uuid) (m : LoanApplicationModel) : Bool := m.applicantId = applicantId

/-- The worlds look alike to the applicant. -/
structure SameView (applicantId : Uuid) (own : String → Bool) (keepTx : Tx → Bool)
    (w w' : World) : Prop where
  loans : w'.loans = w.loans.restrict (isRow applicantId) keepTx
  redis : ∀ key, own key = true →
    w'.redis (IdempotencyStore.redisKey key) = w.redis (IdempotencyStore.redisKey key)

structure View (applicantId : Uuid) (own : String → Bool) (s s' : State) : Prop where
  absent : ∀ n, s.owns applicantId n = false → s'.requests n = none
  present : ∀ n r, s.requests n = some r → r.call.applicantId = applicantId →
    ∃ r', s'.requests n = some r' ∧ r'.call = r.call ∧ r'.progress = r.progress
  world : SameView applicantId own (s.ownsTx applicantId) s.world s'.world
  drawn : ∀ u ∈ s'.drawn, u ∈ s.drawn

/-- What a run from empty tables keeps, whoever moves. -/
structure Inv (v : Pydantic) (s : State) : Prop where
  link : LinkInv v s
  ids : EventIds s
  writes : OpenWrites s

theorem Inv.step {v : Pydantic} {s s' : State} (h : Inv v s) {l : Label}
    (hstep : Loan.step v s l = some s') : Inv v s' :=
  ⟨h.link.step hstep, h.ids.step h.link hstep, h.writes.step hstep⟩

theorem Inv.init (v : Pydantic) : Inv v .init := ⟨.init, .init, .init⟩

section Owners
variable {v : Pydantic} {s s' : State} {n : Nat} {r : Request} {applicantId : Uuid}

theorem owns_of (hr : s.requests n = some r) :
    s.owns applicantId n = decide (r.call.applicantId = applicantId) := by
  simp only [State.owns, hr, Option.any_some]

theorem owns_eq_true (h : s.owns applicantId n = true) :
    ∃ r, s.requests n = some r ∧ r.call.applicantId = applicantId := by
  cases hr : s.requests n with
  | none => simp [State.owns, hr] at h
  | some r =>
      rw [owns_of hr] at h
      exact ⟨r, rfl, of_decide_eq_true h⟩

theorem inserts_writes (h : OpenWrites s) (hr : s.requests n = some r) {kept : Bool}
    (hkept : decide (r.call.applicantId = applicantId) = kept) :
    Table.InsertsOnly (isRow applicantId) kept (s.world.loans.writes (.request n)) := by
  intro w hw
  obtain ⟨⟨t, w'⟩, hp, rfl⟩ := List.mem_map.mp hw
  obtain ⟨hp, ht⟩ := List.mem_filter.mp hp
  obtain ⟨k, q, m, heq, hq, hm⟩ := h.loans _ hp
  obtain ⟨rfl, rfl⟩ := Prod.mk.inj heq
  obtain rfl := Tx.request.inj (of_decide_eq_true ht)
  obtain rfl := Option.some.inj (hr.symm.trans hq)
  refine ⟨m, rfl, ?_⟩
  rw [isRow, (rowOf_of_toModel hm).applicantId]
  exact hkept

/-- Two rows of calls of different applicants have neither an id nor a key in common. -/
theorem clash_of_apart {own : String → Bool} (h : SessionInv s) {k : Nat} {q : Request}
    (hr : s.requests n = some r) (hq : s.requests k = some q)
    (hmine : r.call.applicantId = applicantId) (hother : q.call.applicantId ≠ applicantId)
    (hown : KeyOwner applicantId own r.call) (hown' : KeyOwner applicantId own q.call)
    {m m' : LoanApplicationModel} (hm : RowOf m r.call) (hm' : RowOf m' q.call) :
    m.clash m' = false := by
  have hid : m.id ≠ m'.id := by
    intro heq
    have hsame : r.call.draws.loanId = q.call.draws.loanId :=
      hm.id.symm.trans (heq.trans hm'.id)
    obtain rfl := h.distinct n k r q hr hq hsame
    obtain rfl := Option.some.inj (hr.symm.trans hq)
    exact hother hmine
  have hkey : m.idempotencyKey.isSome = true → m.idempotencyKey ≠ m'.idempotencyKey := by
    intro hsome heq
    obtain ⟨key, hkey⟩ := Option.isSome_iff_exists.mp hsome
    have hmine' := (hown key (hm.idempotencyKey.symm.trans hkey)).mpr hmine
    exact hother ((hown' key (hm'.idempotencyKey.symm.trans (heq.symm.trans hkey))).mp hmine')
  simp only [LoanApplicationModel.clash, hid, decide_false, Bool.false_or]
  cases hsome : m.idempotencyKey.isSome with
  | false => rfl
  | true => simp [hkey hsome]

/-- The row that a key of the applicant names is the applicant's. -/
theorem isRow_of_holdsKey {own : String → Bool} (h : SessionInv s) {key existingId : String}
    (hown : ∀ k q, s.requests k = some q → KeyOwner applicantId own q.call)
    (hkey : own key = true) (hholds : HoldsKey s key existingId) {loanId : Uuid}
    (hparse : Uuid.parse existingId = some loanId) {m : LoanApplicationModel}
    (hm : m ∈ s.world.loans.committed) (hid : m.id = loanId) : isRow applicantId m = true := by
  obtain ⟨k, q, hq, hqkey, rfl⟩ := hholds
  obtain rfl : q.call.loan.id = loanId := by simpa [Uuid.parse_str] using hparse
  obtain ⟨l, p, hp, hrow⟩ := h.rows m hm
  have hsame : p.call.draws.loanId = q.call.draws.loanId := hrow.id.symm.trans hid
  obtain rfl := h.distinct l k p q hp hq hsame
  obtain rfl := Option.some.inj (hp.symm.trans hq)
  have hmine := (hown l p hp key (idempotencyKey_of_key? hqkey)).mp hkey
  exact decide_eq_true (hrow.applicantId.trans hmine)

end Owners

section Phases
variable {v : Pydantic} {s s' : State} {n : Nat} {r : Request} {applicantId : Uuid}
  {own : String → Bool}

/-- A read of the applicant's rows. -/
theorem filter_visible {keepTx : Tx → Bool} {w w' : World} {t : Tx}
    (h : SameView applicantId own keepTx w w') (ht : keepTx t = true)
    (hown : Table.InsertsOnly (isRow applicantId) true (w.loans.writes t))
    {p : LoanApplicationModel → Bool}
    (hp : ∀ m ∈ w.loans.visible t, p m = true → isRow applicantId m = true) :
    (w'.loans.visible t).filter p = (w.loans.visible t).filter p := by
  rw [h.loans, Table.visible_restrict ht hown, List.filter_filter]
  apply List.filter_congr
  intro m hm
  cases hpm : p m with
  | false => rfl
  | true => rw [hp m hm hpm]; rfl

theorem getById_agrees {keepTx : Tx → Bool} {w w' : World} {t : Tx} {loanId : Uuid}
    (h : SameView applicantId own keepTx w w')
    (hrows : (w'.loans.visible t).filter (fun m => m.id = loanId) =
      (w.loans.visible t).filter fun m => m.id = loanId) :
    Stmt.Agrees (LoanRepository.getById t loanId) (SameView applicantId own keepTx) w w' := by
  refine Stmt.Agrees.bind (R := SameView applicantId own keepTx)
    (Stmt.agrees_read hrows.symm h) (fun _ _ h => h) ?_
  intro rows u u' hu
  refine Stmt.Agrees.bind (Stmt.agrees_oneOrNone rows hu) (fun _ _ h => h) ?_
  intro model u u' hu
  cases model with
  | none => exact Stmt.agrees_pure hu
  | some model =>
      refine Stmt.Agrees.bind (Stmt.agrees_ofExcept hu) (fun _ _ h => h) ?_
      exact fun loan u u' hu => Stmt.agrees_pure hu

theorem existsActive_agrees {keepTx : Tx → Bool} {w w' : World} {t : Tx}
    (h : SameView applicantId own keepTx w w') (ht : keepTx t = true)
    (hown : Table.InsertsOnly (isRow applicantId) true (w.loans.writes t)) :
    Stmt.Agrees (LoanRepository.existsActiveForApplicant t applicantId)
      (SameView applicantId own keepTx) w w' := by
  have hrows : (w'.loans.visible t).filter
      (fun m => m.applicantId = applicantId && m.status ∈ LoanRepository.activeStatuses) =
        (w.loans.visible t).filter
          fun m => m.applicantId = applicantId && m.status ∈ LoanRepository.activeStatuses := by
    refine filter_visible h ht hown ?_
    intro m _ hm
    exact (Bool.and_eq_true _ _ ▸ hm).1
  refine Stmt.Agrees.bind (R := SameView applicantId own keepTx)
    (Stmt.agrees_read (congrArg _ hrows.symm) h) (fun _ _ h => h) ?_
  intro ids u u' hu
  refine Stmt.Agrees.bind (Stmt.agrees_oneOrNone ids hu) (fun _ _ h => h) ?_
  exact fun result u u' hu => Stmt.agrees_pure hu

theorem save_agrees {keepTx : Tx → Bool} {w w' : World} {t : Tx} {loan : LoanApplication}
    (h : SameView applicantId own keepTx w w') (ht : keepTx t = true)
    (hown : Table.InsertsOnly (isRow applicantId) true (w.loans.writes t))
    (hopen : ∀ m, LoanRepository.toModel loan = some m → ∀ p ∈ w.loans.pending, ∀ a,
      p.2.inserted? = some a → keepTx p.1 = false → m.clash a = false)
    (hcommitted : ∀ m, LoanRepository.toModel loan = some m → ∀ a ∈ w.loans.committed,
      isRow applicantId a = false → m.clash a = false) :
    Stmt.Agrees (LoanRepository.save t loan) (SameView applicantId own keepTx) w w' := by
  simp only [Stmt.Agrees, LoanRepository.save]
  cases hm : LoanRepository.toModel loan with
  | none => exact ⟨rfl, h⟩
  | some m =>
      have hinsert := Table.insert_restrict ht hown (hopen m hm) (hcommitted m hm)
      simp only [h.loans, hinsert]
      cases w.loans.insert LoanApplicationModel.clash t m with
      | waits => trivial
      | violates => exact ⟨rfl, h⟩
      | done loans => exact ⟨trivial, rfl, h.redis⟩

/-- An insert that goes in on both sides. -/
theorem saveEvent_agrees {keepTx : Tx → Bool} {w w' : World} {t : Tx} {event : OutboxEvent}
    (h : SameView applicantId own keepTx w w') {T T' : Table Tx OutboxEventModel}
    (hdone : w.outbox.insert OutboxEventModel.clash t (OutboxRepository.toModel event) = .done T)
    (hdone' : w'.outbox.insert OutboxEventModel.clash t (OutboxRepository.toModel event) =
      .done T') :
    Stmt.Agrees (OutboxRepository.save t event) (SameView applicantId own keepTx) w w' := by
  simp only [Stmt.Agrees, OutboxRepository.save, hdone, hdone']
  exact ⟨trivial, h.loans, h.redis⟩

theorem acquire_agrees {keepTx : Tx → Bool} {w w' : World} {key value : String}
    (h : SameView applicantId own keepTx w w') (hkey : own key = true) :
    Stmt.Agrees (IdempotencyStore.acquire key value) (SameView applicantId own keepTx) w w' := by
  simp only [Stmt.Agrees, IdempotencyStore.acquire, h.redis key hkey]
  cases w.redis (IdempotencyStore.redisKey key) with
  | some held => exact ⟨rfl, h⟩
  | none =>
      refine ⟨rfl, h.loans, ?_⟩
      intro key' hkey'
      simp only [Function.update_apply, h.redis key' hkey']

/-- What the events of a running request find in the outbox. -/
theorem saveEvent_done (h : Inv v s) (hr : s.requests n = some r) {p : Phase}
    (hp : r.progress = .running p) {e : OutboxEventModel} (he : e ∈ r.call.events)
    (hnew : ∀ e', Write.insert e' ∈ s.world.outbox.writes (.request n) → e'.id ≠ e.id) :
    s.world.outbox.insert OutboxEventModel.clash (.request n) e =
      .done (s.world.outbox.write (.request n) (.insert e)) := by
  refine h.ids.insert_done h.link.outbox h.writes hr ?_ (id_of_mem_events he) ?_
  · intro a ha
    rw [hp] at ha
    contradiction
  · intro x hx
    obtain ⟨q, _, e', _, rfl⟩ := h.writes.outbox n x hx
    exact ⟨e', rfl, hnew e' hx⟩

theorem event_id_ne (h : Inv v s) (hr : s.requests n = some r) :
    r.call.draws.submittedEventId ≠ r.call.draws.statusEventId := by
  have hnodup := h.ids.nodup n r hr
  simp only [Draws.uuids, List.nodup_cons, List.mem_cons, List.not_mem_nil, or_false,
    not_or] at hnodup
  exact hnodup.2.1

/-- A statement of the applicant's request does the same on both sides. -/
theorem resume_agrees (h : Inv v s) (h' : Inv v s') (hview : View applicantId own s s')
    (hown : ∀ k q, s.requests k = some q → KeyOwner applicantId own q.call)
    (hr : s.requests n = some r) (hmine : r.call.applicantId = applicantId) {p : Phase}
    (hp : r.progress = .running p) :
    Stmt.Agrees (resume (.request n) r.call p)
      (SameView applicantId own (s.ownsTx applicantId)) s.world s'.world := by
  obtain ⟨r', hr', hcall, hp'⟩ := hview.present n r hr hmine
  rw [hp] at hp'
  have hcur := h.link.session.present n r hr
  have hcur' := h'.link.session.present n r' hr'
  rw [hp] at hcur
  rw [hp', hcall] at hcur'
  have ht : s.ownsTx applicantId (.request n) = true :=
    (owns_of hr).trans (decide_eq_true hmine)
  have hwrites := inserts_writes h.writes hr (decide_eq_true hmine)
  have hkey (key : String) (hkey : r.call.key? = some key) : own key = true :=
    (hown n r hr key (idempotencyKey_of_key? hkey)).mpr hmine
  cases p with
  | redisGet key =>
      refine Stmt.Agrees.bind (R := SameView applicantId own (s.ownsTx applicantId))
        (Stmt.agrees_read (hview.world.redis key (hkey key hcur.2)).symm hview.world)
        (fun _ _ h => h) ?_
      intro existing u u' hu
      cases existing with
      | none => exact Stmt.agrees_pure hu
      | some existingId => exact Stmt.agrees_pure hu
  | getById existingId =>
      obtain ⟨hnothing, key, hckey, hholds⟩ := hcur
      simp only [resume]
      cases hparse : Uuid.parse existingId with
      | none => exact Stmt.agrees_raise hview.world
      | some loanId =>
          have hrows := filter_visible hview.world ht hwrites
            (p := fun m => m.id = loanId) fun m hm hid => by
              rw [Table.visible_of_writes_nil hnothing.loans] at hm
              exact isRow_of_holdsKey h.link.session hown (hkey key hckey) hholds hparse hm
                (of_decide_eq_true hid)
          refine Stmt.Agrees.bind (getById_agrees hview.world hrows) (fun _ _ h => h) ?_
          intro found u u' hu
          cases found with
          | none => exact Stmt.agrees_pure hu
          | some loan => exact Stmt.agrees_pure hu
  | existsActive =>
      simp only [resume, hmine]
      refine Stmt.Agrees.bind (existsActive_agrees hview.world ht hwrites) (fun _ _ h => h) ?_
      intro active u u' hu
      cases active with
      | true => exact Stmt.agrees_raise hu
      | false => exact Stmt.agrees_pure hu
  | saveLoan =>
      refine Stmt.Agrees.bind (save_agrees hview.world ht hwrites ?_ ?_) (fun _ _ h => h)
        fun _ u u' hu => Stmt.agrees_pure hu
      · intro m hm x hx a ha htx
        obtain ⟨k, q, m', rfl, hq, hm'⟩ := h.writes.loans x hx
        obtain rfl := Option.some.inj ha
        have hother : q.call.applicantId ≠ applicantId :=
          of_decide_eq_false ((owns_of hq).symm.trans htx)
        exact clash_of_apart h.link.session hr hq hmine hother (hown n r hr) (hown k q hq)
          (rowOf_of_toModel hm) (rowOf_of_toModel hm')
      · intro m hm a ha hrow
        obtain ⟨k, q, hq, hrowOf⟩ := h.link.session.rows a ha
        have hother : q.call.applicantId ≠ applicantId := by
          rw [← hrowOf.applicantId]
          exact of_decide_eq_false hrow
        exact clash_of_apart h.link.session hr hq hmine hother (hown n r hr) (hown k q hq)
          (rowOf_of_toModel hm) hrowOf
  | saveEvent =>
      have hevent : OutboxRepository.toModel (outboxEvent r.call.loan r.call.draws) ∈
          r.call.events := List.mem_cons_self ..
      refine Stmt.Agrees.bind (saveEvent_agrees hview.world
        (saveEvent_done h hr hp hevent ?_)
        (saveEvent_done h' hr' hp' (by rw [hcall]; exact hevent) ?_))
        (fun _ _ h => h) fun _ u u' hu => Stmt.agrees_pure hu
      · rw [hcur.events]
        exact fun _ hx => absurd hx List.not_mem_nil
      · rw [hcur'.events]
        exact fun _ hx => absurd hx List.not_mem_nil
  | saveStatusEvent =>
      have hevent : OutboxRepository.toModel (statusOutboxEvent r.call.loan r.call.draws) ∈
          r.call.events := List.mem_cons_of_mem _ (List.mem_cons_self ..)
      have hfirst {T : Table Tx OutboxEventModel}
          (hT : T.writes (.request n) = (r.call.events.take 1).map .insert)
          (e' : OutboxEventModel) (he' : Write.insert e' ∈ T.writes (.request n)) :
          e'.id ≠ (OutboxRepository.toModel (statusOutboxEvent r.call.loan r.call.draws)).id := by
        rw [hT] at he'
        obtain rfl := Write.insert.inj (List.mem_singleton.mp he')
        exact event_id_ne h hr
      refine Stmt.Agrees.bind (saveEvent_agrees hview.world
        (saveEvent_done h hr hp hevent (hfirst hcur.events))
        (saveEvent_done h' hr' hp' (by rw [hcall]; exact hevent) (hfirst hcur'.events)))
        (fun _ _ h => h) ?_
      intro _ u u' hu
      cases r.call.key? with
      | none => exact Stmt.agrees_pure hu
      | some key => exact Stmt.agrees_pure hu
  | acquire key =>
      refine Stmt.Agrees.bind (acquire_agrees hview.world (hkey key hcur.2)) (fun _ _ h => h)
        fun _ u u' hu => Stmt.agrees_pure hu

end Phases
section Steps
variable {v : Pydantic} {s s' t : State} {n : Nat} {r : Request} {applicantId : Uuid}
  {own : String → Bool}

/-- A request that moves keeps its owner. -/
theorem ownsTx_of_calls
    (hcalls : ∀ k, (t.requests k).map Request.call = (s.requests k).map Request.call) :
    t.ownsTx applicantId = s.ownsTx applicantId := by
  funext tx
  cases tx with
  | worker k => rfl
  | request k =>
      have hcall := hcalls k
      simp only [State.ownsTx, State.owns]
      cases hq : s.requests k with
      | none =>
          rw [hq, Option.map_none, Option.map_eq_none_iff] at hcall
          rw [hcall]
      | some q =>
          rw [hq, Option.map_some] at hcall
          obtain ⟨q', hq', hqcall⟩ := Option.map_eq_some_iff.mp hcall
          rw [hq', Option.any_some, Option.any_some, hqcall]

theorem calls_setRequest (hr : s.requests n = some r) (p : Progress)
    (g : List LoanApplicationModel) (k : Nat) :
    ((s.setRequest n ⟨r.call, p, g⟩).requests k).map Request.call =
      (s.requests k).map Request.call := by
  by_cases hk : k = n
  · subst hk
    simp only [State.setRequest, Function.update_self, hr, Option.map_some]
  · rw [setRequest_of_ne hk]

theorem View.moves (h : View applicantId own s s') (hr : s.requests n = some r)
    (hmine : r.call.applicantId = applicantId) (p : Progress) (g g' : List LoanApplicationModel)
    {w w' : World} (hworld : SameView applicantId own (s.ownsTx applicantId) w w') :
    View applicantId own { s.setRequest n ⟨r.call, p, g⟩ with world := w }
      { s'.setRequest n ⟨r.call, p, g'⟩ with world := w' } := by
  have howner : State.ownsTx { s.setRequest n ⟨r.call, p, g⟩ with world := w } applicantId =
      s.ownsTx applicantId := ownsTx_of_calls (calls_setRequest hr p g)
  refine ⟨?_, ?_, ?_, h.drawn⟩
  · intro k hk
    have hk' : s.owns applicantId k = false := (congrFun howner (.request k)).symm.trans hk
    have hne : k ≠ n := by
      rintro rfl
      rw [owns_of hr, decide_eq_true hmine] at hk'
      contradiction
    exact (setRequest_of_ne hne).trans (h.absent k hk')
  · intro k q hq hqmine
    by_cases hk : k = n
    · subst hk
      rw [← eq_of_setRequest hq]
      exact ⟨_, Function.update_self .., rfl, rfl⟩
    · obtain ⟨q', hq', hsame⟩ := h.present k q ((setRequest_of_ne hk).symm.trans hq) hqmine
      exact ⟨q', (setRequest_of_ne hk).trans hq', hsame⟩
  · rw [howner]
    exact hworld

/-- A step of the rest of the world. -/
theorem View.skips (h : View applicantId own s s')
    (howner : t.ownsTx applicantId = s.ownsTx applicantId)
    (hmine : ∀ k, s.owns applicantId k = true → t.requests k = s.requests k)
    (hloans : t.world.loans.restrict (isRow applicantId) (s.ownsTx applicantId) =
      s.world.loans.restrict (isRow applicantId) (s.ownsTx applicantId))
    (hredis : ∀ key, own key = true → t.world.redis (IdempotencyStore.redisKey key) =
      s.world.redis (IdempotencyStore.redisKey key))
    (hdrawn : ∀ u ∈ s.drawn, u ∈ t.drawn) : View applicantId own t s' := by
  refine ⟨?_, ?_, ⟨?_, ?_⟩, fun u hu => hdrawn u (h.drawn u hu)⟩
  · intro k hk
    exact h.absent k ((congrFun howner (.request k)).symm.trans hk)
  · intro k q hq hqmine
    have hk : s.owns applicantId k = true := by
      rw [← show t.owns applicantId k = s.owns applicantId k from congrFun howner (.request k),
        owns_of hq]
      exact decide_eq_true hqmine
    rw [hmine k hk] at hq
    exact h.present k q hq hqmine
  · rw [howner, hloans]
    exact h.world.loans
  · intro key hkey
    rw [hredis key hkey]
    exact h.world.redis key hkey

theorem SameView.commit {keepTx : Tx → Bool} {w w' : World}
    (h : SameView applicantId own keepTx w w') {tx : Tx} (ht : keepTx tx = true)
    (hown : Table.InsertsOnly (isRow applicantId) true (w.loans.writes tx)) :
    SameView applicantId own keepTx (w.commit tx) (w'.commit tx) := by
  refine ⟨?_, h.redis⟩
  simp only [World.commit, h.loans]
  exact (Table.restrict_commit ht hown).symm

theorem SameView.rollback {keepTx : Tx → Bool} {w w' : World}
    (h : SameView applicantId own keepTx w w') (tx : Tx) :
    SameView applicantId own keepTx (w.rollback tx) (w'.rollback tx) := by
  refine ⟨?_, h.redis⟩
  simp only [World.rollback, h.loans]
  exact Table.restrict_rollback.symm

theorem kept_request (h : Inv v s) (h' : Inv v s') (hview : View applicantId own s s')
    (hown : ∀ k q, s.requests k = some q → KeyOwner applicantId own q.call)
    (hkeeps : s.owns applicantId n = true) (hstep : requestStep s n = some t) :
    ∃ t', requestStep s' n = some t' ∧ View applicantId own t t' := by
  obtain ⟨r, hr, hmine⟩ := owns_eq_true hkeeps
  obtain ⟨r', hr', hcall, hprogress⟩ := hview.present n r hr hmine
  have ht : s.ownsTx applicantId (.request n) = true := hkeeps
  simp only [requestStep, hr] at hstep
  simp only [requestStep, hr', hprogress, hcall]
  cases hp : r.progress with
  | running p =>
      simp only [hp] at hstep
      have hagrees := resume_agrees h h' hview hown hr hmine hp
      cases hx : resume (.request n) r.call p s.world with
      | waits => simp [hx] at hstep
      | raises e w =>
          obtain ⟨w', hx', hworld⟩ := hagrees.of_raises hx
          simp only [hx, Option.some.injEq] at hstep
          subst hstep
          simp only [hx', Option.some.injEq, exists_eq_left']
          exact hview.moves hr hmine _ _ _ hworld
      | returns q w =>
          obtain ⟨w', hx', hworld⟩ := hagrees.of_returns hx
          simp only [hx, Option.some.injEq] at hstep
          subst hstep
          simp only [hx', Option.some.injEq, exists_eq_left']
          exact hview.moves hr hmine _ _ _ hworld
  | committing a =>
      simp only [hp, Option.some.injEq] at hstep
      subst hstep
      simp only [Option.some.injEq, exists_eq_left']
      exact hview.moves hr hmine _ _ _
        (hview.world.commit ht (inserts_writes h.writes hr (decide_eq_true hmine)))
  | aborting e =>
      simp only [hp, Option.some.injEq] at hstep
      subst hstep
      simp only [Option.some.injEq, exists_eq_left']
      exact hview.moves hr hmine _ _ _ (hview.world.rollback _)
  | returned a => simp [hp] at hstep
  | raised e => simp [hp] at hstep

theorem requestStep_eq_none_iff (hr : s.requests n = some r) {p : Phase}
    (hp : r.progress = .running p) :
    requestStep s n = none ↔ resume (.request n) r.call p s.world = .waits := by
  simp only [requestStep, hr, hp]
  cases resume (.request n) r.call p s.world with
  | waits => simp only
  | raises e w => simp only [reduceCtorEq]
  | returns q w => simp only [reduceCtorEq]

/-- The applicant's requests wait for each other only. -/
theorem waits_iff (h : Inv v s) (h' : Inv v s') (hview : View applicantId own s s')
    (hown : ∀ k q, s.requests k = some q → KeyOwner applicantId own q.call)
    (hkeeps : s.owns applicantId n = true) :
    requestStep s n = none ↔ requestStep s' n = none := by
  obtain ⟨r, hr, hmine⟩ := owns_eq_true hkeeps
  obtain ⟨r', hr', hcall, hprogress⟩ := hview.present n r hr hmine
  cases hp : r.progress with
  | running p =>
      rw [requestStep_eq_none_iff hr hp, requestStep_eq_none_iff hr' (hprogress.trans hp), hcall]
      exact (resume_agrees h h' hview hown hr hmine hp).waits_iff
  | committing a => simp only [requestStep, hr, hr', hprogress, hp, reduceCtorEq]
  | aborting e => simp only [requestStep, hr, hr', hprogress, hp, reduceCtorEq]
  | returned a => simp only [requestStep, hr, hr', hprogress, hp]
  | raised e => simp only [requestStep, hr, hr', hprogress, hp]

theorem kept_requestFails (hview : View applicantId own s s')
    (hkeeps : s.owns applicantId n = true) (hstep : requestFailStep s n = some t) :
    ∃ t', requestFailStep s' n = some t' ∧ View applicantId own t t' := by
  obtain ⟨r, hr, hmine⟩ := owns_eq_true hkeeps
  obtain ⟨r', hr', hcall, hprogress⟩ := hview.present n r hr hmine
  simp only [requestFailStep, hr] at hstep
  simp only [requestFailStep, hr', hprogress, hcall]
  cases hp : r.progress with
  | running p =>
      simp only [hp, Option.some.injEq] at hstep
      subst hstep
      simp only [Option.some.injEq, exists_eq_left']
      exact hview.moves hr hmine _ _ _ hview.world
  | committing a =>
      simp only [hp, Option.some.injEq] at hstep
      subst hstep
      simp only [Option.some.injEq, exists_eq_left']
      exact hview.moves hr hmine _ _ _ hview.world
  | aborting e => simp [hp] at hstep
  | returned a => simp [hp] at hstep
  | raised e => simp [hp] at hstep

/-- The pending inserts are of requests that have arrived. -/
theorem restrict_arrive (h : OpenWrites s) (hfree : s.requests n = none) {q : Request} :
    s.world.loans.restrict (isRow applicantId) ((s.setRequest n q).ownsTx applicantId) =
      s.world.loans.restrict (isRow applicantId) (s.ownsTx applicantId) := by
  simp only [Table.restrict, Table.mk.injEq, true_and]
  apply List.filter_congr
  intro x hx
  obtain ⟨k, p, m, rfl, hp, _⟩ := h.loans x hx
  have hk : k ≠ n := by
    rintro rfl
    rw [hfree] at hp
    contradiction
  simp only [State.ownsTx, State.owns, setRequest_of_ne hk]

theorem kept_arrive (h : Inv v s) (hview : View applicantId own s s') {c : CreateCall}
    (hmine : c.applicantId = applicantId) (hstep : arriveStep s n c = some t) :
    ∃ t', arriveStep s' n c = some t' ∧ View applicantId own t t' := by
  simp only [arriveStep] at hstep
  split at hstep
  · rename_i hguard
    obtain rfl := Option.some.inj hstep
    obtain ⟨hnone, hfresh⟩ := Bool.and_eq_true .. ▸ hguard
    have hfree : s.requests n = none := Option.isNone_iff_eq_none.mp hnone
    have hfree' : s'.requests n = none := by
      refine hview.absent n ?_
      simp only [State.owns, hfree, Option.any_none]
    have hfresh' : fresh s'.drawn c.draws.uuids = true := by
      simp only [fresh, Bool.and_eq_true, List.all_eq_true, decide_eq_true_eq] at hfresh ⊢
      exact ⟨hfresh.1, fun u hu hdrawn => hfresh.2 u hu (hview.drawn u hdrawn)⟩
    refine ⟨{ s'.setRequest n { call := c, progress := .running c.start }
      with drawn := c.draws.uuids ++ s'.drawn }, ?_, ?_, ?_, ⟨?_, hview.world.redis⟩, ?_⟩
    · simp only [arriveStep, hfree', hfresh', Option.isNone_none, Bool.and_self, if_true]
    · intro k hk
      have hne : k ≠ n := by
        rintro rfl
        rw [owns_of (r := { call := c, progress := .running c.start })
          (Function.update_self ..)] at hk
        exact of_decide_eq_false hk hmine
      refine (setRequest_of_ne hne).trans (hview.absent k ?_)
      rw [← hk]
      simp only [State.owns]
      rw [show (s.setRequest n _).requests k = s.requests k from setRequest_of_ne hne]
    · intro k q hq hqmine
      by_cases hk : k = n
      · subst hk
        rw [← eq_of_setRequest hq]
        exact ⟨_, Function.update_self .., rfl, rfl⟩
      · obtain ⟨q', hq', hsame⟩ :=
          hview.present k q ((setRequest_of_ne hk).symm.trans hq) hqmine
        exact ⟨q', (setRequest_of_ne hk).trans hq', hsame⟩
    · exact hview.world.loans.trans (restrict_arrive h.writes hfree).symm
    · intro u hu
      exact (List.mem_append.mp hu).elim (fun hnew => List.mem_append_left _ hnew)
        fun hold => List.mem_append_right _ (hview.drawn u hold)
  · contradiction

/-- What a request of another applicant does to the loans and to Redis. -/
theorem requestStep_elsewhere (h : Inv v s) (hr : s.requests n = some r)
    (hother : r.call.applicantId ≠ applicantId) (hown : KeyOwner applicantId own r.call)
    {fails : Bool} (hstep : RequestStep s n r fails t) :
    t.world.loans.restrict (isRow applicantId) (s.ownsTx applicantId) =
        s.world.loans.restrict (isRow applicantId) (s.ownsTx applicantId) ∧
      ∀ key, own key = true → t.world.redis (IdempotencyStore.redisKey key) =
        s.world.redis (IdempotencyStore.redisKey key) := by
  have ht : s.ownsTx applicantId (.request n) = false :=
    (owns_of hr).trans (decide_eq_false hother)
  have hcur := h.link.session.present n r hr
  cases hstep with
  | raises p e fails hp => exact ⟨rfl, fun _ _ => rfl⟩
  | commitFails a e hp => exact ⟨rfl, fun _ _ => rfl⟩
  | commits a hp =>
      refine ⟨?_, fun _ _ => rfl⟩
      exact Table.restrict_commit_other ht (inserts_writes h.writes hr (decide_eq_false hother))
  | rollsBack e hp => exact ⟨Table.restrict_rollback_other ht, fun _ _ => rfl⟩
  | next p q w hp hdoes =>
      rw [hp] at hcur
      cases p with
      | redisGet key => rw [hdoes.1]; exact ⟨rfl, fun _ _ => rfl⟩
      | getById existingId => rw [hdoes.1]; exact ⟨rfl, fun _ _ => rfl⟩
      | existsActive => rw [hdoes.1]; exact ⟨rfl, fun _ _ => rfl⟩
      | saveLoan =>
          obtain ⟨_, m, loans, _, hinsert, rfl⟩ := hdoes
          obtain rfl := (Table.insert_eq_done hinsert).1
          exact ⟨Table.restrict_write_other ht _, fun _ _ => rfl⟩
      | saveEvent =>
          obtain ⟨_, outbox, _, rfl⟩ := hdoes
          exact ⟨rfl, fun _ _ => rfl⟩
      | saveStatusEvent =>
          obtain ⟨_, outbox, _, rfl⟩ := hdoes
          exact ⟨rfl, fun _ _ => rfl⟩
      | acquire key =>
          obtain ⟨_, hloans, _, hredis⟩ := hdoes
          refine ⟨congrArg _ hloans, ?_⟩
          intro key' hkey'
          have hne : key' ≠ key := by
            rintro rfl
            exact hother ((hown key' (idempotencyKey_of_key? hcur.2)).mp hkey')
          change w.redis _ = _
          rw [hredis]
          exact Function.update_of_ne (fun heq => hne (redisKey_injective heq)) ..

theorem requestStep_calls (hr : s.requests n = some r) {fails : Bool}
    (hstep : RequestStep s n r fails t) (k : Nat) :
    (t.requests k).map Request.call = (s.requests k).map Request.call := by
  cases hstep with
  | next p q w hp hdoes => exact calls_setRequest hr _ _ k
  | raises p e fails hp => exact calls_setRequest hr _ _ k
  | commitFails a e hp => exact calls_setRequest hr _ _ k
  | commits a hp => exact calls_setRequest hr _ _ k
  | rollsBack e hp => exact calls_setRequest hr _ _ k

theorem skipped_request (h : Inv v s) (hview : View applicantId own s s')
    (hown : ∀ k q, s.requests k = some q → KeyOwner applicantId own q.call)
    (hr : s.requests n = some r) (hskips : s.owns applicantId n = false) {fails : Bool}
    (hstep : RequestStep s n r fails t) : View applicantId own t s' := by
  have hother : r.call.applicantId ≠ applicantId :=
    of_decide_eq_false ((owns_of hr).symm.trans hskips)
  obtain ⟨hloans, hredis⟩ := requestStep_elsewhere h hr hother (hown n r hr) hstep
  refine hview.skips (ownsTx_of_calls (requestStep_calls hr hstep)) ?_ hloans hredis ?_
  · intro k hk
    refine hstep.requests.2 k ?_
    rintro rfl
    rw [hskips] at hk
    contradiction
  · rw [hstep.frame.2.2.2.1]
    exact fun _ hu => hu

theorem skipped_arrive (hview : View applicantId own s s') {c : CreateCall}
    (hother : c.applicantId ≠ applicantId) (hstep : arriveStep s n c = some t) :
    View applicantId own t s' := by
  simp only [arriveStep] at hstep
  split at hstep
  · rename_i hguard
    obtain rfl := Option.some.inj hstep
    rw [Bool.and_eq_true, Option.isNone_iff_eq_none] at hguard
    refine hview.skips ?_ ?_ rfl (fun _ _ => rfl) fun _ hu => List.mem_append_right _ hu
    · funext tx
      cases tx with
      | worker k => rfl
      | request k =>
          simp only [State.ownsTx, State.owns]
          by_cases hk : k = n
          · subst hk
            simp [State.setRequest, hguard.1, hother]
          · rw [setRequest_of_ne hk]
    · intro k hk
      refine setRequest_of_ne ?_
      rintro rfl
      simp [State.owns, hguard.1] at hk
  · contradiction

theorem skipped_worker (hview : View applicantId own s s') {l : WorkerLabel}
    (hstep : WorkerStep v s n l t) : View applicantId own t s' := by
  obtain ⟨hloans, hredis, hrequests⟩ := hstep.frame
  refine hview.skips ?_ ?_ (congrArg _ hloans) (fun _ _ => by rw [hredis]) hstep.drawn
  · exact ownsTx_of_calls fun k => by rw [hrequests]
  · exact fun k _ => by rw [hrequests]

end Steps

section Runs
variable {v : Pydantic} {applicantId : Uuid} {own : String → Bool}

/-- Two states that the applicant cannot tell apart. -/
structure Alike (v : Pydantic) (applicantId : Uuid) (own : String → Bool) (s s' : State) :
    Prop where
  inv : Inv v s
  inv' : Inv v s'
  owner : ∀ k q, s.requests k = some q → KeyOwner applicantId own q.call
  view : View applicantId own s s'

def ArrivesApart (applicantId : Uuid) (own : String → Bool) (l : Label) : Prop :=
  ∀ n c, l = .arrive n c → KeyOwner applicantId own c

theorem owner_step {s t : State} {l : Label}
    (h : ∀ k q, s.requests k = some q → KeyOwner applicantId own q.call)
    (hl : ArrivesApart applicantId own l) (hstep : Loan.step v s l = some t) :
    ∀ k q, t.requests k = some q → KeyOwner applicantId own q.call := by
  have hmoves {n : Nat} {r : Request} {fails : Bool} (hr : s.requests n = some r)
      (hcase : RequestStep s n r fails t) (k : Nat) (q : Request)
      (hq : t.requests k = some q) : KeyOwner applicantId own q.call := by
    obtain ⟨p, hp, hcall⟩ := (hcase.calls hr (k := k)).1 q hq
    rw [hcall]
    exact h k p hp
  cases l with
  | arrive n c =>
      simp only [Loan.step, arriveStep] at hstep
      split at hstep
      · obtain rfl := Option.some.inj hstep
        intro k q hq
        by_cases hk : k = n
        · subst hk
          rw [← eq_of_setRequest hq]
          exact hl k c rfl
        · exact h k q ((setRequest_of_ne hk).symm.trans hq)
      · contradiction
  | request n =>
      obtain ⟨r, hr, hcase⟩ := requestStep_cases hstep
      exact hmoves hr hcase
  | requestFails n =>
      obtain ⟨r, hr, hcase⟩ := requestFailStep_cases hstep
      exact hmoves hr hcase
  | expire key =>
      obtain rfl := Option.some.inj hstep
      exact h
  | worker n l =>
      rw [(workerStep_cases hstep).frame.2.2]
      exact h

/-- The applicant's steps are possible on both sides, and the others' change nothing
that the applicant sees. -/
theorem unwinds (v : Pydantic) (applicantId : Uuid) (own : String → Bool) :
    Runs.Unwinds (step v) (isOwnStep applicantId) (ArrivesApart applicantId own)
      (Alike v applicantId own) := by
  refine ⟨?_, ?_⟩
  · intro s s' l t halike hl hkeeps hstep
    have hinv := halike.inv.step hstep
    have howner := owner_step halike.owner hl hstep
    have hboth : ∃ t', step v s' l = some t' ∧ View applicantId own t t' := by
      cases l with
      | arrive n c => exact kept_arrive halike.inv halike.view (of_decide_eq_true hkeeps) hstep
      | request n =>
          exact kept_request halike.inv halike.inv' halike.view halike.owner hkeeps hstep
      | requestFails n => exact kept_requestFails halike.view hkeeps hstep
      | expire key =>
          obtain rfl := Option.some.inj hstep
          refine ⟨_, rfl, halike.view.absent, halike.view.present, ⟨halike.view.world.loans, ?_⟩,
            halike.view.drawn⟩
          intro key' hkey'
          simp only [Function.update_apply, halike.view.world.redis key' hkey']
      | worker n l => contradiction
    obtain ⟨t', hstep', hview⟩ := hboth
    exact ⟨t', hstep', hinv, halike.inv'.step hstep', howner, hview⟩
  · intro s s' l t halike hl hskips hstep
    refine ⟨halike.inv.step hstep, halike.inv', owner_step halike.owner hl hstep, ?_⟩
    cases l with
    | arrive n c => exact skipped_arrive halike.view (of_decide_eq_false hskips) hstep
    | request n =>
        obtain ⟨r, hr, hcase⟩ := requestStep_cases hstep
        exact skipped_request halike.inv halike.view halike.owner hr hskips hcase
    | requestFails n =>
        obtain ⟨r, hr, hcase⟩ := requestFailStep_cases hstep
        exact skipped_request halike.inv halike.view halike.owner hr hskips hcase
    | expire key => contradiction
    | worker n l => exact skipped_worker halike.view (workerStep_cases hstep)

theorem Alike.init (v : Pydantic) (applicantId : Uuid) (own : String → Bool) :
    Alike v applicantId own .init .init := by
  refine ⟨.init v, .init v, fun _ _ h => absurd h nofun, ?_, fun _ _ h => absurd h nofun,
    ⟨rfl, fun _ _ => rfl⟩, fun _ hu => hu⟩
  exact fun _ _ => rfl

theorem Alike.isolated {s s' : State} (halike : Alike v applicantId own s s') :
    Isolated applicantId s s' := by
  have h := halike.view
  refine ⟨?_, h.present, fun n hn => waits_iff halike.inv halike.inv' h halike.owner hn, ?_⟩
  · intro n r' hr'
    cases hn : s.owns applicantId n with
    | false =>
        rw [h.absent n hn] at hr'
        contradiction
    | true =>
        obtain ⟨r, hr, hmine⟩ := owns_eq_true hn
        obtain ⟨q, hq, hcall, _⟩ := h.present n r hr hmine
        obtain rfl := Option.some.inj (hr'.symm.trans hq)
        rw [hcall, hmine]
  · rw [h.world.loans]
    rfl

/-- The keys that the applicant's calls carry. -/
def keysOf (applicantId : Uuid) (ls : List Label) (key : String) : Bool :=
  ls.any fun l =>
    match l with
    | .arrive _ c => c.applicantId = applicantId && c.idempotencyKey = some key
    | _ => false

theorem arrivesApart_of_keysApart {ls : List Label} (h : KeysApart applicantId ls) :
    ∀ l ∈ ls, ArrivesApart applicantId (keysOf applicantId ls) l := by
  rintro l hl n c rfl key hkey
  constructor
  · intro hown
    obtain ⟨l, hl', hc'⟩ := List.any_eq_true.mp hown
    cases l with
    | arrive k d =>
        obtain ⟨hmine, hdkey⟩ := Bool.and_eq_true .. ▸ hc'
        by_contra hother
        exact h k d n c key hl' hl (of_decide_eq_true hmine) hother (of_decide_eq_true hdkey) hkey
    | request _ => contradiction
    | requestFails _ => contradiction
    | expire _ => contradiction
    | worker _ _ => contradiction
  · intro hmine
    exact List.any_eq_true.mpr ⟨_, hl, by simp [hmine, hkey]⟩

end Runs
end Isolation

/-- Take the other applicants and the workers out of a run: what is left is a run, and
the applicant's requests end in it with the same responses and errors. -/
theorem isolated_of_run (v : Pydantic) (applicantId : Uuid) {ls : List Label} {s : State}
    (hapart : KeysApart applicantId ls) (hrun : Runs.run (step v) .init ls = some s) :
    ∃ s', Runs.run (step v) .init
        (Runs.purge (step v) (isOwnStep applicantId) .init ls) = some s' ∧
      Isolated applicantId s s' := by
  obtain ⟨s', hrun', halike⟩ := (Isolation.unwinds v applicantId _).run
    (Isolation.Alike.init v applicantId _) (Isolation.arrivesApart_of_keysApart hapart) hrun
  exact ⟨s', hrun', halike.isolated⟩

section Interleaved

/-- Two applicants create a loan at the same time, next to an outbox worker. -/
def interleaved : List Label :=
  [.arrive 0 (.sample ⟨100⟩ (some "a") 1), .arrive 1 (.sample ⟨200⟩ (some "b") 4),
    .worker 0 .start] ++
    (List.replicate 7 [.request 0, .request 1]).flatten ++
    [.worker 0 (.select [⟨2⟩, ⟨3⟩, ⟨5⟩, ⟨6⟩]), .worker 0 .lock]

theorem arrive_interleaved {n : Nat} {c : CreateCall} (h : Label.arrive n c ∈ interleaved) :
    c = .sample ⟨100⟩ (some "a") 1 ∨ c = .sample ⟨200⟩ (some "b") 4 := by
  simp only [interleaved, List.replicate, List.flatten_cons, List.flatten_nil, List.cons_append,
    List.nil_append, List.mem_cons, Label.arrive.injEq, reduceCtorEq, List.not_mem_nil,
    or_false] at h
  exact h.imp And.right And.right

theorem isolated_interleaved : ∃ s, Runs.run (step .strict) .init interleaved = some s ∧
    s.world.loans.committed.length = 2 ∧
    ∃ s', Runs.run (step .strict) .init
        (Runs.purge (step .strict) (isOwnStep ⟨100⟩) .init interleaved) = some s' ∧
      Isolated ⟨100⟩ s s' := by
  have heval : (Runs.run (step Pydantic.strict) .init interleaved).map
      (fun s => s.world.loans.committed.length) = some 2 := by decide +kernel
  obtain ⟨s, hrun, htwo⟩ := Option.map_eq_some_iff.mp heval
  have hapart : KeysApart ⟨100⟩ interleaved := by
    intro n c k d key hc hd hmine hother hkey
    have hc' : c = .sample ⟨100⟩ (some "a") 1 := by
      refine (arrive_interleaved hc).resolve_right ?_
      rintro rfl
      exact absurd hmine (by decide)
    have hd' : d = .sample ⟨200⟩ (some "b") 4 := by
      refine (arrive_interleaved hd).resolve_left ?_
      rintro rfl
      exact hother rfl
    subst hc' hd'
    obtain rfl : "a" = key := Option.some.inj hkey
    decide
  exact ⟨s, hrun, htwo, isolated_of_run .strict ⟨100⟩ hapart hrun⟩

end Interleaved

end CrediGuard.Loan
