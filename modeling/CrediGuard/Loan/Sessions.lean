import CrediGuard.Loan.Service

/-!
What the open requests have written, and where stored loans, keys and responses
come from.

A request that has left its guard has written its loan and then its two events,
and nothing of that is committed before its commit. Every stored row is the loan
of a request, every key in Redis names the loan of a request that was given the
key, and a response is about a stored row of its key.
-/

namespace CrediGuard.Loan
open ReadCommitted

/-- Request `n` has no open writes. -/
structure WroteNothing (w : World) (n : Nat) : Prop where
  loans : w.loans.writes (.request n) = []
  outbox : w.outbox.writes (.request n) = []

/-- The outbox rows of a call, in the order it inserts them. -/
def CreateCall.events (c : CreateCall) : List OutboxEventModel :=
  [OutboxRepository.toModel (outboxEvent c.loan c.draws),
    OutboxRepository.toModel (statusOutboxEvent c.loan c.draws)]

/-- Request `n` has inserted its loan and the first `k` of its events. -/
structure Wrote (w : World) (n : Nat) (c : CreateCall) (k : Nat) : Prop where
  loan : ∃ m, LoanRepository.toModel c.loan = some m ∧ w.loans.writes (.request n) = [.insert m]
  events : w.outbox.writes (.request n) = (c.events.take k).map .insert

/-- The value is the id of the loan of a request that was given the key. -/
def HoldsKey (s : State) (key value : String) : Prop :=
  ∃ n r, s.requests n = some r ∧ r.call.key? = some key ∧ value = r.call.loan.id.str

/-- A response to a call with a key is about a stored row of that key. -/
def Answers (s : State) (c : CreateCall) (a : LoanApplicationResponse) : Prop :=
  ∀ key, c.key? = some key → ∃ m ∈ s.world.loans.committed,
    m.idempotencyKey = some key ∧ a.id = m.id

def Progress.Session (s : State) (n : Nat) (c : CreateCall) : Progress → Prop
  | .running (.redisGet key) => WroteNothing s.world n ∧ c.key? = some key
  | .running (.getById existingId) => WroteNothing s.world n ∧
      ∃ key, c.key? = some key ∧ HoldsKey s key existingId
  | .running .existsActive => WroteNothing s.world n
  | .running .saveLoan => WroteNothing s.world n
  | .running .saveEvent => Wrote s.world n c 0
  | .running .saveStatusEvent => Wrote s.world n c 1
  | .running (.acquire key) => Wrote s.world n c 2 ∧ c.key? = some key
  | .committing a => (WroteNothing s.world n ∧ Answers s c a) ∨
      (Wrote s.world n c 2 ∧ a = LoanApplicationResponse.modelValidate c.loan)
  | .aborting _ => True
  | .returned a => WroteNothing s.world n ∧ Answers s c a
  | .raised _ => WroteNothing s.world n

/-- The row stores the loan of a request, whatever its status is by now. -/
structure RowOf (m : LoanApplicationModel) (c : CreateCall) : Prop where
  id : m.id = c.loan.id
  applicantId : m.applicantId = c.applicantId
  idempotencyKey : m.idempotencyKey = c.idempotencyKey

structure SessionInv (s : State) : Prop where
  absent : ∀ n, s.requests n = none → WroteNothing s.world n
  present : ∀ n r, s.requests n = some r → r.progress.Session s n r.call
  drawn : ∀ n r, s.requests n = some r → r.call.draws.loanId ∈ s.drawn
  distinct : ∀ n k r q, s.requests n = some r → s.requests k = some q →
    r.call.draws.loanId = q.call.draws.loanId → n = k
  rows : ∀ m ∈ s.world.loans.committed, ∃ n r, s.requests n = some r ∧ RowOf m r.call
  redis : ∀ key value, s.world.redis (IdempotencyStore.redisKey key) = some value →
    HoldsKey s key value
  unique : s.world.loans.Unique LoanApplicationModel.clash

/-- Requests and stored rows stay. -/
structure Evolves (s s' : State) : Prop where
  calls : ∀ n r, s.requests n = some r → ∃ r', s'.requests n = some r' ∧ r'.call = r.call
  rows : ∀ m ∈ s.world.loans.committed, ∃ m' ∈ s'.world.loans.committed,
    m'.id = m.id ∧ m'.idempotencyKey = m.idempotencyKey

structure SameWrites (w w' : World) (n : Nat) : Prop where
  loans : w'.loans.writes (.request n) = w.loans.writes (.request n)
  outbox : w'.outbox.writes (.request n) = w.outbox.writes (.request n)

section Mono
variable {s s' : State} {n : Nat} {c : CreateCall}

theorem rowOf_of_toModel {m : LoanApplicationModel} (h : LoanRepository.toModel c.loan = some m) :
    RowOf m c := by
  obtain ⟨hid, happlicant, _, hkey, _⟩ := toModel_eq_some h
  exact ⟨hid, happlicant, hkey⟩

theorem WroteNothing.mono {w w' : World} (h : WroteNothing w n) (hsame : SameWrites w w' n) :
    WroteNothing w' n :=
  ⟨hsame.loans.trans h.loans, hsame.outbox.trans h.outbox⟩

theorem Wrote.mono {w w' : World} {k : Nat} (h : Wrote w n c k) (hsame : SameWrites w w' n) :
    Wrote w' n c k := by
  obtain ⟨m, hm, hws⟩ := h.loan
  exact ⟨⟨m, hm, hsame.loans.trans hws⟩, hsame.outbox.trans h.events⟩

theorem HoldsKey.mono {key value : String} (h : HoldsKey s key value) (hev : Evolves s s') :
    HoldsKey s' key value := by
  obtain ⟨k, r, hr, hkey, hvalue⟩ := h
  obtain ⟨r', hr', hcall⟩ := hev.calls k r hr
  exact ⟨k, r', hr', hcall ▸ hkey, hcall ▸ hvalue⟩

theorem Answers.mono {a : LoanApplicationResponse} (h : Answers s c a) (hev : Evolves s s') :
    Answers s' c a := by
  intro key hkey
  obtain ⟨m, hm, hmkey, hid⟩ := h key hkey
  obtain ⟨m', hm', hid', hmkey'⟩ := hev.rows m hm
  exact ⟨m', hm', hmkey'.trans hmkey, hid.trans hid'.symm⟩

theorem Progress.Session.mono {p : Progress} (h : p.Session s n c) (hev : Evolves s s')
    (hsame : SameWrites s.world s'.world n) : p.Session s' n c := by
  cases p with
  | running p =>
      cases p with
      | redisGet key => exact ⟨h.1.mono hsame, h.2⟩
      | getById existingId =>
          obtain ⟨hnothing, key, hkey, hholds⟩ := h
          exact ⟨hnothing.mono hsame, key, hkey, hholds.mono hev⟩
      | existsActive => exact WroteNothing.mono h hsame
      | saveLoan => exact WroteNothing.mono h hsame
      | saveEvent => exact Wrote.mono h hsame
      | saveStatusEvent => exact Wrote.mono h hsame
      | acquire key => exact ⟨h.1.mono hsame, h.2⟩
  | committing a =>
      exact h.imp (fun h => ⟨h.1.mono hsame, h.2.mono hev⟩) fun h => ⟨h.1.mono hsame, h.2⟩
  | aborting e => trivial
  | returned a => exact ⟨h.1.mono hsame, h.2.mono hev⟩
  | raised e => exact WroteNothing.mono h hsame

end Mono

section Step
variable {v : Pydantic} {s s' : State} {n : Nat} {r r' : Request}

/-- Whatever a request was doing, its writes are inserts. -/
theorem SessionInv.keeps (h : SessionInv s) (hr : s.requests n = some r)
    {a : LoanApplicationResponse} (hp : r.progress = .committing a) :
    Keeps LoanApplicationModel.clash (s.world.loans.writes (.request n)) := by
  have hcur := h.present n r hr
  rw [hp] at hcur
  intro f hf
  cases hcur with
  | inl hnothing =>
      rw [hnothing.1.loans] at hf
      exact absurd hf List.not_mem_nil
  | inr hwrote =>
      obtain ⟨m, _, hws⟩ := hwrote.1.loan
      rw [hws, List.mem_singleton] at hf
      exact absurd hf nofun

/-- Request `n` moves: what it may change, and what has to hold of it afterwards. -/
theorem SessionInv.moves (h : SessionInv s) (hr : s.requests n = some r)
    (hcall : r'.call = r.call)
    (hrequests : s'.requests = Function.update s.requests n (some r'))
    (hdrawn : s'.drawn = s.drawn)
    (hrows : ∀ m ∈ s.world.loans.committed, m ∈ s'.world.loans.committed)
    (hnew : ∀ m ∈ s'.world.loans.committed, m ∈ s.world.loans.committed ∨
      LoanRepository.toModel r.call.loan = some m)
    (hredis : ∀ key value, s'.world.redis (IdempotencyStore.redisKey key) = some value →
      s.world.redis (IdempotencyStore.redisKey key) = some value ∨
        (r.call.key? = some key ∧ value = r.call.loan.id.str))
    (hwrites : ∀ k, n ≠ k → SameWrites s.world s'.world k)
    (hunique : s'.world.loans.Unique LoanApplicationModel.clash)
    (hn : Evolves s s' → r'.progress.Session s' n r.call) : SessionInv s' := by
  have hat : s'.requests n = some r' := by rw [hrequests, Function.update_self]
  have hother (k : Nat) (hk : n ≠ k) : s'.requests k = s.requests k := by
    rw [hrequests, Function.update_of_ne (Ne.symm hk)]
  -- the calls of the requests are what they were
  have hback (k : Nat) (q : Request) (hq : s'.requests k = some q) :
      ∃ q₀, s.requests k = some q₀ ∧ q₀.call = q.call := by
    by_cases hk : n = k
    · subst hk
      obtain rfl := Option.some.inj (hat.symm.trans hq)
      exact ⟨r, hr, hcall.symm⟩
    · exact ⟨q, (hother k hk).symm.trans hq, rfl⟩
  have hev : Evolves s s' := by
    refine ⟨?_, fun m hm => ⟨m, hrows m hm, rfl, rfl⟩⟩
    intro k q hq
    by_cases hk : n = k
    · subst hk
      obtain rfl := Option.some.inj (hr.symm.trans hq)
      exact ⟨r', hat, hcall⟩
    · exact ⟨q, (hother k hk).trans hq, rfl⟩
  refine ⟨?_, ?_, ?_, ?_, ?_, ?_, hunique⟩
  · intro k hk
    by_cases hkn : n = k
    · subst hkn
      rw [hat] at hk
      exact absurd hk nofun
    · exact (h.absent k ((hother k hkn).symm.trans hk)).mono (hwrites k hkn)
  · intro k q hq
    by_cases hkn : n = k
    · subst hkn
      obtain rfl := Option.some.inj (hat.symm.trans hq)
      rw [hcall]
      exact hn hev
    · exact (h.present k q ((hother k hkn).symm.trans hq)).mono hev (hwrites k hkn)
  · intro k q hq
    obtain ⟨q₀, hq₀, hqcall⟩ := hback k q hq
    rw [hdrawn, ← hqcall]
    exact h.drawn k q₀ hq₀
  · intro k l q p hq hp heq
    obtain ⟨q₀, hq₀, hqcall⟩ := hback k q hq
    obtain ⟨p₀, hp₀, hpcall⟩ := hback l p hp
    refine h.distinct k l q₀ p₀ hq₀ hp₀ ?_
    rw [hqcall, hpcall]
    exact heq
  · intro m hm
    cases hnew m hm with
    | inl hold =>
        obtain ⟨k, q, hq, hrow⟩ := h.rows m hold
        obtain ⟨q', hq', hqcall⟩ := hev.calls k q hq
        exact ⟨k, q', hq', hqcall ▸ hrow⟩
    | inr hmine => exact ⟨n, r', hat, hcall ▸ rowOf_of_toModel hmine⟩
  · intro key value hvalue
    cases hredis key value hvalue with
    | inl hold => exact (h.redis key value hold).mono hev
    | inr hmine => exact ⟨n, r', hat, hcall ▸ hmine.1, hcall ▸ hmine.2⟩

theorem sameWrites_write_loans {w : World} {k : Nat} (hk : n ≠ k)
    (x : Write LoanApplicationModel) :
    SameWrites w { w with loans := w.loans.write (.request n) x } k :=
  ⟨Table.writes_write_of_ne _ _ (by simpa using hk), rfl⟩

theorem sameWrites_write_outbox {w : World} {k : Nat} (hk : n ≠ k) (x : Write OutboxEventModel) :
    SameWrites w { w with outbox := w.outbox.write (.request n) x } k :=
  ⟨rfl, Table.writes_write_of_ne _ _ (by simpa using hk)⟩

/-- The row a replay has found is the loan of the request the key names. -/
theorem SessionInv.answers (h : SessionInv s) (hnothing : WroteNothing s.world n)
    {c : CreateCall} {key existingId : String} (hkey : c.key? = some key)
    (hholds : HoldsKey s key existingId) {loanId : Uuid} {loan : LoanApplication}
    (hparse : Uuid.parse existingId = some loanId)
    (hfound : Found (.request n) s.world loanId (some loan)) :
    Answers s c (LoanApplicationResponse.modelValidate loan) := by
  obtain ⟨k, q, hq, hqkey, rfl⟩ := hholds
  obtain rfl : q.call.loan.id = loanId := by simpa [Uuid.parse_str] using hparse
  obtain ⟨m, hrows, hentity⟩ := hfound
  rw [Table.visible_of_writes_nil hnothing.loans] at hrows
  have hmem : m ∈ s.world.loans.committed.filter fun x => x.id = q.call.loan.id := by
    rw [hrows]
    exact List.mem_singleton.mpr rfl
  obtain ⟨hm, hid⟩ := List.mem_filter.mp hmem
  obtain ⟨l, p, hp, hrow⟩ := h.rows m hm
  have hsame : p.call.draws.loanId = q.call.draws.loanId :=
    hrow.id.symm.trans (of_decide_eq_true hid)
  obtain rfl := h.distinct l k p q hp hq hsame
  obtain rfl := Option.some.inj (hp.symm.trans hq)
  intro key' hkey'
  obtain rfl := Option.some.inj (hkey.symm.trans hkey')
  exact ⟨m, hm, hrow.idempotencyKey.trans (idempotencyKey_of_key? hqkey),
    (toEntity_eq_ok hentity).1⟩

/-- The state after a statement of request `n`. -/
def State.proceed (s : State) (n : Nat) (r : Request) (q : Phase ⊕ LoanApplicationResponse)
    (guardRead : List LoanApplicationModel) (w : World) : State :=
  { s.setRequest n { r with progress := Phase.after q, guardRead := guardRead } with world := w }

section Phases
variable {q : Phase ⊕ LoanApplicationResponse} {w : World} {guardRead : List LoanApplicationModel}

/-- The statement writes nothing to the tables. -/
theorem SessionInv.reads (h : SessionInv s) (hr : s.requests n = some r)
    (hloans : w.loans = s.world.loans) (houtbox : w.outbox = s.world.outbox)
    (hredis : ∀ key value, w.redis (IdempotencyStore.redisKey key) = some value →
      s.world.redis (IdempotencyStore.redisKey key) = some value ∨
        (r.call.key? = some key ∧ value = r.call.loan.id.str))
    (hn : (Phase.after q).Session s n r.call) : SessionInv (s.proceed n r q guardRead w) := by
  have hsame (k : Nat) : SameWrites s.world w k := by
    refine ⟨?_, ?_⟩
    · rw [hloans]
    · rw [houtbox]
  refine h.moves (n := n) hr ?_ rfl rfl ?_ ?_ hredis (fun k _ => hsame k) ?_ ?_
  · rfl
  · intro m hm
    rw [← hloans] at hm
    exact hm
  · intro m hm
    exact .inl (hloans ▸ hm)
  · change w.loans.Unique _
    rw [hloans]
    exact h.unique
  · exact fun hev => hn.mono hev (hsame n)

theorem SessionInv.redisGet (h : SessionInv s) (hr : s.requests n = some r) {key : String}
    (hp : r.progress = .running (.redisGet key))
    (hdoes : Does (.request n) r.call s.world (.redisGet key) q w) :
    SessionInv (s.proceed n r q guardRead w) := by
  have hcur := h.present n r hr
  rw [hp] at hcur
  obtain ⟨hnothing, hkey⟩ := hcur
  obtain ⟨rfl, rfl⟩ := hdoes
  refine h.reads hr rfl rfl (fun _ _ h => .inl h) ?_
  cases hvalue : s.world.redis (IdempotencyStore.redisKey key) with
  | none => exact hnothing
  | some existingId => exact ⟨hnothing, key, hkey, h.redis key existingId hvalue⟩

theorem SessionInv.getById (h : SessionInv s) (hr : s.requests n = some r) {existingId : String}
    (hp : r.progress = .running (.getById existingId))
    (hdoes : Does (.request n) r.call s.world (.getById existingId) q w) :
    SessionInv (s.proceed n r q guardRead w) := by
  have hcur := h.present n r hr
  rw [hp] at hcur
  obtain ⟨hnothing, key, hkey, hholds⟩ := hcur
  obtain ⟨rfl, loanId, found, hparse, hfound, rfl⟩ := hdoes
  refine h.reads hr rfl rfl (fun _ _ h => .inl h) ?_
  cases found with
  | none => exact hnothing
  | some loan => exact .inl ⟨hnothing, h.answers hnothing hkey hholds hparse hfound⟩

/-- The first insert of a request is its loan. -/
theorem SessionInv.saveLoan (h : SessionInv s) (hr : s.requests n = some r)
    (hp : r.progress = .running .saveLoan)
    (hdoes : Does (.request n) r.call s.world .saveLoan q w) :
    SessionInv (s.proceed n r q guardRead w) := by
  have hcur : WroteNothing s.world n := by
    have hsession := h.present n r hr
    rwa [hp] at hsession
  obtain ⟨rfl, m, loans, hm, hinsert, rfl⟩ := hdoes
  have hkeeps : Keeps LoanApplicationModel.clash (s.world.loans.writes (.request n)) := by
    rw [hcur.loans]
    exact fun f hf => absurd hf List.not_mem_nil
  have hunique := h.unique.insert LoanApplicationModel.clash_comm hkeeps hinsert
  obtain ⟨rfl, _, _⟩ := Table.insert_eq_done hinsert
  refine h.moves (n := n) hr ?_ rfl rfl (fun m hm => hm) (fun m hm => .inl hm)
    (fun _ _ h => .inl h) (fun k hk => sameWrites_write_loans hk _) hunique ?_
  · rfl
  · intro _
    refine ⟨⟨m, hm, ?_⟩, hcur.outbox⟩
    exact (Table.writes_write_self ..).trans (by rw [hcur.loans, List.nil_append])

/-- The outbox row of a request is inserted behind those it has inserted. -/
theorem SessionInv.savesEvent (h : SessionInv s) (hr : s.requests n = some r)
    {x : Write OutboxEventModel} (hn : (Phase.after q).Session
      (s.proceed n r q guardRead
        { s.world with outbox := s.world.outbox.write (.request n) x }) n r.call) :
    SessionInv (s.proceed n r q guardRead
      { s.world with outbox := s.world.outbox.write (.request n) x }) := by
  refine h.moves (n := n) hr ?_ rfl rfl (fun m hm => hm) (fun m hm => .inl hm)
    (fun _ _ h => .inl h) (fun k hk => sameWrites_write_outbox hk _) h.unique fun _ => hn
  rfl

theorem SessionInv.saveEvent (h : SessionInv s) (hr : s.requests n = some r)
    (hp : r.progress = .running .saveEvent)
    (hdoes : Does (.request n) r.call s.world .saveEvent q w) :
    SessionInv (s.proceed n r q guardRead w) := by
  have hcur : Wrote s.world n r.call 0 := by
    have hsession := h.present n r hr
    rwa [hp] at hsession
  obtain ⟨rfl, outbox, hinsert, rfl⟩ := hdoes
  obtain ⟨rfl, _, _⟩ := Table.insert_eq_done hinsert
  refine h.savesEvent hr ⟨hcur.loan, ?_⟩
  exact (Table.writes_write_self ..).trans (by rw [hcur.events]; rfl)

theorem SessionInv.saveStatusEvent (h : SessionInv s) (hr : s.requests n = some r)
    (hp : r.progress = .running .saveStatusEvent)
    (hdoes : Does (.request n) r.call s.world .saveStatusEvent q w) :
    SessionInv (s.proceed n r q guardRead w) := by
  have hcur : Wrote s.world n r.call 1 := by
    have hsession := h.present n r hr
    rwa [hp] at hsession
  obtain ⟨rfl, outbox, hinsert, rfl⟩ := hdoes
  obtain ⟨rfl, _, _⟩ := Table.insert_eq_done hinsert
  have hevents : (s.world.outbox.write (.request n) (.insert (OutboxRepository.toModel
      (statusOutboxEvent r.call.loan r.call.draws)))).writes (.request n) =
        (r.call.events.take 2).map .insert :=
    (Table.writes_write_self ..).trans (by rw [hcur.events]; rfl)
  refine h.savesEvent hr ?_
  cases hkey : r.call.key? with
  | none => exact .inr ⟨⟨hcur.loan, hevents⟩, rfl⟩
  | some key => exact ⟨⟨hcur.loan, hevents⟩, hkey⟩

/-- `SET NX`: the key keeps what it holds, or gets the id of the loan of the request. -/
theorem SessionInv.acquire (h : SessionInv s) (hr : s.requests n = some r) {key : String}
    (hp : r.progress = .running (.acquire key))
    (hdoes : Does (.request n) r.call s.world (.acquire key) q w) :
    SessionInv (s.proceed n r q guardRead w) := by
  have hcur := h.present n r hr
  rw [hp] at hcur
  obtain ⟨hwrote, hkey⟩ := hcur
  obtain ⟨rfl, hloans, houtbox, hredis⟩ := hdoes
  refine h.reads hr hloans houtbox ?_ (.inr ⟨hwrote, rfl⟩)
  intro key' value hvalue
  rw [hredis] at hvalue
  by_cases heq : IdempotencyStore.redisKey key' = IdempotencyStore.redisKey key
  · obtain rfl := redisKey_injective heq
    rw [Function.update_self] at hvalue
    cases hold : s.world.redis (IdempotencyStore.redisKey key') with
    | some held => exact .inl (by simpa [hold] using hvalue)
    | none =>
        refine .inr ⟨hkey, ?_⟩
        simpa [hold] using hvalue.symm
  · rw [Function.update_of_ne heq] at hvalue
    exact .inl hvalue

theorem SessionInv.next (h : SessionInv s) (hr : s.requests n = some r) {p : Phase}
    (hp : r.progress = .running p) (hdoes : Does (.request n) r.call s.world p q w) :
    SessionInv { s.setRequest n { r with progress := Phase.after q, guardRead := guardRead }
      with world := w } := by
  cases p with
  | redisGet key => exact h.redisGet hr hp hdoes
  | getById existingId => exact h.getById hr hp hdoes
  | existsActive =>
      have hcur := h.present n r hr
      rw [hp] at hcur
      obtain ⟨rfl, rfl, _⟩ := hdoes
      exact h.reads hr rfl rfl (fun _ _ h => .inl h) hcur
  | saveLoan => exact h.saveLoan hr hp hdoes
  | saveEvent => exact h.saveEvent hr hp hdoes
  | saveStatusEvent => exact h.saveStatusEvent hr hp hdoes
  | acquire key => exact h.acquire hr hp hdoes

end Phases

theorem sameWrites_commit {w : World} {k : Nat} (hk : n ≠ k) :
    SameWrites w (w.commit (.request n)) k := by
  refine ⟨?_, ?_⟩ <;> simp [World.commit, Table.writes_commit, hk]

theorem sameWrites_rollback {w : World} {k : Nat} (hk : n ≠ k) :
    SameWrites w (w.rollback (.request n)) k := by
  refine ⟨?_, ?_⟩ <;> simp [World.rollback, Table.writes_rollback, hk]

theorem wroteNothing_commit (w : World) (n : Nat) : WroteNothing (w.commit (.request n)) n :=
  ⟨Table.writes_commit_self _ _, Table.writes_commit_self _ _⟩

theorem wroteNothing_rollback (w : World) (n : Nat) : WroteNothing (w.rollback (.request n)) n :=
  ⟨Table.writes_rollback_self _ _, Table.writes_rollback_self _ _⟩

/-- What a commit of request `n` makes of the two tables: nothing new, or its loan
and its two events. -/
theorem SessionInv.committed_commit (h : SessionInv s) (hr : s.requests n = some r)
    {a : LoanApplicationResponse} (hp : r.progress = .committing a) :
    ((s.world.commit (.request n)).loans.committed = s.world.loans.committed ∧
        (s.world.commit (.request n)).outbox.committed = s.world.outbox.committed ∧
        Answers s r.call a) ∨
      ∃ m, LoanRepository.toModel r.call.loan = some m ∧
        (s.world.commit (.request n)).loans.committed = s.world.loans.committed ++ [m] ∧
        (s.world.commit (.request n)).outbox.committed =
          s.world.outbox.committed ++ r.call.events ∧
        a = LoanApplicationResponse.modelValidate r.call.loan := by
  have hcur := h.present n r hr
  rw [hp] at hcur
  cases hcur with
  | inl hnothing =>
      refine .inl ⟨?_, ?_, hnothing.2⟩
      · simp [World.commit, hnothing.1.loans]
      · simp [World.commit, hnothing.1.outbox]
  | inr hwrote =>
      obtain ⟨hwrote, rfl⟩ := hwrote
      obtain ⟨m, hm, hws⟩ := hwrote.loan
      refine .inr ⟨m, hm, ?_, ?_, rfl⟩
      · simp [World.commit, hws]
      · simp [World.commit, hwrote.events, CreateCall.events]

theorem SessionInv.commits (h : SessionInv s) (hr : s.requests n = some r)
    {a : LoanApplicationResponse} (hp : r.progress = .committing a) :
    SessionInv { s.setRequest n { r with progress := .returned a }
      with world := s.world.commit (.request n) } := by
  have hunique := h.unique.commit (.request n) LoanApplicationModel.clash_comm (h.keeps hr hp)
  have hcommitted := h.committed_commit hr hp
  refine h.moves (n := n) hr ?_ rfl rfl ?_ ?_ (fun _ _ h => .inl h)
    (fun k hk => sameWrites_commit hk) hunique ?_
  · rfl
  · intro x hx
    cases hcommitted with
    | inl hold =>
        change x ∈ (s.world.commit (.request n)).loans.committed
        rw [hold.1]
        exact hx
    | inr hnew =>
        obtain ⟨m, _, hloans, _⟩ := hnew
        change x ∈ (s.world.commit (.request n)).loans.committed
        rw [hloans]
        exact List.mem_append_left _ hx
  · intro x hx
    change x ∈ (s.world.commit (.request n)).loans.committed at hx
    cases hcommitted with
    | inl hold =>
        rw [hold.1] at hx
        exact .inl hx
    | inr hnew =>
        obtain ⟨m, hm, hloans, _⟩ := hnew
        rw [hloans] at hx
        refine (List.mem_append.mp hx).imp_right fun hx => ?_
        rw [List.mem_singleton.mp hx]
        exact hm
  · intro hev
    refine ⟨wroteNothing_commit _ _, ?_⟩
    cases hcommitted with
    | inl hold => exact hold.2.2.mono hev
    | inr hnew =>
        obtain ⟨m, hm, hloans, _, rfl⟩ := hnew
        obtain ⟨hid, _, hmkey⟩ := rowOf_of_toModel hm
        intro key hkey
        refine ⟨m, ?_, hmkey.trans (idempotencyKey_of_key? hkey), hid.symm⟩
        change m ∈ (s.world.commit (.request n)).loans.committed
        rw [hloans]
        exact List.mem_append_right _ (List.mem_singleton.mpr rfl)

theorem SessionInv.request (h : SessionInv s) (hr : s.requests n = some r) {fails : Bool}
    (hstep : RequestStep s n r fails s') : SessionInv s' := by
  cases hstep with
  | next p q w hp hdoes => exact h.next hr hp hdoes
  | raises p e fails hp =>
      refine h.moves hr ?_ rfl rfl (fun _ hm => hm) (fun _ hm => .inl hm) (fun _ _ h => .inl h)
        (fun _ _ => ⟨rfl, rfl⟩) h.unique fun _ => trivial
      rfl
  | commitFails a e hp =>
      refine h.moves hr ?_ rfl rfl (fun _ hm => hm) (fun _ hm => .inl hm) (fun _ _ h => .inl h)
        (fun _ _ => ⟨rfl, rfl⟩) h.unique fun _ => trivial
      rfl
  | commits a hp => exact h.commits hr hp
  | rollsBack e hp =>
      refine h.moves hr ?_ rfl rfl (fun _ hm => hm) (fun _ hm => .inl hm) (fun _ _ h => .inl h)
        (fun _ hk => sameWrites_rollback hk) (h.unique.rollback _)
        fun _ => wroteNothing_rollback _ _
      rfl

theorem SessionInv.arrive (h : SessionInv s) {c : CreateCall} (hfree : s.requests n = none)
    (hfresh : fresh s.drawn c.draws.uuids = true) :
    SessionInv { s.setRequest n { call := c, progress := .running c.start }
      with drawn := c.draws.uuids ++ s.drawn } := by
  have hnew := loanId_of_fresh hfresh
  generalize hs' : ({ s.setRequest n { call := c, progress := .running c.start }
      with drawn := c.draws.uuids ++ s.drawn } : State) = s'
  have hworld : s'.world = s.world := by rw [← hs']; rfl
  have hat : s'.requests n = some { call := c, progress := .running c.start } := by
    rw [← hs']
    exact Function.update_self ..
  have hother (k : Nat) (hk : k ≠ n) : s'.requests k = s.requests k := by
    rw [← hs']
    exact Function.update_of_ne hk _ _
  have hdrawn : s'.drawn = c.draws.uuids ++ s.drawn := by rw [← hs']
  have hold (k : Nat) (r : Request) (hr : s.requests k = some r) : s'.requests k = some r := by
    have hk : k ≠ n := by
      rintro rfl
      rw [hfree] at hr
      exact absurd hr nofun
    rw [hother k hk]
    exact hr
  have hsame (k : Nat) : SameWrites s.world s'.world k := by
    rw [hworld]
    exact ⟨rfl, rfl⟩
  have hev : Evolves s s' :=
    ⟨fun k r hr => ⟨r, hold k r hr, rfl⟩, fun m hm => ⟨m, by rw [hworld]; exact hm, rfl, rfl⟩⟩
  have hne (k : Nat) (r : Request) (hr : s.requests k = some r) :
      r.call.draws.loanId ≠ c.draws.loanId := by
    intro heq
    exact hnew (heq ▸ h.drawn k r hr)
  refine ⟨?_, ?_, ?_, ?_, ?_, ?_, ?_⟩
  · intro k hk
    by_cases hkn : k = n
    · subst hkn
      rw [hat] at hk
      exact absurd hk nofun
    · exact (h.absent k ((hother k hkn).symm.trans hk)).mono (hsame k)
  · intro k r hr
    by_cases hkn : k = n
    · subst hkn
      obtain rfl := Option.some.inj (hat.symm.trans hr)
      have hnothing : WroteNothing s'.world k := (h.absent k hfree).mono (hsame k)
      simp only [CreateCall.start]
      cases hkey : c.key? with
      | none => exact hnothing
      | some key => exact ⟨hnothing, hkey⟩
    · exact (h.present k r ((hother k hkn).symm.trans hr)).mono hev (hsame k)
  · intro k r hr
    rw [hdrawn]
    by_cases hkn : k = n
    · subst hkn
      obtain rfl := Option.some.inj (hat.symm.trans hr)
      exact List.mem_append_left _ (List.mem_cons_self ..)
    · exact List.mem_append_right _ (h.drawn k r ((hother k hkn).symm.trans hr))
  · intro k l r q hr hq heq
    by_cases hkn : k = n
    · subst hkn
      obtain rfl := Option.some.inj (hat.symm.trans hr)
      by_contra hlk
      exact hne l q ((hother l (Ne.symm hlk)).symm.trans hq) heq.symm
    · have hr' := (hother k hkn).symm.trans hr
      by_cases hln : l = n
      · subst hln
        obtain rfl := Option.some.inj (hat.symm.trans hq)
        exact absurd heq (hne k r hr')
      · exact h.distinct k l r q hr' ((hother l hln).symm.trans hq) heq
  · rw [hworld]
    intro m hm
    obtain ⟨k, r, hr, hrow⟩ := h.rows m hm
    exact ⟨k, r, hold k r hr, hrow⟩
  · rw [hworld]
    exact fun key value hvalue => (h.redis key value hvalue).mono hev
  · rw [hworld]
    exact h.unique

/-- A step that touches neither the loans nor the requests nor their writes. -/
theorem SessionInv.frame (h : SessionInv s) (hloans : s'.world.loans = s.world.loans)
    (hrequests : s'.requests = s.requests) (hdrawn : ∀ u ∈ s.drawn, u ∈ s'.drawn)
    (houtbox : ∀ k, s'.world.outbox.writes (.request k) = s.world.outbox.writes (.request k))
    (hredis : ∀ key value, s'.world.redis (IdempotencyStore.redisKey key) = some value →
      s.world.redis (IdempotencyStore.redisKey key) = some value) : SessionInv s' := by
  have hsame (k : Nat) : SameWrites s.world s'.world k := ⟨by rw [hloans], houtbox k⟩
  have hev : Evolves s s' := by
    refine ⟨fun k r hr => ⟨r, by rw [hrequests]; exact hr, rfl⟩, ?_⟩
    exact fun m hm => ⟨m, by rw [hloans]; exact hm, rfl, rfl⟩
  refine ⟨?_, ?_, ?_, ?_, ?_, ?_, ?_⟩
  · rw [hrequests]
    exact fun k hk => (h.absent k hk).mono (hsame k)
  · rw [hrequests]
    exact fun k r hr => (h.present k r hr).mono hev (hsame k)
  · rw [hrequests]
    exact fun k r hr => hdrawn _ (h.drawn k r hr)
  · rw [hrequests]
    exact h.distinct
  · rw [hloans, hrequests]
    exact h.rows
  · exact fun key value hvalue => (h.redis key value (hredis key value hvalue)).mono hev
  · rw [hloans]
    exact h.unique

/-- A worker never touches the writes of a request. -/
theorem WorkerStep.writes {l : WorkerLabel} (h : WorkerStep v s n l s') (k : Nat) :
    s'.world.outbox.writes (.request k) = s.world.outbox.writes (.request k) := by
  have hne : Tx.worker n ≠ Tx.request k := nofun
  cases h with
  | crash => simp [State.endPoll, Table.writes_rollback]
  | fails hp => simp [State.endPoll, Table.writes_rollback]
  | commits hp => simp [State.endPoll, Table.writes_commit]
  | commitsAborted hp => simp [State.endPoll, Table.writes_rollback]
  | updates event events now hp => exact Table.writes_write_of_ne _ _ hne
  | sends event events aborted d delivery record hp hpublish hfresh =>
      rw [setPosition_world, deliver_world]
  | start hp => rfl
  | select ids hp hids => rfl
  | skips id ids batch hp hid => rfl
  | locks id ids batch m hp hlen hid => rfl
  | fetched ids batch hp hdone => rfl
  | refuses event events aborted d delivery e hp hpublish => rfl
  | ignores event events aborted d delivery hp hpublish => rfl
  | updateFails event events aborted hp => rfl

theorem WorkerStep.drawn {l : WorkerLabel} (h : WorkerStep v s n l s') :
    ∀ u ∈ s.drawn, u ∈ s'.drawn := by
  cases h with
  | sends event events aborted d delivery record hp hpublish hfresh =>
      intro u hu
      have hdeliver (s : State) : (deliver s event.id record delivery).drawn = s.drawn := by
        cases delivery <;> rfl
      change u ∈ (deliver { s with drawn := d.uuids ++ s.drawn } event.id record delivery).drawn
      rw [hdeliver]
      exact List.mem_append_right _ hu
  | crash => exact fun u hu => hu
  | fails hp => exact fun u hu => hu
  | commits hp => exact fun u hu => hu
  | commitsAborted hp => exact fun u hu => hu
  | updates event events now hp => exact fun u hu => hu
  | start hp => exact fun u hu => hu
  | select ids hp hids => exact fun u hu => hu
  | skips id ids batch hp hid => exact fun u hu => hu
  | locks id ids batch m hp hlen hid => exact fun u hu => hu
  | fetched ids batch hp hdone => exact fun u hu => hu
  | refuses event events aborted d delivery e hp hpublish => exact fun u hu => hu
  | ignores event events aborted d delivery hp hpublish => exact fun u hu => hu
  | updateFails event events aborted hp => exact fun u hu => hu

theorem SessionInv.step (h : SessionInv s) {l : Label} (hstep : Loan.step v s l = some s') :
    SessionInv s' := by
  cases l with
  | arrive n c =>
      simp only [Loan.step, arriveStep] at hstep
      split at hstep
      · rename_i hfree
        obtain rfl := Option.some.inj hstep
        rw [Bool.and_eq_true, Option.isNone_iff_eq_none] at hfree
        exact h.arrive hfree.1 hfree.2
      · contradiction
  | request n =>
      obtain ⟨r, hr, hcase⟩ := requestStep_cases hstep
      exact h.request hr hcase
  | requestFails n =>
      obtain ⟨r, hr, hcase⟩ := requestFailStep_cases hstep
      exact h.request hr hcase
  | expire key =>
      obtain rfl := Option.some.inj hstep
      refine h.frame rfl rfl (fun _ hu => hu) (fun _ => rfl) ?_
      intro key' value hvalue
      change Function.update s.world.redis key none (IdempotencyStore.redisKey key') = some value
        at hvalue
      by_cases hkey : IdempotencyStore.redisKey key' = key
      · rw [hkey, Function.update_self] at hvalue
        contradiction
      · rw [Function.update_of_ne hkey] at hvalue
        exact hvalue
  | worker n k =>
      have hcase := workerStep_cases hstep
      obtain ⟨hloans, hredis, hrequests⟩ := hcase.frame
      refine h.frame hloans hrequests hcase.drawn hcase.writes ?_
      rw [hredis]
      exact fun _ _ h => h

theorem SessionInv.init : SessionInv State.init :=
  ⟨fun _ _ => ⟨rfl, rfl⟩, fun _ _ h => absurd h nofun, fun _ _ h => absurd h nofun,
    fun _ _ _ _ h => absurd h nofun, fun _ h => absurd h List.not_mem_nil,
    fun _ _ h => absurd h nofun, List.Pairwise.nil⟩

end Step

end CrediGuard.Loan
