import CrediGuard.Platform.Announcements
import CrediGuard.Platform.System

/-!
What holds of the platform in every state it reaches, whatever fails: the topic has
the service's own records once each, what Redis publishes is what the worker makes of
a record, and a stream has heard what was published since it subscribed, as long as it
has not failed.
-/

namespace CrediGuard.Platform
open Loan (LoanApplicationModel)
open Notification (Bridge Slot handleMessage parseStatusChanged toRedisMessage)
open Gateway (Message StreamArgs)

section Statement
variable (env : Environment)

/-- The message is what the worker makes of the record. -/
def Maps (b : Bridge) (p : Notification.Publication) : Prop :=
  (b.record p.record).bind (handleMessage env.pydantic) = some (p.channel, p.message)

/-- The loan a stream has fetched is committed, and the stream's applicant owns it. -/
def FetchedFrom (s : Loan.State) (t : Stream) (loan : Gateway.Loan) : Prop :=
  ∃ m ∈ s.world.loans.committed, env.service.readId t.args.loanId = some m.id ∧
    t.args.applicantId = m.applicantId.str ∧
    ∃ r : Loan.LoanApplicationResponse, r.status.value = m.status ∧ loan = env.service.render r

/-- The messages on a channel among what has been published. -/
def onChannel (channel : String) (published : List Notification.Publication) : List ByteArray :=
  (published.filter fun p => p.channel = channel).map fun p => p.message

structure StreamInv (s : State) (t : Stream) : Prop where
  applicant : ∃ applicantId : Uuid, t.args.applicantId = applicantId.str
  fetched : ∀ loan draws, t.fetched = some (loan, draws) → FetchedFrom env s.loan t loan
  silent : t.since = none → t.inbox = [] ∧ t.received = []
  heard : ∀ k, t.since = some k → t.fetched.isSome ∧ k ≤ s.channel.length ∧ ∃ missed,
    (t.received.filterMap id).map Message.data ++ t.inbox ++ missed =
      onChannel (Gateway.streamChannel t.args.applicantId) (s.channel.drop k) ∧
    (t.failed = false → missed = [])

/-- The service's status records whose key falls on the partition. -/
def ownRecords (kafka : List Loan.Publication) (partition : Nat) : List Loan.Publication :=
  kafka.filter fun p =>
    p.record.topic = loanStatusChangedV1 && env.partition p.record.key = partition

structure Inv (s : State) : Prop where
  loan : AnnouncementInv env.pydantic s.loan
  log : ∀ p, s.bridge.log p = (s.topic p).map (Entry.value env.dump)
  own : ∀ p, (s.topic p).filterMap Entry.own? = ownRecords env s.loan.kafka p
  outgoing : ∀ p, s.outgoing? = some p → Maps env s.bridge p
  channel : ∀ p ∈ s.channel, Maps env s.bridge p
  streams : ∀ n t, s.streams n = some t → StreamInv env s t

end Statement

section Bridge
variable {v : Pydantic} {b b' : Bridge} {l : Notification.Label}

theorem bridge_log (hstep : b.step v l = some b') (hl : ∀ p value, l ≠ .produce p value) :
    b'.log = b.log := by
  cases l with
  | produce p value => exact absurd rfl (hl p value)
  | fetch p =>
      simp only [Bridge.step] at hstep
      split at hstep
      · split at hstep
        · obtain rfl := Option.some.inj hstep
          rfl
        · contradiction
      · contradiction
  | handle =>
      simp only [Bridge.step] at hstep
      split at hstep
      · split at hstep
        · obtain rfl := Option.some.inj hstep
          rfl
        · obtain rfl := Option.some.inj hstep
          rfl
      · contradiction
  | publish | publishFails | commit | commitFails =>
      simp only [Bridge.step] at hstep
      split at hstep
      · obtain rfl := Option.some.inj hstep
        rfl
      · contradiction
  | restart =>
      obtain rfl := Option.some.inj hstep
      rfl

/-- A message comes up for publishing when its record has been handled. -/
theorem bridge_publishing (hstep : b.step v l = some b') (hl : ∀ p value, l ≠ .produce p value)
    {r : Slot} {channel : String} {message : ByteArray}
    (hphase : b'.phase = .publishing r channel message) :
    (b'.record r).bind (handleMessage v) = some (channel, message) := by
  cases l with
  | produce p value => exact absurd rfl (hl p value)
  | fetch p =>
      simp only [Bridge.step] at hstep
      split at hstep
      · split at hstep
        · obtain rfl := Option.some.inj hstep
          contradiction
        · contradiction
      · contradiction
  | handle =>
      simp only [Bridge.step] at hstep
      split at hstep
      · split at hstep
        · obtain rfl := Option.some.inj hstep
          contradiction
        · rename_i hmapped
          obtain rfl := Option.some.inj hstep
          obtain ⟨rfl, rfl, rfl⟩ := Notification.Phase.publishing.inj hphase
          exact hmapped
      · contradiction
  | publish | publishFails | commit | commitFails =>
      simp only [Bridge.step] at hstep
      split at hstep
      · obtain rfl := Option.some.inj hstep
        contradiction
      · contradiction
  | restart =>
      obtain rfl := Option.some.inj hstep
      contradiction

theorem outgoing_eq_some {s : State} {p : Notification.Publication} :
    s.outgoing? = some p ↔ s.bridge.phase = .publishing p.record p.channel p.message := by
  simp only [State.outgoing?]
  split
  · rename_i r channel message hphase
    rw [hphase, Option.some.injEq]
    constructor
    · rintro rfl
      rfl
    · intro heq
      obtain ⟨rfl, rfl, rfl⟩ := Notification.Phase.publishing.inj heq
      rfl
  · rename_i hphase
    refine ⟨fun h => by contradiction, fun h => absurd h (hphase _ _ _)⟩

/-- A record that maps to something stays in its place. -/
theorem Maps.mono {env : Environment} {p : Notification.Publication} (h : Maps env b p)
    (hrecord : ∀ r value, b.record r = some value → b'.record r = some value) :
    Maps env b' p := by
  obtain ⟨value, hvalue, _⟩ := Option.bind_eq_some_iff.mp h
  rw [Maps, hrecord _ _ hvalue, ← hvalue]
  exact h

end Bridge

section Fetch
variable {env : Environment} {s : Loan.State}

/-- The loan service answers with a stored loan of the applicant, or raises. -/
theorem getLoan_ensures (t : Loan.Tx) (loanId applicantId : Uuid) (w : Loan.World) :
    Stmt.Ensures (Loan.GetLoanApplicationUseCase.execute t loanId applicantId) w
      (fun r _ => ∃ m ∈ w.loans.visible t, m.id = loanId ∧ m.applicantId = applicantId ∧
        r.status.value = m.status)
      (fun _ _ => True) := by
  refine Stmt.Ensures.seq (Loan.getById_ensures loanId) ?_ fun _ _ _ => trivial
  rintro found w' ⟨rfl, hfound⟩
  cases found with
  | none => exact trivial
  | some loan =>
      obtain ⟨m, hrows, hloan⟩ := hfound
      have hm : m ∈ (w'.loans.visible t).filter fun m => m.id = loanId := by
        rw [hrows]
        exact List.mem_singleton.mpr rfl
      obtain ⟨hmem, hid⟩ := List.mem_filter.mp hm
      have happlicant : loan.applicantId = m.applicantId := (Loan.toEntity_eq_ok hloan).2
      dsimp only
      split
      · exact trivial
      · rename_i hsame
        refine ⟨m, hmem, of_decide_eq_true hid, ?_, ?_⟩
        · rw [← happlicant]
          exact not_not.mp hsame
        · simp only [Loan.LoanRepository.toEntity] at hloan
          split at hloan
          · contradiction
          · rename_i status hstatus
            obtain rfl := Except.ok.inj hloan
            exact Loan.LoanStatus.value_of_ofValue? hstatus

theorem fetchLoan_eq_some {loanId correlationId : String} {applicantId : Uuid}
    {loan : Gateway.Loan} (h : fetchLoan env s loanId applicantId.str correlationId = some loan) :
    ∃ m ∈ s.world.loans.committed, env.service.readId loanId = some m.id ∧
      applicantId = m.applicantId ∧ ∃ r : Loan.LoanApplicationResponse,
        r.status.value = m.status ∧ loan = env.service.render r := by
  simp only [fetchLoan, Loan.getCurrentApplicantId_str] at h
  split at h
  · rename_i id uid hread huid
    obtain rfl := Except.ok.inj huid
    split at h
    · rename_i r hresult
      obtain rfl := Option.some.inj h
      have hensures := getLoan_ensures (.request 0) id applicantId
        { s.world with loans := ⟨s.world.loans.committed, []⟩ }
      cases hexecute : Loan.GetLoanApplicationUseCase.execute (.request 0) id applicantId
          { s.world with loans := ⟨s.world.loans.committed, []⟩ } with
      | waits =>
          rw [hexecute] at hresult
          contradiction
      | raises e w =>
          rw [hexecute] at hresult
          exact absurd (Option.some.inj hresult) (by simp)
      | returns r' w =>
          rw [hexecute] at hresult
          obtain rfl := Except.ok.inj (Option.some.inj hresult)
          obtain ⟨m, hm, hid, happlicant, hstatus⟩ := hensures.of_returns hexecute
          have hvisible : (⟨s.world.loans.committed, []⟩ :
              ReadCommitted.Table Loan.Tx LoanApplicationModel).visible (.request 0) =
                s.world.loans.committed :=
            ReadCommitted.Table.visible_of_writes_nil
              (ReadCommitted.Table.writes_of_pending_nil _ rfl)
          rw [hvisible] at hm
          exact ⟨m, hm, by rw [hread, hid], happlicant.symm, _, hstatus, rfl⟩
    · contradiction
  · contradiction

/-- Whom `loan_events` opens a stream for, and on which path. -/
theorem loanEvents_eq_ok {edge : Gateway.Edge} {settings : Gateway.Settings}
    {frontendUrl loanId : String} {fetch : String → String → String → Option Gateway.Loan}
    {req : Gateway.Request} {args : StreamArgs}
    (h : Gateway.loanEvents edge settings frontendUrl fetch loanId req = .ok args) :
    args.loanId = loanId ∧
      Gateway.streamApplicant edge settings req = some args.applicantId := by
  simp only [Gateway.loanEvents] at h
  split at h
  · split at h
    · contradiction
    · rename_i applicantId happlicant
      split at h
      · contradiction
      · obtain rfl := Except.ok.inj h
        exact ⟨rfl, happlicant⟩
  · contradiction

theorem streamApplicant_eq_str {edge : Gateway.Edge} {settings : Gateway.Settings}
    {req : Gateway.Request} {applicantId : String}
    (h : Gateway.streamApplicant edge settings req = some applicantId) :
    ∃ uid : Uuid, applicantId = uid.str := by
  simp only [Gateway.streamApplicant] at h
  split at h
  · rename_i uid _
    exact ⟨uid, (Option.some.inj h).symm⟩
  · obtain ⟨uid, _, huid⟩ := Option.map_eq_some_iff.mp h
    exact ⟨uid, huid.symm⟩

end Fetch

section Streams
variable {env : Environment} {s s' : State} {t : Stream}

theorem onChannel_append (channel : String) (published : List Notification.Publication)
    (p : Notification.Publication) :
    onChannel channel (published ++ [p]) =
      onChannel channel published ++ if p.channel = channel then [p.message] else [] := by
  simp only [onChannel, List.filter_append, List.map_append]
  by_cases h : p.channel = channel <;> simp [h]

theorem StreamInv.mono (h : StreamInv env s t)
    (hloans : ∀ m ∈ s.loan.world.loans.committed, m ∈ s'.loan.world.loans.committed)
    (hchannel : s'.channel = s.channel) : StreamInv env s' t := by
  refine ⟨h.applicant, ?_, h.silent, ?_⟩
  · intro loan draws hfetched
    obtain ⟨m, hm, hrest⟩ := h.fetched loan draws hfetched
    exact ⟨m, hloans m hm, hrest⟩
  · rw [hchannel]
    exact h.heard

/-- Redis publishes one more message. -/
theorem StreamInv.hear (h : StreamInv env s t) {p : Notification.Publication}
    (hloan : s'.loan = s.loan) (hchannel : s'.channel = s.channel ++ [p]) :
    StreamInv env s' (t.hear p) := by
  have hargs : (t.hear p).args = t.args ∧ (t.hear p).fetched = t.fetched ∧
      (t.hear p).since = t.since ∧ (t.hear p).received = t.received ∧
      (t.hear p).failed = t.failed := by
    simp only [Stream.hear]
    split <;> exact ⟨rfl, rfl, rfl, rfl, rfl⟩
  obtain ⟨hargs, hfetched, hsince, hreceived, hfailed⟩ := hargs
  refine ⟨by rw [hargs]; exact h.applicant, ?_, ?_, ?_⟩
  · intro loan draws hsome
    rw [hfetched] at hsome
    rw [FetchedFrom, hargs, hloan]
    exact h.fetched loan draws hsome
  · intro hnone
    rw [hsince] at hnone
    have hsame : t.hear p = t := by simp [Stream.hear, hnone]
    rw [hsame]
    exact h.silent hnone
  · intro k hk
    rw [hsince] at hk
    obtain ⟨hsome, hle, missed, hheard, hlive⟩ := h.heard k hk
    rw [hargs, hfetched, hreceived, hfailed, hchannel]
    refine ⟨hsome, by rw [List.length_append]; omega, ?_⟩
    rw [List.drop_append_of_le_length hle, onChannel_append, ← hheard]
    cases hraised : t.failed with
    | true =>
        have hsame : t.hear p = t := by simp [Stream.hear, hraised]
        rw [hsame]
        exact ⟨missed ++ _, (List.append_assoc ..).symm, fun hfalse => by contradiction⟩
    | false =>
        rw [hlive hraised, List.append_nil]
        refine ⟨[], ?_, fun _ => rfl⟩
        simp only [Stream.hear, hk, hraised, Option.isSome_some, true_and, List.append_nil]
        split <;> simp

/-- The stream goes on with all that it has heard; if it fails, it fails for good. -/
theorem StreamInv.goesOn (h : StreamInv env s t) {inbox : List ByteArray}
    {received : List (Option Message)} {failed : Bool}
    (hsilent : t.since = none → inbox = t.inbox ∧ received = t.received)
    (htotal : (received.filterMap id).map Message.data ++ inbox =
      (t.received.filterMap id).map Message.data ++ t.inbox)
    (hfailed : failed = false → t.failed = false) :
    StreamInv env s { t with inbox := inbox, received := received, failed := failed } := by
  refine ⟨h.applicant, h.fetched, ?_, ?_⟩
  · intro hnone
    obtain ⟨hinbox, hreceived⟩ := hsilent hnone
    change inbox = [] ∧ received = []
    rw [hinbox, hreceived]
    exact h.silent hnone
  · intro k hk
    obtain ⟨hsome, hle, missed, hheard, hmissed⟩ := h.heard k hk
    refine ⟨hsome, hle, missed, ?_, fun hlive => hmissed (hfailed hlive)⟩
    rw [← hheard, ← htotal]

theorem StreamInv.opens {args : StreamArgs} (h : ∃ applicantId : Uuid,
    args.applicantId = applicantId.str) : StreamInv env s { args := args } :=
  ⟨h, fun _ _ h => absurd h (by simp), fun _ => ⟨rfl, rfl⟩, fun _ h => absurd h (by simp)⟩

theorem StreamInv.fetches (h : StreamInv env s t) {loan : Gateway.Loan} {draws : Uuid × Datetime}
    (hloan : fetchLoan env s.loan t.args.loanId t.args.applicantId t.args.correlationId =
      some loan) : StreamInv env s { args := t.args, fetched := some (loan, draws) } := by
  refine ⟨h.applicant, ?_, fun _ => ⟨rfl, rfl⟩, fun _ h => absurd h (by simp)⟩
  intro loan' draws' heq
  obtain ⟨rfl, _⟩ := Prod.mk.inj (Option.some.inj heq)
  obtain ⟨applicantId, happlicant⟩ := h.applicant
  rw [happlicant] at hloan
  obtain ⟨m, hm, hread, heq, hrest⟩ := fetchLoan_eq_some hloan
  exact ⟨m, hm, hread, by rw [← heq]; exact happlicant, hrest⟩

/-- The stream hears from now on. -/
theorem StreamInv.subscribes (h : StreamInv env s t) (hfetched : t.fetched.isSome) :
    StreamInv env s
      { args := t.args, fetched := t.fetched, since := some s.channel.length } := by
  refine ⟨h.applicant, h.fetched, fun h => absurd h (by simp), ?_⟩
  intro k hk
  obtain rfl := Option.some.inj hk
  refine ⟨hfetched, Nat.le_refl _, [], ?_, fun _ => rfl⟩
  rw [List.drop_length]
  rfl

/-- The moves of a stream. -/
theorem StreamInv.move (hinv : Inv env s) {l : Label} {n : Nat} {t' : Option Stream}
    (hmove : StreamMove env s l n (s.streams n) t') :
    ∀ t ∈ t', StreamInv env s t := by
  have hcur {t : Stream} (ht : some t = s.streams n) : StreamInv env s t :=
    hinv.streams n t ht.symm
  generalize hs : s.streams n = t? at hmove
  intro u hu
  cases hmove with
  | ends t => exact absurd hu (by simp)
  | opens loanId req edge args hl hargs =>
      obtain rfl := Option.some.inj hu
      exact .opens (streamApplicant_eq_str (loanEvents_eq_ok hargs).2)
  | fetches t loan uuid now hloan =>
      obtain rfl := Option.some.inj hu
      exact (hcur hs.symm).fetches hloan
  | subscribes t hfetched hsince =>
      obtain rfl := Option.some.inj hu
      exact (hcur hs.symm).subscribes hfetched
  | takes t data rest uuid now hinbox hlive =>
      obtain rfl := Option.some.inj hu
      refine (hcur hs.symm).goesOn ?_ (by simp [hinbox]) id
      intro hnone
      have hnil := ((hcur hs.symm).silent hnone).1
      rw [hinbox] at hnil
      contradiction
  | waits t hsince hlive =>
      obtain rfl := Option.some.inj hu
      refine (hcur hs.symm).goesOn ?_ (by simp) id
      intro hnone
      rw [hnone] at hsince
      contradiction
  | fails t hwaits =>
      obtain rfl := Option.some.inj hu
      exact (hcur hs.symm).goesOn (fun _ => ⟨rfl, rfl⟩) rfl fun hfalse => by contradiction

end Streams

section Steps
variable {env : Environment} {s s' : State}

/-- One more entry in a partition. -/
theorem Inv.produce (h : Inv env s) {loan : Loan.State} (partition : Nat) (e : Entry)
    (hloan : AnnouncementInv env.pydantic loan)
    (hloans : ∀ m ∈ s.loan.world.loans.committed, m ∈ loan.world.loans.committed)
    (hown : ∀ p, ownRecords env loan.kafka p =
      ownRecords env s.loan.kafka p ++ if p = partition then e.own?.toList else []) :
    Inv env (State.produce env { s with loan := loan } partition e) := by
  have hrecord (r : Slot) (value : ByteArray) (hvalue : s.bridge.record r = some value) :
      (State.produce env { s with loan := loan } partition e).bridge.record r = some value :=
    Bridge.record_produce hvalue
  refine ⟨hloan, ?_, ?_, ?_, ?_, ?_⟩
  · intro p
    simp only [State.produce, Function.update_apply]
    split
    · rename_i hp
      rw [← hp, h.log, List.map_append, List.map_singleton]
    · exact h.log p
  · intro p
    simp only [State.produce, Function.update_apply, hown]
    split
    · rename_i hp
      rw [List.filterMap_append, ← hp, h.own]
      refine congrArg _ ?_
      cases e <;> rfl
    · rw [h.own, List.append_nil]
  · intro p hp
    exact (h.outgoing p hp).mono hrecord
  · intro p hp
    exact (h.channel p hp).mono hrecord
  · intro n t ht
    exact (h.streams n t ht).mono hloans rfl

theorem ownRecords_append (kafka : List Loan.Publication) (p : Loan.Publication)
    (partition : Nat) :
    ownRecords env (kafka ++ [p]) partition = ownRecords env kafka partition ++
      if p.record.topic = loanStatusChangedV1 ∧ env.partition p.record.key = partition then [p]
      else [] := by
  simp only [ownRecords, List.filter_append]
  by_cases h : p.record.topic = loanStatusChangedV1 ∧ env.partition p.record.key = partition
    <;> simp [h]

theorem Inv.publish (h : Inv env s) {p : Notification.Publication} {b : Bridge}
    {l : Notification.Label} (hp : s.outgoing? = some p)
    (hstep : s.bridge.step env.pydantic l = some b) (hl : ∀ q value, l ≠ .produce q value) :
    Inv env (State.publish { s with bridge := b } p) := by
  have hlog := bridge_log hstep hl
  have hmaps {q : Notification.Publication} (hq : Maps env s.bridge q) : Maps env b q := by
    simp only [Maps, Bridge.record, hlog] at hq ⊢
    exact hq
  refine ⟨h.loan, ?_, h.own, ?_, ?_, ?_⟩
  · intro q
    change b.log q = _
    rw [hlog]
    exact h.log q
  · intro q hq
    exact bridge_publishing hstep hl (outgoing_eq_some.mp hq)
  · intro q hq
    cases List.mem_append.mp hq with
    | inl hold => exact hmaps (h.channel q hold)
    | inr hnew =>
        rw [List.mem_singleton.mp hnew]
        exact hmaps (h.outgoing p hp)
  · intro n t ht
    obtain ⟨t₀, ht₀, rfl⟩ := Option.map_eq_some_iff.mp ht
    exact (h.streams n t₀ ht₀).hear rfl rfl

theorem Inv.step (hreads : env.pydantic.ReadsBack) (h : Inv env s) {l : Label}
    (hstep : step env s l = some s') : Inv env s' := by
  cases step_cases hstep with
  | loan l loan hloan hsent =>
      have hchange := Loan.step_committed h.loan.partition.session h.loan.partition.outbox hloan
      refine ⟨h.loan.step hreads hloan, h.log, ?_, h.outgoing, h.channel, ?_⟩
      · intro p
        rw [h.own]
        cases hsent with
        | inl hsame => rw [hsame]
        | inr hother =>
            obtain ⟨q, hkafka, htopic⟩ := hother
            rw [hkafka, ownRecords_append, if_neg fun hq => htopic hq.1, List.append_nil]
      · intro n t ht
        exact (h.streams n t ht).mono (fun m hm => hchange.loan hm) rfl
  | sends l loan p hloan hkafka htopic =>
      have hchange := Loan.step_committed h.loan.partition.session h.loan.partition.outbox hloan
      refine h.produce _ _ (h.loan.step hreads hloan) (fun m hm => hchange.loan hm) ?_
      intro q
      rw [hkafka, ownRecords_append]
      congr 1
      simp only [htopic, true_and, eq_comm, Entry.own?, Option.toList_some]
  | foreign p value =>
      refine h.produce _ _ h.loan (fun m hm => hm) ?_
      intro q
      simp [Entry.own?]
  | bridge l b hbridge hl =>
      have hlog := bridge_log hbridge hl.2
      refine ⟨h.loan, ?_, h.own, ?_, ?_, ?_⟩
      · intro p
        change b.log p = _
        rw [hlog]
        exact h.log p
      · intro p hp
        exact bridge_publishing hbridge hl.2 (outgoing_eq_some.mp hp)
      · intro p hp
        have hmaps := h.channel p hp
        simp only [Maps, Bridge.record, hlog] at hmaps ⊢
        exact hmaps
      · exact fun n t ht => (h.streams n t ht).mono (fun m hm => hm) rfl
  | publishes p b hp hbridge => exact h.publish hp hbridge (by simp)
  | unanswered p b hp hbridge => exact h.publish hp hbridge (by simp)
  | stream l n t hmove =>
      have hmoved := StreamInv.move h hmove
      refine ⟨h.loan, h.log, h.own, h.outgoing, h.channel, ?_⟩
      intro k u hu
      simp only [State.setStream, Function.update_apply] at hu
      split at hu
      · exact (hmoved u hu).mono (fun m hm => hm) rfl
      · exact (h.streams k u hu).mono (fun m hm => hm) rfl

theorem Inv.init : Inv env .init :=
  ⟨.init, fun _ => rfl, fun _ => rfl, fun _ hp => absurd hp (by simp [State.init, State.outgoing?,
    Bridge.start]), fun _ hp => absurd hp List.not_mem_nil, fun _ _ ht => absurd ht (by simp
    [State.init])⟩

theorem Inv.of_run (hreads : env.pydantic.ReadsBack) {ls : List Label}
    (hrun : Runs.run (Platform.step env) .init ls = some s) : Inv env s :=
  Runs.invariant (fun _ _ _ h hstep => h.step hreads hstep) .init hrun

end Steps

end CrediGuard.Platform
