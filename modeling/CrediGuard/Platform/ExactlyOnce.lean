import CrediGuard.Loan.OutboxOnce
import CrediGuard.Platform.Authentic

/-!
Exactly once, from the outbox to the channel of the applicant.

While no outbox worker crashes, loses an answer or meets an error of its database, the
notification worker does not fail and nobody else writes to the topic, each committed
loan has at most one update on the channels; when the outbox is sent and the
notification worker has caught up, it has exactly one. A stream under the loan's own
spelling of its id shows it at most once, and shows it once its inbox is empty, unless
the stream has failed.
-/

namespace CrediGuard.Platform
open Loan (LoanApplicationModel)
open Notification (Bridge Slot handleMessage parseStatusChanged toRedisMessage)
open Gateway (Message Frame StatusFrame Delivery frameOf spelled throughTerminal)

section Statement

/-- No worker crashes, loses an answer or meets an error of its database, and nobody
else writes to the topic. -/
def Sound : Label → Prop
  | .loan l => Loan.Healthy l
  | .bridge l => Bridge.Faultless l
  | .foreign _ _ => False
  | .unanswered => False
  | _ => True

instance (l : Notification.Label) : Decidable (Bridge.Faultless l) := by
  unfold Bridge.Faultless
  split <;> infer_instance

instance (l : Label) : Decidable (Sound l) := by
  unfold Sound
  split <;> infer_instance

/-- The record of the loan service a message was made from. -/
def source? (s : State) (p : Notification.Publication) : Option Loan.Publication :=
  ((s.topic p.record.1)[p.record.2]?).bind Entry.own?

def isUpdateOf (s : State) (m : LoanApplicationModel) (p : Notification.Publication) : Bool :=
  (source? s p).any fun r => r.record.key = m.id.str

/-- Everything stored is sent, and every record has been taken and handled. -/
structure Drained (s : State) : Prop where
  sent : ∀ e ∈ s.loan.world.outbox.committed, e.status = "SENT"
  taken : ∀ p, s.bridge.position p = (s.topic p).length
  handled : s.bridge.phase.inHand = none

/-- The status frames of the stream behind the initial one. -/
def live (env : Environment) (t : Stream) : List StatusFrame :=
  ((t.frames env).1.filterMap Frame.status?).tail

structure ExactlyOnce (env : Environment) (s : State) : Prop where
  about : ∀ p ∈ s.channel, ∃ m ∈ s.loan.world.loans.committed, isUpdateOf s m p = true
  once : ∀ m ∈ s.loan.world.loans.committed, (s.channel.filter (isUpdateOf s m)).length ≤ 1
  drained : Drained s → ∀ m ∈ s.loan.world.loans.committed,
    (s.channel.filter (isUpdateOf s m)).length = 1
  announces : ∀ m ∈ s.loan.world.loans.committed, ∀ p ∈ s.channel, isUpdateOf s m p = true →
    p.channel = Gateway.streamChannel m.applicantId.str ∧
      ∃ r ∈ s.loan.kafka, Announces p.message r.record.value (submission m)
  shown : ∀ n t, s.streams n = some t → t.args.lastEventId = none →
    ∀ m ∈ s.loan.world.loans.committed, t.args.loanId = m.id.str → ∀ k, t.since = some k →
      (live env t).length ≤ 1 ∧
        (t.failed = false → t.inbox = [] →
          (live env t).length = ((s.channel.drop k).filter (isUpdateOf s m)).length)

end Statement

section Bridge
variable {v : Pydantic} {b b' : Bridge}

/-- What a bridge that never fails has published: each record it took that maps to
something, once. -/
structure PublishesOnce (v : Pydantic) (b : Bridge) : Prop where
  within : ∀ p, b.position p ≤ (b.log p).length
  inHand : ∀ r, b.phase.inHand = some r → r.2 < b.position r.1
  nodup : (b.published.map fun p => p.record).Nodup
  taken : ∀ r, r ∈ b.published.map (fun p => p.record) ↔ r.2 < b.position r.1 ∧
    b.phase.inHand ≠ some r ∧ ((b.record r).bind (handleMessage v)).isSome

theorem PublishesOnce.start (log : Nat → List (Option ByteArray)) :
    PublishesOnce v (Bridge.start log) :=
  ⟨fun _ => Nat.zero_le _, fun _ hr => absurd hr (by simp [Bridge.start,
    Notification.Phase.inHand]), List.nodup_nil, fun r => by simp [Bridge.start]⟩

theorem PublishesOnce.produce (h : PublishesOnce v b) (p : Nat) (value : Option ByteArray) :
    PublishesOnce v { b with log := Function.update b.log p (b.log p ++ [value]) } := by
  refine ⟨?_, h.inHand, h.nodup, ?_⟩
  · intro q
    simp only [Function.update_apply]
    split
    · rename_i hq
      have hle := h.within q
      rw [List.length_append, ← hq]
      omega
    · exact h.within q
  · intro r
    rw [h.taken]
    constructor
    · rintro ⟨hlt, hhand, hsome⟩
      refine ⟨hlt, hhand, ?_⟩
      rw [Bridge.record_produce_eq (Nat.lt_of_lt_of_le hlt (h.within r.1))]
      exact hsome
    · rintro ⟨hlt, hhand, hsome⟩
      refine ⟨hlt, hhand, ?_⟩
      rw [Bridge.record_produce_eq (Nat.lt_of_lt_of_le hlt (h.within r.1))] at hsome
      exact hsome

/-- The phase changes, and the record in hand stays or is done with for good. -/
theorem PublishesOnce.phase (h : PublishesOnce v b) {phase : Notification.Phase}
    {committed : Nat → Nat} {failed : List Slot}
    (hphase : phase.inHand = b.phase.inHand ∨ phase.inHand = none ∧
      ∀ r, b.phase.inHand = some r → (b.record r).bind (handleMessage v) = none) :
    PublishesOnce v { b with phase := phase, committed := committed, failed := failed } := by
  refine ⟨h.within, ?_, h.nodup, ?_⟩
  · intro r hr
    cases hphase with
    | inl hsame => exact h.inHand r (hsame ▸ hr)
    | inr hdone =>
        change phase.inHand = some r at hr
        rw [hdone.1] at hr
        contradiction
  · intro r
    rw [h.taken]
    change _ ↔ r.2 < b.position r.1 ∧ phase.inHand ≠ some r ∧
      ((b.record r).bind (handleMessage v)).isSome
    cases hphase with
    | inl hsame => rw [hsame]
    | inr hdone =>
        rw [hdone.1]
        constructor
        · rintro ⟨hlt, _, hsome⟩
          exact ⟨hlt, by simp, hsome⟩
        · rintro ⟨hlt, _, hsome⟩
          refine ⟨hlt, ?_, hsome⟩
          intro hhand
          rw [hdone.2 r hhand] at hsome
          contradiction

theorem PublishesOnce.fetch (h : PublishesOnce v b) (hidle : b.phase = .idle) {p : Nat}
    (hlen : b.position p < (b.log p).length) :
    PublishesOnce v { b with
      phase := .handling (p, b.position p)
      position := Function.update b.position p (b.position p + 1) } := by
  have hnone : b.phase.inHand = none := by rw [hidle]; rfl
  refine ⟨?_, ?_, h.nodup, ?_⟩
  · intro q
    simp only [Function.update_apply]
    split
    · rename_i hq
      rw [hq]
      exact hlen
    · exact h.within q
  · intro r hr
    obtain rfl := Option.some.inj hr
    simp
  · intro r
    rw [h.taken, hnone]
    change _ ↔ r.2 < Function.update b.position p (b.position p + 1) r.1 ∧
      some (p, b.position p) ≠ some r ∧ ((b.record r).bind (handleMessage v)).isSome
    have hlt : r.2 < b.position r.1 ↔
        r.2 < Function.update b.position p (b.position p + 1) r.1 ∧
          some (p, b.position p) ≠ some r := by
      obtain ⟨q, o⟩ := r
      simp only [Function.update_apply, ne_eq, Option.some.injEq, Prod.mk.injEq]
      split
      · rename_i hq
        subst hq
        simp only [true_and]
        omega
      · rename_i hq
        simp [Ne.symm hq]
    rw [hlt]
    simp [and_assoc]

theorem PublishesOnce.publish (h : PublishesOnce v b) {r : Slot} {channel : String}
    {message : ByteArray} (hphase : b.phase = .publishing r channel message)
    (hmapped : (b.record r).bind (handleMessage v) = some (channel, message)) :
    PublishesOnce v { b with
      phase := .committing, published := b.published ++ [⟨r, channel, message⟩] } := by
  have hhand : b.phase.inHand = some r := by rw [hphase]; rfl
  have hnew : r ∉ b.published.map fun p => p.record := by
    rw [h.taken]
    exact fun hr => hr.2.1 hhand
  refine ⟨h.within, fun q hq => by contradiction, ?_, ?_⟩
  · rw [List.map_append, List.nodup_append]
    refine ⟨h.nodup, List.nodup_singleton _, ?_⟩
    intro q hq q' hq' heq
    rw [heq, List.mem_singleton.mp hq'] at hq
    exact hnew hq
  · intro q
    change q ∈ List.map (fun p : Notification.Publication => p.record)
        (b.published ++ [⟨r, channel, message⟩]) ↔
      q.2 < b.position q.1 ∧ none ≠ some q ∧ ((b.record q).bind (handleMessage v)).isSome
    rw [List.map_append, List.mem_append, h.taken, hhand]
    constructor
    · intro hq
      cases hq with
      | inl hold => exact ⟨hold.1, by simp, hold.2.2⟩
      | inr hlast =>
          rw [List.mem_singleton.mp hlast]
          exact ⟨h.inHand r hhand, by simp, by rw [hmapped]; rfl⟩
    · rintro ⟨hlt, _, hsome⟩
      by_cases hq : r = q
      · exact .inr (by simp [hq])
      · exact .inl ⟨hlt, by simp [hq], hsome⟩

theorem PublishesOnce.step (h : PublishesOnce v b)
    (hmapped : ∀ r channel message, b.phase = .publishing r channel message →
      (b.record r).bind (handleMessage v) = some (channel, message))
    {l : Notification.Label} (hl : Bridge.Faultless l) (hstep : b.step v l = some b') :
    PublishesOnce v b' := by
  cases l with
  | publishFails | commitFails | restart => exact absurd hl id
  | produce p value =>
      obtain rfl := Option.some.inj hstep
      exact h.produce p value
  | fetch p =>
      simp only [Bridge.step] at hstep
      split at hstep
      · rename_i hidle
        split at hstep
        · rename_i hlen
          obtain rfl := Option.some.inj hstep
          exact h.fetch hidle hlen
        · contradiction
      · contradiction
  | handle =>
      simp only [Bridge.step] at hstep
      split at hstep
      · rename_i r hphase
        split at hstep
        · rename_i hnone
          obtain rfl := Option.some.inj hstep
          refine h.phase (.inr ⟨rfl, fun q hq => ?_⟩)
          rw [hphase] at hq
          obtain rfl := Option.some.inj hq
          exact hnone
        · obtain rfl := Option.some.inj hstep
          exact h.phase (.inl (by rw [hphase]; rfl))
      · contradiction
  | publish =>
      simp only [Bridge.step] at hstep
      split at hstep
      · rename_i r channel message hphase
        obtain rfl := Option.some.inj hstep
        exact h.publish hphase (hmapped r channel message hphase)
      · contradiction
  | commit =>
      simp only [Bridge.step] at hstep
      split at hstep
      · rename_i hphase
        obtain rfl := Option.some.inj hstep
        exact h.phase (.inl (by rw [hphase]; rfl))
      · contradiction

end Bridge

section Steps
variable {env : Environment} {s s' : State}

structure OnceInv (env : Environment) (s : State) : Prop where
  inv : Inv env s
  loan : Loan.OnceInv env.pydantic [] s.loan
  bridge : PublishesOnce env.pydantic s.bridge
  channel : s.channel = s.bridge.published
  own : ∀ p, ∀ e ∈ s.topic p, ∃ r, e = .own r

theorem bridge_published {v : Pydantic} {b b' : Bridge} {l : Notification.Label}
    (hstep : b.step v l = some b') (hl : l ≠ .publish) : b'.published = b.published := by
  cases l with
  | publish => exact absurd rfl hl
  | produce p value =>
      obtain rfl := Option.some.inj hstep
      rfl
  | restart =>
      obtain rfl := Option.some.inj hstep
      rfl
  | fetch p =>
      simp only [Bridge.step] at hstep
      split at hstep
      · split at hstep
        · obtain rfl := Option.some.inj hstep
          rfl
        · contradiction
      · contradiction
  | handle =>
      simp only [Bridge.step] at hstep
      split at hstep
      · split at hstep
        · obtain rfl := Option.some.inj hstep
          rfl
        · obtain rfl := Option.some.inj hstep
          rfl
      · contradiction
  | publishFails | commit | commitFails =>
      simp only [Bridge.step] at hstep
      split at hstep
      · obtain rfl := Option.some.inj hstep
        rfl
      · contradiction

theorem bridge_publish {v : Pydantic} {b b' : Bridge} {p : Notification.Publication}
    (hphase : b.phase = .publishing p.record p.channel p.message)
    (hstep : b.step v .publish = some b') : b'.published = b.published ++ [p] := by
  simp only [Bridge.step, hphase] at hstep
  obtain rfl := Option.some.inj hstep
  rfl

theorem Inv.mapped (h : Inv env s) (r : Slot) (channel : String) (message : ByteArray)
    (hphase : s.bridge.phase = .publishing r channel message) :
    (s.bridge.record r).bind (handleMessage env.pydantic) = some (channel, message) :=
  h.outgoing ⟨r, channel, message⟩ (outgoing_eq_some.mpr hphase)

theorem OnceInv.step (hreads : env.pydantic.ReadsBack) (h : OnceInv env s) {l : Label}
    (hl : Sound l) (hstep : step env s l = some s') : OnceInv env s' := by
  have hinv := h.inv.step hreads hstep
  cases step_cases hstep with
  | loan l loan hloan hsent =>
      exact ⟨hinv, h.loan.step hl hloan, h.bridge, h.channel, h.own⟩
  | sends l loan p hloan hkafka htopic =>
      refine ⟨hinv, h.loan.step hl hloan, h.bridge.produce _ _, h.channel, ?_⟩
      intro q e he
      simp only [State.produce, Function.update_apply] at he
      split at he
      · rename_i hq
        cases List.mem_append.mp he with
        | inl hold => exact h.own _ e hold
        | inr hnew => exact ⟨p, List.mem_singleton.mp hnew⟩
      · exact h.own q e he
  | foreign p value => exact absurd hl id
  | bridge l b hbridge hne =>
      have hpublished := bridge_published hbridge hne.1
      refine ⟨hinv, h.loan, h.bridge.step h.inv.mapped hl hbridge, ?_, h.own⟩
      rw [hpublished]
      exact h.channel
  | publishes p b hp hbridge =>
      have hpublished := bridge_publish (outgoing_eq_some.mp hp) hbridge
      refine ⟨hinv, h.loan, h.bridge.step h.inv.mapped (l := .publish) trivial hbridge, ?_, h.own⟩
      change s.channel ++ [p] = b.published
      rw [hpublished, h.channel]
  | unanswered p b hp hbridge => exact absurd hl id
  | stream l n t hmove => exact ⟨hinv, h.loan, h.bridge, h.channel, h.own⟩

theorem OnceInv.init : OnceInv env .init := by
  refine ⟨.init, .of_quiet Loan.State.quiet_init List.Pairwise.nil rfl, .start _, rfl, ?_⟩
  exact fun p e he => absurd he List.not_mem_nil

theorem OnceInv.of_run (hreads : env.pydantic.ReadsBack) {ls : List Label}
    (hl : ∀ l ∈ ls, Sound l) (hrun : Runs.run (Platform.step env) .init ls = some s) :
    OnceInv env s :=
  Runs.invariant_of_labels (fun _ _ _ h hl hstep => h.step hreads hl hstep) .init hl hrun

end Steps

section Sources
variable {env : Environment} {s : State} {m : LoanApplicationModel}
  {p : Notification.Publication}

/-- Without foreign records a partition holds the service's own, in their order. -/
theorem OnceInv.topic (h : OnceInv env s) (q : Nat) :
    s.topic q = (ownRecords env s.loan.kafka q).map .own := by
  rw [← h.inv.own]
  have hown := h.own q
  generalize s.topic q = entries at hown
  induction entries with
  | nil => rfl
  | cons e entries ih =>
      obtain ⟨r, rfl⟩ := hown e (List.mem_cons_self ..)
      have hhead : (Entry.own r :: entries).filterMap Entry.own? =
          r :: entries.filterMap Entry.own? := rfl
      rw [hhead, List.map_cons, ← ih fun e he => hown e (List.mem_cons_of_mem _ he)]

/-- No row has two records in the topic. -/
theorem OnceInv.rows_nodup (h : OnceInv env s) :
    (s.loan.kafka.map fun p => p.row).Nodup :=
  List.nodup_iff_count_le_one.mpr h.loan.once

theorem mem_ownRecords {kafka : List Loan.Publication} {q : Nat} {r : Loan.Publication} :
    r ∈ ownRecords env kafka q ↔
      r ∈ kafka ∧ r.record.topic = loanStatusChangedV1 ∧ env.partition r.record.key = q := by
  simp [ownRecords]

/-- Every message on a channel is what the worker makes of a record of the service. -/
theorem OnceInv.exists_source (hreads : env.pydantic.ReadsBack) (h : OnceInv env s)
    (hreadable : Readable env s) (hp : p ∈ s.channel) :
    ∃ r ∈ s.loan.kafka, ∃ m, source? s p = some r ∧ RecordFor s.loan m r ∧
      toRedisMessage (typed r.record.value (submission m)) = (p.channel, p.message) := by
  have hmaps := h.inv.channel p hp
  rw [Maps, Bridge.record, h.inv.log, List.getElem?_map] at hmaps
  obtain ⟨value, hvalue, hhandle⟩ := Option.bind_eq_some_iff.mp hmaps
  obtain ⟨entry, hentry, hsame⟩ := Option.map_eq_some_iff.mp (Option.join_eq_some_iff.mp hvalue)
  obtain ⟨r, rfl⟩ := h.own _ entry (List.mem_of_getElem? hentry)
  have hr : r ∈ ownRecords env s.loan.kafka p.record.1 := by
    rw [← h.inv.own]
    exact List.mem_filterMap.mpr ⟨.own r, List.mem_of_getElem? hentry, rfl⟩
  obtain ⟨hkafka, htopic, _⟩ := mem_ownRecords.mp hr
  obtain ⟨m, hrecord⟩ := h.inv.loan.records r hkafka htopic
  obtain rfl : modelDumpJson env.dump r.record.value = value := Option.some.inj hsame
  refine ⟨r, hkafka, m, by rw [source?, hentry]; rfl, hrecord, ?_⟩
  rw [handleMessage, parseStatusChanged_modelDumpJson hreads hrecord.payload
    (hreadable r hkafka)] at hhandle
  exact Option.some.inj hhandle

/-- A message is an update of the loan its record is for, and of no other. -/
theorem OnceInv.isUpdateOf_iff (h : OnceInv env s) {r : Loan.Publication}
    {m' : LoanApplicationModel} (hsource : source? s p = some r) (hrecord : RecordFor s.loan m r)
    (hm' : m' ∈ s.loan.world.loans.committed) : isUpdateOf s m' p = true ↔ m = m' := by
  rw [isUpdateOf, hsource, Option.any_some, decide_eq_true_iff, hrecord.key]
  constructor
  · intro hkey
    exact h.inv.loan.partition.session.eq_of_id hrecord.loan hm' (Uuid.str_injective hkey)
  · rintro rfl
    rfl

/-- A loan has one status row. -/
theorem eq_of_statusRow (h : Inv env s) (hm : m ∈ s.loan.world.loans.committed)
    {e e' : Loan.OutboxEventModel} (he : e ∈ s.loan.world.outbox.committed)
    (he' : e' ∈ s.loan.world.outbox.committed) (hid : e.aggregateId = m.id)
    (hid' : e'.aggregateId = m.id) (htype : e.eventType = loanStatusChangedV1)
    (htype' : e'.eventType = loanStatusChangedV1) : e = e' := by
  have hone := h.loan.partition.linked.once m hm loanStatusChangedV1 (by decide)
  have hmem {a : Loan.OutboxEventModel} (ha : a ∈ s.loan.world.outbox.committed)
      (hid : a.aggregateId = m.id) (htype : a.eventType = loanStatusChangedV1) :
      a ∈ Loan.eventsOf s.loan.world.outbox.committed m.id loanStatusChangedV1 :=
    List.mem_filter.mpr ⟨ha, by simp [hid, htype]⟩
  obtain ⟨a, hsingle⟩ := List.length_eq_one_iff.mp hone
  have hleft := hmem he hid htype
  have hright := hmem he' hid' htype'
  rw [hsingle] at hleft hright
  rw [List.mem_singleton.mp hleft, List.mem_singleton.mp hright]

/-- A loan has at most one status record. -/
theorem OnceInv.eq_of_recordFor (h : OnceInv env s) {r r' : Loan.Publication}
    (hr : r ∈ s.loan.kafka) (hr' : r' ∈ s.loan.kafka) (hrecord : RecordFor s.loan m r)
    (hrecord' : RecordFor s.loan m r') : r = r' := by
  obtain ⟨e, he, hrow, htype, hstatus⟩ := hrecord.row
  obtain ⟨e', he', hrow', htype', hstatus'⟩ := hrecord'.row
  obtain rfl := eq_of_statusRow h.inv hrecord.loan he he' hstatus.aggregateId hstatus'.aggregateId
    htype htype'
  exact List.inj_on_of_nodup_map h.rows_nodup hr hr' (hrow.symm.trans hrow')

/-- A record stands in one place of the topic. -/
theorem OnceInv.eq_of_source (h : OnceInv env s) {p' : Notification.Publication}
    {r : Loan.Publication} (hp : source? s p = some r) (hp' : source? s p' = some r) :
    p.record = p'.record := by
  have hplace {p : Notification.Publication} (hp : source? s p = some r) :
      (ownRecords env s.loan.kafka p.record.1)[p.record.2]? = some r := by
    rw [source?, h.topic, List.getElem?_map] at hp
    obtain ⟨entry, hentry, hown⟩ := Option.bind_eq_some_iff.mp hp
    obtain ⟨r', hr', rfl⟩ := Option.map_eq_some_iff.mp hentry
    rw [hr', Option.some.inj hown]
  have hleft := hplace hp
  have hright := hplace hp'
  have hpartition {q : Nat} {i : Nat} (hi : (ownRecords env s.loan.kafka q)[i]? = some r) :
      env.partition r.record.key = q :=
    (mem_ownRecords.mp (List.mem_of_getElem? hi)).2.2
  have hsame : p.record.1 = p'.record.1 := (hpartition hleft).symm.trans (hpartition hright)
  rw [← hsame] at hright
  have hnodup : (ownRecords env s.loan.kafka p.record.1).Nodup :=
    h.rows_nodup.of_map.sublist List.filter_sublist
  obtain ⟨hlt, _⟩ := List.getElem?_eq_some_iff.mp hleft
  exact Prod.ext hsame ((List.getElem?_inj hlt hnodup).mp (hleft.trans hright.symm))

end Sources

section Updates
variable {env : Environment} {s : State} {m : LoanApplicationModel}

/-- Elements that all have one key are at most one where keys do not repeat. -/
theorem length_filter_le_one {α β : Type} {f : α → β} {P : α → Bool} {l : List α}
    (hnodup : (l.map f).Nodup)
    (h : ∀ a ∈ l, ∀ b ∈ l, P a = true → P b = true → f a = f b) : (l.filter P).length ≤ 1 := by
  match hfilter : l.filter P with
  | [] => exact Nat.zero_le _
  | [a] => exact Nat.le_refl _
  | a :: b :: rest =>
      have hmem (c : α) (hc : c ∈ l.filter P) : c ∈ l ∧ P c = true := List.mem_filter.mp hc
      obtain ⟨ha, hPa⟩ := hmem a (by simp [hfilter])
      obtain ⟨hb, hPb⟩ := hmem b (by simp [hfilter])
      have hsub := hnodup.sublist ((List.filter_sublist (p := P)).map f)
      rw [hfilter, List.map_cons, List.map_cons, List.nodup_cons] at hsub
      exact absurd (List.mem_cons.mpr (.inl (h a ha b hb hPa hPb))) hsub.1

theorem OnceInv.once (hreads : env.pydantic.ReadsBack) (h : OnceInv env s)
    (hreadable : Readable env s) (hm : m ∈ s.loan.world.loans.committed) :
    (s.channel.filter (isUpdateOf s m)).length ≤ 1 := by
  refine length_filter_le_one (f := fun p => p.record) (h.channel ▸ h.bridge.nodup) ?_
  intro p hp q hq hpm hqm
  obtain ⟨r, hr, m₁, hsource, hrecord, _⟩ := h.exists_source hreads hreadable hp
  obtain ⟨r', hr', m₂, hsource', hrecord', _⟩ := h.exists_source hreads hreadable hq
  obtain rfl := (h.isUpdateOf_iff hsource hrecord hm).mp hpm
  obtain rfl := (h.isUpdateOf_iff hsource' hrecord' hm).mp hqm
  obtain rfl := h.eq_of_recordFor hr hr' hrecord hrecord'
  exact h.eq_of_source hsource hsource'

/-- The record of a loan whose status row is sent. -/
theorem OnceInv.exists_record (h : OnceInv env s) (hm : m ∈ s.loan.world.loans.committed)
    (hsent : ∀ e ∈ s.loan.world.outbox.committed, e.status = "SENT") :
    ∃ r ∈ s.loan.kafka, r.record.topic = loanStatusChangedV1 ∧ RecordFor s.loan m r := by
  have hone := h.inv.loan.partition.linked.once m hm loanStatusChangedV1 (by decide)
  obtain ⟨e, hsingle⟩ := List.length_eq_one_iff.mp hone
  have he : e ∈ Loan.eventsOf s.loan.world.outbox.committed m.id loanStatusChangedV1 := by
    rw [hsingle]
    exact List.mem_singleton.mpr rfl
  obtain ⟨hcommitted, hkind⟩ := List.mem_filter.mp he
  simp only [Bool.and_eq_true, decide_eq_true_eq] at hkind
  have hpublished := (h.loan.publishedOnce e hcommitted (by rw [hkind.2]; decide)).2
    (hsent e hcommitted)
  have hcount : Loan.publications s.loan.kafka e.id = 1 :=
    hpublished.resolve_right fun ⟨m₀, hm₀, _⟩ => absurd hm₀ List.not_mem_nil
  have hrow : e.id ∈ s.loan.kafka.map fun p => p.row := by
    rw [← List.count_pos_iff]
    exact Nat.lt_of_lt_of_eq Nat.zero_lt_one hcount.symm
  obtain ⟨r, hr, hid⟩ := List.mem_map.mp hrow
  obtain ⟨e', m', hrecordOf⟩ := h.inv.loan.partition.records r hr
  obtain rfl := Loan.OutboxEventModel.eq_of_id h.inv.loan.partition.outbox.unique.committed
    hrecordOf.event hcommitted (hrecordOf.row.trans hid)
  have htopic : r.record.topic = loanStatusChangedV1 := hrecordOf.topic.trans hkind.2
  obtain ⟨m₁, hrecord⟩ := h.inv.loan.records r hr htopic
  have hsame : m₁ = m := by
    refine h.inv.loan.partition.session.eq_of_id hrecord.loan hm ?_
    have hkey := hrecord.key
    rw [hrecordOf.key, hkind.1] at hkey
    exact (Uuid.str_injective hkey).symm
  exact ⟨r, hr, htopic, hsame ▸ hrecord⟩

theorem OnceInv.exists_update (hreads : env.pydantic.ReadsBack) (h : OnceInv env s)
    (hreadable : Readable env s) (hdrained : Drained s)
    (hm : m ∈ s.loan.world.loans.committed) : ∃ p ∈ s.channel, isUpdateOf s m p = true := by
  obtain ⟨r, hr, htopic, hrecord⟩ := h.exists_record hm hdrained.sent
  have hown : r ∈ ownRecords env s.loan.kafka (env.partition r.record.key) :=
    mem_ownRecords.mpr ⟨hr, htopic, rfl⟩
  obtain ⟨i, hi⟩ := List.mem_iff_getElem?.mp hown
  have hentry : (s.topic (env.partition r.record.key))[i]? = some (.own r) := by
    rw [h.topic, List.getElem?_map, hi]
    rfl
  have hvalue : s.bridge.record (env.partition r.record.key, i) =
      some (modelDumpJson env.dump r.record.value) := by
    rw [Bridge.record, h.inv.log, List.getElem?_map, hentry]
    rfl
  have hmaps : ((s.bridge.record (env.partition r.record.key, i)).bind
      (handleMessage env.pydantic)).isSome = true := by
    rw [hvalue, Option.bind_some, handleMessage,
      parseStatusChanged_modelDumpJson hreads hrecord.payload (hreadable r hr)]
    rfl
  obtain ⟨hlt, _⟩ := List.getElem?_eq_some_iff.mp hentry
  have htaken := (h.bridge.taken (env.partition r.record.key, i)).mpr
    ⟨by rw [hdrained.taken]; exact hlt, by rw [hdrained.handled]; simp, hmaps⟩
  obtain ⟨p, hp, hplace⟩ := List.mem_map.mp htaken
  have hsource : source? s p = some r := by
    rw [source?, hplace, hentry]
    rfl
  exact ⟨p, h.channel ▸ hp, (h.isUpdateOf_iff hsource hrecord hm).mpr rfl⟩

end Updates

section Shown
variable {env : Environment} {s : State} {t : Stream} {m : LoanApplicationModel}

/-- What an applicant's channel carries, message by message. -/
theorem OnceInv.exists_envelopes (hreads : env.pydantic.ReadsBack) (h : OnceInv env s)
    (hreadable : Readable env s) (hm : m ∈ s.loan.world.loans.committed)
    {published : List Notification.Publication} (hpublished : ∀ p ∈ published, p ∈ s.channel) :
    ∃ messages : List (EventEnvelope LoanStatusChangedV1),
      onChannel (Gateway.streamChannel m.applicantId.str) published =
          messages.map (fun m => (toRedisMessage m).2) ∧
        (messages.filter fun e => e.payload.loanId.str = m.id.str).length =
          (published.filter (isUpdateOf s m)).length ∧
        ∀ e ∈ messages, e.payload.newStatus = Loan.LoanStatus.submitted.value := by
  induction published with
  | nil => exact ⟨[], rfl, rfl, fun e he => absurd he List.not_mem_nil⟩
  | cons p published ih =>
      obtain ⟨messages, hmessages, hcount, hstatus⟩ :=
        ih fun q hq => hpublished q (List.mem_cons_of_mem _ hq)
      obtain ⟨r, hr, m', hsource, hrecord, hmapped⟩ :=
        h.exists_source hreads hreadable (hpublished p (List.mem_cons_self ..))
      have hupdate := h.isUpdateOf_iff hsource hrecord hm
      have hsame := congrArg Prod.fst hmapped
      simp only [toRedisMessage] at hsame
      by_cases hchannel : p.channel = Gateway.streamChannel m.applicantId.str
      · refine ⟨typed r.record.value (submission m') :: messages, ?_, ?_, ?_⟩
        · rw [List.map_cons, ← hmessages, hmapped]
          simp [onChannel, hchannel]
        · have hid : decide ((typed r.record.value (submission m')).payload.loanId.str =
              m.id.str) = isUpdateOf s m p := by
            rw [Bool.eq_iff_iff, hupdate, decide_eq_true_iff, Uuid.str_injective.eq_iff]
            exact ⟨h.inv.loan.partition.session.eq_of_id hrecord.loan hm, fun heq => by
              rw [heq]; rfl⟩
          rw [List.filter_cons, List.filter_cons, hid]
          split
          · rw [List.length_cons, List.length_cons, hcount]
          · exact hcount
        · intro e he
          cases List.mem_cons.mp he with
          | inl heq =>
              rw [heq]
              exact h.inv.loan.loans m' hrecord.loan
          | inr hold => exact hstatus e hold
      · have hother : isUpdateOf s m p = false := by
          by_contra hm'
          rw [Bool.not_eq_false, hupdate] at hm'
          rw [hm'] at hsame
          exact hchannel (hsame.symm.trans (redisChannelFor_eq m.applicantId))
        refine ⟨messages, ?_, ?_, hstatus⟩
        · rw [← hmessages]
          simp [onChannel, hchannel]
        · rw [hcount, List.filter_cons_of_neg (by simp [hother])]

theorem throughTerminal_of_open {messages : List (EventEnvelope LoanStatusChangedV1)}
    (h : ∀ e ∈ messages, Gateway.isTerminal e.payload.newStatus = false) :
    throughTerminal messages = messages := by
  induction messages with
  | nil => rfl
  | cons e messages ih =>
      rw [throughTerminal, h e (List.mem_cons_self ..),
        ih fun a ha => h a (List.mem_cons_of_mem _ ha)]
      rfl

/-- A stream of a loan that is not closed shows one frame for each message about it. -/
theorem length_live {loan : Gateway.Loan} {draws : Uuid × Datetime} {received : List Delivery}
    (hlast : t.args.lastEventId = none) (hfetched : t.fetched = some (loan, draws))
    (hreceived : t.received = received.map Delivery.message?)
    (hloan : Gateway.isTerminal (Gateway.fetchedStatus env.repr loan) = false)
    (hopen : ∀ e ∈ spelled t.args.loanId received,
      Gateway.isTerminal e.payload.newStatus = false) :
    (live env t).length = (spelled t.args.loanId received).length := by
  obtain ⟨huntimed, _⟩ := @Gateway.listen_seen env.repr t.args.loanId
    (Gateway.fetchedStatus env.repr loan) none received
  rw [throughTerminal_of_open hopen] at huntimed
  have hlength := congrArg List.length huntimed
  simp only [Gateway.untimed, List.length_map] at hlength
  simp only [live, Stream.frames, Stream.events, hfetched, hlast, hreceived, Gateway.eventStream,
    hloan, Bool.false_eq_true, if_false, List.filterMap_cons, Frame.status?, List.tail_cons]
  exact hlength

theorem not_terminal_submitted : Gateway.isTerminal Loan.LoanStatus.submitted.value = false := by
  decide

theorem OnceInv.shown (hreads : env.pydantic.ReadsBack)
    (hrender : ∀ r, Json.get? (env.service.render r) "status" = some (.str r.status.value))
    (hpath : ∀ id : Uuid, env.service.readId id.str = some id) (h : OnceInv env s)
    (hreadable : Readable env s) (ht : StreamInv env s t) (hlast : t.args.lastEventId = none)
    (hm : m ∈ s.loan.world.loans.committed) (hloanId : t.args.loanId = m.id.str) {k : Nat}
    (hk : t.since = some k) :
    (live env t).length ≤ 1 ∧
      (t.failed = false → t.inbox = [] → (live env t).length =
        ((s.channel.drop k).filter (isUpdateOf s m)).length) := by
  obtain ⟨hsome, _, missed, hheard, hmissed⟩ := ht.heard k hk
  obtain ⟨⟨loan, draws⟩, hfetched⟩ := Option.isSome_iff_exists.mp hsome
  obtain ⟨m', hm', hread, happlicant, r, hstatus, hloan⟩ := ht.fetched loan draws hfetched
  have hsame : m' = m := by
    refine h.inv.loan.partition.session.eq_of_id hm' hm ?_
    rw [hloanId, hpath] at hread
    exact (Option.some.inj hread).symm
  obtain ⟨messages, hmessages, hcount, hopen⟩ := h.exists_envelopes hreads hreadable hm
    fun p (hp : p ∈ s.channel.drop k) => List.mem_of_mem_drop hp
  rw [happlicant, hsame, hmessages, List.append_assoc] at hheard
  obtain ⟨taken, behind, rfl, htaken, hbehind⟩ := List.append_eq_map_iff.mp hheard
  obtain ⟨deliveries, hreceived, hdelivered⟩ := Gateway.exists_deliveries htaken.symm
  have hspelled : spelled t.args.loanId deliveries =
      taken.filter fun e => e.payload.loanId.str = m.id.str := by
    rw [spelled, hdelivered, hloanId]
  have hlength : (live env t).length =
      (taken.filter fun e => e.payload.loanId.str = m.id.str).length := by
    rw [← hspelled]
    refine length_live hlast hfetched hreceived ?_ ?_
    · simp only [Gateway.fetchedStatus, hloan, hrender, Option.getD_some, Gateway.str, hstatus,
        h.inv.loan.loans m' hm']
      exact not_terminal_submitted
    · intro e he
      rw [hspelled] at he
      rw [hopen e (List.mem_append_left _ (List.mem_filter.mp he).1)]
      exact not_terminal_submitted
  rw [List.filter_append, List.length_append] at hcount
  refine ⟨?_, ?_⟩
  · have hall := h.once hreads hreadable hm
    have hdrop := ((List.drop_sublist k s.channel).filter (isUpdateOf s m)).length_le
    omega
  · intro hlive hinbox
    rw [hinbox, hmissed hlive, List.append_nil] at hbehind
    rw [List.map_eq_nil_iff.mp hbehind, List.filter_nil, List.length_nil, Nat.add_zero] at hcount
    rw [hlength, hcount]

end Shown

section Runs
variable {env : Environment} {s : State}

theorem OnceInv.exactlyOnce (hreads : env.pydantic.ReadsBack)
    (hrender : ∀ r, Json.get? (env.service.render r) "status" = some (.str r.status.value))
    (hpath : ∀ id : Uuid, env.service.readId id.str = some id) (h : OnceInv env s)
    (hreadable : Readable env s) : ExactlyOnce env s := by
  refine ⟨?_, fun m hm => h.once hreads hreadable hm, ?_, ?_, ?_⟩
  · intro p hp
    obtain ⟨r, _, m, hsource, hrecord, _⟩ := h.exists_source hreads hreadable hp
    exact ⟨m, hrecord.loan, (h.isUpdateOf_iff hsource hrecord hrecord.loan).mpr rfl⟩
  · intro hdrained m hm
    obtain ⟨p, hp, hupdate⟩ := h.exists_update hreads hreadable hdrained hm
    have hpos : 0 < (s.channel.filter (isUpdateOf s m)).length :=
      List.length_pos_of_mem (List.mem_filter.mpr ⟨hp, hupdate⟩)
    exact Nat.le_antisymm (h.once hreads hreadable hm) hpos
  · intro m hm p hp hupdate
    obtain ⟨r, hr, m', hsource, hrecord, hmapped⟩ := h.exists_source hreads hreadable hp
    obtain rfl := (h.isUpdateOf_iff hsource hrecord hm).mp hupdate
    have hannounces := announces_toRedisMessage r.record.value (submission m')
    rw [hmapped] at hannounces
    refine ⟨?_, r, hr, hannounces⟩
    exact (congrArg Prod.fst hmapped).symm.trans (redisChannelFor_eq m'.applicantId)
  · intro n t ht hlast m hm hloanId k hk
    exact h.shown hreads hrender hpath hreadable (h.inv.streams n t ht) hlast hm hloanId hk

/-- In every run in which nothing fails behind a worker's send and nobody else writes
to the topic. Requests may fail, sends may be lost, streams come, fail and go. -/
theorem exactlyOnce_of_run (hreads : env.pydantic.ReadsBack)
    (hrender : ∀ r, Json.get? (env.service.render r) "status" = some (.str r.status.value))
    (hpath : ∀ id : Uuid, env.service.readId id.str = some id) {ls : List Label}
    (hsound : ∀ l ∈ ls, Sound l) (hrun : Runs.run (step env) .init ls = some s)
    (hreadable : Readable env s) : ExactlyOnce env s :=
  (OnceInv.of_run hreads hsound hrun).exactlyOnce hreads hrender hpath hreadable

end Runs

section Sample

def relayed : List Label :=
  [.bridge (.fetch 0), .bridge .handle, .bridge .publish, .bridge .commit]

def isIdle : Notification.Phase → Bool
  | .idle => true
  | _ => false

theorem run_submitted : ∃ s, Runs.run (step .sample) .init submitted = some s ∧
    s.bridge.phase = .idle ∧ s.bridge.position 0 = 0 ∧ (s.topic 0).length = 1 ∧
    Readable .sample s ∧ ∀ e ∈ s.loan.world.outbox.committed, e.status = "SENT" := by
  have heval : (Runs.run (step .sample) .init submitted).map (fun s =>
      ((isIdle s.bridge.phase, s.bridge.position 0, (s.topic 0).length),
        (s.loan.kafka.map fun p => p.record.value),
        s.loan.world.outbox.committed.map fun e => e.status)) =
      some ((true, 0, 1), sentEnvelopes, ["SENT", "SENT"]) := by decide +kernel
  obtain ⟨s, hrun, heq⟩ := Option.map_eq_some_iff.mp heval
  simp only [Prod.mk.injEq] at heq
  obtain ⟨⟨hidle, hposition, hlength⟩, hkafka, hsent⟩ := heq
  refine ⟨s, hrun, ?_, hposition, hlength, ?_, ?_⟩
  · cases hphase : s.bridge.phase with
    | idle => rfl
    | handling r | publishing r channel message | committing =>
        rw [hphase] at hidle
        contradiction
  · exact readable_of_sent hkafka
  · intro e he
    have hmem : e.status ∈ s.loan.world.outbox.committed.map fun e => e.status :=
      List.mem_map_of_mem he
    rw [hsent] at hmem
    simpa using hmem

/-- The notification worker takes a record that maps to something, publishes and
commits. -/
theorem run_relayed {env : Environment} {s : State} {value : ByteArray} {channel : String}
    {message : ByteArray} (hidle : s.bridge.phase = .idle) (hposition : s.bridge.position 0 = 0)
    (hlog : s.bridge.log 0 = [some value])
    (hmapped : handleMessage env.pydantic value = some (channel, message)) :
    ∃ b, b.phase = .idle ∧ b.position = Function.update s.bridge.position 0 1 ∧
      Runs.run (step env) s relayed =
        some (State.publish { s with bridge := b } ⟨(0, 0), channel, message⟩) := by
  refine ⟨{ s.bridge with
    phase := .idle
    position := Function.update s.bridge.position 0 1
    committed := Function.update s.bridge.position 0 1
    published := s.bridge.published ++ [⟨(0, 0), channel, message⟩] }, rfl, rfl, ?_⟩
  simp [relayed, Runs.run, step, bridgeStep, Bridge.step, hidle, hposition, hlog, Bridge.record,
    hmapped, State.outgoing?, State.publish]

theorem readId_sampleService (id : Uuid) : Environment.sample.service.readId id.str = some id := by
  simp only [Environment.sample, Gateway.sampleService, Uuid.parse_str]

theorem sound_submitted : ∀ l ∈ submitted, Sound l := by
  decide +kernel

/-- The one loan of the run is on its applicant's channel once. -/
theorem exactlyOnce_relayed : ∃ s,
    Runs.run (step .sample) .init (submitted ++ relayed) = some s ∧
      Drained s ∧ ExactlyOnce .sample s := by
  obtain ⟨s, hrun, hidle, hposition, hlength, hreadable, hsent⟩ := run_submitted
  have hreads : Environment.sample.pydantic.ReadsBack := readsBack_noon
  have h := OnceInv.of_run hreads sound_submitted hrun
  obtain ⟨e, htopic⟩ := List.length_eq_one_iff.mp hlength
  obtain ⟨r, rfl⟩ := h.own 0 e (by rw [htopic]; exact List.mem_singleton.mpr rfl)
  have hr : r ∈ ownRecords .sample s.loan.kafka 0 := by
    rw [← h.inv.own, htopic]
    exact List.mem_singleton.mpr rfl
  obtain ⟨hkafka, hstatus, _⟩ := mem_ownRecords.mp hr
  obtain ⟨m, hrecord⟩ := h.inv.loan.records r hkafka hstatus
  obtain ⟨channel, message, hmapped⟩ : ∃ channel message, handleMessage Environment.sample.pydantic
      (modelDumpJson Environment.sample.dump r.record.value) = some (channel, message) :=
    ⟨_, _, handleMessage_modelDumpJson hreads hrecord.payload (hreadable r hkafka)⟩
  obtain ⟨b, hphase, hposition', hrelayed⟩ := @run_relayed .sample _ _ _ _ hidle hposition
    (by rw [h.inv.log, htopic]; rfl) hmapped
  have hfull : Runs.run (step .sample) .init (submitted ++ relayed) =
      some (State.publish { s with bridge := b } ⟨(0, 0), channel, message⟩) := by
    rw [Runs.run_append, hrun]
    exact hrelayed
  have hsound : ∀ l ∈ submitted ++ relayed, Sound l := by
    intro l hl
    cases List.mem_append.mp hl with
    | inl hl => exact sound_submitted l hl
    | inr hl => exact (by decide : ∀ l ∈ relayed, Sound l) l hl
  refine ⟨_, hfull, ⟨hsent, ?_, ?_⟩, ?_⟩
  · intro p
    change b.position p = (s.topic p).length
    rw [hposition', Function.update_apply]
    split
    · rename_i hp
      rw [hp, hlength]
    · rename_i hp
      have hempty : ownRecords Environment.sample s.loan.kafka p = [] := by
        refine List.filter_eq_nil_iff.mpr fun q _ hq => hp ?_
        simp only [Bool.and_eq_true, decide_eq_true_eq] at hq
        exact hq.2.symm
      have hwithin := h.bridge.within p
      rw [h.inv.log, List.length_map, h.topic, List.length_map, hempty] at hwithin
      rw [h.topic, List.length_map, hempty]
      exact Nat.le_zero.mp hwithin
  · change b.phase.inHand = none
    rw [hphase]
    rfl
  · exact exactlyOnce_of_run hreads get?_status_sampleService readId_sampleService hsound hfull
      hreadable

end Sample

end CrediGuard.Platform
