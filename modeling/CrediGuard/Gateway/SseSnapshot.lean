import CrediGuard.Gateway.Sse
import CrediGuard.Lib.Runs

/-!
A fresh SSE connection and the status changes of its loan.

A change is a commit in the loan table and, later, a publish on the applicant's
channel; the stream reads the table, yields, subscribes and then receives. A run
delivers every change committed after the snapshot just if each of them is
published after the subscribe, before the end of the stream, and not behind a
terminal message; and a stream whose path spells the loan in another way than its
messages do delivers none.
-/

namespace CrediGuard.Gateway
open Notification

section Machine

structure Change where
  envelope : EventEnvelope LoanStatusChangedV1
  afterSnapshot : Bool
  published : Bool := false

/-- Where `event_stream` stands; the text is the status it has fetched. -/
inductive Phase where
  | fetching
  | yielding (loan : Loan)
  | subscribing (status : String)
  | listening (status : String)
  | ended

structure Stream where
  /-- The status in the loan table. -/
  status : String
  changes : List Change := []
  phase : Phase := .fetching
  /-- The messages not received yet, each with the change it announces, if any. -/
  channel : List (Option Nat × EventEnvelope LoanStatusChangedV1) := []
  /-- The frames yielded so far, each with the change whose message it shows. -/
  frames : List (Option Nat × Frame) := []

inductive Label where
  | commit (envelope : EventEnvelope LoanStatusChangedV1)
  | publish (i : Nat)
  | publishOther (envelope : EventEnvelope LoanStatusChangedV1)
  | fetch (reasons : Json)
  | yieldInitial (uuid : Uuid) (now : Datetime)
  | subscribe
  | getMessage (uuid : Uuid) (now : Datetime)
  | timeout

namespace Stream

def isListening (s : Stream) : Bool :=
  match s.phase with
  | .listening _ => true
  | _ => false

def snapshotRead (s : Stream) : Bool :=
  match s.phase with
  | .fetching => false
  | _ => true

/-- Pub/Sub hands a message to the subscribers there are. -/
def publish (s : Stream) (i : Option Nat) (m : EventEnvelope LoanStatusChangedV1) : Stream :=
  if s.isListening then { s with channel := s.channel ++ [(i, m)] } else s

end Stream

variable (repr : Json → String) (loanId : String) (loan : Uuid)

def step (s : Stream) : Label → Option Stream
  | .commit m =>
      if m.payload.loanId = loan then
        some { s with
          status := m.payload.newStatus
          changes := s.changes ++ [⟨m, s.snapshotRead, false⟩] }
      else none
  | .publish i =>
      match s.changes[i]? with
      | none => none
      | some c =>
          if c.published then none
          else some ({ s with
            changes := s.changes.set i { c with published := true } }.publish (some i) c.envelope)
  | .publishOther m => if m.payload.loanId = loan then none else some (s.publish none m)
  | .fetch reasons =>
      match s.phase with
      | .fetching =>
          some { s with
            phase := .yielding [("status", .str s.status), ("decision_reasons", reasons)] }
      | _ => none
  | .yieldInitial uuid now =>
      match s.phase with
      | .yielding fetched =>
          let status := fetchedStatus repr fetched
          some { s with
            phase := if isTerminal status then .ended else .subscribing status
            frames := s.frames ++
              [(none, .status (initialFrame repr loanId fetched uuid now))] }
      | _ => none
  | .subscribe =>
      match s.phase with
      | .subscribing status => some { s with phase := .listening status }
      | _ => none
  | .getMessage uuid now =>
      match s.phase, s.channel with
      | .listening status, (i, m) :: rest =>
          match react utf8Loads repr loanId none status true (messageOf m uuid now) with
          | .frame f last =>
              some { s with
                phase := if last then .ended else .listening status
                channel := rest
                frames := s.frames ++ [(i, .status f)] }
          | .raises => some { s with phase := .ended, channel := rest }
          | _ => some { s with channel := rest }
      | _, _ => none
  | .timeout =>
      match s.phase, s.channel with
      | .listening _, [] => some { s with frames := s.frames ++ [(none, .heartbeat)] }
      | _, _ => none

end Machine

section Statement

/-- The stream waits on an empty channel, or is over. -/
def Drained (s : Stream) : Prop := (s.isListening = true ∧ s.channel = []) ∨ s.phase = .ended

/-- The change has been shown in a status frame. -/
def Shown (s : Stream) (i : Nat) (c : Change) : Prop :=
  ∃ f, (some i, Frame.status f) ∈ s.frames ∧ f.status = c.envelope.payload.newStatus

/-- The change was committed after the snapshot, and published. -/
def Due (s : Stream) (i : Nat) (c : Change) : Prop :=
  s.changes[i]? = some c ∧ c.afterSnapshot = true ∧ c.published = true

/-- The loan has a terminal status, and the message about it has been published. -/
def Concluded (s : Stream) : Prop :=
  isTerminal s.status = true ∧ ∀ c, s.changes.getLast? = some c → c.published = true

/-- A drained stream has shown every change it should have, and where the loan is
concluded it has shown its status and is over. -/
def NothingMissed (s : Stream) : Prop :=
  Drained s →
    (∀ i c, Due s i c →
      Shown s i c ∧ (isTerminal c.envelope.payload.newStatus = true → s.phase = .ended)) ∧
    (Concluded s → s.phase = .ended ∧ ∃ i f, (i, Frame.status f) ∈ s.frames ∧ f.status = s.status)

/-- No change of after the snapshot has been published yet. -/
def NoneDue (s : Stream) : Prop := ∀ i c, ¬ Due s i c

/-- A change of after the snapshot is published to a stream that is subscribed and
not over, and is not received behind a terminal one; and none is received where the
path does not spell the loan as the messages do. -/
def InTime (repr : Json → String) (loanId : String) (loan : Uuid) (s : Stream) : Label → Prop
  | .subscribe => NoneDue s
  | .yieldInitial _ _ => ∀ fetched, s.phase = .yielding fetched →
      isTerminal (fetchedStatus repr fetched) = true → NoneDue s
  | .publish i => s.phase = .ended → ∀ c, s.changes[i]? = some c → c.afterSnapshot = false
  | .getMessage _ _ =>
      if loanId = loan.str then
        ∀ i m rest, s.channel = (some i, m) :: rest → isTerminal m.payload.newStatus = true →
          ∀ j c, Due s j c → j ∉ rest.filterMap Prod.fst
      else ∀ message, s.channel = [message] → NoneDue s
  | _ => True

end Statement

section Invariant
variable {repr : Json → String} {loanId : String} {loan : Uuid} {s s' : Stream}

namespace Stream

/-- The changes whose messages wait in the channel. -/
def queued (s : Stream) : List Nat := s.channel.filterMap Prod.fst

/-- The changes whose frames have been yielded. -/
def shown (s : Stream) : List Nat := s.frames.filterMap Prod.fst

theorem mem_queued {i : Nat} : i ∈ s.queued ↔ ∃ m, (some i, m) ∈ s.channel := by
  simp [queued]

theorem mem_shown {i : Nat} : i ∈ s.shown ↔ ∃ f, (some i, f) ∈ s.frames := by
  simp [shown]

end Stream

structure Inv (loanId : String) (loan : Uuid) (s : Stream) : Prop where
  ours : ∀ c ∈ s.changes, c.envelope.payload.loanId = loan
  queued : ∀ i m, (some i, m) ∈ s.channel →
    ∃ c, s.changes[i]? = some c ∧ c.envelope = m ∧ c.published = true
  others : ∀ m, (none, m) ∈ s.channel → m.payload.loanId ≠ loan
  once : (s.queued ++ s.shown).Nodup
  shown : ∀ i frame, (some i, frame) ∈ s.frames → ∃ c f, s.changes[i]? = some c ∧
    c.published = true ∧ frame = .status f ∧ f.status = c.envelope.payload.newStatus
  early : s.isListening = false → s.phase ≠ .ended → s.channel = [] ∧ s.shown = []
  live : s.isListening = true → ∀ i c, i ∈ s.shown → s.changes[i]? = some c →
    isTerminal c.envelope.payload.newStatus = false
  foreign : loanId ≠ loan.str → s.shown = []

/-- While a stream listens that spells the loan as its messages do, what is due is
on its way. -/
def OnTheWay (loanId : String) (loan : Uuid) (s : Stream) : Prop :=
  loanId = loan.str → s.isListening = true → ∀ i c, Due s i c → i ∈ s.queued ∨ i ∈ s.shown

theorem Inv.shown_iff (h : Inv loanId loan s) {i : Nat} {c : Change} (hc : s.changes[i]? = some c) :
    Shown s i c ↔ i ∈ s.shown := by
  rw [Stream.mem_shown]
  constructor
  · rintro ⟨f, hf, _⟩
    exact ⟨_, hf⟩
  · rintro ⟨frame, hframe⟩
    obtain ⟨c', f, hc', _, rfl, hstatus⟩ := h.shown i frame hframe
    obtain rfl := Option.some.inj (hc.symm.trans hc')
    exact ⟨f, hframe, hstatus⟩

/-- The changes of before are still there; at most they have been published. -/
def Persists (before after : List Change) : Prop :=
  ∀ (i : Nat) (c : Change), before[i]? = some c → ∃ c' : Change, after[i]? = some c' ∧
    c'.envelope = c.envelope ∧ c'.afterSnapshot = c.afterSnapshot ∧
    (c.published = true → c'.published = true)

theorem persists_append (changes : List Change) (c : Change) :
    Persists changes (changes ++ [c]) := by
  intro i c' hc'
  refine ⟨c', ?_, rfl, rfl, id⟩
  rw [List.getElem?_append_left (List.getElem?_eq_some_iff.mp hc').1]
  exact hc'

theorem persists_set {changes : List Change} {i : Nat} {c : Change}
    (hc : changes[i]? = some c) :
    Persists changes (changes.set i { c with published := true }) := by
  intro j c' hc'
  rw [List.getElem?_set]
  split
  · rename_i hij
    subst hij
    obtain rfl := Option.some.inj (hc.symm.trans hc')
    rw [if_pos (List.getElem?_eq_some_iff.mp hc').1]
    exact ⟨_, rfl, rfl, rfl, fun _ => rfl⟩
  · exact ⟨c', hc', rfl, rfl, id⟩

theorem Inv.unpublished (h : Inv loanId loan s) {i : Nat} {c : Change}
    (hc : s.changes[i]? = some c) (hfirst : c.published = false) :
    i ∉ s.queued ∧ i ∉ s.shown := by
  refine ⟨?_, ?_⟩
  · intro hi
    obtain ⟨m, hm⟩ := Stream.mem_queued.mp hi
    obtain ⟨c', hc', _, hpublished⟩ := h.queued i m hm
    obtain rfl := Option.some.inj (hc.symm.trans hc')
    rw [hfirst] at hpublished
    contradiction
  · intro hi
    obtain ⟨frame, hframe⟩ := Stream.mem_shown.mp hi
    obtain ⟨c', _, hc', hpublished, _⟩ := h.shown i frame hframe
    obtain rfl := Option.some.inj (hc.symm.trans hc')
    rw [hfirst] at hpublished
    contradiction

/-- A step of the table: the stream itself does not move. -/
theorem Inv.of_changes (h : Inv loanId loan s) (hphase : s'.phase = s.phase)
    (hchannel : s'.channel = s.channel) (hframes : s'.frames = s.frames)
    (hpersists : Persists s.changes s'.changes)
    (hours : ∀ c ∈ s'.changes, c.envelope.payload.loanId = loan) :
    Inv loanId loan s' := by
  have hqueued : s'.queued = s.queued := by rw [Stream.queued, hchannel, Stream.queued]
  have hshown : s'.shown = s.shown := by rw [Stream.shown, hframes, Stream.shown]
  have hlistening : s'.isListening = s.isListening := by
    rw [Stream.isListening, hphase, Stream.isListening]
  refine ⟨hours, ?_, ?_, ?_, ?_, ?_, ?_, ?_⟩
  · intro i m hm
    rw [hchannel] at hm
    obtain ⟨c, hc, henvelope, hpublished⟩ := h.queued i m hm
    obtain ⟨c', hc', henvelope', _, hpublished'⟩ := hpersists i c hc
    exact ⟨c', hc', henvelope'.trans henvelope, hpublished' hpublished⟩
  · rw [hchannel]
    exact h.others
  · rw [hqueued, hshown]
    exact h.once
  · intro i frame hframe
    rw [hframes] at hframe
    obtain ⟨c, f, hc, hpublished, hf, hstatus⟩ := h.shown i frame hframe
    obtain ⟨c', hc', henvelope, _, hpublished'⟩ := hpersists i c hc
    exact ⟨c', f, hc', hpublished' hpublished, hf, by rw [henvelope]; exact hstatus⟩
  · rw [hlistening, hphase, hchannel, hshown]
    exact h.early
  · rw [hlistening, hshown]
    intro hl i c' hi hc'
    obtain ⟨frame, hframe⟩ := Stream.mem_shown.mp hi
    obtain ⟨c, _, hc, _⟩ := h.shown i frame hframe
    obtain ⟨c'', hc'', henvelope, _⟩ := hpersists i c hc
    obtain rfl := Option.some.inj (hc'.symm.trans hc'')
    rw [henvelope]
    exact h.live hl i c hi hc
  · rw [hshown]
    exact h.foreign

/-- A message is handed to the subscribers there are. -/
theorem Inv.publish (h : Inv loanId loan s) {i : Option Nat} {m : EventEnvelope LoanStatusChangedV1}
    (hsome : ∀ j, i = some j → j ∉ s.queued ∧ j ∉ s.shown ∧
      ∃ c, s.changes[j]? = some c ∧ c.envelope = m ∧ c.published = true)
    (hnone : i = none → m.payload.loanId ≠ loan) : Inv loanId loan (s.publish i m) := by
  simp only [Stream.publish]
  split
  · rename_i hlistening
    refine ⟨h.ours, ?_, ?_, ?_, h.shown, ?_, h.live, h.foreign⟩
    · intro j m' hm'
      cases List.mem_append.mp hm' with
      | inl hold => exact h.queued j m' hold
      | inr hnew =>
          obtain ⟨hi, rfl⟩ := Prod.mk.inj (List.mem_singleton.mp hnew)
          exact (hsome j hi.symm).2.2
    · intro m' hm'
      cases List.mem_append.mp hm' with
      | inl hold => exact h.others m' hold
      | inr hnew =>
          obtain ⟨hi, rfl⟩ := Prod.mk.inj (List.mem_singleton.mp hnew)
          exact hnone hi.symm
    · cases i with
      | none => simpa [Stream.queued, Stream.shown] using h.once
      | some j =>
          obtain ⟨hqueued, hshown, _⟩ := hsome j rfl
          have hperm : (s.queued ++ [j] ++ s.shown).Perm (j :: (s.queued ++ s.shown)) := by
            simp
          have hnodup := hperm.nodup_iff.mpr
            (List.nodup_cons.mpr ⟨by simp [hqueued, hshown], h.once⟩)
          simpa [Stream.queued, Stream.shown] using hnodup
    · intro hfalse
      simp [Stream.isListening] at hfalse hlistening
      rw [hlistening] at hfalse
      contradiction
  · exact h

/-- What a step can be, given what the messages in the channel are. -/
inductive Step (repr : Json → String) (loanId : String) (loan : Uuid) (s : Stream) :
    Label → Stream → Prop
  | commit (m : EventEnvelope LoanStatusChangedV1) (hm : m.payload.loanId = loan) :
      Step repr loanId loan s (.commit m) { s with
        status := m.payload.newStatus
        changes := s.changes ++ [⟨m, s.snapshotRead, false⟩] }
  | publish (i : Nat) (c : Change) (hc : s.changes[i]? = some c) (hfirst : c.published = false) :
      Step repr loanId loan s (.publish i) ({ s with
        changes := s.changes.set i { c with published := true } }.publish (some i) c.envelope)
  | publishOther (m : EventEnvelope LoanStatusChangedV1) (hm : m.payload.loanId ≠ loan) :
      Step repr loanId loan s (.publishOther m) (s.publish none m)
  | fetch (reasons : Json) (hp : s.phase = .fetching) :
      Step repr loanId loan s (.fetch reasons) { s with
        phase := .yielding [("status", .str s.status), ("decision_reasons", reasons)] }
  | yieldLast (uuid : Uuid) (now : Datetime) (fetched : Loan) (hp : s.phase = .yielding fetched)
      (hterminal : isTerminal (fetchedStatus repr fetched) = true) :
      Step repr loanId loan s (.yieldInitial uuid now) { s with
        phase := .ended
        frames := s.frames ++
          [(none, .status (initialFrame repr loanId fetched uuid now))] }
  | yieldInitial (uuid : Uuid) (now : Datetime) (fetched : Loan)
      (hp : s.phase = .yielding fetched)
      (hterminal : isTerminal (fetchedStatus repr fetched) = false) :
      Step repr loanId loan s (.yieldInitial uuid now) { s with
        phase := .subscribing (fetchedStatus repr fetched)
        frames := s.frames ++
          [(none, .status (initialFrame repr loanId fetched uuid now))] }
  | subscribe (status : String) (hp : s.phase = .subscribing status) :
      Step repr loanId loan s .subscribe { s with phase := .listening status }
  | skips (uuid : Uuid) (now : Datetime) (status : String) (i : Option Nat)
      (m : EventEnvelope LoanStatusChangedV1)
      (rest : List (Option Nat × EventEnvelope LoanStatusChangedV1))
      (hp : s.phase = .listening status) (hchannel : s.channel = (i, m) :: rest)
      (hi : i = none ∨ loanId ≠ loan.str) :
      Step repr loanId loan s (.getMessage uuid now) { s with channel := rest }
  | shows (uuid : Uuid) (now : Datetime) (status : String) (i : Nat)
      (m : EventEnvelope LoanStatusChangedV1)
      (rest : List (Option Nat × EventEnvelope LoanStatusChangedV1))
      (hp : s.phase = .listening status) (hchannel : s.channel = (some i, m) :: rest)
      (hpath : loanId = loan.str) :
      Step repr loanId loan s (.getMessage uuid now) { s with
        phase := if isTerminal m.payload.newStatus then .ended else .listening status
        channel := rest
        frames := s.frames ++ [(some i, .status (frameOf m now))] }
  | timeout (status : String) (hp : s.phase = .listening status) (hchannel : s.channel = []) :
      Step repr loanId loan s .timeout { s with frames := s.frames ++ [(none, .heartbeat)] }

theorem step_cases (hpath : Uuid.parse loanId = some loan) (h : Inv loanId loan s) {l : Label}
    (hstep : step repr loanId loan s l = some s') :
    Step repr loanId loan s l s' := by
  cases l with
  | commit m =>
      simp only [step] at hstep
      split at hstep
      · rename_i hm
        obtain rfl := Option.some.inj hstep
        exact .commit m hm
      · exact absurd hstep nofun
  | publish i =>
      simp only [step] at hstep
      split at hstep
      · exact absurd hstep nofun
      · rename_i c hc
        split at hstep
        · exact absurd hstep nofun
        · rename_i hfirst
          obtain rfl := Option.some.inj hstep
          exact .publish i c hc (by simpa using hfirst)
  | publishOther m =>
      simp only [step] at hstep
      split at hstep
      · exact absurd hstep nofun
      · rename_i hm
        obtain rfl := Option.some.inj hstep
        exact .publishOther m hm
  | fetch reasons =>
      simp only [step] at hstep
      split at hstep
      · rename_i hp
        obtain rfl := Option.some.inj hstep
        exact .fetch reasons hp
      · exact absurd hstep nofun
  | yieldInitial uuid now =>
      simp only [step] at hstep
      split at hstep
      · rename_i fetched hp
        obtain rfl := Option.some.inj hstep
        by_cases hterminal : isTerminal (fetchedStatus repr fetched) = true
        · simp only [hterminal, if_true]
          exact .yieldLast uuid now fetched hp hterminal
        · simp only [hterminal, Bool.false_eq_true, if_false]
          exact .yieldInitial uuid now fetched hp (by simpa using hterminal)
      · exact absurd hstep nofun
  | subscribe =>
      simp only [step] at hstep
      split at hstep
      · rename_i status hp
        obtain rfl := Option.some.inj hstep
        exact .subscribe status hp
      · exact absurd hstep nofun
  | getMessage uuid now =>
      simp only [step] at hstep
      split at hstep
      · rename_i status i m rest hp hchannel
        have hm : (i, m) ∈ s.channel := by
          rw [hchannel]
          exact List.mem_cons_self ..
        rw [react_messageOf] at hstep
        by_cases hloan : m.payload.loanId.str = loanId
        · have hours := Uuid.eq_of_str_eq_of_parse hpath hloan
          rw [if_pos hloan, if_pos rfl] at hstep
          obtain rfl := Option.some.inj hstep
          cases i with
          | none => exact absurd hours (h.others m hm)
          | some j => exact .shows uuid now status j m rest hp hchannel (by rw [← hours, hloan])
        · rw [if_neg hloan] at hstep
          obtain rfl := Option.some.inj hstep
          refine .skips uuid now status i m rest hp hchannel ?_
          cases i with
          | none => exact Or.inl rfl
          | some j =>
              obtain ⟨c, hc, rfl, _⟩ := h.queued j m hm
              rw [h.ours c (List.mem_of_getElem? hc)] at hloan
              exact Or.inr (Ne.symm hloan)
      · exact absurd hstep nofun
  | timeout =>
      simp only [step] at hstep
      split at hstep
      · rename_i status hp hchannel
        obtain rfl := Option.some.inj hstep
        exact .timeout status hp hchannel
      · exact absurd hstep nofun

/-- A move of the stream that receives nothing. -/
theorem Inv.of_move (h : Inv loanId loan s) (hchanges : s'.changes = s.changes)
    (hchannel : s'.channel = s.channel) (more : List Frame)
    (hframes : s'.frames = s.frames ++ more.map fun f => (none, f))
    (hearly : s'.isListening = false → s'.phase ≠ .ended →
      s.isListening = false ∧ s.phase ≠ .ended)
    (hlive : s'.isListening = true → s.isListening = true ∨ s.shown = []) :
    Inv loanId loan s' := by
  have hqueued : s'.queued = s.queued := by rw [Stream.queued, hchannel, Stream.queued]
  have hshown : s'.shown = s.shown := by
    simp [Stream.shown, hframes, List.filterMap_map]
  refine ⟨?_, ?_, ?_, ?_, ?_, ?_, ?_, ?_⟩
  · rw [hchanges]
    exact h.ours
  · rw [hchanges, hchannel]
    exact h.queued
  · rw [hchannel]
    exact h.others
  · rw [hqueued, hshown]
    exact h.once
  · intro i frame hframe
    rw [hframes, List.mem_append] at hframe
    rw [hchanges]
    cases hframe with
    | inl hold => exact h.shown i frame hold
    | inr hnew => simp at hnew
  · rw [hchannel, hshown]
    intro hlistening hended
    obtain ⟨hlistening, hended⟩ := hearly hlistening hended
    exact h.early hlistening hended
  · rw [hshown, hchanges]
    intro hlistening i c hi
    cases hlive hlistening with
    | inl hlistening => exact h.live hlistening i c hi
    | inr hnil =>
        rw [hnil] at hi
        contradiction
  · rw [hshown]
    exact h.foreign

theorem Inv.skips (h : Inv loanId loan s) {i : Option Nat}
    {m : EventEnvelope LoanStatusChangedV1}
    {rest : List (Option Nat × EventEnvelope LoanStatusChangedV1)}
    (hchannel : s.channel = (i, m) :: rest) : Inv loanId loan { s with channel := rest } := by
  have hrest : ∀ p ∈ rest, p ∈ s.channel := by
    intro p hp
    rw [hchannel]
    exact List.mem_cons_of_mem _ hp
  refine ⟨h.ours, ?_, ?_, ?_, h.shown, ?_, h.live, h.foreign⟩
  · exact fun j m' hm' => h.queued j m' (hrest _ hm')
  · exact fun m' hm' => h.others m' (hrest _ hm')
  · refine h.once.sublist (List.Sublist.append_right ?_ _)
    simp only [Stream.queued, hchannel]
    exact (List.sublist_cons_self ..).filterMap _
  · intro hlistening hended
    have := (h.early hlistening hended).1
    rw [hchannel] at this
    contradiction

theorem Inv.shows (h : Inv loanId loan s) {status : String} {i : Nat}
    {m : EventEnvelope LoanStatusChangedV1}
    {rest : List (Option Nat × EventEnvelope LoanStatusChangedV1)}
    (hp : s.phase = .listening status) (hchannel : s.channel = (some i, m) :: rest)
    (hpath : loanId = loan.str) (now : Datetime) :
    Inv loanId loan { s with
      phase := if isTerminal m.payload.newStatus then .ended else .listening status
      channel := rest
      frames := s.frames ++ [(some i, .status (frameOf m now))] } := by
  have hlistening : s.isListening = true := by rw [Stream.isListening, hp]
  have hskip := h.skips hchannel
  obtain ⟨c, hc, rfl, hpublished⟩ := h.queued i m (by rw [hchannel]; exact List.mem_cons_self ..)
  have hframes (j : Nat) (frame : Frame)
      (hj : (some j, frame) ∈ s.frames ++ [(some i, Frame.status (frameOf c.envelope now))]) :
      (some j, frame) ∈ s.frames ∨ (j = i ∧ frame = .status (frameOf c.envelope now)) := by
    simpa using hj
  refine ⟨h.ours, hskip.queued, hskip.others, ?_, ?_, ?_, ?_, ?_⟩
  · have hperm : (rest.filterMap Prod.fst ++ (s.shown ++ [i])).Perm (s.queued ++ s.shown) := by
      simp only [Stream.queued, hchannel, List.filterMap_cons]
      rw [← List.append_assoc]
      exact List.perm_append_singleton ..
    simpa [Stream.queued, Stream.shown] using hperm.nodup_iff.mpr h.once
  · intro j frame hj
    cases hframes j frame hj with
    | inl hold => exact h.shown j frame hold
    | inr hnew =>
        obtain ⟨rfl, rfl⟩ := hnew
        exact ⟨c, _, hc, hpublished, rfl, rfl⟩
  · intro hfalse hended
    simp only [Stream.isListening] at hfalse
    split at hfalse
    · exact absurd hfalse nofun
    · rename_i hother
      split at hended
      · exact absurd rfl hended
      · rename_i hnonterminal
        exact absurd (if_neg hnonterminal) (hother status)
  · intro hstill j c' hj hc'
    obtain ⟨frame, hframe⟩ := Stream.mem_shown.mp hj
    cases hframes j frame hframe with
    | inl hold => exact h.live hlistening j c' (Stream.mem_shown.mpr ⟨frame, hold⟩) hc'
    | inr hnew =>
        obtain ⟨rfl, _⟩ := hnew
        obtain rfl := Option.some.inj (hc.symm.trans hc')
        by_cases hterminal : isTerminal c.envelope.payload.newStatus = true
        · simp [Stream.isListening, hterminal] at hstill
        · simpa using hterminal
  · exact fun hforeign => absurd hpath hforeign

theorem Inv.step (h : Inv loanId loan s) {l : Label} (hstep : Step repr loanId loan s l s') :
    Inv loanId loan s' := by
  cases hstep with
  | commit m hm =>
      refine h.of_changes rfl rfl rfl (persists_append _ _) ?_
      intro c hc
      cases List.mem_append.mp hc with
      | inl hold => exact h.ours c hold
      | inr hnew =>
          obtain rfl := List.mem_singleton.mp hnew
          exact hm
  | publish i c hc hfirst =>
      have hmem := List.mem_of_getElem? hc
      have hset : Inv loanId loan { s with
          changes := s.changes.set i { c with published := true } } := by
        refine h.of_changes rfl rfl rfl (persists_set hc) ?_
        intro c' hc'
        cases List.mem_or_eq_of_mem_set hc' with
        | inl hold => exact h.ours c' hold
        | inr hnew =>
            rw [hnew]
            exact h.ours c hmem
      refine hset.publish ?_ nofun
      intro j hj
      obtain rfl := Option.some.inj hj
      obtain ⟨hqueued, hshown⟩ := h.unpublished hc hfirst
      refine ⟨hqueued, hshown, ?_⟩
      exact ⟨_, List.getElem?_set_self (List.getElem?_eq_some_iff.mp hc).1, rfl, rfl⟩
  | publishOther m hm => exact h.publish nofun fun _ => hm
  | fetch reasons hp =>
      have hframes : s.frames = s.frames ++ [].map fun f => (none, f) := by simp
      refine h.of_move rfl rfl [] hframes ?_ nofun
      simp [Stream.isListening, hp]
  | yieldLast uuid now fetched hp hterminal =>
      exact h.of_move rfl rfl [_] rfl (fun _ hended => absurd rfl hended) nofun
  | yieldInitial uuid now fetched hp hterminal =>
      refine h.of_move rfl rfl [_] rfl ?_ nofun
      simp [Stream.isListening, hp]
  | subscribe status hp =>
      have hframes : s.frames = s.frames ++ [].map fun f => (none, f) := by simp
      refine h.of_move rfl rfl [] hframes nofun ?_
      exact fun _ => Or.inr (h.early (by rw [Stream.isListening, hp]) (by rw [hp]; nofun)).2
  | skips uuid now status i m rest hp hchannel hi => exact h.skips hchannel
  | shows uuid now status i m rest hp hchannel hpath => exact h.shows hp hchannel hpath now
  | timeout status hp hchannel =>
      exact h.of_move rfl rfl [_] rfl (fun hfalse hended => ⟨hfalse, hended⟩) Or.inl

end Invariant

section Snapshot
variable {repr : Json → String} {loanId : String} {loan : Uuid} {s s' : Stream}

/-- The statuses committed to the loan table, each with whether the stream had read
the table before. -/
def Stream.committed (s : Stream) : List (String × Bool) :=
  s.changes.map fun c => (c.envelope.payload.newStatus, c.afterSnapshot)

/-- The stream acts on the status that is in the table. -/
def UpToDate (repr : Json → String) (s : Stream) : Prop :=
  match s.phase with
  | .fetching => True
  | .yielding fetched => fetchedStatus repr fetched = s.status
  | .subscribing _ => isTerminal s.status = false
  | .listening _ => isTerminal s.status = false
  | .ended => isTerminal s.status = true →
      ∃ i f, (i, Frame.status f) ∈ s.frames ∧ f.status = s.status

structure Committed (repr : Json → String) (s : Stream) : Prop where
  last : ∀ p, s.committed.getLast? = some p → p.1 = s.status
  ordered : ∀ p, s.committed.getLast? = some p → p.2 = false → ∀ q ∈ s.committed, q.2 = false
  unread : s.snapshotRead = false → ∀ q ∈ s.committed, q.2 = false
  upToDate : (∀ q ∈ s.committed, q.2 = false) → UpToDate repr s

theorem committed_set {changes : List Change} {i : Nat} {c : Change}
    (hc : changes[i]? = some c) :
    (changes.set i { c with published := true }).map
        (fun c => (c.envelope.payload.newStatus, c.afterSnapshot)) =
      changes.map fun c => (c.envelope.payload.newStatus, c.afterSnapshot) := by
  refine List.ext_getElem? ?_
  intro j
  rw [List.getElem?_map, List.getElem?_map, List.getElem?_set]
  split
  · rename_i hij
    subst hij
    rw [if_pos (List.getElem?_eq_some_iff.mp hc).1, hc]
    rfl
  · rfl

theorem Stream.publish_frame (s : Stream) (i : Option Nat)
    (m : EventEnvelope LoanStatusChangedV1) :
    (s.publish i m).changes = s.changes ∧ (s.publish i m).status = s.status ∧
      (s.publish i m).phase = s.phase ∧ (s.publish i m).frames = s.frames := by
  simp only [Stream.publish]
  split <;> exact ⟨rfl, rfl, rfl, rfl⟩

theorem Stream.publish_isListening (s : Stream) (i : Option Nat)
    (m : EventEnvelope LoanStatusChangedV1) :
    (s.publish i m).isListening = s.isListening := by
  rw [Stream.isListening, (s.publish_frame i m).2.2.1, Stream.isListening]

theorem Stream.publish_shown (s : Stream) (i : Option Nat)
    (m : EventEnvelope LoanStatusChangedV1) : (s.publish i m).shown = s.shown := by
  rw [Stream.shown, (s.publish_frame i m).2.2.2, Stream.shown]

theorem Stream.publish_queued (s : Stream) (i : Option Nat)
    (m : EventEnvelope LoanStatusChangedV1) (hlistening : s.isListening = true) :
    (s.publish i m).queued = s.queued ++ i.toList := by
  cases i <;> simp [Stream.publish, Stream.queued, hlistening]

/-- A step that commits nothing. -/
theorem Committed.of_stream (h : Committed repr s) (hcommitted : s'.committed = s.committed)
    (hstatus : s'.status = s.status) (hread : s'.snapshotRead = false → s.snapshotRead = false)
    (hupToDate : UpToDate repr s → UpToDate repr s') : Committed repr s' := by
  refine ⟨?_, ?_, ?_, ?_⟩
  · rw [hcommitted, hstatus]
    exact h.last
  · rw [hcommitted]
    exact h.ordered
  · rw [hcommitted]
    exact fun hfalse => h.unread (hread hfalse)
  · rw [hcommitted]
    exact fun hall => hupToDate (h.upToDate hall)

theorem Committed.commit (h : Committed repr s) (m : EventEnvelope LoanStatusChangedV1) :
    Committed repr { s with
      status := m.payload.newStatus
      changes := s.changes ++ [⟨m, s.snapshotRead, false⟩] } := by
  have hcommitted : ({ s with
      status := m.payload.newStatus
      changes := s.changes ++ [⟨m, s.snapshotRead, false⟩] } : Stream).committed =
        s.committed ++ [(m.payload.newStatus, s.snapshotRead)] := by
    simp [Stream.committed]
  have hunread (hread : s.snapshotRead = false)
      (q : String × Bool) (hq : q ∈ s.committed ++ [(m.payload.newStatus, s.snapshotRead)]) :
      q.2 = false := by
    cases List.mem_append.mp hq with
    | inl hold => exact h.unread hread q hold
    | inr hnew =>
        obtain rfl := List.mem_singleton.mp hnew
        exact hread
  refine ⟨?_, ?_, ?_, ?_⟩
  · rw [hcommitted, List.getLast?_concat]
    intro p hp
    obtain rfl := Option.some.inj hp
    rfl
  · rw [hcommitted, List.getLast?_concat]
    intro p hp hread
    obtain rfl := Option.some.inj hp
    exact hunread hread
  · rw [hcommitted]
    exact hunread
  · rw [hcommitted]
    intro hall
    have hread : s.snapshotRead = false :=
      hall _ (List.mem_append_right _ (List.mem_singleton_self _))
    simp only [Stream.snapshotRead] at hread
    split at hread
    · rename_i hp
      simp [UpToDate, hp]
    · contradiction

theorem Committed.step (h : Committed repr s) {l : Label}
    (hstep : Step repr loanId loan s l s') : Committed repr s' := by
  cases hstep with
  | commit m hm => exact h.commit m
  | publish i c hc hfirst =>
      obtain ⟨hchanges, hstatus, hphase, hframes⟩ := Stream.publish_frame
        { s with changes := s.changes.set i { c with published := true } } (some i) c.envelope
      refine h.of_stream ?_ hstatus ?_ ?_
      · rw [Stream.committed, hchanges, committed_set hc, Stream.committed]
      · rw [Stream.snapshotRead, hphase, Stream.snapshotRead]
        exact id
      · rw [UpToDate, UpToDate, hphase, hstatus, hframes]
        exact id
  | publishOther m hm =>
      obtain ⟨hchanges, hstatus, hphase, hframes⟩ := Stream.publish_frame s none m
      refine h.of_stream ?_ hstatus ?_ ?_
      · rw [Stream.committed, hchanges, Stream.committed]
      · rw [Stream.snapshotRead, hphase, Stream.snapshotRead]
        exact id
      · rw [UpToDate, UpToDate, hphase, hstatus, hframes]
        exact id
  | fetch reasons hp => exact h.of_stream rfl rfl nofun fun _ => rfl
  | yieldLast uuid now fetched hp hterminal =>
      refine h.of_stream rfl rfl nofun ?_
      intro hupToDate _
      rw [UpToDate, hp] at hupToDate
      exact ⟨none, _, List.mem_append_right _ (List.mem_singleton_self _), hupToDate⟩
  | yieldInitial uuid now fetched hp hterminal =>
      refine h.of_stream rfl rfl nofun ?_
      intro hupToDate
      rw [UpToDate, hp] at hupToDate
      rw [hupToDate] at hterminal
      exact hterminal
  | subscribe status hp =>
      refine h.of_stream rfl rfl nofun ?_
      intro hupToDate
      rw [UpToDate, hp] at hupToDate
      exact hupToDate
  | skips uuid now status i m rest hp hchannel hi => exact h.of_stream rfl rfl id id
  | shows uuid now status i m rest hp hchannel hpath =>
      refine h.of_stream rfl rfl ?_ ?_
      · intro hread
        simp only [Stream.snapshotRead] at hread
        split at hread
        · rename_i hfetching
          split at hfetching <;> exact absurd hfetching nofun
        · exact absurd hread nofun
      · intro hupToDate
        rw [UpToDate, hp] at hupToDate
        cases hterminal : isTerminal m.payload.newStatus with
        | true => simp [UpToDate, hupToDate]
        | false => simpa [UpToDate] using hupToDate
  | timeout status hp hchannel =>
      refine h.of_stream rfl rfl id ?_
      rw [UpToDate, UpToDate, hp]
      exact id

/-- A drained stream that acts on the status in the table is over where it is terminal. -/
theorem UpToDate.concluded (h : UpToDate repr s) (hdrained : Drained s)
    (hterminal : isTerminal s.status = true) :
    s.phase = .ended ∧ ∃ i f, (i, Frame.status f) ∈ s.frames ∧ f.status = s.status := by
  cases hdrained with
  | inl hlistening =>
      have hlistening := hlistening.1
      simp only [Stream.isListening] at hlistening
      split at hlistening
      · rename_i hp
        rw [UpToDate, hp, hterminal] at h
        contradiction
      · contradiction
  | inr hended =>
      rw [UpToDate, hended] at h
      exact ⟨hended, h hterminal⟩

/-- Nothing is missed just if what is due is shown. -/
theorem nothingMissed_iff (h : Inv loanId loan s) (hcommitted : Committed repr s) :
    NothingMissed s ↔ (Drained s → ∀ i c, Due s i c → i ∈ s.shown) := by
  constructor
  · intro hall hdrained i c hdue
    exact (h.shown_iff hdue.1).mp ((hall hdrained).1 i c hdue).1
  · intro hall hdrained
    have hdone (i : Nat) (c : Change) (hdue : Due s i c) :
        Shown s i c ∧ (isTerminal c.envelope.payload.newStatus = true → s.phase = .ended) := by
      have hshown := hall hdrained i c hdue
      refine ⟨(h.shown_iff hdue.1).mpr hshown, ?_⟩
      intro hterminal
      cases hdrained with
      | inl hlistening =>
          have := h.live hlistening.1 i c hshown hdue.1
          rw [hterminal] at this
          contradiction
      | inr hended => exact hended
    refine ⟨hdone, ?_⟩
    rintro ⟨hterminal, hpublished⟩
    have hlast := hcommitted.last
    have hordered := hcommitted.ordered
    cases hchanges : s.changes.getLast? with
    | none =>
        have hnil : s.committed = [] := by
          rw [Stream.committed, List.getLast?_eq_none_iff.mp hchanges, List.map_nil]
        refine (hcommitted.upToDate ?_).concluded hdrained hterminal
        simp [hnil]
    | some c =>
        have hc : s.committed.getLast? = some (c.envelope.payload.newStatus, c.afterSnapshot) := by
          rw [Stream.committed, List.getLast?_map, hchanges]
          rfl
        have hstatus : c.envelope.payload.newStatus = s.status := hlast _ hc
        cases hafter : c.afterSnapshot with
        | false =>
            refine (hcommitted.upToDate ?_).concluded hdrained hterminal
            exact hordered _ hc hafter
        | true =>
            rw [List.getLast?_eq_getElem?] at hchanges
            have hdue : Due s (s.changes.length - 1) c :=
              ⟨hchanges, hafter, hpublished c (by rw [List.getLast?_eq_getElem?, hchanges])⟩
            obtain ⟨⟨f, hf, hframe⟩, hended⟩ := hdone _ c hdue
            refine ⟨hended (by rw [hstatus]; exact hterminal), ?_⟩
            exact ⟨_, f, hf, hframe.trans hstatus⟩

end Snapshot

section Exactness
variable {repr : Json → String} {loanId : String} {loan : Uuid} {s s' : Stream}

private theorem due_congr (hchanges : s'.changes = s.changes) {i : Nat} {c : Change}
    (hdue : Due s' i c) : Due s i c := by
  rw [Due, ← hchanges]
  exact hdue

private theorem due_append {c : Change} (hc : c.published = false) {i : Nat} {c' : Change}
    (hdue : Due { s with changes := s.changes ++ [c] } i c') : Due s i c' := by
  obtain ⟨hi, hafter, hpublished⟩ := hdue
  refine ⟨?_, hafter, hpublished⟩
  rw [List.getElem?_append] at hi
  split at hi
  · exact hi
  · obtain rfl := List.mem_singleton.mp (List.mem_of_getElem? hi)
    rw [hc] at hpublished
    contradiction

private theorem due_set {i : Nat} {c : Change} (hc : s.changes[i]? = some c) {j : Nat}
    {c' : Change}
    (hdue : Due { s with changes := s.changes.set i { c with published := true } } j c') :
    (j = i ∧ c.afterSnapshot = true) ∨ Due s j c' := by
  obtain ⟨hj, hafter, hpublished⟩ := hdue
  rw [List.getElem?_set] at hj
  split at hj
  · rename_i hij
    subst hij
    rw [if_pos (List.getElem?_eq_some_iff.mp hc).1] at hj
    obtain rfl := Option.some.inj hj
    exact Or.inl ⟨rfl, hafter⟩
  · exact Or.inr ⟨hj, hafter, hpublished⟩

theorem OnTheWay.step (h : OnTheWay loanId loan s) {l : Label}
    (hintime : InTime repr loanId loan s l) (hstep : Step repr loanId loan s l s') :
    OnTheWay loanId loan s' := by
  intro hpath hlistening i c hdue
  cases hstep with
  | commit m hm => exact h hpath hlistening i c (due_append rfl hdue)
  | publish j cj hj hfirst =>
      rw [Stream.publish_isListening] at hlistening
      have hdue := due_congr (Stream.publish_frame _ _ _).1 hdue
      rw [Stream.publish_shown, Stream.publish_queued _ _ _ hlistening]
      cases due_set hj hdue with
      | inl hnew =>
          left
          rw [hnew.1]
          exact List.mem_append_right _ (List.mem_singleton_self _)
      | inr hold => exact (h hpath hlistening i c hold).imp_left (List.mem_append_left _)
  | publishOther m hm =>
      rw [Stream.publish_isListening] at hlistening
      rw [Stream.publish_shown, Stream.publish_queued _ _ _ hlistening]
      have hdue := due_congr (Stream.publish_frame _ _ _).1 hdue
      exact (h hpath hlistening i c hdue).imp_left (List.mem_append_left _)
  | fetch reasons hp => contradiction
  | yieldLast uuid now fetched hp hterminal => contradiction
  | yieldInitial uuid now fetched hp hterminal => contradiction
  | subscribe status hp => exact absurd hdue (hintime i c)
  | skips uuid now status j m rest hp hchannel hj =>
      have hj : j = none := hj.resolve_right (absurd hpath ·)
      have := h hpath hlistening i c hdue
      simpa [Stream.queued, Stream.shown, hchannel, hj] using this
  | shows uuid now status j m rest hp hchannel hpath' =>
      have hs : s.isListening = true := by rw [Stream.isListening, hp]
      have hwas := h hpath hs i c hdue
      simp only [Stream.queued, Stream.shown, hchannel, List.filterMap_cons, List.mem_cons] at hwas
      simp only [Stream.queued, Stream.shown, List.filterMap_append, List.mem_append,
        List.filterMap_cons, List.filterMap_nil, List.mem_singleton]
      cases hwas with
      | inl hqueued => exact hqueued.elim (fun hij => Or.inr (Or.inr hij)) Or.inl
      | inr hshown => exact Or.inr (Or.inl hshown)
  | timeout status hp hchannel =>
      have := h hpath hlistening i c hdue
      simpa [Stream.queued, Stream.shown] using this

/-- Of the streams that have been handed a message, only one that is over is drained. -/
theorem ended_of_drained_publish {i : Option Nat} {m : EventEnvelope LoanStatusChangedV1}
    (h : Drained (s.publish i m)) : s.phase = .ended := by
  cases h with
  | inl hlistening =>
      obtain ⟨hlistening, hchannel⟩ := hlistening
      rw [Stream.publish_isListening] at hlistening
      rw [Stream.publish, if_pos hlistening] at hchannel
      simp at hchannel
  | inr hended =>
      rw [(s.publish_frame i m).2.2.1] at hended
      exact hended

private theorem not_drained (hlistening : s.isListening = false) (hended : s.phase ≠ .ended) :
    ¬ Drained s := by
  rintro (⟨hfalse, _⟩ | hfalse)
  · rw [hlistening] at hfalse
    contradiction
  · exact hended hfalse

private theorem channel_of_drained (hdrained : Drained s) {status : String}
    (hp : s.phase = .listening status) : s.channel = [] := by
  cases hdrained with
  | inl hlistening => exact hlistening.2
  | inr hended =>
      rw [hp] at hended
      contradiction

/-- A change is published: it is lost just if the stream is over. -/
private theorem shown_of_publish (h : Inv loanId loan s)
    (hshown : Drained s → ∀ j c, Due s j c → j ∈ s.shown) {i : Nat} {c : Change}
    (hi : s.changes[i]? = some c) (hfirst : c.published = false) :
    let t := { s with changes := s.changes.set i { c with published := true } }.publish
      (some i) c.envelope
    (Drained t → ∀ j c', Due t j c' → j ∈ t.shown) ↔ InTime repr loanId loan s (.publish i) := by
  intro t
  have hframe := Stream.publish_frame
    { s with changes := s.changes.set i { c with published := true } } (some i) c.envelope
  have hsame : t.shown = s.shown := Stream.publish_shown ..
  rw [hsame]
  constructor
  · intro hall hended c' hc'
    obtain rfl := Option.some.inj (hi.symm.trans hc')
    cases hafter : c.afterSnapshot with
    | false => rfl
    | true =>
        have hdue : Due t i { c with published := true } := by
          refine ⟨?_, hafter, rfl⟩
          rw [hframe.1]
          exact List.getElem?_set_self (List.getElem?_eq_some_iff.mp hi).1
        have hold := hall (Or.inr (hframe.2.2.1.trans hended)) i _ hdue
        exact absurd hold (h.unpublished hi hfirst).2
  · intro hintime hdrained j c' hdue
    have hended := ended_of_drained_publish hdrained
    cases due_set hi (due_congr hframe.1 hdue) with
    | inl hnew =>
        have := hintime hended c hi
        rw [hnew.2] at this
        contradiction
    | inr hold => exact hshown (Or.inr hended) j c' hold

/-- A message is passed over: nothing due, unless no message of the stream is read. -/
private theorem shown_of_skip (h : Inv loanId loan s) (hway : OnTheWay loanId loan s)
    {status : String} {i : Option Nat} {m : EventEnvelope LoanStatusChangedV1}
    {rest : List (Option Nat × EventEnvelope LoanStatusChangedV1)}
    (hp : s.phase = .listening status) (hchannel : s.channel = (i, m) :: rest)
    (hi : i = none ∨ loanId ≠ loan.str) (uuid : Uuid) (now : Datetime) :
    let t := { s with channel := rest }
    (Drained t → ∀ j c, Due t j c → j ∈ t.shown) ↔
      InTime repr loanId loan s (.getMessage uuid now) := by
  intro t
  have hlistening : s.isListening = true := by rw [Stream.isListening, hp]
  simp only [InTime]
  split
  · rename_i hpath
    have hi : i = none := hi.resolve_right (absurd hpath ·)
    refine iff_of_true ?_ ?_
    · intro hdrained j c hdue
      cases hway hpath hlistening j c hdue with
      | inl hqueued =>
          obtain ⟨m', hm'⟩ := Stream.mem_queued.mp hqueued
          have hrest : rest = [] := channel_of_drained hdrained hp
          rw [hchannel, hi, hrest] at hm'
          simp at hm'
      | inr hold => exact hold
    · intro j m' rest' hchannel'
      rw [hchannel, hi] at hchannel'
      simp at hchannel'
  · rename_i hpath
    have hnone := h.foreign hpath
    constructor
    · intro hall message hmessage j c hdue
      have hrest : rest = [] := (List.cons.inj (hchannel.symm.trans hmessage)).2
      have hold : j ∈ s.shown := hall (Or.inl ⟨hlistening, hrest⟩) j c hdue
      rw [hnone] at hold
      exact absurd hold List.not_mem_nil
    · intro hintime hdrained j c hdue
      have hrest : rest = [] := channel_of_drained hdrained hp
      exact absurd hdue (hintime (i, m) (by rw [hchannel, hrest]) j c)

/-- A message is shown: what is due is lost just if it waits behind a terminal one. -/
private theorem shown_of_show (hway : OnTheWay loanId loan s)
    (honce : (s'.queued ++ s'.shown).Nodup) {status : String} {j : Nat}
    {m : EventEnvelope LoanStatusChangedV1}
    {rest : List (Option Nat × EventEnvelope LoanStatusChangedV1)}
    (hp : s.phase = .listening status) (hchannel : s.channel = (some j, m) :: rest)
    (hpath : loanId = loan.str) (hchanges : s'.changes = s.changes) (hrest : s'.channel = rest)
    (hphase : s'.phase = if isTerminal m.payload.newStatus then .ended else .listening status)
    (hshown : s'.shown = s.shown ++ [j]) (uuid : Uuid) (now : Datetime) :
    (Drained s' → ∀ i c, Due s' i c → i ∈ s'.shown) ↔
      InTime repr loanId loan s (.getMessage uuid now) := by
  have hdue (i : Nat) (c : Change) : Due s' i c ↔ Due s i c := by rw [Due, hchanges, Due]
  have hlistening : s.isListening = true := by rw [Stream.isListening, hp]
  simp only [InTime, if_pos hpath]
  constructor
  · intro hall j' m' rest' hchannel' hterminal i c hdue' hi
    obtain ⟨hhead, rfl⟩ := List.cons.inj (hchannel.symm.trans hchannel')
    obtain ⟨_, rfl⟩ := Prod.mk.inj hhead
    rw [if_pos hterminal] at hphase
    have hold := hall (Or.inr hphase) i c ((hdue i c).mpr hdue')
    rw [← hrest] at hi
    exact (List.nodup_append.mp honce).2.2 i hi i hold rfl
  · intro hintime hdrained i c hdue'
    have hdue' := (hdue i c).mp hdue'
    rw [hshown, List.mem_append, List.mem_singleton]
    cases hway hpath hlistening i c hdue' with
    | inl hqueued =>
        simp only [Stream.queued, hchannel, List.filterMap_cons, List.mem_cons] at hqueued
        refine Or.inr (hqueued.resolve_right ?_)
        intro hi
        cases hterminal : isTerminal m.payload.newStatus with
        | true => exact hintime j m rest hchannel hterminal i c hdue' hi
        | false =>
            rw [hterminal, if_neg Bool.false_ne_true] at hphase
            rw [← hrest, channel_of_drained hdrained hphase] at hi
            exact List.not_mem_nil hi
    | inr hold => exact Or.inl hold

/-- The exactness of one step: nothing is missed behind it just if it is in time. -/
theorem nothingMissed_step (h : Inv loanId loan s) (hcommitted : Committed repr s)
    (hway : OnTheWay loanId loan s) (hnothing : NothingMissed s) {l : Label}
    (hstep : Step repr loanId loan s l s') :
    NothingMissed s' ↔ InTime repr loanId loan s l := by
  rw [nothingMissed_iff (h.step hstep) (hcommitted.step hstep)]
  have hshown := (nothingMissed_iff h hcommitted).mp hnothing
  have honce := (h.step hstep).once
  cases hstep with
  | commit m hm =>
      refine iff_of_true ?_ True.intro
      exact fun hdrained i c hdue => hshown hdrained i c (due_append rfl hdue)
  | publish i c hi hfirst => exact shown_of_publish h hshown hi hfirst
  | publishOther m hm =>
      refine iff_of_true ?_ True.intro
      intro hdrained i c hdue
      have hended := ended_of_drained_publish hdrained
      rw [Stream.publish_shown]
      exact hshown (Or.inr hended) i c (due_congr (s.publish_frame none m).1 hdue)
  | fetch reasons hp =>
      exact iff_of_true (fun hdrained => absurd hdrained (not_drained rfl nofun)) True.intro
  | yieldLast uuid now fetched hp hterminal =>
      have hnone : s.shown = [] := (h.early (by rw [Stream.isListening, hp]) (by rw [hp]; nofun)).2
      constructor
      · intro hall _ _ _ i c hdue
        have hold : i ∈ s.shown := by
          simpa [Stream.shown] using hall (Or.inr rfl) i c hdue
        rw [hnone] at hold
        contradiction
      · intro hintime _ i c hdue
        exact absurd hdue (hintime fetched hp hterminal i c)
  | yieldInitial uuid now fetched hp hterminal =>
      refine iff_of_true (fun hdrained => absurd hdrained (not_drained rfl nofun)) ?_
      intro fetched' hp' hterminal'
      obtain rfl := Phase.yielding.inj (hp.symm.trans hp')
      rw [hterminal] at hterminal'
      contradiction
  | subscribe status hp =>
      have hearly := h.early (by rw [Stream.isListening, hp]) (by rw [hp]; nofun)
      constructor
      · intro hall i c hdue
        have hold : i ∈ s.shown := hall (Or.inl ⟨rfl, hearly.1⟩) i c hdue
        rw [hearly.2] at hold
        contradiction
      · exact fun hnone _ i c hdue => absurd hdue (hnone i c)
  | skips uuid now status j m rest hp hchannel hj =>
      exact shown_of_skip h hway hp hchannel hj uuid now
  | shows uuid now status j m rest hp hchannel hpath =>
      refine shown_of_show hway honce hp hchannel hpath rfl rfl rfl ?_ uuid now
      simp [Stream.shown]
  | timeout status hp hchannel =>
      refine iff_of_true ?_ True.intro
      intro hdrained i c hdue
      have hold := hshown (Or.inl ⟨by rw [Stream.isListening, hp], hchannel⟩) i c hdue
      simpa [Stream.shown] using hold

/-- The runs from the state in which the loan has no change behind it: nothing is
missed just if every change of after the snapshot comes in time. -/
theorem nothingMissed_iff_inTime (hpath : Uuid.parse loanId = some loan) (status : String)
    (ls : List Label) :
    Runs.Throughout (step repr loanId loan) NothingMissed { status := status } ls ↔
      Runs.EachStep (step repr loanId loan) (InTime repr loanId loan) { status := status } ls := by
  let I (s : Stream) : Prop := Inv loanId loan s ∧ Committed repr s ∧ OnTheWay loanId loan s
  refine Runs.throughout_iff_eachStep (I := I) ?_ ?_ ?_ ?_ ls
  · rintro s l s' ⟨h, hcommitted, hway⟩ _ hintime hstep
    have hstep := step_cases hpath h hstep
    exact ⟨h.step hstep, hcommitted.step hstep, hway.step hintime hstep⟩
  · rintro s l s' ⟨h, hcommitted, hway⟩ hnothing hstep
    exact nothingMissed_step h hcommitted hway hnothing (step_cases hpath h hstep)
  · refine ⟨⟨?_, ?_, ?_, ?_, ?_, ?_, ?_, ?_⟩, ⟨?_, ?_, ?_, ?_⟩, ?_⟩
    all_goals simp [Stream.queued, Stream.shown, Stream.isListening, Stream.committed, UpToDate,
      OnTheWay]
  · exact fun hdrained => absurd hdrained (not_drained rfl nofun)

private def rejection : EventEnvelope LoanStatusChangedV1 :=
  ⟨⟨10⟩, loanStatusChangedV1, .utc 0, ⟨0⟩, "loan-application-service",
    ⟨⟨1⟩, ⟨2⟩, "UNDERWRITING", "REJECTED", some ["score"]⟩⟩

/-- The rejection is committed and published between the read and the subscribe: the
stream shows UNDERWRITING and then only heartbeats. -/
theorem gap_not_nothingMissed :
    ¬ Runs.Throughout (step (fun _ => "") (Uuid.str ⟨1⟩) ⟨1⟩) NothingMissed
      { status := "UNDERWRITING" }
      [.fetch .null, .commit rejection, .publish 0, .yieldInitial ⟨3⟩ 0, .subscribe] := by
  intro h
  let initial := initialFrame (fun _ => "") (Uuid.str ⟨1⟩)
    [("status", .str "UNDERWRITING"), ("decision_reasons", .null)] ⟨3⟩ 0
  have hmissed : NothingMissed
      { status := "REJECTED"
        changes := [⟨rejection, true, true⟩]
        phase := .listening "UNDERWRITING"
        frames := [(none, .status initial)] } := h.last rfl
  obtain ⟨⟨f, hf, _⟩, _⟩ := (hmissed (Or.inl ⟨rfl, rfl⟩)).1 0 _ ⟨rfl, rfl, rfl⟩
  exact absurd (List.mem_singleton.mp hf) nofun

/-- The same two steps of the loan, with the publish behind the subscribe. -/
theorem nothingMissed_iff_inTime_late :
    let ls : List Label := [.fetch .null, .commit rejection, .yieldInitial ⟨3⟩ 0, .subscribe,
      .publish 0, .getMessage ⟨4⟩ 1]
    Runs.Throughout (step (fun _ => "") (Uuid.str ⟨1⟩) ⟨1⟩) NothingMissed
        { status := "UNDERWRITING" } ls ↔
      Runs.EachStep (step (fun _ => "") (Uuid.str ⟨1⟩) ⟨1⟩)
        (InTime (fun _ => "") (Uuid.str ⟨1⟩) ⟨1⟩) { status := "UNDERWRITING" } ls := by
  intro ls
  exact nothingMissed_iff_inTime (Uuid.parse_str ⟨1⟩) "UNDERWRITING" ls

end Exactness

end CrediGuard.Gateway
