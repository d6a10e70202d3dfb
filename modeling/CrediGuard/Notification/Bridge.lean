import CrediGuard.Lib.Runs
import CrediGuard.Notification.Mapper

/-!
The loop of the notification worker over the partitions it is assigned.

Taking a record moves the consumed position of its partition behind it; a commit
without arguments stores the consumed positions of all partitions; a restarted
worker goes on from what is stored. An exception is logged and the loop takes
the next record, so the next commit also covers the record that failed.
-/

namespace CrediGuard.Notification

/-- A record, by partition and offset. -/
abbrev Slot := Nat × Nat

inductive Phase where
  | idle
  | handling (r : Slot)
  | publishing (r : Slot) (channel : String) (message : ByteArray)
  | committing

structure Publication where
  record : Slot
  channel : String
  message : ByteArray

structure Bridge where
  /-- The values of each partition; a tombstone has none. -/
  log : Nat → List (Option ByteArray)
  committed : Nat → Nat
  position : Nat → Nat
  phase : Phase
  published : List Publication
  /-- What this incarnation has failed to publish. -/
  failed : List Slot

inductive Label where
  | produce (partition : Nat) (value : Option ByteArray)
  | fetch (partition : Nat)
  | handle
  | publish
  | publishFails
  | commit
  | commitFails
  | restart

namespace Bridge

def record (b : Bridge) (r : Slot) : Option ByteArray := ((b.log r.1)[r.2]?).join

def fails (b : Bridge) (r : Slot) : Bridge := { b with phase := .idle, failed := r :: b.failed }

/-- `commit` also stands for a commit whose answer is lost, and `restart` for a
crash or a stop at any point. -/
def step (v : Pydantic) (b : Bridge) : Label → Option Bridge
  | .produce p value =>
      some { b with log := Function.update b.log p (b.log p ++ [value]) }
  | .fetch p =>
      match b.phase with
      | .idle =>
          if b.position p < (b.log p).length then
            some { b with
              phase := .handling (p, b.position p)
              position := Function.update b.position p (b.position p + 1) }
          else none
      | _ => none
  | .handle =>
      match b.phase with
      | .handling r =>
          match (b.record r).bind (handleMessage v) with
          | none => some (b.fails r)
          | some (channel, message) => some { b with phase := .publishing r channel message }
      | _ => none
  | .publish =>
      match b.phase with
      | .publishing r channel message =>
          some { b with phase := .committing, published := b.published ++ [⟨r, channel, message⟩] }
      | _ => none
  | .publishFails =>
      match b.phase with
      | .publishing r _ _ => some (b.fails r)
      | _ => none
  | .commit =>
      match b.phase with
      | .committing => some { b with phase := .idle, committed := b.position }
      | _ => none
  | .commitFails =>
      match b.phase with
      | .committing => some { b with phase := .idle }
      | _ => none
  | .restart => some { b with phase := .idle, position := b.committed, failed := [] }

def start (log : Nat → List (Option ByteArray)) : Bridge where
  log := log
  committed := fun _ => 0
  position := fun _ => 0
  phase := .idle
  published := []
  failed := []

/-- The record has been published as `handle_message` maps it. -/
def Bridged (v : Pydantic) (b : Bridge) (r : Slot) : Prop :=
  ∃ p ∈ b.published, p.record = r ∧
    (b.record r).bind (handleMessage v) = some (p.channel, p.message)

/-- No record below a committed offset was skipped. -/
def NoneSkipped (v : Pydantic) (b : Bridge) : Prop :=
  ∀ p o, o < b.committed p → b.Bridged v (p, o)

/-- A commit takes effect when all this incarnation failed to publish is published. -/
def CommitsRecovered (v : Pydantic) (b : Bridge) : Label → Prop
  | .commit => ∀ r ∈ b.failed, b.Bridged v r
  | _ => True

end Bridge

def Phase.inHand : Phase → Option Slot
  | .handling r => some r
  | .publishing r _ _ => some r
  | _ => none

namespace Bridge
variable {v : Pydantic} {b b' : Bridge}

structure Inv (v : Pydantic) (b : Bridge) : Prop where
  consumed : ∀ p o, o < b.position p →
    b.Bridged v (p, o) ∨ (p, o) ∈ b.failed ∨ b.phase.inHand = some (p, o)
  failed : ∀ r ∈ b.failed, r.2 < b.position r.1
  inHand : ∀ r, b.phase.inHand = some r → r.2 < b.position r.1
  mapped : ∀ r channel message, b.phase = .publishing r channel message →
    (b.record r).bind (handleMessage v) = some (channel, message)

theorem Bridged.mono {r : Slot} (h : b.Bridged v r)
    (hpublished : ∀ p ∈ b.published, p ∈ b'.published)
    (hrecord : ∀ value, b.record r = some value → b'.record r = some value) :
    b'.Bridged v r := by
  obtain ⟨p, hp, hr, hmapped⟩ := h
  obtain ⟨value, hvalue, _⟩ := Option.bind_eq_some_iff.mp hmapped
  refine ⟨p, hpublished p hp, hr, ?_⟩
  rw [hrecord value hvalue, ← hvalue]
  exact hmapped

theorem record_produce {r : Slot} {p : Nat} {value : Option ByteArray} {x : ByteArray}
    (h : b.record r = some x) :
    ({ b with log := Function.update b.log p (b.log p ++ [value]) } : Bridge).record r =
      some x := by
  simp only [record, Option.join_eq_some_iff] at h ⊢
  by_cases hp : r.1 = p
  · subst hp
    rw [Function.update_self, List.getElem?_append_left]
    · exact h
    · exact (List.getElem?_eq_some_iff.mp h).1
  · rw [Function.update_of_ne hp]
    exact h

/-- The record in hand becomes a failure of this incarnation. -/
theorem Inv.fails (h : Inv v b) {r : Slot} (hr : b.phase.inHand = some r) :
    Inv v (b.fails r) := by
  refine ⟨?_, ?_, ?_, ?_⟩
  · intro p o ho
    cases h.consumed p o ho with
    | inl hbridged => exact .inl hbridged
    | inr hrest =>
        refine .inr (.inl ?_)
        cases hrest with
        | inl hfailed => exact List.mem_cons_of_mem _ hfailed
        | inr hhand =>
            rw [Option.some.inj (hr.symm.trans hhand)]
            exact List.mem_cons_self ..
  · intro q hq
    cases List.mem_cons.mp hq with
    | inl heq =>
        rw [heq]
        exact h.inHand r hr
    | inr hold => exact h.failed q hold
  · intro q hq
    contradiction
  · intro q channel message hq
    contradiction

/-- The next record of a partition is taken in hand. -/
theorem Inv.fetch (h : Inv v b) (hphase : b.phase = .idle) (p : Nat) :
    Inv v { b with
      phase := .handling (p, b.position p)
      position := Function.update b.position p (b.position p + 1) } := by
  have hold (q o : Nat) (ho : o < b.position q) :
      b.Bridged v (q, o) ∨ (q, o) ∈ b.failed := by
    have hcur := h.consumed q o ho
    rw [hphase] at hcur
    exact hcur.imp_right fun hrest => hrest.resolve_right (by simp [Phase.inHand])
  refine ⟨?_, ?_, ?_, ?_⟩
  · intro q o ho
    by_cases hq : q = p
    · subst hq
      simp only [Function.update_self] at ho
      by_cases hlast : o = b.position q
      · exact .inr (.inr (by rw [hlast]; rfl))
      · exact (hold q o (by omega)).imp_right .inl
    · simp only [Function.update_of_ne hq] at ho
      exact (hold q o ho).imp_right .inl
  · intro r hr
    have hlt := h.failed r hr
    by_cases hq : r.1 = p
    · rw [hq] at hlt
      simp only [hq, Function.update_self]
      omega
    · simpa [Function.update_of_ne hq] using hlt
  · intro r hr
    obtain rfl := Option.some.inj hr
    simp
  · intro r channel message hr
    contradiction

/-- The record in hand is published. -/
theorem Inv.publish (h : Inv v b) {r : Slot} {channel : String} {message : ByteArray}
    (hphase : b.phase = .publishing r channel message) :
    Inv v { b with phase := .committing, published := b.published ++ [⟨r, channel, message⟩] } := by
  have hhand : b.phase.inHand = some r := by rw [hphase]; rfl
  refine ⟨?_, h.failed, fun q hq => ?_, fun q _ _ hq => ?_⟩
  · intro p o ho
    cases h.consumed p o ho with
    | inl hbridged =>
        exact .inl (hbridged.mono (fun _ hp => List.mem_append_left _ hp) fun _ hx => hx)
    | inr hrest =>
        cases hrest with
        | inl hfailed => exact .inr (.inl hfailed)
        | inr hin =>
            obtain rfl := Option.some.inj (hhand.symm.trans hin)
            refine .inl ⟨⟨(p, o), channel, message⟩, ?_, rfl, h.mapped _ _ _ hphase⟩
            exact List.mem_append_right _ (List.mem_singleton.mpr rfl)
  · contradiction
  · contradiction

/-- A commit is over, whether it took effect or not. -/
theorem Inv.idle (h : Inv v b) (hphase : b.phase = .committing) (committed : Nat → Nat) :
    Inv v { b with phase := .idle, committed := committed } := by
  have hhand : b.phase.inHand = none := by rw [hphase]; rfl
  refine ⟨?_, h.failed, fun q hq => ?_, fun q _ _ hq => ?_⟩
  · intro p o ho
    have := h.consumed p o ho
    rw [hhand] at this
    exact this
  · contradiction
  · contradiction

theorem Inv.step (h : Inv v b) (hnone : b.NoneSkipped v) {l : Label}
    (hstep : b.step v l = some b') : Inv v b' := by
  cases l with
  | produce p value =>
      obtain rfl := Option.some.inj hstep
      refine ⟨?_, h.failed, h.inHand, ?_⟩
      · intro q o ho
        exact (h.consumed q o ho).imp_left fun hb => hb.mono (fun _ hp => hp)
          fun x hx => record_produce hx
      · intro r channel message hr
        have hmapped := h.mapped r channel message hr
        obtain ⟨x, hx, _⟩ := Option.bind_eq_some_iff.mp hmapped
        rw [record_produce hx, ← hx]
        exact hmapped
  | fetch p =>
      simp only [Bridge.step] at hstep
      split at hstep
      · rename_i hphase
        split at hstep
        · obtain rfl := Option.some.inj hstep
          exact h.fetch hphase p
        · contradiction
      · contradiction
  | handle =>
      simp only [Bridge.step] at hstep
      split at hstep
      · rename_i r hphase
        have hhand : b.phase.inHand = some r := by rw [hphase]; rfl
        split at hstep
        · obtain rfl := Option.some.inj hstep
          exact h.fails hhand
        · rename_i channel message hmapped
          obtain rfl := Option.some.inj hstep
          refine ⟨?_, h.failed, ?_, ?_⟩
          · intro p o ho
            have := h.consumed p o ho
            rw [hhand] at this
            exact this
          · intro q hq
            obtain rfl := Option.some.inj hq
            exact h.inHand r hhand
          · intro q channel' message' hq
            obtain ⟨rfl, rfl, rfl⟩ := Phase.publishing.inj hq
            exact hmapped
      · contradiction
  | publish =>
      simp only [Bridge.step] at hstep
      split at hstep
      · rename_i r channel message hphase
        obtain rfl := Option.some.inj hstep
        exact h.publish hphase
      · contradiction
  | publishFails =>
      simp only [Bridge.step] at hstep
      split at hstep
      · rename_i r channel message hphase
        obtain rfl := Option.some.inj hstep
        exact h.fails (by rw [hphase]; rfl)
      · contradiction
  | commit =>
      simp only [Bridge.step] at hstep
      split at hstep
      · rename_i hphase
        obtain rfl := Option.some.inj hstep
        exact h.idle hphase _
      · contradiction
  | commitFails =>
      simp only [Bridge.step] at hstep
      split at hstep
      · rename_i hphase
        obtain rfl := Option.some.inj hstep
        exact h.idle hphase _
      · contradiction
  | restart =>
      obtain rfl := Option.some.inj hstep
      refine ⟨fun p o ho => .inl (hnone p o ho), fun r hr => ?_,
        fun q hq => ?_, fun q _ _ hq => ?_⟩
      · contradiction
      · contradiction
      · contradiction

/-- A step other than a commit keeps what is committed and what is bridged. -/
theorem step_noneSkipped (h : Inv v b) (hnone : b.NoneSkipped v) {l : Label}
    (hstep : b.step v l = some b') : b'.NoneSkipped v ↔ b.CommitsRecovered v l := by
  have hkept (hcommitted : b'.committed = b.committed)
      (hpublished : ∀ p ∈ b.published, p ∈ b'.published)
      (hrecord : ∀ r x, b.record r = some x → b'.record r = some x)
      (hC : b.CommitsRecovered v l) : b'.NoneSkipped v ↔ b.CommitsRecovered v l := by
    refine ⟨fun _ => hC, fun _ p o ho => ?_⟩
    rw [hcommitted] at ho
    exact (hnone p o ho).mono hpublished (hrecord (p, o))
  cases l with
  | produce p value =>
      obtain rfl := Option.some.inj hstep
      exact hkept rfl (fun _ hp => hp) (fun _ _ hx => record_produce hx) trivial
  | fetch p =>
      simp only [Bridge.step] at hstep
      split at hstep
      · split at hstep
        · obtain rfl := Option.some.inj hstep
          exact hkept rfl (fun _ hp => hp) (fun _ _ hx => hx) trivial
        · contradiction
      · contradiction
  | handle =>
      simp only [Bridge.step] at hstep
      split at hstep
      · split at hstep
        · obtain rfl := Option.some.inj hstep
          exact hkept rfl (fun _ hp => hp) (fun _ _ hx => hx) trivial
        · obtain rfl := Option.some.inj hstep
          exact hkept rfl (fun _ hp => hp) (fun _ _ hx => hx) trivial
      · contradiction
  | publish =>
      simp only [Bridge.step] at hstep
      split at hstep
      · obtain rfl := Option.some.inj hstep
        exact hkept rfl (fun _ hp => List.mem_append_left _ hp) (fun _ _ hx => hx) trivial
      · contradiction
  | publishFails =>
      simp only [Bridge.step] at hstep
      split at hstep
      · obtain rfl := Option.some.inj hstep
        exact hkept rfl (fun _ hp => hp) (fun _ _ hx => hx) trivial
      · contradiction
  | commitFails =>
      simp only [Bridge.step] at hstep
      split at hstep
      · obtain rfl := Option.some.inj hstep
        exact hkept rfl (fun _ hp => hp) (fun _ _ hx => hx) trivial
      · contradiction
  | restart =>
      obtain rfl := Option.some.inj hstep
      exact hkept rfl (fun _ hp => hp) (fun _ _ hx => hx) trivial
  | commit =>
      simp only [Bridge.step] at hstep
      split at hstep
      · rename_i hphase
        obtain rfl := Option.some.inj hstep
        constructor
        · intro hall r hr
          exact hall r.1 r.2 (h.failed r hr)
        · intro hrecovered p o ho
          have hcur := h.consumed p o ho
          rw [hphase] at hcur
          cases hcur with
          | inl hbridged => exact hbridged
          | inr hrest =>
              cases hrest with
              | inl hfailed => exact hrecovered _ hfailed
              | inr hin => contradiction
      · contradiction

/-- For any logs, a run skips no record just if each commit that takes effect
finds everything its incarnation had failed to publish published. -/
theorem noneSkipped_iff (log : Nat → List (Option ByteArray)) (ls : List Label) :
    Runs.Throughout (Bridge.step v) (NoneSkipped v) (Bridge.start log) ls ↔
      Runs.EachStep (Bridge.step v) (CommitsRecovered v) (Bridge.start log) ls := by
  refine Runs.throughout_iff_eachStep (I := Inv v) ?_ ?_ ?_ ?_ ls
  · intro b l b' h hnone _ hstep
    exact h.step hnone hstep
  · intro b l b' h hnone hstep
    exact step_noneSkipped h hnone hstep
  · refine ⟨fun p o ho => ?_, fun r hr => ?_, fun r hr => ?_, fun r _ _ hr => ?_⟩
    · exact absurd ho (Nat.not_lt_zero o)
    · contradiction
    · contradiction
    · contradiction
  · intro p o ho
    exact absurd ho (Nat.not_lt_zero o)

section Skip

/-- A failed record, then one that is bridged and committed. -/
def skipLabels : List Label := [.fetch 0, .handle, .fetch 0, .handle, .publish, .commit]

def sampleData : Json :=
  .obj [("event_id", .str (Uuid.str ⟨1⟩)), ("occurred_at", .int 0),
    ("correlation_id", .str (Uuid.str ⟨2⟩)),
    ("payload", .obj [("loan_id", .str (Uuid.str ⟨3⟩)), ("applicant_id", .str (Uuid.str ⟨4⟩)),
      ("old_status", .str "DRAFT"), ("new_status", .str "SUBMITTED")])]

def sampleRecord : ByteArray := sampleData.dumps.toUTF8

theorem exists_handleMessage_sample :
    ∃ channel message, handleMessage Pydantic.strict sampleRecord = some (channel, message) := by
  have hexact : Json.Exact sampleData := by
    simp only [sampleData, Json.Exact, Json.ExactPairs, and_self]
  have hsome : ((statusChangedOf Pydantic.strict sampleData).map toRedisMessage).isSome = true := by
    rw [Option.isSome_map]
    decide +kernel
  obtain ⟨⟨channel, message⟩, heq⟩ := Option.isSome_iff_exists.mp hsome
  refine ⟨channel, message, ?_⟩
  simp only [handleMessage, parseStatusChanged, sampleRecord, Json.loadsBytes_toUTF8_dumps hexact,
    Option.bind_some, heq]

theorem run_skipLabels {value : ByteArray} {channel : String} {message : ByteArray}
    (h : handleMessage v value = some (channel, message)) :
    (Runs.run (Bridge.step v) (Bridge.start fun p => if p = 0 then [none, some value] else [])
      skipLabels).map (fun b => (b.committed 0, b.published.map fun p => p.record)) =
        some (2, [(0, 1)]) := by
  simp [Runs.run, skipLabels, Bridge.step, Bridge.start, Bridge.record, Bridge.fails, h]

/-- A tombstone in front of a good record is committed unpublished. -/
theorem skip_not_noneSkipped :
    ∃ b, Runs.run (Bridge.step Pydantic.strict)
        (Bridge.start fun p => if p = 0 then [none, some sampleRecord] else []) skipLabels =
          some b ∧ ¬ b.NoneSkipped Pydantic.strict := by
  obtain ⟨channel, message, hmapped⟩ := exists_handleMessage_sample
  obtain ⟨b, hrun, heq⟩ := Option.map_eq_some_iff.mp (run_skipLabels hmapped)
  obtain ⟨hcommitted, hpublished⟩ := Prod.mk.inj heq
  refine ⟨b, hrun, ?_⟩
  intro hnone
  obtain ⟨p, hp, hrecord, _⟩ := hnone 0 0 (by omega)
  have hmem : p.record ∈ b.published.map fun p => p.record := List.mem_map_of_mem hp
  rw [hpublished, hrecord] at hmem
  simp at hmem

end Skip

end Bridge
end CrediGuard.Notification
