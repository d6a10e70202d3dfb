import CrediGuard.Notification.Bridge

/-!
Runs of the bridge in which nothing fails: what has been published is what
`handle_message` makes of the records taken, in the order they were taken.
-/

namespace CrediGuard.Notification.Bridge
variable {v : Pydantic} {b b' : Bridge}

section Model

def Faultless : Label → Prop
  | .publishFails | .commitFails | .restart => False
  | _ => True

/-- The value of the record a step takes. -/
def takes (b : Bridge) : Label → List ByteArray
  | .fetch p => (b.record (p, b.position p)).toList
  | _ => []

/-- The values of the records a run takes. -/
def taken (v : Pydantic) : Bridge → List Label → List ByteArray
  | _, [] => []
  | b, l :: ls =>
      b.takes l ++ match b.step v l with
        | none => []
        | some b' => taken v b' ls

def messages (b : Bridge) : List (String × ByteArray) :=
  b.published.map fun p => (p.channel, p.message)

/-- The message that is still to be published of the record in hand. -/
def due (v : Pydantic) (b : Bridge) : List (String × ByteArray) :=
  match b.phase with
  | .handling r => ((b.record r).bind (handleMessage v)).toList
  | .publishing _ channel message => [(channel, message)]
  | _ => []

/-- The record in hand is one of the log. -/
def InLog (b : Bridge) : Prop := ∀ r, b.phase.inHand = some r → r.2 < (b.log r.1).length

end Model

section Steps

theorem record_produce_eq {r : Slot} {p : Nat} {value : Option ByteArray}
    (hr : r.2 < (b.log r.1).length) :
    Bridge.record { b with log := Function.update b.log p (b.log p ++ [value]) } r =
      b.record r := by
  simp only [record, Function.update_apply]
  split
  · rename_i hp
    rw [← hp, List.getElem?_append_left hr]
  · rfl

theorem InLog.step (h : b.InLog) {l : Label} (hstep : b.step v l = some b') : b'.InLog := by
  cases l with
  | produce p value =>
      obtain rfl := Option.some.inj hstep
      intro r hr
      have hlen := h r hr
      simp only [Function.update_apply]
      split
      · rename_i hp
        rw [List.length_append, ← hp]
        omega
      · exact hlen
  | fetch p =>
      simp only [Bridge.step] at hstep
      split at hstep
      · split at hstep
        · rename_i hlen
          obtain rfl := Option.some.inj hstep
          intro r hr
          obtain rfl := Option.some.inj hr
          exact hlen
        · contradiction
      · contradiction
  | handle =>
      simp only [Bridge.step] at hstep
      split at hstep
      · rename_i r hphase
        split at hstep
        · obtain rfl := Option.some.inj hstep
          intro r' hr
          contradiction
        · obtain rfl := Option.some.inj hstep
          intro r' hr
          obtain rfl := Option.some.inj hr
          exact h r (by rw [hphase]; rfl)
      · contradiction
  | publish | publishFails | commit | commitFails =>
      simp only [Bridge.step] at hstep
      split at hstep
      · obtain rfl := Option.some.inj hstep
        intro r hr
        contradiction
      · contradiction
  | restart =>
      obtain rfl := Option.some.inj hstep
      intro r hr
      contradiction

/-- A step without a fault adds what it takes to what is published or due. -/
theorem messages_step (h : b.InLog) {l : Label} (hl : Faultless l)
    (hstep : b.step v l = some b') :
    b'.messages ++ b'.due v =
      b.messages ++ b.due v ++ (b.takes l).filterMap (handleMessage v) := by
  cases l with
  | publishFails | commitFails | restart => exact absurd hl id
  | produce p value =>
      obtain rfl := Option.some.inj hstep
      have hdue : due v { b with log := Function.update b.log p (b.log p ++ [value]) } =
          b.due v := by
        simp only [due]
        split
        · rename_i r hphase
          rw [record_produce_eq (h r (by rw [hphase]; rfl))]
        · rfl
        · rfl
      simp only [hdue, takes, List.filterMap_nil, List.append_nil]
      rfl
  | fetch p =>
      simp only [Bridge.step] at hstep
      split at hstep
      · rename_i hphase
        split at hstep
        · obtain rfl := Option.some.inj hstep
          have hdue : b.due v = [] := by rw [due, hphase]
          rw [hdue, List.append_nil, takes]
          change b.messages ++ ((b.record (p, b.position p)).bind (handleMessage v)).toList = _
          cases b.record (p, b.position p) with
          | none => rfl
          | some value =>
              cases hvalue : handleMessage v value <;> simp [hvalue]
        · contradiction
      · contradiction
  | handle =>
      simp only [Bridge.step] at hstep
      split at hstep
      · rename_i r hphase
        simp only [takes, List.filterMap_nil, List.append_nil]
        split at hstep
        · rename_i hnone
          obtain rfl := Option.some.inj hstep
          simp only [due, hphase, hnone]
          rfl
        · rename_i channel message hsome
          obtain rfl := Option.some.inj hstep
          simp only [due, hphase, hsome]
          rfl
      · contradiction
  | publish =>
      simp only [Bridge.step] at hstep
      split at hstep
      · rename_i r channel message hphase
        obtain rfl := Option.some.inj hstep
        simp [messages, due, hphase, takes]
      · contradiction
  | commit =>
      simp only [Bridge.step] at hstep
      split at hstep
      · rename_i hphase
        obtain rfl := Option.some.inj hstep
        simp [messages, due, hphase, takes]
      · contradiction

theorem messages_run {ls : List Label} (h : b.InLog) (hls : ∀ l ∈ ls, Faultless l)
    (hrun : Runs.run (Bridge.step v) b ls = some b') :
    b'.messages ++ b'.due v =
      b.messages ++ b.due v ++ (taken v b ls).filterMap (handleMessage v) := by
  induction ls generalizing b with
  | nil =>
      obtain rfl := Option.some.inj hrun
      simp [taken]
  | cons l ls ih =>
      obtain ⟨t, ht, hrest⟩ := Runs.run_cons_eq_some.mp hrun
      rw [ih (h.step ht) (fun m hm => hls m (List.mem_cons_of_mem _ hm)) hrest,
        messages_step h (hls l (List.mem_cons_self ..)) ht]
      simp only [taken, ht, List.filterMap_append, List.append_assoc]

/-- With no record in hand, the bridge has published what the taken records map to. -/
theorem messages_eq_taken {log : Nat → List (Option ByteArray)} {ls : List Label}
    (hls : ∀ l ∈ ls, Faultless l)
    (hrun : Runs.run (Bridge.step v) (Bridge.start log) ls = some b')
    (hidle : b'.phase.inHand = none) :
    b'.messages = (taken v (Bridge.start log) ls).filterMap (handleMessage v) := by
  have hstart : InLog (Bridge.start log) := by
    intro r hr
    contradiction
  have hdue : b'.due v = [] := by
    cases hphase : b'.phase with
    | idle => rw [due, hphase]
    | committing => rw [due, hphase]
    | handling r =>
        rw [hphase] at hidle
        contradiction
    | publishing r channel message =>
        rw [hphase] at hidle
        contradiction
  have hall := messages_run hstart hls hrun
  rw [hdue, List.append_nil] at hall
  exact hall

end Steps
end CrediGuard.Notification.Bridge
