import CrediGuard.Loan.Amounts
import CrediGuard.Loan.OutboxLinks

/-!
The ids of outbox rows. No uuid is drawn twice, so the insert of an event neither
waits for another request nor violates the primary key.
-/

namespace CrediGuard.Loan
open ReadCommitted

/-- The requests have drawn different ids, and a stored row has one of a request that
has returned. -/
structure EventIds (s : State) : Prop where
  drawn : ∀ n r, s.requests n = some r → ∀ u ∈ r.call.draws.uuids, u ∈ s.drawn
  nodup : ∀ n r, s.requests n = some r → r.call.draws.uuids.Nodup
  apart : ∀ n k r q, s.requests n = some r → s.requests k = some q →
    ∀ u, u ∈ r.call.draws.uuids → u ∈ q.call.draws.uuids → n = k
  stored : ∀ e ∈ s.world.outbox.committed, ∃ n r a, s.requests n = some r ∧
    r.progress = .returned a ∧ e.id ∈ r.call.draws.uuids

section Step
variable {v : Pydantic} {s s' : State} {n : Nat} {r : Request} {fails : Bool}

theorem id_of_mem_events {c : CreateCall} {e : OutboxEventModel} (he : e ∈ c.events) :
    e.id ∈ c.draws.uuids := by
  simp only [CreateCall.events, List.mem_cons, List.not_mem_nil, or_false] at he
  cases he with
  | inl he =>
      rw [he]
      exact List.mem_cons_of_mem _ (List.mem_cons_self ..)
  | inr he =>
      rw [he]
      exact List.mem_cons_of_mem _ (List.mem_cons_of_mem _ (List.mem_cons_self ..))

/-- What is committed changes at a commit. -/
theorem Does.outbox_committed {c : CreateCall} {w w' : World} {p : Phase} {t : Tx}
    {q : Phase ⊕ LoanApplicationResponse} (h : Does t c w p q w') :
    w'.outbox.committed = w.outbox.committed := by
  cases p with
  | redisGet key => rw [h.1]
  | getById existingId => rw [h.1]
  | existsActive => rw [h.1]
  | saveLoan =>
      obtain ⟨_, m, loans, _, _, rfl⟩ := h
      rfl
  | saveEvent =>
      obtain ⟨_, outbox, hinsert, rfl⟩ := h
      rw [(Table.insert_eq_done hinsert).1]
      rfl
  | saveStatusEvent =>
      obtain ⟨_, outbox, hinsert, rfl⟩ := h
      rw [(Table.insert_eq_done hinsert).1]
      rfl
  | acquire key => rw [h.2.2.1]

/-- A move of a request changes no call, and nothing about a request that has returned. -/
theorem RequestStep.calls (hr : s.requests n = some r) (h : RequestStep s n r fails s') {k : Nat} :
    (∀ q', s'.requests k = some q' → ∃ q, s.requests k = some q ∧ q'.call = q.call) ∧
      ∀ q a, s.requests k = some q → q.progress = .returned a → s'.requests k = some q := by
  obtain ⟨hmoves, hother⟩ := h.requests
  by_cases hk : k = n
  · subst hk
    refine ⟨?_, ?_⟩
    · intro q' hq'
      refine ⟨r, hr, ?_⟩
      cases h with
      | next p q w hp hdoes => rw [← eq_of_setRequest hq']
      | raises p e fails hp => rw [← eq_of_setRequest hq']
      | commitFails a e hp => rw [← eq_of_setRequest hq']
      | commits a hp => rw [← eq_of_setRequest hq']
      | rollsBack e hp => rw [← eq_of_setRequest hq']
    · intro q a hq hreturned
      obtain rfl := Option.some.inj (hr.symm.trans hq)
      exact absurd hreturned (hmoves a)
  · rw [hother k hk]
    exact ⟨fun q' hq' => ⟨q', hq', rfl⟩, fun q a hq _ => hq⟩

/-- A move of a request stores nothing, or its own events as it returns. -/
theorem RequestStep.stored (hsession : SessionInv s) (hr : s.requests n = some r)
    (h : RequestStep s n r fails s') {e : OutboxEventModel}
    (he : e ∈ s'.world.outbox.committed) : e ∈ s.world.outbox.committed ∨
      ∃ q a, s'.requests n = some q ∧ q.progress = .returned a ∧ e.id ∈ q.call.draws.uuids := by
  cases h with
  | raises p e' fails hp => exact .inl he
  | commitFails a e' hp => exact .inl he
  | rollsBack e' hp => exact .inl he
  | commits a hp =>
      cases hsession.committed_commit hr hp with
      | inl hnothing => exact .inl (hnothing.2.1 ▸ he)
      | inr hstored =>
          obtain ⟨m, _, _, houtbox, _⟩ := hstored
          change e ∈ (s.world.commit (.request n)).outbox.committed at he
          rw [houtbox] at he
          refine (List.mem_append.mp he).imp_right fun hnew => ?_
          exact ⟨_, a, Function.update_self .., rfl, id_of_mem_events hnew⟩
  | next p q w hp hdoes => exact .inl (hdoes.outbox_committed ▸ he)

theorem EventIds.request (h : EventIds s) (hsession : SessionInv s) (hr : s.requests n = some r)
    (hstep : RequestStep s n r fails s') : EventIds s' := by
  have hcalls (k : Nat) := (hstep.calls hr (k := k)).1
  have hdrawn : s'.drawn = s.drawn := hstep.frame.2.2.2.1
  refine ⟨?_, ?_, ?_, ?_⟩
  · intro k q' hq'
    obtain ⟨q, hq, hcall⟩ := hcalls k q' hq'
    rw [hcall, hdrawn]
    exact h.drawn k q hq
  · intro k q' hq'
    obtain ⟨q, hq, hcall⟩ := hcalls k q' hq'
    rw [hcall]
    exact h.nodup k q hq
  · intro k l q' p' hq' hp' u hu hu'
    obtain ⟨q, hq, hcall⟩ := hcalls k q' hq'
    obtain ⟨p, hp, hcall'⟩ := hcalls l p' hp'
    exact h.apart k l q p hq hp u (hcall ▸ hu) (hcall' ▸ hu')
  · intro e he
    cases hstep.stored hsession hr he with
    | inl hold =>
        obtain ⟨k, q, a, hq, hreturned, hid⟩ := h.stored e hold
        exact ⟨k, q, a, (hstep.calls hr).2 q a hq hreturned, hreturned, hid⟩
    | inr hnew =>
        obtain ⟨q, a, hq, hreturned, hid⟩ := hnew
        exact ⟨n, q, a, hq, hreturned, hid⟩

theorem EventIds.arrive (h : EventIds s) {c : CreateCall} (hfree : s.requests n = none)
    (hfresh : fresh s.drawn c.draws.uuids = true) :
    EventIds { s.setRequest n { call := c, progress := .running c.start }
      with drawn := c.draws.uuids ++ s.drawn } := by
  simp only [fresh, Bool.and_eq_true, decide_eq_true_eq, List.all_eq_true] at hfresh
  obtain ⟨hnodup, hnew⟩ := hfresh
  have hold {k : Nat} {q : Request}
      (hq : (s.setRequest n { call := c, progress := .running c.start }).requests k = some q) :
      (k = n ∧ q.call = c) ∨ (k ≠ n ∧ s.requests k = some q) := by
    by_cases hk : k = n
    · subst hk
      exact .inl ⟨rfl, by rw [← eq_of_setRequest hq]⟩
    · exact .inr ⟨hk, (setRequest_of_ne hk).symm.trans hq⟩
  refine ⟨?_, ?_, ?_, ?_⟩
  · intro k q hq u hu
    cases hold hq with
    | inl hthis => exact List.mem_append_left _ (hthis.2 ▸ hu)
    | inr hother => exact List.mem_append_right _ (h.drawn k q hother.2 u hu)
  · intro k q hq
    cases hold hq with
    | inl hthis => rw [hthis.2]; exact hnodup
    | inr hother => exact h.nodup k q hother.2
  · intro k l q p hq hp u hu hu'
    cases hold hq with
    | inl hthis =>
        cases hold hp with
        | inl hthis' => rw [hthis.1, hthis'.1]
        | inr hother' => exact absurd (h.drawn l p hother'.2 u hu') (hnew u (hthis.2 ▸ hu))
    | inr hother =>
        cases hold hp with
        | inl hthis' => exact absurd (h.drawn k q hother.2 u hu) (hnew u (hthis'.2 ▸ hu'))
        | inr hother' => exact h.apart k l q p hother.2 hother'.2 u hu hu'
  · intro e he
    obtain ⟨k, q, a, hq, hreturned, hid⟩ := h.stored e he
    have hk : k ≠ n := by
      rintro rfl
      rw [hfree] at hq
      contradiction
    exact ⟨k, q, a, (setRequest_of_ne hk).trans hq, hreturned, hid⟩

/-- A step that moves no request draws ids and marks rows at most. -/
theorem EventIds.frame (h : EventIds s) (hrequests : s'.requests = s.requests)
    (hdrawn : ∀ u ∈ s.drawn, u ∈ s'.drawn)
    (hrows : ∀ e ∈ s'.world.outbox.committed, ∃ e₀ ∈ s.world.outbox.committed, e.id = e₀.id) :
    EventIds s' := by
  refine ⟨?_, ?_, ?_, ?_⟩
  · rw [hrequests]
    exact fun k q hq u hu => hdrawn u (h.drawn k q hq u hu)
  · rw [hrequests]
    exact h.nodup
  · rw [hrequests]
    exact h.apart
  · intro e he
    obtain ⟨e₀, he₀, hid⟩ := hrows e he
    rw [hid, hrequests]
    exact h.stored e₀ he₀

theorem EventIds.step (h : EventIds s) (hlink : LinkInv v s) {l : Label}
    (hstep : Loan.step v s l = some s') : EventIds s' := by
  cases l with
  | arrive n c =>
      simp only [Loan.step, arriveStep] at hstep
      split at hstep
      · rename_i hfree
        obtain rfl := Option.some.inj hstep
        rw [Bool.and_eq_true, Option.isNone_iff_eq_none] at hfree
        exact h.arrive hfree.1 hfree.2
      · contradiction
  | request n =>
      obtain ⟨r, hr, hcase⟩ := requestStep_cases hstep
      exact h.request hlink.session hr hcase
  | requestFails n =>
      obtain ⟨r, hr, hcase⟩ := requestFailStep_cases hstep
      exact h.request hlink.session hr hcase
  | expire key =>
      obtain rfl := Option.some.inj hstep
      exact h.frame rfl (fun _ hu => hu) fun e he => ⟨e, he, rfl⟩
  | worker n k =>
      have hcase := workerStep_cases hstep
      obtain ⟨f, hf, hrows⟩ := hcase.marks hlink.outbox
      refine h.frame hcase.frame.2.2 hcase.drawn ?_
      intro e he
      rw [hrows] at he
      obtain ⟨e₀, he₀, rfl⟩ := List.mem_map.mp he
      exact ⟨e₀, he₀, (hf e₀).1.id⟩

theorem EventIds.init : EventIds .init :=
  ⟨fun _ _ h => absurd h nofun, fun _ _ h => absurd h nofun, fun _ _ _ _ h => absurd h nofun,
    fun _ h => absurd h List.not_mem_nil⟩

end Step

section Open
variable {v : Pydantic} {s s' : State} {n : Nat} {r : Request} {fails : Bool}

/-- What an open request has inserted is its own, also when it is about to roll back. -/
structure OpenWrites (s : State) : Prop where
  loans : ∀ p ∈ s.world.loans.pending, ∃ k q m, p = (.request k, .insert m) ∧
    s.requests k = some q ∧ LoanRepository.toModel q.call.loan = some m
  outbox : ∀ k, ∀ x ∈ s.world.outbox.writes (.request k), ∃ q, s.requests k = some q ∧
    ∃ e ∈ q.call.events, x = .insert e

/-- The inserts that a move of request `n` adds. -/
theorem Does.inserts {c : CreateCall} {w w' : World} {p : Phase}
    {q : Phase ⊕ LoanApplicationResponse} (h : Does (.request n) c w p q w') :
    (∀ x ∈ w'.loans.pending, x ∈ w.loans.pending ∨
        ∃ m, LoanRepository.toModel c.loan = some m ∧ x = (.request n, .insert m)) ∧
      ∀ k, ∀ x ∈ w'.outbox.writes (.request k), x ∈ w.outbox.writes (.request k) ∨
        k = n ∧ ∃ e ∈ c.events, x = .insert e := by
  have hwrites (T : Table Tx OutboxEventModel) (e : OutboxEventModel) (he : e ∈ c.events)
      (k : Nat) (x : Write OutboxEventModel)
      (hx : x ∈ (T.write (.request n) (.insert e)).writes (.request k)) :
      x ∈ T.writes (.request k) ∨ k = n ∧ ∃ e ∈ c.events, x = .insert e := by
    rw [Table.writes_write] at hx
    refine (List.mem_append.mp hx).imp_right fun hx => ?_
    split at hx
    · rename_i heq
      exact ⟨(Tx.request.inj heq).symm, e, he, List.mem_singleton.mp hx⟩
    · exact absurd hx List.not_mem_nil
  cases p with
  | redisGet key => rw [h.1]; exact ⟨fun _ hx => .inl hx, fun _ _ hx => .inl hx⟩
  | getById existingId => rw [h.1]; exact ⟨fun _ hx => .inl hx, fun _ _ hx => .inl hx⟩
  | existsActive => rw [h.1]; exact ⟨fun _ hx => .inl hx, fun _ _ hx => .inl hx⟩
  | acquire key =>
      rw [h.2.1, h.2.2.1]
      exact ⟨fun _ hx => .inl hx, fun _ _ hx => .inl hx⟩
  | saveLoan =>
      obtain ⟨_, m, loans, hm, hinsert, rfl⟩ := h
      obtain rfl := (Table.insert_eq_done hinsert).1
      refine ⟨fun x hx => ?_, fun _ _ hx => .inl hx⟩
      exact (List.mem_append.mp hx).imp_right fun hx => ⟨m, hm, List.mem_singleton.mp hx⟩
  | saveEvent =>
      obtain ⟨_, outbox, hinsert, rfl⟩ := h
      obtain rfl := (Table.insert_eq_done hinsert).1
      exact ⟨fun _ hx => .inl hx, hwrites _ _ (List.mem_cons_self ..)⟩
  | saveStatusEvent =>
      obtain ⟨_, outbox, hinsert, rfl⟩ := h
      obtain rfl := (Table.insert_eq_done hinsert).1
      exact ⟨fun _ hx => .inl hx,
        hwrites _ _ (List.mem_cons_of_mem _ (List.mem_cons_self ..))⟩

theorem OpenWrites.kept (h : OpenWrites s)
    (hcalls : ∀ k q, s.requests k = some q → ∃ q', s'.requests k = some q' ∧ q'.call = q.call)
    (hloans : ∀ x ∈ s'.world.loans.pending, x ∈ s.world.loans.pending ∨
      ∃ k q m, x = (.request k, .insert m) ∧ s'.requests k = some q ∧
        LoanRepository.toModel q.call.loan = some m)
    (houtbox : ∀ k, ∀ x ∈ s'.world.outbox.writes (.request k),
      x ∈ s.world.outbox.writes (.request k) ∨ ∃ q, s'.requests k = some q ∧
        ∃ e ∈ q.call.events, x = .insert e) : OpenWrites s' := by
  refine ⟨?_, ?_⟩
  · intro x hx
    cases hloans x hx with
    | inr hnew => exact hnew
    | inl hold =>
        obtain ⟨k, q, m, heq, hq, hm⟩ := h.loans x hold
        obtain ⟨q', hq', hcall⟩ := hcalls k q hq
        exact ⟨k, q', m, heq, hq', by rw [hcall]; exact hm⟩
  · intro k x hx
    cases houtbox k x hx with
    | inr hnew => exact hnew
    | inl hold =>
        obtain ⟨q, hq, e, he, hx⟩ := h.outbox k x hold
        obtain ⟨q', hq', hcall⟩ := hcalls k q hq
        exact ⟨q', hq', e, by rw [hcall]; exact he, hx⟩

theorem mem_writes_of_ended {ρ : Type} {T T' : Table Tx ρ} {t u : Tx}
    (h : T'.writes u = if t = u then [] else T.writes u) {x : Write ρ} (hx : x ∈ T'.writes u) :
    x ∈ T.writes u := by
  rw [h] at hx
  split at hx
  · exact absurd hx List.not_mem_nil
  · exact hx

theorem OpenWrites.request (h : OpenWrites s) (hr : s.requests n = some r)
    (hstep : RequestStep s n r fails s') : OpenWrites s' := by
  have hcalls (k : Nat) (q : Request) (hq : s.requests k = some q) :
      ∃ q', s'.requests k = some q' ∧ q'.call = q.call := by
    by_cases hk : k = n
    · subst hk
      obtain rfl := Option.some.inj (hr.symm.trans hq)
      cases hstep with
      | next p q w hp hdoes => exact ⟨_, Function.update_self .., rfl⟩
      | raises p e fails hp => exact ⟨_, Function.update_self .., rfl⟩
      | commitFails a e hp => exact ⟨_, Function.update_self .., rfl⟩
      | commits a hp => exact ⟨_, Function.update_self .., rfl⟩
      | rollsBack e hp => exact ⟨_, Function.update_self .., rfl⟩
    · rw [hstep.requests.2 k hk]
      exact ⟨q, hq, rfl⟩
  cases hstep with
  | raises p e fails hp => exact h.kept hcalls (fun _ hx => .inl hx) fun _ _ hx => .inl hx
  | commitFails a e hp => exact h.kept hcalls (fun _ hx => .inl hx) fun _ _ hx => .inl hx
  | commits a hp =>
      exact h.kept hcalls (fun x hx => .inl (List.mem_filter.mp hx).1)
        fun k x hx => .inl (mem_writes_of_ended (Table.writes_commit ..) hx)
  | rollsBack e hp =>
      exact h.kept hcalls (fun x hx => .inl (List.mem_filter.mp hx).1)
        fun k x hx => .inl (mem_writes_of_ended (Table.writes_rollback ..) hx)
  | next p q w hp hdoes =>
      obtain ⟨hloans, houtbox⟩ := hdoes.inserts
      refine h.kept hcalls (fun x hx => ?_) fun k x hx => ?_
      · refine (hloans x hx).imp_right ?_
        rintro ⟨m, hm, hx⟩
        exact ⟨n, _, m, hx, Function.update_self .., hm⟩
      · refine (houtbox k x hx).imp_right ?_
        rintro ⟨rfl, e, he, hx⟩
        exact ⟨_, Function.update_self .., e, he, hx⟩

theorem OpenWrites.step (h : OpenWrites s) {l : Label} (hstep : Loan.step v s l = some s') :
    OpenWrites s' := by
  cases l with
  | arrive n c =>
      simp only [Loan.step, arriveStep] at hstep
      split at hstep
      · rename_i hfree
        obtain rfl := Option.some.inj hstep
        rw [Bool.and_eq_true, Option.isNone_iff_eq_none] at hfree
        refine h.kept ?_ (fun _ hx => .inl hx) fun _ _ hx => .inl hx
        intro k q hq
        have hk : k ≠ n := by
          rintro rfl
          rw [hfree.1] at hq
          contradiction
        exact ⟨q, (setRequest_of_ne hk).trans hq, rfl⟩
      · contradiction
  | request n =>
      obtain ⟨r, hr, hcase⟩ := requestStep_cases hstep
      exact h.request hr hcase
  | requestFails n =>
      obtain ⟨r, hr, hcase⟩ := requestFailStep_cases hstep
      exact h.request hr hcase
  | expire key =>
      obtain rfl := Option.some.inj hstep
      exact h.kept (fun _ q hq => ⟨q, hq, rfl⟩) (fun _ hx => .inl hx) fun _ _ hx => .inl hx
  | worker n k =>
      have hcase := workerStep_cases hstep
      obtain ⟨hloans, _, hrequests⟩ := hcase.frame
      refine h.kept ?_ (fun x hx => .inl (hloans ▸ hx)) fun j x hx => .inl (hcase.writes j ▸ hx)
      rw [hrequests]
      exact fun _ q hq => ⟨q, hq, rfl⟩

theorem OpenWrites.init : OpenWrites .init :=
  ⟨fun _ h => absurd h List.not_mem_nil, fun _ _ h => absurd h List.not_mem_nil⟩

end Open

section Insert
variable {v : Pydantic} {s : State} {n : Nat} {r : Request}

theorem mem_writes_of_pending {ρ : Type} {T : Table Tx ρ} {t : Tx} {x : Write ρ}
    (h : (t, x) ∈ T.pending) : x ∈ T.writes t :=
  List.mem_map.mpr ⟨(t, x), List.mem_filter.mpr ⟨h, by simp⟩, rfl⟩

/-- A row with an id of its own draws that a request has not written yet goes in. -/
theorem EventIds.insert_done (h : EventIds s) (houtbox : OutboxInv v [] s) (hopen : OpenWrites s)
    (hr : s.requests n = some r) (hrunning : ∀ a, r.progress ≠ .returned a)
    {e : OutboxEventModel} (he : e.id ∈ r.call.draws.uuids)
    (hown : ∀ x ∈ s.world.outbox.writes (.request n), ∃ e', x = .insert e' ∧ e'.id ≠ e.id) :
    s.world.outbox.insert OutboxEventModel.clash (.request n) e =
      .done (s.world.outbox.write (.request n) (.insert e)) := by
  have hwaits : (s.world.outbox.openInserts (.request n)).any (OutboxEventModel.clash e) =
      false := by
    refine List.any_eq_false.mpr ?_
    intro e' he' hclash
    obtain ⟨⟨t, x⟩, hp, hinserted⟩ := List.mem_filterMap.mp he'
    obtain ⟨hp, hne⟩ := List.mem_filter.mp hp
    have hwrites := mem_writes_of_pending hp
    cases t with
    | worker k =>
        obtain ⟨id, now, rfl, _⟩ := houtbox.updates k x hwrites
        contradiction
    | request k =>
        obtain ⟨q, hq, e'', he'', rfl⟩ := hopen.outbox k x hwrites
        obtain rfl := Option.some.inj hinserted
        have hid : e.id = e''.id := of_decide_eq_true hclash
        have hk := h.apart n k r q hr hq e.id he (hid ▸ id_of_mem_events he'')
        simp [hk] at hne
  have hvisible : (s.world.outbox.visible (.request n)).any (OutboxEventModel.clash e) =
      false := by
    refine List.any_eq_false.mpr ?_
    intro e' he' hclash
    have hid : e.id = e'.id := of_decide_eq_true hclash
    have hmem : e' ∈ s.world.outbox.committed ∨
        Write.insert e' ∈ s.world.outbox.writes (.request n) :=
      mem_applyAll_inserts (fun x hx => (hown x hx).imp fun _ h => h.1) he'
    cases hmem with
    | inl hstored =>
        obtain ⟨k, q, a, hq, hreturned, hid'⟩ := h.stored e' hstored
        obtain rfl := h.apart n k r q hr hq e.id he (hid ▸ hid')
        obtain rfl := Option.some.inj (hr.symm.trans hq)
        exact hrunning a hreturned
    | inr hwritten =>
        obtain ⟨e'', heq, hne⟩ := hown _ hwritten
        obtain rfl := Write.insert.inj heq
        exact hne hid.symm
  simp only [Table.insert, hwaits, hvisible, Bool.false_eq_true, if_false]

end Insert
end CrediGuard.Loan
