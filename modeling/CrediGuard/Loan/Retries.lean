import CrediGuard.Loan.Disclosure

/-!
Retries with an idempotency key, after calls whose commit failed.

A call writes its key to Redis before the commit, and the key stays when the
commit fails. A later call with the key finds no loan, stores one, and its own
SET NX changes nothing: the key leads to the rolled back loan until it expires.
So a stored loan is returned to retries just if its key was free when the call
that stored it ran.
-/

namespace CrediGuard.Loan
open ReadCommitted

/-- The body of `c` returns the data of the stored row `m` and writes nothing. -/
def ReturnsStored (h : History) (c : CreateCall) (m : LoanApplicationModel) : Prop :=
  ∃ loan, LoanRepository.toEntity m = .ok loan ∧
    execute (.request h.log.length) c h.world =
      .returns (LoanApplicationResponse.modelValidate loan) h.world

/-- The key names `id`, and the rows with that id are `rows`. -/
structure Names (h : History) (key : String) (id : Uuid) (rows : List LoanApplicationModel) :
    Prop where
  inv : HistoryInv h
  redis : h.world.redis (IdempotencyStore.redisKey key) = some id.str
  drawn : id ∈ h.drawn
  rows : (h.world.loans.committed.filter fun m => m.id = id) = rows

theorem submitted_not_closed : LoanStatus.submitted ∉ LoanStatus.closed := by
  decide

section Execute
variable {t : Tx} {c : CreateCall} {w : World} {key : String}

/-- A call whose key leads to a stored row returns it. -/
theorem execute_of_stored (hw : w.Closed) (hkey : c.key? = some key)
    {m : LoanApplicationModel} {loan : LoanApplication}
    (hredis : w.redis (IdempotencyStore.redisKey key) = some m.id.str)
    (hrows : (w.loans.committed.filter fun x => x.id = m.id) = [m])
    (hentity : LoanRepository.toEntity m = .ok loan) :
    execute t c w = .returns (LoanApplicationResponse.modelValidate loan) w := by
  have hvisible := Table.visible_of_writes_nil (Table.writes_of_pending_nil t hw.loans)
  have hget : IdempotencyStore.get key w = .returns (some m.id.str) w := by
    rw [← hredis]
    rfl
  have hbyId : LoanRepository.getById t m.id w = .returns (some loan) w :=
    getById_of_found ⟨m, by rw [hvisible, hrows], hentity⟩
  have hreplay : replay t c w =
      .returns (some (LoanApplicationResponse.modelValidate loan)) w := by
    simp only [replay, hkey]
    rw [Stmt.bind_of_returns hget]
    simp only [Uuid.parse_str]
    rw [Stmt.bind_of_returns hbyId]
    rfl
  simp only [execute]
  rw [Stmt.bind_of_returns hreplay]
  rfl

/-- A call whose key leads to no row returns no loan while its applicant has an
active one. -/
theorem execute_ne_returns (hw : w.Closed) (hkey : c.key? = some key) {id : Uuid}
    (hredis : w.redis (IdempotencyStore.redisKey key) = some id.str)
    (hrows : (w.loans.committed.filter fun x => x.id = id) = [])
    (hactive : activeRows w.loans.committed c.applicantId ≠ []) {a : LoanApplicationResponse}
    {w' : World} : execute t c w ≠ .returns a w' := by
  have hvisible := Table.visible_of_writes_nil (Table.writes_of_pending_nil t hw.loans)
  intro hx
  cases (execute_ensures t c w).of_returns hx with
  | inl hreplayed =>
      obtain ⟨key', existingId, loanId, loan, hkey', hredis', hparse, hfound, _⟩ :=
        hreplayed.found
      obtain rfl := Option.some.inj (hkey.symm.trans hkey')
      obtain rfl := Option.some.inj (hredis.symm.trans hredis')
      obtain rfl : id = loanId := by simpa [Uuid.parse_str] using hparse
      obtain ⟨m, hfilter, _⟩ := hfound
      rw [hvisible, hrows] at hfilter
      exact absurd hfilter nofun
  | inr hcreated =>
      have hguard := hcreated.saved.guard
      rw [hvisible] at hguard
      exact hactive hguard

end Execute

section Step
variable {h h' : History} {key : String} {id : Uuid} {rows : List LoanApplicationModel}

/-- A key that is held keeps its value, and no new row has an id drawn before. -/
theorem Names.step (hnames : Names h key id rows) {l : HistoryLabel}
    (hkept : l ≠ .expire (IdempotencyStore.redisKey key)) (hstep : historyStep h l = some h') :
    Names h' key id rows := by
  cases l with
  | expire other =>
      have hinv := hnames.inv.expire hstep
      obtain rfl := Option.some.inj hstep
      refine ⟨hinv, ?_, hnames.drawn, hnames.rows⟩
      have hne : IdempotencyStore.redisKey key ≠ other := by
        intro heq
        rw [heq] at hkept
        exact hkept rfl
      exact (Function.update_of_ne hne _ _).trans hnames.redis
  | call c commits =>
      have hinv := hnames.inv.call hstep
      obtain ⟨hfresh, result, hdrawn, hlog, heffect⟩ := historyStep_call hnames.inv.closed hstep
      have hacquired : acquired c h.world.redis (IdempotencyStore.redisKey key) = some id.str := by
        simp only [acquired]
        cases c.key? with
        | none => exact hnames.redis
        | some own =>
            by_cases heq : key = own
            · subst heq
              simp only [Function.update_self, hnames.redis, Option.some_or]
            · have hne : IdempotencyStore.redisKey key ≠ IdempotencyStore.redisKey own :=
                fun h => heq (redisKey_injective h)
              exact (Function.update_of_ne hne _ _).trans hnames.redis
      refine ⟨hinv, ?_, ?_, ?_⟩
      · generalize h'.world = w' at heffect
        cases heffect with
        | replayed a h => exact hnames.redis
        | created m hm hno hguard hfree => exact hacquired
        | refused e => exact hnames.redis
        | uncommitted e => exact hacquired
      · rw [hdrawn]
        exact List.mem_append_right _ hnames.drawn
      · generalize h'.world = w' at heffect
        cases heffect with
        | replayed a h => exact hnames.rows
        | refused e => exact hnames.rows
        | uncommitted e => exact hnames.rows
        | created m hm hno hguard hfree =>
            have hne : m.id ≠ id := by
              intro heq
              have hdrawn := hnames.drawn
              rw [← heq, (toModel_eq_some hm).1] at hdrawn
              exact loanId_of_fresh hfresh hdrawn
            simpa [World.stored, List.filter_append, hne] using hnames.rows

theorem Names.run (hnames : Names h key id rows) {ls : List HistoryLabel}
    (hkept : .expire (IdempotencyStore.redisKey key) ∉ ls)
    (hrun : Runs.run historyStep h ls = some h') : Names h' key id rows := by
  induction ls generalizing h with
  | nil =>
      obtain rfl := Option.some.inj hrun
      exact hnames
  | cons l ls ih =>
      obtain ⟨t, ht, hrun'⟩ := Runs.run_cons_eq_some.mp hrun
      have hne : l ≠ .expire (IdempotencyStore.redisKey key) := by
        intro heq
        exact hkept (heq ▸ List.mem_cons_self ..)
      exact ih (hnames.step hne ht) (fun hmem => hkept (List.mem_cons_of_mem _ hmem)) hrun'

theorem mem_committed_of_run {ls : List HistoryLabel} {m : LoanApplicationModel}
    (hinv : HistoryInv h) (hm : m ∈ h.world.loans.committed)
    (hrun : Runs.run historyStep h ls = some h') : m ∈ h'.world.loans.committed := by
  refine (Runs.invariant (I := fun h => HistoryInv h ∧ m ∈ h.world.loans.committed) ?_
    ⟨hinv, hm⟩ hrun).2
  intro h l h' hI hstep
  cases l with
  | expire key =>
      refine ⟨hI.1.expire hstep, ?_⟩
      obtain rfl := Option.some.inj hstep
      exact hI.2
  | call c commits =>
      refine ⟨hI.1.call hstep, ?_⟩
      obtain ⟨_, result, _, _, heffect⟩ := historyStep_call hI.1.closed hstep
      generalize h'.world = w' at heffect
      cases heffect with
      | replayed a h => exact hI.2
      | created m' hm' hno hguard hfree => exact List.mem_append_left _ hI.2
      | refused e => exact hI.2
      | uncommitted e => exact hI.2

/-- What the key of a call names once the call has stored the row `m`: the loan of
the row if the key was free, else one without a row. -/
theorem names_of_call {c : CreateCall} {m : LoanApplicationModel} (hinv : HistoryInv h)
    (hstep : historyStep h (.call c true) = some h') (hkey : c.key? = some key)
    (hm : m ∈ h'.world.loans.committed) (hid : m.id = c.draws.loanId) :
    LoanRepository.toModel c.loan = some m ∧
      ((h.world.redis (IdempotencyStore.redisKey key) = none ∧ Names h' key m.id [m]) ∨
        ((∃ value, h.world.redis (IdempotencyStore.redisKey key) = some value) ∧
          ∃ id, Names h' key id [])) := by
  have hinv' := hinv.call hstep
  obtain ⟨hfresh, result, hdrawn, hlog, heffect⟩ := historyStep_call hinv.closed hstep
  have hnew := loanId_of_fresh hfresh
  have hold (x : LoanApplicationModel) (hx : x ∈ h.world.loans.committed) :
      x.id ≠ c.draws.loanId := by
    intro heq
    exact hnew (heq ▸ hinv.drawn x hx)
  have hcreated : LoanRepository.toModel c.loan = some m := by
    cases heffect.mem_committed hm with
    | inl hm => exact absurd hid (hold m hm)
    | inr hm => exact hm.1
  refine ⟨hcreated, ?_⟩
  generalize hw : h'.world = w' at heffect
  rw [hw] at hm
  cases heffect with
  | replayed a hreplayed => exact absurd hid (hold m hm)
  | refused e => exact absurd hid (hold m hm)
  | uncommitted e => exact absurd hid (hold m hm)
  | created m' hm' hno hguard hfree =>
      obtain rfl := Option.some.inj (hcreated.symm.trans hm')
      have hredis' : h'.world.redis (IdempotencyStore.redisKey key) =
          (h.world.redis (IdempotencyStore.redisKey key)).or (some c.loan.id.str) := by
        simp only [hw, World.stored, acquired, hkey, Function.update_self]
      have hrows' (id : Uuid) : (h'.world.loans.committed.filter fun x => x.id = id) =
          (h.world.loans.committed.filter fun x => x.id = id) ++
            if m.id = id then [m] else [] := by
        by_cases hmid : m.id = id <;> simp [hw, World.stored, List.filter_append, hmid]
      cases hvalue : h.world.redis (IdempotencyStore.redisKey key) with
      | none =>
          refine .inl ⟨rfl, hinv', ?_, ?_, ?_⟩
          · rw [hredis', hvalue, Option.none_or, hid]
            rfl
          · rw [hdrawn, hid]
            exact List.mem_append_left _ (List.mem_cons_self ..)
          · have hnone : (h.world.loans.committed.filter fun x => x.id = m.id) = [] := by
              refine List.filter_eq_nil_iff.mpr ?_
              intro x hx
              simpa [hid] using hold x hx
            rw [hrows', if_pos rfl, hnone, List.nil_append]
      | some value =>
          obtain ⟨id, rfl, hmem, _⟩ := hinv.keyed key value hvalue
          have hne : m.id ≠ id := by
            intro heq
            exact hnew (hid ▸ heq ▸ hmem)
          refine .inr ⟨⟨id.str, rfl⟩, id, hinv', ?_, ?_, ?_⟩
          · rw [hredis', hvalue, Option.some_or]
          · rw [hdrawn]
            exact List.mem_append_right _ hmem
          · rw [hrows', if_neg hne, List.append_nil, List.filter_eq_nil_iff]
            intro x hx hxid
            obtain rfl : x.id = id := of_decide_eq_true hxid
            exact hno.not_mem hinv.closed hkey hvalue hx

end Step

/-- After a call has stored a loan under a key, the calls of the same applicant
with the key get the stored loan, as long as the key does not expire, just if the
key was free when the loan was stored. -/
theorem returnsStored_iff {ls ls' : List HistoryLabel} {h h' h'' : History} {c c' : CreateCall}
    {key : String} {m : LoanApplicationModel}
    (hbefore : Runs.run historyStep .init ls = some h)
    (hstep : historyStep h (.call c true) = some h') (hkey : c.key? = some key)
    (hm : m ∈ h'.world.loans.committed) (hid : m.id = c.draws.loanId)
    (hafter : Runs.run historyStep h' ls' = some h'')
    (hkept : .expire (IdempotencyStore.redisKey key) ∉ ls')
    (hkey' : c'.key? = some key) (happlicant : c'.applicantId = c.applicantId) :
    ReturnsStored h'' c' m ↔ h.world.redis (IdempotencyStore.redisKey key) = none := by
  obtain ⟨hcreated, hnames⟩ := names_of_call (HistoryInv.of_run hbefore) hstep hkey hm hid
  obtain ⟨_, hmapplicant, hstatus, _⟩ := toModel_eq_some hcreated
  cases hnames with
  | inl hfree =>
      have hnames := hfree.2.run hkept hafter
      refine ⟨fun _ => hfree.1, fun _ => ?_⟩
      have hknown : LoanStatus.ofValue? m.status = some .submitted := by
        rw [hstatus]
        exact LoanStatus.ofValue?_value .submitted
      have hentity : ∃ loan, LoanRepository.toEntity m = .ok loan := by
        simp only [LoanRepository.toEntity, hknown]
        exact ⟨_, rfl⟩
      obtain ⟨loan, hloan⟩ := hentity
      exact ⟨loan, hloan, execute_of_stored hnames.inv.closed hkey' hnames.redis hnames.rows hloan⟩
  | inr hheld =>
      obtain ⟨⟨value, hvalue⟩, id, hnames⟩ := hheld
      have hinv' := hnames.inv
      have hnames := hnames.run hkept hafter
      have hactive : m ∈ activeRows h''.world.loans.committed c'.applicantId := by
        refine List.mem_filter.mpr ⟨mem_committed_of_run hinv' hm hafter, ?_⟩
        rw [happlicant, hmapplicant, hstatus, Bool.and_eq_true]
        exact ⟨decide_eq_true rfl, decide_eq_true (mem_activeStatuses.mpr submitted_not_closed)⟩
      constructor
      · intro hreturns
        obtain ⟨loan, _, hx⟩ := hreturns
        exact absurd hx (execute_ne_returns hnames.inv.closed hkey' hnames.redis hnames.rows
          (List.ne_nil_of_mem hactive))
      · intro hnone
        rw [hvalue] at hnone
        contradiction

section FailedCommit

/-- A first loan and what a retry evaluates to. -/
theorem exists_stored (ls : List HistoryLabel) (c c' : CreateCall) (returns : Bool)
    (heval : ((Runs.run historyStep .init ls).bind fun h =>
      (historyStep h (.call c true)).map fun h' =>
        (h'.world.loans.committed.map fun m => m.id,
          match execute (.request h'.log.length) c' h'.world with
          | .returns .. => true
          | _ => false)) = some ([c.draws.loanId], returns)) :
    ∃ h h' m, Runs.run historyStep .init ls = some h ∧
      historyStep h (.call c true) = some h' ∧ m ∈ h'.world.loans.committed ∧
      m.id = c.draws.loanId ∧ (ReturnsStored h' c' m → returns = true) := by
  obtain ⟨h, hrun, heval⟩ := Option.bind_eq_some_iff.mp heval
  obtain ⟨h', hstep, heval⟩ := Option.map_eq_some_iff.mp heval
  obtain ⟨hids, hreturns⟩ := Prod.mk.inj heval
  obtain ⟨m, hm, hid⟩ := List.mem_map.mp
    (hids ▸ List.mem_singleton.mpr rfl : c.draws.loanId ∈ h'.world.loans.committed.map
      fun m => m.id)
  refine ⟨h, h', m, hrun, hstep, hm, hid, ?_⟩
  intro hreturns
  obtain ⟨loan, _, hx⟩ := hreturns
  rw [hx] at hreturns
  exact hreturns.symm

/-- The commit of the first call fails, the second stores a loan, the third is refused. -/
theorem failedCommit_not_returnsStored :
    ∃ h h' m, Runs.run historyStep .init [.call (.sample ⟨100⟩ (some "k") 1) false] = some h ∧
      historyStep h (.call (.sample ⟨100⟩ (some "k") 4) true) = some h' ∧
      m ∈ h'.world.loans.committed ∧ m.id = ⟨4⟩ ∧
      ¬ ReturnsStored h' (.sample ⟨100⟩ (some "k") 7) m := by
  obtain ⟨h, h', m, hrun, hstep, hm, hid, hreturns⟩ :=
    exists_stored [.call (.sample ⟨100⟩ (some "k") 1) false] (.sample ⟨100⟩ (some "k") 4)
      (.sample ⟨100⟩ (some "k") 7) false (by decide +kernel)
  exact ⟨h, h', m, hrun, hstep, hm, hid, fun hstored => absurd (hreturns hstored) nofun⟩

theorem returnsStored_iff_repeated :
    ∃ h h' m, Runs.run historyStep .init [] = some h ∧
      historyStep h (.call (.sample ⟨100⟩ (some "k") 4) true) = some h' ∧
      (ReturnsStored h' (.sample ⟨100⟩ (some "k") 7) m ↔
        h.world.redis (IdempotencyStore.redisKey "k") = none) := by
  obtain ⟨h, h', m, hrun, hstep, hm, hid, _⟩ :=
    exists_stored [] (.sample ⟨100⟩ (some "k") 4) (.sample ⟨100⟩ (some "k") 7) true
      (by decide +kernel)
  have hafter : Runs.run historyStep h' [] = some h' := rfl
  refine ⟨h, h', m, hrun, hstep, ?_⟩
  exact returnsStored_iff hrun hstep (by decide) hm hid hafter List.not_mem_nil (by decide) rfl

end FailedCommit

end CrediGuard.Loan
