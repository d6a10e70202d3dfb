import CrediGuard.Loan.Sessions

/-!
One loan per idempotency key.

The unique index admits one committed row per key. A response is either about
the row its request has committed, or about a row that was read by the id in
Redis; that id is the loan of a request that was given the key, so the row is the
one of the key. Redis may name a loan that is rolled back: then nothing is found.
-/

namespace CrediGuard.Loan
open ReadCommitted

/-- At most one stored loan has the key, and every response of a committed call
with the key is about it. -/
structure OneLoanPerKey (s : State) : Prop where
  stored : ∀ key, key ≠ "" →
    (s.world.loans.committed.filter fun m => m.idempotencyKey = some key).length ≤ 1
  returned : ∀ n r a key, s.requests n = some r → r.progress = .returned a →
    r.call.idempotencyKey = some key → key ≠ "" →
    ∃ m ∈ s.world.loans.committed, m.idempotencyKey = some key ∧ a.id = m.id

theorem clash_of_idempotencyKey {key : String} {a b : LoanApplicationModel}
    (ha : a.idempotencyKey = some key) (hb : b.idempotencyKey = some key) : a.clash b = true := by
  simp [LoanApplicationModel.clash, ha, hb]

theorem key?_of_ne_empty {c : CreateCall} {key : String} (h : c.idempotencyKey = some key)
    (hne : key ≠ "") : c.key? = some key := by
  simp [CreateCall.key?, h, hne]

theorem SessionInv.oneLoanPerKey {s : State} (h : SessionInv s) : OneLoanPerKey s := by
  refine ⟨?_, ?_⟩
  · intro key _
    refine h.unique.length_filter_le_one ?_
    intro a b ha hb
    exact clash_of_idempotencyKey (of_decide_eq_true ha) (of_decide_eq_true hb)
  · intro n r a key hr hp hkey hne
    have hcur := h.present n r hr
    rw [hp] at hcur
    exact hcur.2 key (key?_of_ne_empty hkey hne)

/-- Whatever the requests do, fail at or roll back, and whenever keys expire. -/
theorem oneLoanPerKey_throughout (v : Pydantic) (ls : List Label) :
    Runs.Throughout (step v) OneLoanPerKey .init ls :=
  Runs.throughout_of_invariant (fun _ _ _ h hstep => SessionInv.step h hstep)
    (fun _ h => SessionInv.oneLoanPerKey h) .init ls

end CrediGuard.Loan
