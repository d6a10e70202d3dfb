import CrediGuard.Lib.Runs
import CrediGuard.Lib.Session
import CrediGuard.Applicants.UseCases

/-!
The applicant service as a labelled step function: any number of calls of the
three use cases over one database, each in the transaction of `get_session`.

A call moves one await at a time; any await of it may raise instead. `issued` is
a history variable: the refresh tokens the clients have been given.
-/

namespace CrediGuard.Applicants
open ReadCommitted

abbrev Progress := Session.Progress Phase TokenResponse Error

structure Execution where
  call : Call
  progress : Progress

structure State where
  world : World
  executions : Nat → Option Execution
  issued : List String

inductive Label where
  | arrive (n : Nat) (c : Call)
  | await (n : Nat)
  | awaitFails (n : Nat)

def State.setExecution (s : State) (n : Nat) (e : Execution) : State :=
  { s with executions := Function.update s.executions n (some e) }

def Progress.issues : Progress → List String
  | .returned response => [response.refreshToken]
  | _ => []

variable (jose : Jose) (argon : Argon2)

def transaction (t : Tx) (c : Call) : Session.Transaction World Error Phase TokenResponse where
  resume := resume jose argon t c.draws
  commit := fun w => w.commit t
  rollback := fun w => w.rollback t

def step (s : State) : Label → Option State
  | .arrive n c =>
      if (s.executions n).isNone then
        some (s.setExecution n { call := c, progress := .running c.operation.start })
      else none
  | .await n => do
      let e ← s.executions n
      let (progress, w) ← Session.advance (transaction jose argon n e.call) s.world e.progress
      some { s.setExecution n { e with progress := progress } with
        world := w
        issued := Progress.issues progress ++ s.issued }
  | .awaitFails n => do
      let e ← s.executions n
      let progress ← e.progress.fail .connectionError
      some (s.setExecution n { e with progress := progress })

/-- No transaction is open. -/
structure State.Quiet (s : State) : Prop where
  applicants : s.world.applicants.pending = []
  refreshTokens : s.world.refreshTokens.pending = []
  locks : s.world.locks = []
  executions : ∀ n, s.executions n = none

section Inversion
variable {jose argon} {s s' : State} {n : Nat}

theorem step_await_cases (h : step jose argon s (.await n) = some s') :
    ∃ e progress w, s.executions n = some e ∧
      Session.Advance (transaction jose argon n e.call) s.world e.progress progress w ∧
      s' = { s.setExecution n { e with progress := progress } with
        world := w
        issued := Progress.issues progress ++ s.issued } := by
  simp only [step, Option.bind_eq_bind, Option.bind_eq_some_iff] at h
  obtain ⟨e, he, ⟨progress, w⟩, hadvance, h⟩ := h
  exact ⟨e, progress, w, he, Session.advance_cases hadvance, (Option.some.inj h).symm⟩

theorem step_awaitFails_cases (h : step jose argon s (.awaitFails n) = some s') :
    ∃ e, s.executions n = some e ∧
      ((∃ p, e.progress = .running p) ∨ ∃ a, e.progress = .committing a) ∧
      s' = s.setExecution n { e with progress := .aborting .connectionError } := by
  simp only [step, Option.bind_eq_bind, Option.bind_eq_some_iff] at h
  obtain ⟨e, he, progress, hfail, h⟩ := h
  obtain ⟨rfl, hopen⟩ := Session.fail_cases hfail
  exact ⟨e, he, hopen, (Option.some.inj h).symm⟩

theorem step_arrive_cases {c : Call} (h : step jose argon s (.arrive n c) = some s') :
    s.executions n = none ∧
      s' = s.setExecution n { call := c, progress := .running c.operation.start } := by
  simp only [step] at h
  split at h
  · rename_i hfree
    exact ⟨Option.isNone_iff_eq_none.mp hfree, (Option.some.inj h).symm⟩
  · contradiction

end Inversion

end CrediGuard.Applicants
